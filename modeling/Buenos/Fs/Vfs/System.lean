import Buenos.Base.Transition
import Buenos.Fs.Vfs.Model
import Mathlib.Data.Fintype.Card

/-!
# Threads that call the virtual filesystem

* `Call` — a call of one of the VFS functions, `Call.code` the function it runs.
* `Sys n` — the tables and `n` threads.  A thread is idle, at some point of a function, or inside a
  function of a driver.
* `step` — one action: a thread calls a function, takes its next step, or returns from a driver
  function with some value.

Besides the position of a thread the state records what the statements speak about and the code does
not read: the call a thread is in, whether it is between its successful `vfs_start_op` and its
return, the semaphores it holds, and which handles `vfs_open` has returned.
-/

namespace Buenos.Vfs

/-- A call of a VFS function. -/
inductive Call where
  | mount (fs : ℕ) (name : Str)
  | unmount (name : Str)
  | openFile (pathname : Str)
  | close (file : ℤ)
  | seek (file seekPosition : ℤ)
  | read (file : ℤ) (buffer : Bool) (bufsize : ℤ)
  | write (file : ℤ) (buffer : Bool) (datasize : ℤ)
  | create (pathname : Str) (size : ℤ)
  | remove (pathname : Str)
  | getfree (filesystem : Str)
  | deinit
  deriving DecidableEq

/-- The function that a call runs. -/
def Call.code : Call → Code
  | .mount fs name => vfsMount fs name
  | .unmount name => vfsUnmount name
  | .openFile pathname => vfsOpen pathname
  | .close file => vfsClose file
  | .seek file seekPosition => vfsSeek file seekPosition
  | .read file buffer bufsize => vfsRead file buffer bufsize
  | .write file buffer datasize => vfsWrite file buffer datasize
  | .create pathname size => vfsCreate pathname size
  | .remove pathname => vfsRemove pathname
  | .getfree filesystem => vfsGetfree filesystem
  | .deinit => vfsDeinit

/-- The handle that a call works on. -/
def Call.handle : Call → Option ℤ
  | .close file => some file
  | .seek file _ => some file
  | .read file _ _ => some file
  | .write file _ _ => some file
  | _ => none

/-- Where a thread is. -/
inductive Pc where
  | idle
  | at (c : Code)
  | inside (fs : ℕ) (op : FsOp) (k : ℤ → Code)

/-- The driver function a thread is inside of. -/
def Pc.driver : Pc → Option (ℕ × FsOp)
  | .inside fs op _ => some (fs, op)
  | _ => none

/-- A thread: its position, its call, whether the call is between a successful `vfs_start_op` and
its return, the semaphores it holds. -/
structure Thread where
  pc : Pc
  call : Option Call
  inOp : Bool
  held : Sem → Bool

/-- A thread outside all VFS functions. -/
def Thread.rest : Thread := ⟨.idle, none, false, fun _ => false⟩

/-- The state of the system.  `returned` are the handles that `vfs_open` has returned so far,
`opened` those that have not been passed to `vfs_close` since. -/
structure Sys (n : ℕ) where
  tables : Tables
  threads : Fin n → Thread
  returned : ℤ → Bool
  opened : ℤ → Bool

variable {n : ℕ}

/-- The system after `vfs_init`. -/
def Sys.init (n : ℕ) : Sys n := ⟨vfsInit, fun _ => Thread.rest, fun _ => false, fun _ => false⟩

namespace Sys

def setThread (s : Sys n) (t : Fin n) (th : Thread) : Sys n :=
  { s with threads := Function.update s.threads t th }

def setTables (s : Sys n) (tables : Tables) : Sys n := { s with tables := tables }

/-- Thread `t` goes on with `c`. -/
def goto (s : Sys n) (t : Fin n) (c : Code) : Sys n :=
  s.setThread t { s.threads t with pc := .at c }

/-- Thread `t` returns `r` from its call. -/
def finish (s : Sys n) (t : Fin n) (r : ℤ) : Sys n :=
  let s' := s.setThread t Thread.rest
  match (s.threads t).call with
  | some (.openFile _) =>
    if r < 0 then s' else
      { s' with returned := Function.update s.returned r true
                opened := Function.update s.opened r true }
  | _ => s'

end Sys

/-- The section of `vfs_start_op`. -/
def vfsStartOp (s : Tables) : Tables := if s.usable then { s with ops := s.ops + 1 } else s

/-- The section of `vfs_end_op`. -/
def vfsEndOp (s : Tables) : Tables :=
  let s := { s with ops := s.ops - 1 }
  if s.usable = false ∧ s.ops = 0 then s.setSem .unmount (s.sem .unmount + 1) else s

/-- One step of thread `t` at code `c`; `none` when it has to wait or the kernel has stopped. -/
def Code.step (s : Sys n) (t : Fin n) : Code → Option (Sys n)
  | .ret r => some (s.finish t r)
  | .endOp r =>
    if s.tables.sem .op = 0 ∨ s.tables.ops - 1 < 0 then none else
    some ((s.setTables (vfsEndOp s.tables)).finish t r)
  | .startOp k =>
    if s.tables.sem .op = 0 then none else
    some ((s.setTables (vfsStartOp s.tables)).setThread t
      { s.threads t with pc := .at (k s.tables.usable), inOp := s.tables.usable })
  | .semP x k =>
    if s.tables.sem x = 0 then none else
    some ((s.setTables (s.tables.setSem x (s.tables.sem x - 1))).setThread t
      { s.threads t with pc := .at k, held := Function.update (s.threads t).held x true })
  | .semV x k =>
    some ((s.setTables (s.tables.setSem x (s.tables.sem x + 1))).setThread t
      { s.threads t with pc := .at k, held := Function.update (s.threads t).held x false })
  | .verify file k => some (s.goto t (k (vfsVerifyOpen s.tables file)))
  | .access f k => some ((s.setTables (f s.tables)).goto t (k s.tables))
  | .enter fs op k => some (s.setThread t { s.threads t with pc := .inside fs op k })
  | .crash => none

/-- The actions of the threads. -/
inductive Action (n : ℕ) where
  | call (t : Fin n) (c : Call)
  | step (t : Fin n)
  | leave (t : Fin n) (r : ℤ)

/-- A thread begins a call. -/
def Sys.begin (s : Sys n) (t : Fin n) (c : Call) : Sys n :=
  let s' := s.setThread t { s.threads t with pc := .at c.code, call := some c }
  match c with
  | .close file => { s' with opened := Function.update s.opened file false }
  | _ => s'

/-- One action. -/
def step (s : Sys n) : Action n → Option (Sys n)
  | .call t c => match (s.threads t).pc with
    | .idle => some (s.begin t c)
    | _ => none
  | .step t => match (s.threads t).pc with
    | .at c => c.step s t
    | _ => none
  | .leave t r => match (s.threads t).pc with
    | .inside _ _ k => some (s.goto t (k r))
    | _ => none

/-- The calls between their successful `vfs_start_op` and their return. -/
def Sys.inProgress (s : Sys n) : ℕ := Transition.count Thread.inOp s.threads

end Buenos.Vfs
