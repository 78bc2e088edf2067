import Buenos.Base.Transition
import Buenos.Fs.Sfs.Sequential

/-!
# File operations by many threads

The calls of `Call`, made by any number of threads.  Every section under `openfile_lock`, `sfs->lock` or
`io_lock`, and every block transfer of a read or write, is a step.

* `Pc` — where in its call a thread is, with what it has in its local variables.
* `Thread` — also the opens of the thread that it has not closed yet, and what its last call returned.
* `begin`, `proceed` — the first step of a call and the steps after it.

A thread closes, reads and writes only what it has open.  A thread that waits on `io_cond` can look at its
condition again at any time.
-/

namespace Buenos.Fs.Threads

open BlockProgram Transition

/-- Where a thread is; `e` is the entry it has entered, and `f` the fileid for which. -/
inductive Pc where
  | idle
  /-- `sfs_open`: the path is resolved, the entry entered, `is_deleted` read -/
  | opening (path : List UInt8) (r : Resolved)
  | opened (e : Slot) (f : ℤ)
  | checked (e : Slot) (f : ℤ) (isDeleted : Bool)
  /-- `sfs_close` has entered -/
  | closing (e : Slot) (f : ℤ)
  /-- `sfs_create`: the path is resolved -/
  | creating (path : List UInt8) (size : Int32) (r : Resolved)
  /-- `sfs_remove`: the path is resolved, the entry entered -/
  | removing (path : List UInt8) (r : Resolved)
  | removed (e : Slot) (f : ℤ)
  /-- `sfs_read` has entered, and is between its sections under `io_lock` -/
  | awaitRead (e : Slot) (f : ℤ) (bufsize : ℕ) (offset : ℤ)
  | reading (e : Slot) (f : ℤ) (p : Prog Block (ℤ × List UInt8))
  /-- `sfs_write` has entered, has `writer_tid`, and is alone -/
  | awaitWrite (e : Slot) (f : ℤ) (tid : ℤ) (data : List UInt8) (offset : ℤ)
  | draining (e : Slot) (f : ℤ) (data : List UInt8) (offset : ℤ)
  | writing (e : Slot) (f : ℤ) (p : Prog Block ℤ)
  /-- before the `sfs_exit` of `sfs_end_read` or `sfs_end_write` -/
  | leaving (e : Slot) (f : ℤ) (r : ℤ)

/-- A thread; `handles f` successful opens returned `f` and have not been closed. -/
structure Thread where
  pc : Pc
  handles : ℤ → ℕ
  result : ℤ

structure State (τ : Type) where
  sfs : Sfs
  thread : τ → Thread

variable {τ : Type} [DecidableEq τ]

def State.setThread (s : State τ) (t : τ) (th : Thread) : State τ :=
  { s with thread := Function.update s.thread t th }

def State.goto (s : State τ) (t : τ) (pc : Pc) : State τ := s.setThread t { s.thread t with pc := pc }

/-- The call returns. -/
def State.ret (s : State τ) (t : τ) (result : ℤ) : State τ :=
  s.setThread t { s.thread t with pc := .idle, result := result }

/-- `sfs_enter` at the beginning of a call on an open file. -/
def State.enter (s : State τ) (t : τ) (fileid : ℤ) (pc : Slot → Pc) : State τ :=
  match sfsEnter s.sfs fileid with
  | (none, sfs) => State.ret { s with sfs := sfs } t VFS_ERROR
  | (some e, sfs) => State.goto { s with sfs := sfs } t (pc e)

/-- The first step of a call. -/
def begin (s : State τ) (t : τ) : Call → Option (State τ)
  | .openFile path =>
    let r := sfsResolveFileExt s.sfs path
    if r.block = VFS_ERROR then some (s.ret t VFS_NOT_FOUND) else some (s.goto t (.opening path r))
  | .closeFile f =>
    if (s.thread t).handles f = 0 then none else some (s.enter t f (.closing · f))
  | .create path size =>
    if sfsIsValidPath path = false then some (s.ret t VFS_ERROR) else
    let size' : ℤ := if sfsIsFolder path then 0 else size.toInt
    if size' < 0 then some (s.ret t VFS_ERROR) else
    if numVblocks size' > SFS_BLOCKS_MAX then some (s.ret t VFS_ERROR) else
    let r := sfsResolveFileExt s.sfs path
    if r.block ≠ VFS_ERROR ∨ r.parentInode < 0 ∨ r.parentExists = false then
      some (s.ret t VFS_ERROR)
    else some (s.goto t (.creating path size r))
  | .remove path =>
    let r := sfsResolveFileExt s.sfs path
    if r.block = VFS_ERROR ∨ path = [SLASH] then some (s.ret t VFS_NOT_FOUND)
    else some (s.goto t (.removing path r))
  | .read f bufsize offset =>
    if (s.thread t).handles f = 0 then none else
    if badFileid s.sfs f then some (s.ret t VFS_ERROR) else
    some (s.enter t f (.awaitRead · f bufsize offset))
  | .write tid f data offset =>
    if (s.thread t).handles f = 0 then none else
    if badFileid s.sfs f then some (s.ret t VFS_ERROR) else
    match sfsEnter s.sfs f with
    | (none, sfs) => some (State.ret { s with sfs := sfs } t VFS_ERROR)
    | (some e, sfs) =>
      if (sfs.openFiles e).isFolder then some (State.ret { s with sfs := sfs } t VFS_ERROR)
      else some (State.goto { s with sfs := sfs } t (.awaitWrite e f tid data offset))

/-- The next step of the call of a thread; `none` while it has to wait. -/
def proceed (s : State τ) (t : τ) : Option (State τ) :=
  let sfs := s.sfs
  match (s.thread t).pc with
  | .idle => none
  | .opening path r =>
    match sfsEnterExt sfs r.block r.parentInode true (sfsIsFolder path) false with
    | (none, sfs) => some (State.ret { s with sfs := sfs } t VFS_ERROR)
    | (some e, sfs) => some (State.goto { s with sfs := sfs } t (.opened e r.block))
  | .opened e f => some (s.goto t (.checked e f (sfs.openFiles e).isDeleted))
  | .checked e f isDeleted =>
    let s := { s with sfs := sfsExit sfs e isDeleted }
    if isDeleted then some (s.ret t VFS_NOT_FOUND)
    else some (s.setThread t
      ⟨.idle, Function.update (s.thread t).handles f ((s.thread t).handles f + 1), f⟩)
  | .closing e f => some (State.setThread { s with sfs := sfsExit sfs e true } t
      ⟨.idle, Function.update (s.thread t).handles f ((s.thread t).handles f - 1), VFS_OK⟩)
  | .creating path size r =>
    let size : ℤ := if sfsIsFolder path then 0 else size.toInt
    let c := sfsCreateIn sfs r.parentInode.toNat path (sfsIsFolder path) size.toNat (numVblocks size)
    some (State.ret { s with sfs := c.2 } t c.1)
  | .removing path r =>
    match sfsEnterExt sfs r.block r.parentInode true (sfsIsFolder path) true with
    | (none, sfs) => some (State.ret { s with sfs := sfs } t VFS_ERROR)
    | (some e, sfs) => some (State.goto { s with sfs := sfs } t (.removed e r.block))
  | .removed e _ => some (State.ret { s with sfs := sfsExit sfs e true } t VFS_OK)
  | .awaitRead e f bufsize offset =>
    match readEntry (sfs.openFiles e) with
    | none => none
    | some x => some (State.goto { s with sfs := sfs.setEntry e x } t
        (.reading e f (readBody f.toNat x.isFolder bufsize offset)))
  | .reading e f (.ret r) => some (State.goto
      { s with sfs := sfs.setEntry e (readExit (sfs.openFiles e)) } t (.leaving e f r.1))
  | .reading e f p => some (State.goto
      { s with sfs := { sfs with disk := (p.step gbdDevice sfs.disk).2 } } t
      (.reading e f (p.step gbdDevice sfs.disk).1))
  | .awaitWrite e f tid data offset =>
    match writeReserve tid (sfs.openFiles e) with
    | none => none
    | some x => some (State.goto { s with sfs := sfs.setEntry e x } t (.draining e f data offset))
  | .draining e f data offset =>
    if (sfs.openFiles e).readernum > 0 then none
    else some (s.goto t (.writing e f (writeBody f.toNat data data.length offset)))
  | .writing e f (.ret r) => some (State.goto
      { s with sfs := sfs.setEntry e (writeExit (sfs.openFiles e)) } t (.leaving e f r))
  | .writing e f p => some (State.goto
      { s with sfs := { sfs with disk := (p.step gbdDevice sfs.disk).2 } } t
      (.writing e f (p.step gbdDevice sfs.disk).1))
  | .leaving e _ r => some (State.ret { s with sfs := sfsExit sfs e false } t r)

inductive Action (τ : Type) where
  | call (t : τ) (c : Call)
  | proceed (t : τ)

def step (s : State τ) : Action τ → Option (State τ)
  | .call t c => match (s.thread t).pc with
    | .idle => begin s t c
    | _ => none
  | .proceed t => proceed s t

/-- After `sfs_init`. -/
def State.init (τ : Type) (disk : Gbd) : State τ where
  sfs := sfsInit disk
  thread _ := ⟨.idle, fun _ => 0, VFS_OK⟩

end Buenos.Fs.Threads
