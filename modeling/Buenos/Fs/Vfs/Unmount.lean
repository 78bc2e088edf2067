import Buenos.Fs.Vfs.Operations

/-!
# Unmounting excludes all other use of a filesystem

The `unmount` function of a filesystem runs with both tables locked and no open file on it
(`vfs_unmount`), or with `vfs_op_sem` held and no call in progress (`vfs_deinit`).

* `Fact` — what a thread may rely on at its position: the rows of open files it works on, that no row
  is on a filesystem, that no call is in progress.
* `Code.Locked` — a function takes and gives back the semaphores in order, and enters each function of
  a driver with the semaphores held or the fact known that keep others out.
* `usesOpen` — the condition on a call: its handle is open, and a close is alone on its handle.

Principal results: `vfs_unmount_exclusive` (over every run whose calls meet the condition),
`vfs_unmount_stale_handle` (a handle that has been closed lets a read and an unmount overlap).
-/

namespace Buenos.Vfs

open Buenos.Fs (VFS_OK VFS_ERROR VFS_NOT_FOUND)
open Transition

variable {n : ℕ}

/-! ## Facts -/

/-- What a thread may rely on at its position. -/
inductive Fact where
  | nothing
  /-- no row of open files is on the filesystem -/
  | noRows (fs : FsPtr)
  /-- no call is in progress -/
  | quiet
  /-- the row is reserved by this `vfs_open` -/
  | mine (row : Row) (fs : FsPtr)
  /-- the row of the handle is left to this `vfs_close` -/
  | closing (file : ℤ)
  /-- the handle is open -/
  | handle (file : ℤ)
  /-- the handle is open on the filesystem -/
  | onRow (row : Row) (fs : FsPtr)

/-- Giving up a semaphore gives up what it protects. -/
def Fact.release (x : Sem) : Fact → Fact
  | .noRows fs => if x = .openfile then .nothing else .noRows fs
  | .quiet => if x = .op then .nothing else .quiet
  | f => f

/-- The handle that the fact reserves for its thread. -/
def Fact.owns : Fact → ℤ → Prop
  | .mine row _, file => file = row.val
  | .closing f, file => file = f
  | _, _ => False

/-- The handles that the fact is about. -/
def Fact.about : Fact → ℤ → Prop
  | .mine row _, file => file = row.val
  | .closing f, file => file = f
  | .handle f, file => file = f
  | .onRow row _, file => file = row.val
  | _, _ => False

/-- What a look at the tables adds to the facts. -/
inductive Fact.Learn (s : Tables) (held : Sem → Bool) : Fact → Fact → Prop
  | same (f : Fact) : Learn s held f f
  | noRows {fs : FsPtr} (hh : held .openfile = true) (hs : inUse s fs = false) :
      Learn s held .nothing (.noRows fs)
  | quiet (hh : held .op = true) (hs : s.ops ≤ 0) : Learn s held .nothing .quiet
  | onRow {row : Row} {fs : FsPtr} (hs : (s.files row).filesystem = some fs) :
      Learn s held (.handle row.val) (.onRow row fs)

/-- How the functions of a driver are entered. -/
def Guarded (fs : ℕ) (held : Sem → Bool) (inOp : Bool) (f : Fact) : FsOp → Prop
  | .unmount => (held .table = true ∧ held .openfile = true ∧ f = .noRows (.driver fs)) ∨ f = .quiet
  | .create => inOp = true ∧ held .table = true
  | .remove => inOp = true ∧ held .table = true
  | .getfree => inOp = true ∧ held .table = true
  | .close => inOp = true ∧ held .openfile = true
  | .open => inOp = true ∧ ∃ row, f = .mine row (.driver fs)
  | .read => inOp = true ∧ ∃ row, f = .onRow row (.driver fs)
  | .write => inOp = true ∧ ∃ row, f = .onRow row (.driver fs)

/-- An access that leaves the semaphores, the count and the filesystems of the rows alone. -/
structure Keeps (s s' : Tables) : Prop where
  sem : s'.sem = s.sem
  ops : s'.ops = s.ops
  fs : ∀ row, (s'.files row).filesystem = (s.files row).filesystem

/-- The return value of a `vfs_open` is an error or the row it has reserved. -/
def Result (c : Call) (r : ℤ) (f : Fact) : Prop :=
  (∀ pathname, c ≠ .openFile pathname) ∨ r < 0 ∨ ∃ row fs, f = .mine row fs ∧ r = row.val

/-- No semaphore is held at a return. -/
def Free (held : Sem → Bool) : Prop := ∀ x, x ≠ .unmount → held x = false

/-- **The locking discipline** of the code of a call `c`. -/
inductive Code.Locked (c : Call) : Code → (Sem → Bool) → Bool → Fact → Prop
  | ret {r : ℤ} {held : Sem → Bool} {inOp : Bool} {f : Fact} (hh : Free held) (hr : Result c r f) :
      Locked c (.ret r) held inOp f
  | endOp {r : ℤ} {held : Sem → Bool} {f : Fact} (hh : Free held) (hr : Result c r f) :
      Locked c (.endOp r) held true f
  | startOp {k : Bool → Code} {held : Sem → Bool} {f : Fact}
      (h : ∀ ok, Locked c (k ok) held ok f) : Locked c (.startOp k) held false f
  | semP {x : Sem} {k : Code} {held : Sem → Bool} {inOp : Bool} {f : Fact} (hx : held x = false)
      (h : Locked c k (Function.update held x true) inOp f) : Locked c (.semP x k) held inOp f
  | semV {x : Sem} {k : Code} {held : Sem → Bool} {inOp : Bool} {f : Fact} (hx : held x = true)
      (h : Locked c k (Function.update held x false) inOp (f.release x)) :
      Locked c (.semV x k) held inOp f
  | verify {file : ℤ} {k : Option Row → Code} {held : Sem → Bool} {inOp : Bool} {f : Fact}
      (hnone : Locked c (k none) held inOp f)
      (h : ∀ row : Row, (row.val : ℤ) = file → Locked c (k (some row)) held inOp f) :
      Locked c (.verify file k) held inOp f
  | access {g : Tables → Tables} {k : Tables → Code} {held : Sem → Bool} {inOp : Bool} {f : Fact}
      {f' : Tables → Fact} (hg : ∀ s, Keeps s (g s)) (hl : ∀ s, Fact.Learn s held f (f' s))
      (h : ∀ s, Locked c (k s) held inOp (f' s)) : Locked c (.access g k) held inOp f
  | reserve {volumename : Str} {k : Tables → Code} {held : Sem → Bool} {inOp : Bool}
      (hh : held .openfile = true)
      (herr : ∀ s r, openRow s volumename = .error r → Locked c (k s) held inOp .nothing)
      (hok : ∀ s row fs, openRow s volumename = .ok (row, fs) → Locked c (k s) held inOp (.mine row fs)) :
      Locked c (.access (fun s => s.reserved (openRow s volumename)) k) held inOp .nothing
  | release {row : Row} {k : Tables → Code} {held : Sem → Bool} {inOp : Bool} {f : Fact}
      (hf : f.owns row.val) (h : ∀ s, Locked c (k s) held inOp .nothing) :
      Locked c (.access (fun s => s.setFs row none) k) held inOp f
  | enter {fs : ℕ} {op : FsOp} {k : ℤ → Code} {held : Sem → Bool} {inOp : Bool} {f : Fact}
      (hg : Guarded fs held inOp f op) (h : ∀ r, Locked c (k r) held inOp f) :
      Locked c (.enter fs op k) held inOp f
  | crash {held : Sem → Bool} {inOp : Bool} {f : Fact} : Locked c .crash held inOp f

/-! ## The functions keep to the discipline -/

section Functions

variable {c : Call} {held : Sem → Bool} {inOp : Bool} {f : Fact}

theorem keeps_refl (s : Tables) : Keeps s s := ⟨rfl, rfl, fun _ => rfl⟩

theorem keeps_setMount (s : Tables) (row : Mount) (e : VfsEntry) : Keeps s (s.setMount row e) :=
  ⟨rfl, rfl, fun _ => rfl⟩

theorem keeps_mounted (s : Tables) (fs : ℕ) (name : Str) (r : Except ℤ Mount) :
    Keeps s (s.mounted fs name r) := by
  cases r with
  | error r => exact keeps_refl s
  | ok row => exact keeps_setMount s _ _

theorem keeps_setFile (s : Tables) (row : Row) (e : OpenFileEntry)
    (he : e.filesystem = (s.files row).filesystem) : Keeps s (s.setFile row e) := by
  refine ⟨rfl, rfl, fun r => ?_⟩
  by_cases hr : r = row
  · subst hr
    simp [Tables.setFile, he]
  · simp [Tables.setFile, hr]

/-- A look that teaches nothing. -/
theorem locked_look {k : Tables → Code} (h : ∀ s, (k s).Locked c held inOp f) :
    (Code.look k).Locked c held inOp f :=
  .access keeps_refl (fun _ => .same f) h

/-- A look that adds to the facts. -/
theorem locked_learn {k : Tables → Code}
    (h : ∀ s, ∃ f', Fact.Learn s held f f' ∧ (k s).Locked c held inOp f') :
    (Code.look k).Locked c held inOp f := by
  choose f' hl hk using h
  exact .access keeps_refl hl hk

theorem locked_store {g : Tables → Tables} {k : Code} (hg : ∀ s, Keeps s (g s))
    (h : k.Locked c held inOp f) : (Code.store g k).Locked c held inOp f :=
  .access hg (fun _ => .same f) fun _ => h

/-- A call through a pointer to a filesystem. -/
theorem locked_callFs {fs : FsPtr} {op : FsOp} {k : ℤ → Code}
    (hg : ∀ id, fs = .driver id → Guarded id held inOp f op) (h : ∀ r, (k r).Locked c held inOp f) :
    (Code.callFs fs op k).Locked c held inOp f := by
  cases fs with
  | reserved => exact .crash
  | driver id => exact .enter (hg id rfl) h

/-- A function that returns an error when the VFS is not usable. -/
theorem locked_startOp {r : ℤ} {k : Code} (hh : Free held) (hr : Result c r f)
    (h : k.Locked c held true f) :
    (Code.startOp fun ok => if !ok then .ret r else k).Locked c held false f := by
  refine .startOp fun ok => ?_
  cases ok with
  | false => exact .ret hh hr
  | true => exact h

theorem result_error {r : ℤ} (hr : r < 0) : Result c r f := Or.inr (Or.inl hr)

/-- No semaphore. -/
def noSem : Sem → Bool := fun _ => false

theorem free_noSem : Free noSem := fun _ _ => rfl

/-- Taking a semaphore and giving it back. -/
theorem free_update {x : Sem} (h : Free held) : Free (Function.update (Function.update held x true) x false) := by
  intro y hy
  by_cases hyx : y = x
  · rw [hyx, Function.update_self]
  · rw [Function.update_of_ne hyx, Function.update_of_ne hyx]
    exact h y hy

theorem vfsMount_locked (fs : ℕ) (name : Str) :
    (vfsMount fs name).Locked (.mount fs name) noSem false .nothing := by
  have hres : ∀ {r : ℤ} {f : Fact}, Result (.mount fs name) r f := Or.inl fun _ h => by cases h
  unfold vfsMount
  split
  · exact .ret free_noSem hres
  refine locked_startOp free_noSem hres (.semP rfl (.access (fun s => keeps_mounted s _ _ _)
    (fun _ => .same _) fun s => .semV rfl ?_))
  split
  · exact .endOp (free_update free_noSem) hres
  · exact .endOp (free_update free_noSem) hres

/-- Both tables are given back. -/
theorem free_both : Free (Function.update (Function.update (Function.update (Function.update noSem
    .table true) .openfile true) .openfile false) .table false) := by
  intro x _
  cases x <;> rfl

theorem vfsUnmount_locked (name : Str) : (vfsUnmount name).Locked (.unmount name) noSem false .nothing := by
  have hres : ∀ {r : ℤ} {f : Fact}, Result (.unmount name) r f := Or.inl fun _ h => by cases h
  refine locked_startOp free_noSem hres (.semP rfl (locked_look fun s => ?_))
  split
  · exact .semV rfl (.endOp (free_update free_noSem) hres)
  rename_i row fs _
  refine .semP rfl (locked_learn fun s => ?_)
  cases hu : inUse s fs with
  | true => exact ⟨_, .same _, .semV rfl (.semV rfl (.endOp free_both hres))⟩
  | false =>
    refine ⟨.noRows fs, .noRows rfl hu, locked_callFs ?_ fun _ => ?_⟩
    · rintro id rfl
      exact Or.inl ⟨rfl, rfl, rfl⟩
    · exact locked_store (fun s => keeps_setMount s _ _) (.semV rfl (.semV rfl (.endOp free_both hres)))

theorem openRow_error {s : Tables} {volumename : Str} {r : ℤ} (h : openRow s volumename = .error r) :
    r < 0 := by
  unfold openRow at h
  split at h
  · cases h
    decide
  · split at h
    · cases h
      decide
    · cases h

theorem vfsOpen_locked (pathname : Str) :
    (vfsOpen pathname).Locked (.openFile pathname) noSem false .nothing := by
  refine locked_startOp free_noSem (result_error (by decide)) ?_
  split
  · exact .endOp free_noSem (result_error (by decide))
  rename_i volumename _ _
  refine .semP rfl (.semP rfl (.reserve rfl (fun s r hr => ?_) fun s row fs hr => ?_))
  · simp only [hr]
    exact .semV rfl (.semV rfl (.endOp free_both (result_error (openRow_error hr))))
  · simp only [hr]
    refine .semV rfl (.semV rfl (locked_callFs ?_ fun fileid => ?_))
    · rintro id rfl
      exact ⟨rfl, row, rfl⟩
    · split
      · rename_i hneg
        refine .semP rfl (.release rfl fun _ => .semV rfl (.endOp ?_ (result_error hneg)))
        intro x _
        cases x <;> rfl
      · exact locked_store (fun s => keeps_setFile s _ _ rfl)
          (.endOp free_both (Or.inr (Or.inr ⟨row, fs, rfl, rfl⟩)))

theorem vfsClose_locked (file : ℤ) : (vfsClose file).Locked (.close file) noSem false (.closing file) := by
  have hres : ∀ {r : ℤ} {f : Fact}, Result (.close file) r f := Or.inl fun _ h => by cases h
  refine locked_startOp free_noSem hres (.semP rfl (.verify ?_ fun row hrow => ?_))
  · exact .semV rfl (.ret (free_update free_noSem) hres)
  refine locked_look fun s => ?_
  split
  · exact .crash
  refine locked_callFs (fun _ _ => ⟨rfl, rfl⟩) fun ret => ?_
  exact .release hrow fun _ => .semV rfl (.endOp (free_update free_noSem) hres)

theorem vfsSeek_locked (file seekPosition : ℤ) :
    (vfsSeek file seekPosition).Locked (.seek file seekPosition) noSem false (.handle file) := by
  have hres : ∀ {r : ℤ} {f : Fact}, Result (.seek file seekPosition) r f := Or.inl fun _ h => by cases h
  refine locked_startOp free_noSem hres ?_
  split
  · exact .ret free_noSem hres
  refine .semP rfl (.verify ?_ fun row _ => ?_)
  · exact .semV rfl (.ret (free_update free_noSem) hres)
  · exact locked_store (fun s => keeps_setFile s _ _ rfl) (.semV rfl (.endOp (free_update free_noSem) hres))

theorem advance_locked {c : Call} (hres : ∀ {r : ℤ} {f : Fact}, Result c r f) (row : Row) (ret : ℤ)
    (f : Fact) (hf : f.release .openfile = f) : (advance row ret).Locked c noSem true f := by
  unfold advance
  split
  · refine .semP rfl (locked_store (fun s => keeps_setFile s _ _ rfl) (.semV rfl ?_))
    rw [hf]
    exact .endOp (free_update free_noSem) hres
  · exact .endOp free_noSem hres

theorem vfsRead_locked (file : ℤ) (buffer : Bool) (bufsize : ℤ) :
    (vfsRead file buffer bufsize).Locked (.read file buffer bufsize) noSem false (.handle file) := by
  have hres : ∀ {r : ℤ} {f : Fact}, Result (.read file buffer bufsize) r f :=
    Or.inl fun _ h => by cases h
  refine locked_startOp free_noSem hres (.verify (.ret free_noSem hres) fun row hrow => ?_)
  refine locked_learn fun s => ?_
  split
  · exact ⟨_, .same _, .ret free_noSem hres⟩
  split
  · exact ⟨_, .same _, .crash⟩
  · rename_i fs hfs
    subst hrow
    refine ⟨_, .onRow hfs, locked_callFs ?_ fun r => advance_locked hres row r _ rfl⟩
    rintro id rfl
    exact ⟨rfl, row, rfl⟩

theorem vfsWrite_locked (file : ℤ) (buffer : Bool) (datasize : ℤ) :
    (vfsWrite file buffer datasize).Locked (.write file buffer datasize) noSem false (.handle file) := by
  have hres : ∀ {r : ℤ} {f : Fact}, Result (.write file buffer datasize) r f :=
    Or.inl fun _ h => by cases h
  refine locked_startOp free_noSem hres (.verify (.ret free_noSem hres) fun row hrow => ?_)
  refine locked_learn fun s => ?_
  split
  · exact ⟨_, .same _, .crash⟩
  split
  · exact ⟨_, .same _, .crash⟩
  · rename_i fs hfs
    subst hrow
    refine ⟨_, .onRow hfs, locked_callFs ?_ fun r => advance_locked hres row r _ rfl⟩
    rintro id rfl
    exact ⟨rfl, row, rfl⟩

/-- `vfs_create`, `vfs_remove` and `vfs_getfree` run their driver function with the mount table
locked. -/
theorem callLocked_locked {c : Call} (hres : ∀ {r : ℤ} {f : Fact}, Result c r f) (volumename : Str)
    {op : FsOp} (hop : ∀ {fs : ℕ} {held : Sem → Bool}, held .table = true →
      Guarded fs held true .nothing op) :
    (callLocked volumename op).Locked c noSem true .nothing := by
  refine .semP rfl (locked_look fun s => ?_)
  split
  · exact .semV rfl (.endOp (free_update free_noSem) hres)
  · exact locked_callFs (fun _ _ => hop rfl) fun _ => .semV rfl (.endOp (free_update free_noSem) hres)

theorem vfsCreate_locked (pathname : Str) (size : ℤ) :
    (vfsCreate pathname size).Locked (.create pathname size) noSem false .nothing := by
  have hres : ∀ {r : ℤ} {f : Fact}, Result (.create pathname size) r f := Or.inl fun _ h => by cases h
  unfold vfsCreate
  split
  · exact .ret free_noSem hres
  refine locked_startOp free_noSem hres ?_
  split
  · exact .endOp free_noSem hres
  · exact callLocked_locked hres _ fun hh => ⟨rfl, hh⟩

theorem vfsRemove_locked (pathname : Str) :
    (vfsRemove pathname).Locked (.remove pathname) noSem false .nothing := by
  have hres : ∀ {r : ℤ} {f : Fact}, Result (.remove pathname) r f := Or.inl fun _ h => by cases h
  refine locked_startOp free_noSem hres ?_
  split
  · exact .endOp free_noSem hres
  · exact callLocked_locked hres _ fun hh => ⟨rfl, hh⟩

theorem vfsGetfree_locked (filesystem : Str) :
    (vfsGetfree filesystem).Locked (.getfree filesystem) noSem false .nothing := by
  have hres : ∀ {r : ℤ} {f : Fact}, Result (.getfree filesystem) r f := Or.inl fun _ h => by cases h
  exact locked_startOp free_noSem hres (callLocked_locked hres _ fun hh => ⟨rfl, hh⟩)

/-- The loop of `vfs_deinit`, entered when no call is in progress. -/
theorem unmountRows_locked {c : Call} {held : Sem → Bool} {k : Code} (hk : k.Locked c held false .quiet)
    (rows : List Mount) : (unmountRows rows k).Locked c held false .quiet := by
  induction rows with
  | nil => exact hk
  | cons row rows ih =>
    refine locked_look fun s => ?_
    split
    · exact ih
    · exact locked_callFs (fun _ _ => Or.inr rfl) fun _ =>
        locked_store (fun s => keeps_setMount s _ _) ih

theorem deinitTables_locked {held : Sem → Bool} (hop : held .op = true) (htable : held .table = false)
    (hfile : held .openfile = false) : deinitTables.Locked .deinit held false .quiet := by
  refine .semP htable (.semP hfile (unmountRows_locked ?_ _))
  refine .semV rfl (.semV rfl (.semV hop (.ret ?_ (Or.inl fun _ h => by cases h))))
  intro x hx
  cases x with
  | table => rfl
  | openfile => rfl
  | op => rfl
  | unmount => exact absurd rfl hx

theorem vfsDeinit_locked : vfsDeinit.Locked .deinit noSem false .nothing := by
  have hkeep : ∀ s : Tables, Keeps s { s with usable := false } := fun s => ⟨rfl, rfl, fun _ => rfl⟩
  have hlearn : ∀ s : Tables, Fact.Learn s (Function.update noSem .op true) .nothing
      (if s.ops > 0 then .nothing else .quiet) := by
    intro s
    split
    · exact .same _
    · rename_i hops
      exact .quiet rfl (by omega)
  refine .semP rfl (.access hkeep hlearn fun s => ?_)
  split
  · refine .semV rfl (.semP rfl (.semP rfl (locked_learn fun s => ?_)))
    split
    · rename_i hops
      exact ⟨.quiet, .quiet rfl hops.le, deinitTables_locked rfl rfl rfl⟩
    · exact ⟨_, .same _, .crash⟩
  · exact deinitTables_locked rfl rfl rfl

end Functions

/-- What a call may rely on when it begins. -/
def Call.fact : Call → Fact
  | .close file => .closing file
  | .seek file _ => .handle file
  | .read file _ _ => .handle file
  | .write file _ _ => .handle file
  | _ => .nothing

/-- **Every function keeps to the locking discipline.** -/
theorem Call.locked (c : Call) : c.code.Locked c noSem false c.fact := by
  cases c with
  | mount fs name => exact vfsMount_locked fs name
  | unmount name => exact vfsUnmount_locked name
  | openFile pathname => exact vfsOpen_locked pathname
  | close file => exact vfsClose_locked file
  | seek file seekPosition => exact vfsSeek_locked file seekPosition
  | read file buffer bufsize => exact vfsRead_locked file buffer bufsize
  | write file buffer datasize => exact vfsWrite_locked file buffer datasize
  | create pathname size => exact vfsCreate_locked pathname size
  | remove pathname => exact vfsRemove_locked pathname
  | getfree filesystem => exact vfsGetfree_locked filesystem
  | deinit => exact vfsDeinit_locked

/-! ## The invariant -/

/-- The position of a thread keeps to the discipline, with the fact `f`. -/
def Thread.Locked (th : Thread) (f : Fact) : Prop :=
  match th.pc with
  | .idle => th.held = noSem ∧ th.inOp = false ∧ f = .nothing
  | .at k => ∃ c, th.call = some c ∧ k.Locked c th.held th.inOp f
  | .inside fs op k => ∃ c, th.call = some c ∧ Guarded fs th.held th.inOp f op ∧
      ∀ r, (k r).Locked c th.held th.inOp f

/-- The thread is in a call on the handle. -/
def Thread.onHandle (th : Thread) (file : ℤ) : Prop := ∃ c, th.call = some c ∧ c.handle = some file

/-- The fact is true. -/
def Fact.Valid (s : Sys n) (th : Thread) : Fact → Prop
  | .nothing => True
  | .noRows fs => th.held .openfile = true ∧ ∀ row, (s.tables.files row).filesystem ≠ some fs
  | .quiet => th.held .op = true ∧ ∀ t, (s.threads t).inOp = false
  | .mine row fs => (s.tables.files row).filesystem = some fs ∧ s.opened row.val = false
  | .closing file => s.opened file = false ∧
      ∃ row : Row, (row.val : ℤ) = file ∧ (s.tables.files row).filesystem ≠ none
  | .handle file => s.opened file = true ∧ th.onHandle file
  | .onRow row fs => s.opened row.val = true ∧ th.onHandle row.val ∧
      (s.tables.files row).filesystem = some fs

/-- The invariant: the semaphores are held by at most one thread, `vfs_ops` counts at least the calls
in progress, every thread keeps to the discipline and its fact is true, no two threads have a handle
for themselves, and open handles have rows. -/
structure Guards (s : Sys n) (fact : Fin n → Fact) : Prop where
  sems : ∀ x, x ≠ .unmount → s.tables.sem x + count (fun th : Thread => th.held x) s.threads = 1
  ops : (s.inProgress : ℤ) ≤ s.tables.ops
  locked : ∀ t, (s.threads t).Locked (fact t)
  valid : ∀ t, (fact t).Valid s (s.threads t)
  own : ∀ {t t' file}, (fact t).owns file → (fact t').owns file → t = t'
  rows : ∀ {file}, s.opened file = true →
    ∃ row : Row, (row.val : ℤ) = file ∧ (s.tables.files row).filesystem ≠ none

section Guards

variable {s s' : Sys n} {fact : Fin n → Fact} {t : Fin n}

/-- A semaphore is held by one thread at a time. -/
theorem Guards.held_unique (h : Guards s fact) {x : Sem} (hx : x ≠ .unmount) {t t' : Fin n}
    (ht : (s.threads t).held x = true) (ht' : (s.threads t').held x = true) : t = t' := by
  have hsem := h.sems x hx
  by_contra hne
  have hcard : 2 ≤ count (fun th : Thread => th.held x) s.threads := by
    have hsub : ({t, t'} : Finset (Fin n)) ⊆
        Finset.univ.filter fun i => (s.threads i).held x = true := by
      intro i hi
      rcases Finset.mem_insert.1 hi with rfl | hi
      · simpa using ht
      · rw [Finset.mem_singleton.1 hi]
        simpa using ht'
    have := Finset.card_le_card hsub
    rwa [Finset.card_pair hne] at this
  omega

/-- A held semaphore is down. -/
theorem Guards.sem_zero (h : Guards s fact) {x : Sem} (hx : x ≠ .unmount)
    (ht : (s.threads t).held x = true) : s.tables.sem x = 0 := by
  have hsem := h.sems x hx
  have hpos : count (fun th : Thread => th.held x) s.threads ≠ 0 := by
    intro h0
    have := count_eq_zero.1 h0 t
    rw [ht] at this
    cases this
  omega

/-- A fact stays true while what it is about does. -/
theorem Fact.Valid.change {th th' : Thread} {f : Fact} (h : f.Valid s th)
    (hheld : ∀ x, th.held x = true → th'.held x = true) (hcall : th'.call = th.call)
    (hno : ∀ fs row, f = .noRows fs → (s.tables.files row).filesystem ≠ some fs →
      (s'.tables.files row).filesystem ≠ some fs)
    (hrow : ∀ row : Row, f.about row.val →
      (s'.tables.files row).filesystem = (s.tables.files row).filesystem)
    (hopen : ∀ file, f.about file → s'.opened file = s.opened file)
    (hin : f = .quiet → ∀ t, (s'.threads t).inOp = false) : f.Valid s' th' := by
  have hon : ∀ {file}, th.onHandle file → th'.onHandle file := by
    rintro file ⟨c, h1, h2⟩
    exact ⟨c, hcall.trans h1, h2⟩
  cases f with
  | nothing => trivial
  | noRows fs => exact ⟨hheld _ h.1, fun row => hno fs row rfl (h.2 row)⟩
  | quiet => exact ⟨hheld _ h.1, hin rfl⟩
  | mine row fs => exact ⟨(hrow row rfl).trans h.1, (hopen _ rfl).trans h.2⟩
  | closing file =>
    obtain ⟨h1, row, rfl, h3⟩ := h
    exact ⟨(hopen _ rfl).trans h1, row, rfl, by rw [hrow row rfl]; exact h3⟩
  | handle file => exact ⟨(hopen _ rfl).trans h.1, hon h.2⟩
  | onRow row fs => exact ⟨(hopen _ rfl).trans h.1, hon h.2.1, (hrow row rfl).trans h.2.2⟩

/-- A handle that a thread has for itself is not open. -/
theorem Guards.owned_closed (h : Guards s fact) {file : ℤ} (hown : (fact t).owns file) :
    s.opened file = false := by
  have hv := h.valid t
  cases hf : fact t with
  | mine row fs =>
    rw [hf] at hown hv
    rw [show file = row.val from hown]
    exact hv.2
  | closing f =>
    rw [hf] at hown hv
    rw [show file = f from hown]
    exact hv.1
  | _ =>
    rw [hf] at hown
    exact hown.elim

theorem Fact.owns.about {f : Fact} {file : ℤ} (h : f.owns file) : f.about file := by
  cases f with
  | mine row fs => exact h
  | closing f => exact h
  | _ => exact h.elim

/-- A handle that one thread has for itself is no concern of the others. -/
theorem Guards.about_ne (h : Guards s fact) {t' : Fin n} {file file' : ℤ} (ht : t' ≠ t)
    (hown : (fact t).owns file) (hab : (fact t').about file') : file' ≠ file := by
  have hclosed := h.owned_closed hown
  rintro rfl
  have hv := h.valid t'
  have hsame : ¬ (fact t').owns file' := fun hown' => ht (h.own hown' hown)
  cases hf : fact t' with
  | mine row fs =>
    rw [hf] at hab hsame
    exact hsame hab
  | closing f =>
    rw [hf] at hab hsame
    exact hsame hab
  | handle f =>
    rw [hf] at hab hv
    rw [show file' = f from hab, hv.1] at hclosed
    cases hclosed
  | onRow row fs =>
    rw [hf] at hab hv
    rw [show file' = row.val from hab, hv.1] at hclosed
    cases hclosed
  | _ =>
    rw [hf] at hab
    exact hab.elim

/-- **Only thread `t` moves**: what is left to show. -/
theorem Guards.move (h : Guards s fact) {th : Thread} {f : Fact}
    (hthreads : s'.threads = Function.update s.threads t th)
    (hsem : ∀ x, x ≠ .unmount →
      s'.tables.sem x + (th.held x).toNat = s.tables.sem x + ((s.threads t).held x).toNat)
    (hops : s.tables.ops + th.inOp.toNat ≤ s'.tables.ops + (s.threads t).inOp.toNat)
    (hlocked : th.Locked f) (hvalid : f.Valid s' th)
    (hother : ∀ t', t' ≠ t → (fact t').Valid s' (s.threads t'))
    (hown : ∀ t' file, t' ≠ t → f.owns file → ¬ (fact t').owns file)
    (hrows : ∀ {file}, s'.opened file = true →
      ∃ row : Row, (row.val : ℤ) = file ∧ (s'.tables.files row).filesystem ≠ none) :
    Guards s' (Function.update fact t f) := by
  refine ⟨fun x hx => ?_, ?_, fun t' => ?_, fun t' => ?_, fun {t1 t2 file} h1 h2 => ?_, hrows⟩
  · have hcount := count_update (fun th : Thread => th.held x) s.threads t th
    rw [← hthreads] at hcount
    have h1 := h.sems x hx
    have h2 := hsem x hx
    omega
  · have hcount := count_update Thread.inOp s.threads t th
    rw [← hthreads] at hcount
    have h1 := h.ops
    unfold Sys.inProgress at h1 ⊢
    omega
  · by_cases ht : t' = t
    · rw [ht, hthreads, Function.update_self, Function.update_self]
      exact hlocked
    · rw [hthreads, Function.update_of_ne ht, Function.update_of_ne ht]
      exact h.locked t'
  · by_cases ht : t' = t
    · rw [ht, hthreads, Function.update_self, Function.update_self]
      exact hvalid
    · rw [hthreads, Function.update_of_ne ht, Function.update_of_ne ht]
      exact hother t' ht
  · by_cases ht1 : t1 = t
    · by_cases ht2 : t2 = t
      · rw [ht1, ht2]
      · rw [ht1, Function.update_self] at h1
        rw [Function.update_of_ne ht2] at h2
        exact absurd h2 (hown t2 file ht2 h1)
    · rw [Function.update_of_ne ht1] at h1
      by_cases ht2 : t2 = t
      · rw [ht2, Function.update_self] at h2
        exact absurd h1 (hown t1 file ht1 h2)
      · rw [Function.update_of_ne ht2] at h2
        exact h.own h1 h2

/-- Other calls in progress stay as they are when `t` moves, unless `t` begins an operation, which
takes `vfs_op_sem`. -/
theorem Guards.stays_quiet (h : Guards s fact) {th : Thread}
    (hthreads : s'.threads = Function.update s.threads t th)
    (hin : th.inOp = true → (s.threads t).inOp = true ∨ s.tables.sem .op ≠ 0) {t' : Fin n}
    (hq : fact t' = .quiet) : ∀ t2, (s'.threads t2).inOp = false := by
  have hv := h.valid t'
  rw [hq] at hv
  intro t2
  rw [hthreads]
  by_cases ht2 : t2 = t
  · rw [ht2, Function.update_self]
    by_contra htrue
    rw [Bool.not_eq_false] at htrue
    rcases hin htrue with h3 | h3
    · rw [hv.2 t] at h3
      cases h3
    · exact h3 (h.sem_zero (by decide) hv.1)
  · rw [Function.update_of_ne ht2]
    exact hv.2 t2

/-- Thread `t` moves and neither the rows nor the open handles change. -/
theorem Guards.moveQuietly (h : Guards s fact) {th : Thread} {f : Fact}
    (hthreads : s'.threads = Function.update s.threads t th)
    (hsem : ∀ x, x ≠ .unmount →
      s'.tables.sem x + (th.held x).toNat = s.tables.sem x + ((s.threads t).held x).toNat)
    (hops : s.tables.ops + th.inOp.toNat ≤ s'.tables.ops + (s.threads t).inOp.toNat)
    (hfs : ∀ row, (s'.tables.files row).filesystem = (s.tables.files row).filesystem)
    (hopen : s'.opened = s.opened)
    (hin : th.inOp = true → (s.threads t).inOp = true ∨ s.tables.sem .op ≠ 0)
    (hlocked : th.Locked f) (hvalid : f.Valid s' th) (hown : ∀ file, f.owns file → (fact t).owns file) :
    Guards s' (Function.update fact t f) := by
  refine h.move hthreads hsem hops hlocked hvalid (fun t' ht => ?_) (fun t' file ht h1 h2 => ?_)
    fun {file} hf => ?_
  · exact (h.valid t').change (fun _ hx => hx) rfl (fun fs row _ h0 => by rw [hfs]; exact h0)
      (fun row _ => hfs row) (fun file _ => by rw [hopen]) (h.stays_quiet hthreads hin)
  · exact ht (h.own h2 (hown file h1))
  · rw [hopen] at hf
    obtain ⟨row, h1, h2⟩ := h.rows hf
    exact ⟨row, h1, by rw [hfs]; exact h2⟩

/-- The fact of the thread that moves. -/
theorem Guards.own_valid (h : Guards s fact) {th : Thread}
    (hthreads : s'.threads = Function.update s.threads t th)
    (hheld : ∀ x, (s.threads t).held x = true → th.held x = true) (hcall : th.call = (s.threads t).call)
    (hfs : ∀ row, (s'.tables.files row).filesystem = (s.tables.files row).filesystem)
    (hopen : s'.opened = s.opened)
    (hin : th.inOp = true → (s.threads t).inOp = true ∨ s.tables.sem .op ≠ 0) : (fact t).Valid s' th :=
  (h.valid t).change hheld hcall (fun fs row _ h0 => by rw [hfs]; exact h0) (fun row _ => hfs row)
    (fun file _ => by rw [hopen]) (h.stays_quiet hthreads hin)

theorem finish_opened (s : Sys n) (t : Fin n) (r : ℤ) :
    (s.finish t r).opened = s.opened ∨
      ((∃ pathname, (s.threads t).call = some (.openFile pathname)) ∧ ¬ r < 0 ∧
        (s.finish t r).opened = Function.update s.opened r true) := by
  unfold Sys.finish
  split
  · rename_i pathname hcall
    split
    · exact Or.inl rfl
    · rename_i hr
      exact Or.inr ⟨⟨pathname, hcall⟩, hr, rfl⟩
  · exact Or.inl rfl

/-- **A call returns.** -/
theorem Guards.finish (h : Guards s fact) {c : Call} {r : ℤ} {tables : Tables}
    (hsem : ∀ x, x ≠ .unmount → tables.sem x = s.tables.sem x)
    (hops : s.tables.ops ≤ tables.ops + (s.threads t).inOp.toNat)
    (hfiles : tables.files = s.tables.files) (hcall : (s.threads t).call = some c)
    (hfree : Free (s.threads t).held) (hres : Result c r (fact t)) :
    Guards ((s.setTables tables).finish t r) (Function.update fact t .nothing) := by
  have hthreads : ((s.setTables tables).finish t r).threads =
      Function.update s.threads t Thread.rest := finish_threads _ t r
  have htables : ((s.setTables tables).finish t r).tables = tables := finish_tables _ t r
  have hsem' : ∀ x, x ≠ .unmount → ((s.setTables tables).finish t r).tables.sem x +
      (Thread.rest.held x).toNat = s.tables.sem x + ((s.threads t).held x).toNat := by
    intro x hx
    rw [htables, hsem x hx, hfree x hx]
    rfl
  have hops' : s.tables.ops + Thread.rest.inOp.toNat ≤
      ((s.setTables tables).finish t r).tables.ops + (s.threads t).inOp.toNat := by
    rw [htables]
    simpa [Thread.rest] using hops
  have hfs : ∀ row, (((s.setTables tables).finish t r).tables.files row).filesystem =
      (s.tables.files row).filesystem := by
    intro row
    rw [htables, hfiles]
  have hlocked : Thread.rest.Locked .nothing := ⟨rfl, rfl, rfl⟩
  have hin : Thread.rest.inOp = true → (s.threads t).inOp = true ∨ s.tables.sem .op ≠ 0 :=
    fun h0 => by cases h0
  rcases finish_opened (s.setTables tables) t r with hopen | ⟨⟨pathname, hopenCall⟩, hr, hopen⟩
  · exact h.moveQuietly hthreads hsem' hops' hfs hopen hin hlocked trivial fun _ h0 => h0.elim
  -- a `vfs_open` returns the row it has reserved
  have hc : c = .openFile pathname := by
    have hopenCall : (s.threads t).call = some (.openFile pathname) := hopenCall
    rw [hcall] at hopenCall
    exact Option.some.inj hopenCall
  obtain ⟨row, fs, hf, rfl⟩ : ∃ row fs, fact t = .mine row fs ∧ r = row.val := by
    rcases hres with h1 | h1 | h1
    · exact absurd hc (h1 pathname)
    · exact absurd h1 hr
    · exact h1
  have hv := h.valid t
  rw [hf] at hv
  have howns : (fact t).owns row.val := by
    rw [hf]
    rfl
  refine h.move hthreads hsem' hops' hlocked trivial (fun t' ht => ?_) (fun t' file _ h0 => h0.elim)
    fun {file} hfile => ?_
  · refine (h.valid t').change (fun _ hx => hx) rfl (fun fs row _ h0 => by rw [hfs]; exact h0)
      (fun row _ => hfs row) (fun file hab => ?_) (h.stays_quiet hthreads hin)
    rw [hopen, Function.update_of_ne (h.about_ne ht howns hab)]
    rfl
  · by_cases he : file = row.val
    · exact ⟨row, he.symm, by rw [hfs, hv.1]; simp⟩
    · rw [hopen, Function.update_of_ne he] at hfile
      obtain ⟨row', h1, h2⟩ := h.rows hfile
      exact ⟨row', h1, by rw [hfs]; exact h2⟩

theorem vfsVerifyOpen_some {s : Tables} {file : ℤ} {row : Row} (h : vfsVerifyOpen s file = some row) :
    (row.val : ℤ) = file := by
  unfold vfsVerifyOpen at h
  split at h
  · rename_i hrange
    simp only at h
    split at h
    · cases h
    · cases h
      exact Int.toNat_of_nonneg hrange.1
  · cases h

theorem openRow_ok {s : Tables} {volumename : Str} {row : Row} {fs : FsPtr}
    (h : openRow s volumename = .ok (row, fs)) : (s.files row).filesystem = none := by
  unfold openRow at h
  split at h
  · cases h
  · rename_i file hfree
    split at h
    · cases h
    · cases h
      simpa using List.find?_some hfree

theorem vfsEndOp_files (s : Tables) : (vfsEndOp s).files = s.files := by
  unfold vfsEndOp
  simp only
  split <;> rfl

theorem vfsEndOp_sem (s : Tables) {x : Sem} (hx : x ≠ .unmount) : (vfsEndOp s).sem x = s.sem x := by
  unfold vfsEndOp
  simp only
  split
  · exact Function.update_of_ne hx _ _
  · rfl

/-- **Reserving a row** for a `vfs_open`. -/
theorem Guards.reserve (h : Guards s fact) {c : Call} {volumename : Str} {k : Tables → Code}
    (hcall : (s.threads t).call = some c) (hh : (s.threads t).held .openfile = true)
    {row : Row} {fs : FsPtr} (hrow : openRow s.tables volumename = .ok (row, fs))
    (hk : (k s.tables).Locked c (s.threads t).held (s.threads t).inOp (.mine row fs)) :
    Guards ((s.setTables (s.tables.setFs row (some fs))).goto t (k s.tables))
      (Function.update fact t (.mine row fs)) := by
  have hnone := openRow_ok hrow
  have hother : ∀ r, r ≠ row →
      ((s.tables.setFs row (some fs)).files r).filesystem = (s.tables.files r).filesystem := by
    intro r hr
    simp [Tables.setFs, Tables.setFile, hr]
  have hself : ((s.tables.setFs row (some fs)).files row).filesystem = some fs := by
    simp [Tables.setFs, Tables.setFile]
  have hgrow : ∀ r, (s.tables.files r).filesystem ≠ none →
      ((s.tables.setFs row (some fs)).files r).filesystem = (s.tables.files r).filesystem := by
    intro r hr
    refine hother r ?_
    rintro rfl
    exact hr hnone
  -- the row was free, so no thread and no open handle is on it
  have hused : ∀ {t' : Fin n} {r : Row}, (fact t').about r.val → (s.tables.files r).filesystem ≠ none := by
    intro t' r hab
    have hv := h.valid t'
    cases hft : fact t' with
    | mine r' fs' =>
      rw [hft] at hab hv
      have hr : r = r' := Fin.ext (by exact_mod_cast (show (r.val : ℤ) = r'.val from hab))
      rw [hr, hv.1]
      simp
    | closing f =>
      rw [hft] at hab hv
      obtain ⟨-, r', h2, h3⟩ := hv
      have hr : r = r' := Fin.ext (by exact_mod_cast (show (r.val : ℤ) = r'.val from
        (show (r.val : ℤ) = f from hab).trans h2.symm))
      rw [hr]
      exact h3
    | handle f =>
      rw [hft] at hab hv
      obtain ⟨r', h2, h3⟩ := h.rows hv.1
      have hr : r = r' := Fin.ext (by exact_mod_cast (show (r.val : ℤ) = r'.val from
        (show (r.val : ℤ) = f from hab).trans h2.symm))
      rw [hr]
      exact h3
    | onRow r' fs' =>
      rw [hft] at hab hv
      have hr : r = r' := Fin.ext (by exact_mod_cast (show (r.val : ℤ) = r'.val from hab))
      rw [hr, hv.2.2]
      simp
    | _ =>
      rw [hft] at hab
      exact hab.elim
  have hclosed : s.opened row.val = false := by
    by_contra htrue
    rw [Bool.not_eq_false] at htrue
    obtain ⟨r, h1, h2⟩ := h.rows htrue
    have hr : r = row := Fin.ext (by exact_mod_cast h1)
    exact h2 (hr ▸ hnone)
  have hthreads : ((s.setTables (s.tables.setFs row (some fs))).goto t (k s.tables)).threads =
      Function.update s.threads t { s.threads t with pc := .at (k s.tables) } := rfl
  refine h.move hthreads (fun x hx => rfl) le_rfl ⟨c, hcall, hk⟩ ⟨hself, hclosed⟩ (fun t' ht => ?_)
    (fun t' file ht h1 h2 => ?_) fun {file} hfile => ?_
  · refine (h.valid t').change (fun _ hx => hx) rfl (fun fs' r hq _ => ?_) (fun r hab => hgrow r (hused hab))
      (fun _ _ => rfl) (h.stays_quiet hthreads fun h0 => Or.inl h0)
    -- nobody else relies on free rows: this thread holds the table
    have hv := h.valid t'
    rw [hq] at hv
    exact absurd (h.held_unique (by decide) hv.1 hh) ht
  · have hfile : file = row.val := h1
    rw [hfile] at h2
    exact hused h2.about hnone
  · obtain ⟨r, h1, h2⟩ := h.rows hfile
    refine ⟨r, h1, ?_⟩
    exact (hgrow r h2).symm ▸ h2

/-- **The search of `vfs_open`** for a row. -/
theorem Guards.search (h : Guards s fact) {c : Call} {volumename : Str} {k : Tables → Code}
    {res : Except ℤ (Row × FsPtr)} (hcall : (s.threads t).call = some c)
    (hh : (s.threads t).held .openfile = true) (hres : openRow s.tables volumename = res)
    (herr : ∀ r, openRow s.tables volumename = .error r →
      (k s.tables).Locked c (s.threads t).held (s.threads t).inOp .nothing)
    (hok : ∀ row fs, openRow s.tables volumename = .ok (row, fs) →
      (k s.tables).Locked c (s.threads t).held (s.threads t).inOp (.mine row fs)) :
    ∃ fact', Guards ((s.setTables (s.tables.reserved res)).goto t (k s.tables)) fact' := by
  cases res with
  | error r =>
    exact ⟨_, h.moveQuietly (f := .nothing) rfl (fun x _ => rfl) le_rfl (fun _ => rfl) rfl
      (fun h0 => Or.inl h0) ⟨c, hcall, herr r hres⟩ trivial fun file h0 => h0.elim⟩
  | ok p =>
    obtain ⟨row, fs⟩ := p
    exact ⟨_, h.reserve hcall hh hres (hok row fs hres)⟩

/-- **Freeing a row** that the thread has for itself. -/
theorem Guards.releaseRow (h : Guards s fact) {c : Call} {row : Row} {k : Code}
    (hcall : (s.threads t).call = some c) (hown : (fact t).owns row.val)
    (hk : k.Locked c (s.threads t).held (s.threads t).inOp .nothing) :
    Guards ((s.setTables (s.tables.setFs row none)).goto t k) (Function.update fact t .nothing) := by
  have hother : ∀ r, r ≠ row →
      ((s.tables.setFs row none).files r).filesystem = (s.tables.files r).filesystem := by
    intro r hr
    simp [Tables.setFs, Tables.setFile, hr]
  have hself : ((s.tables.setFs row none).files row).filesystem = none := by
    simp [Tables.setFs, Tables.setFile]
  have hclosed := h.owned_closed hown
  have hthreads : ((s.setTables (s.tables.setFs row none)).goto t k).threads =
      Function.update s.threads t { s.threads t with pc := .at k } := rfl
  refine h.move hthreads (fun x hx => rfl) le_rfl ⟨c, hcall, hk⟩ trivial (fun t' ht => ?_)
    (fun t' file _ h0 => h0.elim) fun {file} hfile => ?_
  · refine (h.valid t').change (fun _ hx => hx) rfl (fun fs r _ h0 => ?_) (fun r hab => hother r ?_)
      (fun _ _ => rfl) (h.stays_quiet hthreads fun h0 => Or.inl h0)
    · by_cases hr : r = row
      · rw [hr]
        exact fun h1 => by
          have := hself.symm.trans h1
          cases this
      · exact fun h1 => h0 ((hother r hr).symm.trans h1)
    · rintro rfl
      exact h.about_ne ht hown hab rfl
  · have hopened : s.opened file = true := hfile
    obtain ⟨r, h1, h2⟩ := h.rows hopened
    refine ⟨r, h1, ?_⟩
    have hr : r ≠ row := by
      rintro rfl
      rw [← h1, hclosed] at hopened
      cases hopened
    exact fun h3 => h2 ((hother r hr).symm.trans h3)

/-- What a look at the tables has added is true. -/
theorem Guards.learned (h : Guards s fact) {f : Fact} (hl : Fact.Learn s.tables (s.threads t).held (fact t) f) :
    f.Valid s (s.threads t) ∧ ∀ file, f.owns file → (fact t).owns file := by
  have hv := h.valid t
  generalize hf : fact t = f0 at hl hv
  cases hl with
  | same => exact ⟨hv, fun _ h0 => h0⟩
  | noRows hh hs =>
    refine ⟨⟨hh, fun row hrow => ?_⟩, fun _ h0 => h0.elim⟩
    rw [inUse, List.any_eq_false] at hs
    exact hs row (List.mem_finRange row) (by simpa using hrow)
  | quiet hh hs =>
    refine ⟨⟨hh, ?_⟩, fun _ h0 => h0.elim⟩
    refine count_eq_zero.1 ?_
    have := h.ops
    unfold Sys.inProgress at this
    omega
  | onRow hs => exact ⟨⟨hv.1, hv.2, hs⟩, fun _ h0 => h0.elim⟩

theorem Fact.owns_release {f : Fact} {x : Sem} {file : ℤ} (h : (f.release x).owns file) : f.owns file := by
  cases f with
  | noRows fs =>
    rw [Fact.release] at h
    split at h <;> exact h.elim
  | quiet =>
    rw [Fact.release] at h
    split at h <;> exact h.elim
  | _ => exact h

/-- What is left of a fact when a semaphore is given back. -/
theorem Fact.Valid.release {th th' : Thread} {f : Fact} {x : Sem} (h : f.Valid s th)
    (hheld : ∀ y, y ≠ x → th'.held y = th.held y) (hcall : th'.call = th.call)
    (htables : s'.tables.files = s.tables.files) (hopen : s'.opened = s.opened)
    (hin : f = .quiet → ∀ t, (s'.threads t).inOp = false) : (f.release x).Valid s' th' := by
  have hon : ∀ {file}, th.onHandle file → th'.onHandle file := by
    rintro file ⟨c, h1, h2⟩
    exact ⟨c, hcall.trans h1, h2⟩
  cases f with
  | nothing => trivial
  | noRows fs =>
    rw [Fact.release]
    split
    · trivial
    · rename_i hx
      exact ⟨(hheld _ (Ne.symm hx)).trans h.1, by rw [htables]; exact h.2⟩
  | quiet =>
    rw [Fact.release]
    split
    · trivial
    · rename_i hx
      exact ⟨(hheld _ (Ne.symm hx)).trans h.1, hin rfl⟩
  | mine row fs => exact ⟨by rw [htables]; exact h.1, by rw [hopen]; exact h.2⟩
  | closing file => exact ⟨by rw [hopen]; exact h.1, by rw [htables]; exact h.2⟩
  | handle file => exact ⟨by rw [hopen]; exact h.1, hon h.2⟩
  | onRow row fs => exact ⟨by rw [hopen]; exact h.1, hon h.2.1, by rw [htables]; exact h.2.2⟩

/-- **One step of a function.** -/
theorem Guards.codeStep (h : Guards s fact) {k : Code} (hpc : (s.threads t).pc = .at k)
    (hs : k.step s t = some s') : ∃ fact', Guards s' fact' := by
  have hlocked := h.locked t
  rw [Thread.Locked, hpc] at hlocked
  obtain ⟨c, hcall, hk⟩ := hlocked
  have hv := h.valid t
  generalize hin : (s.threads t).inOp = inOp at hk
  generalize hheld : (s.threads t).held = held at hk
  generalize hf : fact t = f at hk
  cases hk with
  | ret hh hr =>
    cases hs
    have hops : s.tables.ops ≤ s.tables.ops + (s.threads t).inOp.toNat := by omega
    exact ⟨_, h.finish (fun _ _ => rfl) hops rfl hcall (hheld ▸ hh) (hf ▸ hr)⟩
  | endOp hh hr =>
    rw [Code.step] at hs
    split at hs
    · cases hs
    · cases hs
      refine ⟨_, h.finish (fun _ hx => vfsEndOp_sem _ hx) ?_ (vfsEndOp_files _) hcall (hheld ▸ hh) (hf ▸ hr)⟩
      rw [vfsEndOp_ops, hin]
      simp
  | startOp hk =>
    rw [Code.step] at hs
    split at hs
    · cases hs
    · rename_i hsem
      cases hs
      have hfs : ∀ row, ((vfsStartOp s.tables).files row).filesystem =
          (s.tables.files row).filesystem := by
        intro row
        unfold vfsStartOp
        split <;> rfl
      refine ⟨_, h.moveQuietly (f := f) rfl (fun x _ => ?_) ?_ hfs rfl (fun _ => Or.inr hsem)
        ⟨c, hcall, hheld ▸ hk _⟩ (hf ▸ h.own_valid rfl (fun _ hx => hx) rfl hfs rfl fun _ => Or.inr hsem)
        fun file h0 => hf ▸ h0⟩
      · simp only [Sys.setThread, Sys.setTables, vfsStartOp]
        split <;> rfl
      · simp only [Sys.setThread, Sys.setTables, vfsStartOp, hin]
        cases s.tables.usable
        · simp
        · simp
  | @semP x k' _ _ _ hx hk =>
    rw [Code.step] at hs
    split at hs
    · cases hs
    · rename_i hsem
      cases hs
      have hmono : ∀ y, (s.threads t).held y = true →
          Function.update (s.threads t).held x true y = true := by
        intro y hy
        by_cases hyx : y = x
        · rw [hyx, Function.update_self]
        · rw [Function.update_of_ne hyx]
          exact hy
      refine ⟨_, h.moveQuietly (f := f) rfl (fun y _ => ?_) le_rfl (fun _ => rfl) rfl (fun h0 => Or.inl h0)
        ⟨c, hcall, ?_⟩ (hf ▸ h.own_valid rfl hmono rfl (fun _ => rfl) rfl fun h0 => Or.inl h0)
        fun file h0 => hf ▸ h0⟩
      · simp only [Sys.setThread, Sys.setTables, Tables.setSem]
        by_cases hyx : y = x
        · rw [hyx, Function.update_self, Function.update_self, hheld, hx]
          simp only [Bool.toNat_true, Bool.toNat_false]
          omega
        · rw [Function.update_of_ne hyx, Function.update_of_ne hyx]
      · simp only
        rw [hheld, hin]
        exact hk
  | @semV x k' _ _ _ hx hk =>
    cases hs
    have hthreads : ((s.setTables (s.tables.setSem x (s.tables.sem x + 1))).setThread t
        { s.threads t with pc := .at k', held := Function.update (s.threads t).held x false }).threads =
        Function.update s.threads t
          { s.threads t with pc := .at k', held := Function.update (s.threads t).held x false } := rfl
    refine ⟨_, h.moveQuietly (f := f.release x) hthreads (fun y _ => ?_) le_rfl (fun _ => rfl) rfl
      (fun h0 => Or.inl h0) ⟨c, hcall, ?_⟩ ?_ fun file h0 => ?_⟩
    · simp only [Sys.setThread, Sys.setTables, Tables.setSem]
      by_cases hyx : y = x
      · rw [hyx, Function.update_self, Function.update_self, hheld, hx]
        simp
      · rw [Function.update_of_ne hyx, Function.update_of_ne hyx]
    · simp only
      rw [hheld, hin]
      exact hk
    · rw [← hf]
      exact hv.release (fun y hy => Function.update_of_ne hy _ _) rfl rfl rfl
        (h.stays_quiet hthreads fun h0 => Or.inl h0)
    · rw [hf]
      exact Fact.owns_release h0
  | @verify file k' _ _ _ hnone hk =>
    cases hs
    have hk' : (k' (vfsVerifyOpen s.tables file)).Locked c held inOp f := by
      cases hrow : vfsVerifyOpen s.tables file with
      | none => exact hnone
      | some row => exact hk row (vfsVerifyOpen_some hrow)
    refine ⟨_, h.moveQuietly (f := f) rfl (fun x _ => rfl) le_rfl (fun _ => rfl) rfl (fun h0 => Or.inl h0)
      ⟨c, hcall, ?_⟩ (hf ▸ h.own_valid rfl (fun _ hx => hx) rfl (fun _ => rfl) rfl fun h0 => Or.inl h0)
      fun file h0 => hf ▸ h0⟩
    simp only
    rw [hheld, hin]
    exact hk'
  | @access g k' _ _ _ f' hg hl hk =>
    cases hs
    obtain ⟨hlv, hlo⟩ := h.learned (t := t) (f := f' s.tables) (by rw [hheld, hf]; exact hl s.tables)
    have hkeeps := hg s.tables
    have hthreads : ((s.setTables (g s.tables)).goto t (k' s.tables)).threads =
        Function.update s.threads t { s.threads t with pc := .at (k' s.tables) } := rfl
    refine ⟨_, h.moveQuietly (f := f' s.tables) hthreads (fun x _ => ?_) ?_ hkeeps.fs rfl (fun h0 => Or.inl h0)
      ⟨c, hcall, ?_⟩ ?_ hlo⟩
    · simp only [Sys.goto, Sys.setThread, Sys.setTables, hkeeps.sem]
    · simp only [Sys.goto, Sys.setThread, Sys.setTables, hkeeps.ops, le_refl]
    · simp only
      rw [hheld, hin]
      exact hk s.tables
    · refine hlv.change (fun _ hx => hx) rfl (fun fs row _ h0 => ?_) (fun row _ => hkeeps.fs row)
        (fun _ _ => rfl) fun hq => ?_
      · exact fun h1 => h0 ((hkeeps.fs row).symm.trans h1)
      · rw [hq] at hlv
        intro t2
        rw [hthreads]
        by_cases ht2 : t2 = t
        · rw [ht2, Function.update_self]
          exact hlv.2 t
        · rw [Function.update_of_ne ht2]
          exact hlv.2 t2
  | @reserve volumename k' _ _ hh herr hok =>
    rw [Code.step] at hs
    have hs' := Option.some.inj hs
    subst hs'
    refine h.search hcall (by rw [hheld]; exact hh) rfl (fun r hr => ?_) fun row fs hr => ?_
    · rw [hheld, hin]
      exact herr s.tables r hr
    · rw [hheld, hin]
      exact hok s.tables row fs hr
  | release hown hk =>
    cases hs
    refine ⟨_, h.releaseRow hcall (hf ▸ hown) ?_⟩
    rw [hheld, hin]
    exact hk s.tables
  | enter hg hk =>
    cases hs
    refine ⟨_, h.moveQuietly (f := f) rfl (fun x _ => rfl) le_rfl (fun _ => rfl) rfl (fun h0 => Or.inl h0)
      ⟨c, hcall, ?_, fun r => ?_⟩
      (hf ▸ h.own_valid rfl (fun _ hx => hx) rfl (fun _ => rfl) rfl fun h0 => Or.inl h0)
      fun file h0 => hf ▸ h0⟩
    · simp only
      rw [hheld, hin]
      exact hg
    · simp only
      rw [hheld, hin]
      exact hk r
  | crash => cases hs

end Guards

/-! ## Runs -/

/-- The call closes a handle. -/
def Call.isClose : Call → Bool
  | .close _ => true
  | _ => false

/-- Two calls on one handle, one of which closes it. -/
def Call.clashes (c c' : Call) : Bool :=
  c.handle.isSome && c'.handle == c.handle && (c.isClose || c'.isClose)

/-- No handle is closed while another call on it is in progress. -/
def closesAlone (s : Sys n) (t : Fin n) (c : Call) : Prop :=
  ∀ t', t' ≠ t → ∀ c' ∈ (s.threads t').call, c.clashes c' = false

/-- Every handle used has been returned by `vfs_open`. -/
def usesReturned (s : Sys n) : Action n → Prop
  | .call t c => (∀ file ∈ c.handle, s.returned file = true) ∧ closesAlone s t c
  | _ => True

/-- Every handle used has been returned by `vfs_open` and has not been closed since. -/
def usesOpen (s : Sys n) : Action n → Prop
  | .call t c => (∀ file ∈ c.handle, s.opened file = true) ∧ closesAlone s t c
  | _ => True

instance (s : Sys n) (t : Fin n) (c : Call) : Decidable (closesAlone s t c) :=
  inferInstanceAs (Decidable (∀ t', t' ≠ t → ∀ c' ∈ (s.threads t').call, c.clashes c' = false))

instance usesReturned.decidable (s : Sys n) : ∀ a, Decidable (usesReturned s a)
  | .call t c => inferInstanceAs (Decidable ((∀ file ∈ c.handle, s.returned file = true) ∧ closesAlone s t c))
  | .step _ => isTrue trivial
  | .leave _ _ => isTrue trivial

instance usesOpen.decidable (s : Sys n) : ∀ a, Decidable (usesOpen s a)
  | .call t c => inferInstanceAs (Decidable ((∀ file ∈ c.handle, s.opened file = true) ∧ closesAlone s t c))
  | .step _ => isTrue trivial
  | .leave _ _ => isTrue trivial

/-- No thread runs the `unmount` function of a filesystem while another one is inside another
function of it. -/
def UnmountAlone (s : Sys n) : Prop :=
  ∀ t t' fs op, t ≠ t' → (s.threads t).pc.driver = some (fs, .unmount) →
    (s.threads t').pc.driver = some (fs, op) → op = .unmount

section Runs

variable {s s' : Sys n} {fact : Fin n → Fact}

/-- **A thread begins to close** an open handle that nobody else is using. -/
theorem Guards.beginClose (h : Guards s fact) {t : Fin n} {file : ℤ} (hpc : (s.threads t).pc = .idle)
    (hopen : s.opened file = true) (halone : closesAlone s t (.close file)) :
    Guards (s.begin t (.close file)) (Function.update fact t (.closing file)) := by
  have hidle := h.locked t
  rw [Thread.Locked, hpc] at hidle
  obtain ⟨hheld, hin, -⟩ := hidle
  have hthreads := begin_threads s t (.close file)
  have hnot : ∀ t', t' ≠ t → ¬ (fact t').about file := by
    intro t' ht hab
    have hv := h.valid t'
    have hclosed : (fact t').owns file → s.opened file = false := fun hown => h.owned_closed hown
    have hon : ¬ (s.threads t').onHandle file := by
      rintro ⟨c', h1, h2⟩
      have hno := halone t' ht c' h1
      rw [Call.clashes, h2] at hno
      simp [Call.handle, Call.isClose] at hno
    cases hf : fact t' with
    | mine row fs =>
      rw [hf] at hab hclosed
      rw [hclosed hab] at hopen
      cases hopen
    | closing f =>
      rw [hf] at hab hclosed
      rw [hclosed hab] at hopen
      cases hopen
    | handle f =>
      rw [hf] at hab hv
      rw [show file = f from hab] at hon
      exact hon hv.2
    | onRow row fs =>
      rw [hf] at hab hv
      rw [show file = row.val from hab] at hon
      exact hon hv.2.1
    | _ =>
      rw [hf] at hab
      exact hab.elim
  have hother : ∀ file', file' ≠ file → (s.begin t (.close file)).opened file' = s.opened file' :=
    fun file' he => Function.update_of_ne he _ _
  have hrow := h.rows hopen
  refine h.move hthreads (fun _ _ => rfl) le_rfl ⟨.close file, rfl, ?_⟩
    ⟨Function.update_self _ _ _, hrow⟩ (fun t' ht => ?_) (fun t' file' ht h1 h2 => ?_) fun {file'} hf => ?_
  · simp only [hheld, hin]
    exact Call.locked (.close file)
  · refine (h.valid t').change (fun _ hx => hx) rfl (fun _ _ _ h0 => h0) (fun _ _ => rfl)
      (fun file' hab => hother file' ?_) (h.stays_quiet hthreads fun h0 => Or.inl h0)
    rintro rfl
    exact hnot t' ht hab
  · rw [show file' = file from h1] at h2
    exact hnot t' ht h2.about
  · by_cases he : file' = file
    · rw [he, show (s.begin t (.close file)).opened file = false from Function.update_self _ _ _] at hf
      cases hf
    · rw [hother file' he] at hf
      exact h.rows hf

/-- A thread begins another call. -/
theorem Guards.beginOther (h : Guards s fact) {t : Fin n} {c : Call} (hpc : (s.threads t).pc = .idle)
    (hc : c.isClose = false) (hopen : ∀ file ∈ c.handle, s.opened file = true) :
    Guards (s.begin t c) (Function.update fact t c.fact) := by
  have hidle := h.locked t
  rw [Thread.Locked, hpc] at hidle
  obtain ⟨hheld, hin, -⟩ := hidle
  have hopened : (s.begin t c).opened = s.opened := by
    cases c with
    | close file => cases hc
    | _ => rfl
  have hlocked : ({ s.threads t with pc := .at c.code, call := some c } : Thread).Locked c.fact := by
    refine ⟨c, rfl, ?_⟩
    simp only [hheld, hin]
    exact Call.locked c
  have hvalid : c.fact.Valid (s.begin t c) { s.threads t with pc := .at c.code, call := some c } := by
    cases c with
    | close file => cases hc
    | seek file seekPosition => exact ⟨hopen file rfl, _, rfl, rfl⟩
    | read file buffer bufsize => exact ⟨hopen file rfl, _, rfl, rfl⟩
    | write file buffer datasize => exact ⟨hopen file rfl, _, rfl, rfl⟩
    | _ => trivial
  refine h.moveQuietly (begin_threads s t c) (fun _ _ => ?_) ?_ (fun _ => ?_) hopened (fun h0 => Or.inl h0)
    hlocked hvalid fun file h0 => ?_
  · rw [begin_tables]
  · rw [begin_tables]
  · rw [begin_tables]
  · cases c with
    | close file => cases hc
    | _ => exact h0.elim

/-- **One action.** -/
theorem Guards.step (h : Guards s fact) {a : Action n} (ha : usesOpen s a) (hs : Vfs.step s a = some s') :
    ∃ fact', Guards s' fact' := by
  cases a with
  | call t c =>
    rw [Vfs.step] at hs
    split at hs
    · rename_i hpc
      cases hs
      by_cases hc : c.isClose = true
      · cases c with
        | close file => exact ⟨_, h.beginClose hpc (ha.1 file rfl) ha.2⟩
        | _ => cases hc
      · exact ⟨_, h.beginOther hpc (by simpa using hc) ha.1⟩
    · cases hs
  | step t =>
    rw [Vfs.step] at hs
    split at hs
    · rename_i k hpc
      exact h.codeStep hpc hs
    · cases hs
  | leave t r =>
    rw [Vfs.step] at hs
    split at hs
    · rename_i fs op k hpc
      cases hs
      have hlocked := h.locked t
      rw [Thread.Locked, hpc] at hlocked
      obtain ⟨c, hcall, -, hk⟩ := hlocked
      exact ⟨_, h.moveQuietly (f := fact t) rfl (fun x _ => rfl) le_rfl (fun _ => rfl) rfl
        (fun h0 => Or.inl h0) ⟨c, hcall, hk r⟩
        (h.own_valid rfl (fun _ hx => hx) rfl (fun _ => rfl) rfl fun h0 => Or.inl h0) fun file h0 => h0⟩
    · cases hs

theorem Guards.init (n : ℕ) : Guards (Sys.init n) fun _ => .nothing := by
  have hcount : ∀ p : Thread → Bool, p Thread.rest = false → count p (Sys.init n).threads = 0 :=
    fun p hp => count_eq_zero.2 fun _ => hp
  refine ⟨fun x hx => ?_, ?_, fun t => ⟨rfl, rfl, rfl⟩, fun _ => trivial, fun h0 => h0.elim, fun h0 => ?_⟩
  · rw [hcount _ rfl]
    cases x with
    | unmount => exact absurd rfl hx
    | _ => rfl
  · rw [Sys.inProgress, hcount _ rfl]
    exact le_rfl
  · cases h0

/-- How a thread inside a driver function is guarded. -/
theorem Guards.guarded (h : Guards s fact) {t : Fin n} {fs : ℕ} {op : FsOp}
    (hd : (s.threads t).pc.driver = some (fs, op)) :
    Guarded fs (s.threads t).held (s.threads t).inOp (fact t) op := by
  have hlocked := h.locked t
  rw [Thread.Locked] at hlocked
  cases hpc : (s.threads t).pc with
  | inside fs' op' k =>
    rw [hpc] at hd hlocked
    cases hd
    obtain ⟨-, -, hg, -⟩ := hlocked
    exact hg
  | idle =>
    rw [hpc] at hd
    cases hd
  | «at» k =>
    rw [hpc] at hd
    cases hd

/-- **The three ways of exclusion**: the mount table, the rows of open files, the count of calls. -/
theorem Guards.unmountAlone (h : Guards s fact) : UnmountAlone s := by
  intro t t' fs op hne hd hd'
  have hg := h.guarded hd
  have hg' := h.guarded hd'
  have hv := h.valid t
  have hv' := h.valid t'
  by_contra hop
  have hin : (s.threads t').inOp = true := by
    cases op with
    | unmount => exact absurd rfl hop
    | _ => exact hg'.1
  rcases hg with ⟨htable, hopenfile, hf⟩ | hf
  · rw [hf] at hv
    have hrow : ∀ {row}, (s.tables.files row).filesystem ≠ some (.driver fs) := fun {row} => hv.2 row
    cases op with
    | unmount => exact hop rfl
    | create => exact hne (h.held_unique (by decide) htable hg'.2)
    | remove => exact hne (h.held_unique (by decide) htable hg'.2)
    | getfree => exact hne (h.held_unique (by decide) htable hg'.2)
    | close => exact hne (h.held_unique (by decide) hopenfile hg'.2)
    | «open» =>
      obtain ⟨-, row, hf'⟩ := hg'
      rw [hf'] at hv'
      exact hrow hv'.1
    | read =>
      obtain ⟨-, row, hf'⟩ := hg'
      rw [hf'] at hv'
      exact hrow hv'.2.2
    | write =>
      obtain ⟨-, row, hf'⟩ := hg'
      rw [hf'] at hv'
      exact hrow hv'.2.2
  · rw [hf] at hv
    rw [hv.2 t'] at hin
    cases hin

end Runs

/-- **Unmounting is exclusive** in every state that any number of threads reach from `vfs_init` by
calls on open handles: whoever calls it, the `unmount` function of a filesystem never runs while
another thread is inside another function of that filesystem. -/
theorem vfs_unmount_exclusive (n : ℕ) (as : List (Action n)) (s : Sys n)
    (hc : Every step usesOpen (Sys.init n) as) (hr : run step (Sys.init n) as = some s) :
    UnmountAlone s := by
  have hinv : ∃ fact, Guards s fact := by
    refine run_invariant (I := fun s => ∃ fact, Guards s fact) ?_ ⟨_, Guards.init n⟩ hc hr
    rintro s a s' ha ⟨fact, hi⟩ hs
    exact hi.step ha hs
  obtain ⟨fact, hi⟩ := hinv
  exact hi.unmountAlone

/-- A filesystem is mounted, one thread is inside the `read` function, another one asks for the
unmount of the filesystem and is turned away. -/
def readAndUnmount (t u : Fin 2) : List (Action 2) :=
  [Action.call t (.mount 7 [97])] ++ List.replicate 5 (Action.step t) ++
    [Action.call t (.openFile [91, 97, 93, 102])] ++ List.replicate 7 (Action.step t) ++ [Action.leave t 5] ++
    List.replicate 2 (Action.step t) ++ [Action.call t (.read 3 true 1)] ++ List.replicate 4 (Action.step t) ++
    [Action.call u (.unmount [97])] ++ List.replicate 8 (Action.step u)

theorem vfs_unmount_exclusive_read :
    ∃ s, run step (Sys.init 2) (readAndUnmount 0 1) = some s ∧
      (s.threads 0).pc.driver = some (7, .read) ∧ UnmountAlone s := by
  have hsome : (run step (Sys.init 2) (readAndUnmount 0 1)).map (fun s => (s.threads 0).pc.driver) =
      some (some (7, .read)) := by decide +kernel
  obtain ⟨s, hs, hd⟩ := Option.map_eq_some_iff.1 hsome
  exact ⟨s, hs, hd, vfs_unmount_exclusive 2 (readAndUnmount 0 1) s (by decide +kernel) hs⟩

/-- Thread `t` opens and closes handle 3.  Thread `u` opens a file that does not exist: while it is inside
the `open` function, row 3 is reserved, and thread `t` reads through its old handle.  The open fails and
the row is freed, and thread `v` unmounts the filesystem. -/
def staleRead (t u v : Fin 3) : List (Action 3) :=
  [Action.call t (.mount 7 [97])] ++ List.replicate 5 (Action.step t) ++
    [Action.call t (.openFile [91, 97, 93, 102])] ++ List.replicate 7 (Action.step t) ++ [Action.leave t 5] ++
    List.replicate 2 (Action.step t) ++ [Action.call t (.close 3)] ++ List.replicate 5 (Action.step t) ++
    [Action.leave t 0] ++ List.replicate 3 (Action.step t) ++ [Action.call u (.openFile [91, 97, 93, 109])] ++
    List.replicate 7 (Action.step u) ++ [Action.call t (.read 3 true 1)] ++ List.replicate 4 (Action.step t) ++
    [Action.leave u (-3)] ++ List.replicate 4 (Action.step u) ++ [Action.call v (.unmount [97])] ++
    List.replicate 6 (Action.step v)

/-- **A handle that has been closed breaks the exclusion**, although `vfs_open` has returned it and no
handle is closed while another call on it is in progress. -/
theorem vfs_unmount_stale_handle :
    ¬ ∀ (n : ℕ) (as : List (Action n)) (s : Sys n), Every step usesReturned (Sys.init n) as →
      run step (Sys.init n) as = some s → UnmountAlone s := by
  intro h
  have hsome : (run step (Sys.init 3) (staleRead 0 1 2)).map
      (fun s => ((s.threads 2).pc.driver, (s.threads 0).pc.driver)) =
      some (some (7, .unmount), some (7, .read)) := by decide +kernel
  obtain ⟨s, hs, hd⟩ := Option.map_eq_some_iff.1 hsome
  have halone := h 3 (staleRead 0 1 2) s (by decide +kernel) hs
  cases halone 2 0 7 .read (by decide) (congrArg Prod.fst hd) (congrArg Prod.snd hd)

end Buenos.Vfs
