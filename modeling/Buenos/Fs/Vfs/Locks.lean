import Buenos.Base.LockOrder
import Buenos.Fs.Sfs.Model

/-!
# The locks of the file system

Which locks the functions of `vfs.c` and `sfs.c` take, in which order and on which of their paths.  The
functions are programs over these locks; what they branch on is left open, so that every path is one
that a thread may take, and a function that returns different values goes on in different ways.
Waiting for the disk, and for `vfs_unmount_sem`, is not waiting for one of the locks.

* `Resource` — the semaphores and locks, and for the entries of the tables of open files the two things
  that a thread waits for on `io_cond`: the thread in `writer_tid`, and the readers inside. A thread sleeps there
  only while one of these is inside, but `sfs_reset_entry` may have cleared the fields that count them.
* `program` — the calls of the virtual file system.

Principal result: `fs_no_deadlock` — no threads wait for each other in a circle.
-/

namespace Buenos.Vfs.Locks

open LockOrder Transition

/-- The semaphores `vfs_op_sem`, `vfs_table.sem` and `openfile_table.sem`; the locks of a volume; and
for each entry of its table of open files `io_lock`, being the thread in `writer_tid`, and being one of
the threads that `readernum` counts. -/
inductive Resource (V : Type) where
  | opSem
  | tableSem
  | openfileSem
  | openfileLock (v : V)
  | sfsLock (v : V)
  | writer (v : V) (e : Fs.Slot)
  | readers (v : V) (e : Fs.Slot)
  | ioLock (v : V) (e : Fs.Slot)
  deriving DecidableEq

/-- The order in which they are taken. -/
def rank {V : Type} : Resource V → ℕ
  | .opSem => 0
  | .tableSem => 1
  | .openfileSem => 2
  | .openfileLock _ => 3
  | .sfsLock _ => 4
  | .writer _ _ => 5
  | .readers _ _ => 6
  | .ioLock _ _ => 7

/-! ## The functions -/

section Functions

variable {V : Type} (v : V) (e : Fs.Slot)

/-- `_delete`. -/
def delete (k : Code (Resource V)) : Code (Resource V) := .acquire (.sfsLock v) (.release (.sfsLock v) k)

/-- `_delete_from_dirtree`. -/
def deleteFromDirtree (k : Code (Resource V)) : Code (Resource V) :=
  .acquire (.sfsLock v) (.release (.sfsLock v) k)

/-- `sfs_enter_ext`. -/
def sfsEnterExt (markAsDeleted : Bool) (entered failed : Code (Resource V)) : Code (Resource V) :=
  .choice failed <| .acquire (.openfileLock v) <| .choice (.release (.openfileLock v) failed) <|
    let out := .release (.openfileLock v) entered
    if markAsDeleted then .choice (deleteFromDirtree v out) out else out

/-- `sfs_enter`. -/
def sfsEnter (entered failed : Code (Resource V)) : Code (Resource V) := sfsEnterExt v false entered failed

/-- `sfs_exit`. Where `sfs_reset_entry` clears `readernum` and `writer_tid` of the entry, other threads may still be
inside: who waits on `io_cond` then goes on beside them, as an `await` may do at any time. -/
def sfsExit (k : Code (Resource V)) : Code (Resource V) :=
  .acquire (.openfileLock v) <|
    .choice (.release (.openfileLock v) k) <|
      .choice (delete v (.release (.openfileLock v) k)) (.release (.openfileLock v) k)

/-- `sfs_resolve_file_ext`; an invalid path is not looked up. -/
def sfsResolveFile (found missing : Code (Resource V)) : Code (Resource V) :=
  .choice missing <| .acquire (.sfsLock v) <|
    .choice (.release (.sfsLock v) found) (.release (.sfsLock v) missing)

/-- The loop of `sfs_unmount`. -/
def deleteMarked : ℕ → Code (Resource V) → Code (Resource V)
  | 0, k => k
  | n + 1, k => .choice (delete v (deleteMarked n k)) (deleteMarked n k)

/-- `sfs_unmount`: the semaphore is taken, and destroyed. -/
def sfsUnmount (k : Code (Resource V)) : Code (Resource V) :=
  deleteMarked v 32 (.acquire (.sfsLock v) (.destroy (.sfsLock v) k))

/-- `sfs_open`. -/
def sfsOpen (opened failed : Code (Resource V)) : Code (Resource V) :=
  sfsResolveFile v (sfsEnterExt v false (sfsExit v (.choice opened failed)) failed) failed

/-- `sfs_close`. -/
def sfsClose (k : Code (Resource V)) : Code (Resource V) := sfsEnter v (sfsExit v k) k

/-- `sfs_create`. -/
def sfsCreate (k : Code (Resource V)) : Code (Resource V) :=
  .choice k (sfsResolveFile v k (.choice k (.acquire (.sfsLock v) (.release (.sfsLock v) k))))

/-- `sfs_remove`. -/
def sfsRemove (k : Code (Resource V)) : Code (Resource V) :=
  sfsResolveFile v (.choice k (sfsEnterExt v true (sfsExit v k) k)) k

/-- `sfs_end_read`. -/
def sfsEndRead (k : Code (Resource V)) : Code (Resource V) :=
  .acquire (.ioLock v e) (.release (.readers v e) (.release (.ioLock v e) (sfsExit v k)))

/-- `sfs_read`. -/
def sfsRead (k : Code (Resource V)) : Code (Resource V) :=
  .choice k (sfsEnter v (.acquire (.ioLock v e) (.await (.writer v e) (.ioLock v e)
    (.enter (.readers v e) (.release (.ioLock v e) (sfsEndRead v e k))))) k)

/-- `sfs_end_write`. -/
def sfsEndWrite (k : Code (Resource V)) : Code (Resource V) :=
  .acquire (.ioLock v e) (.release (.writer v e) (.release (.ioLock v e) (sfsExit v k)))

/-- `sfs_write`; nothing is given back when the file is a folder. -/
def sfsWrite (k : Code (Resource V)) : Code (Resource V) :=
  .choice k (sfsEnter v (.choice k (.acquire (.ioLock v e) (.await (.writer v e) (.ioLock v e)
    (.enter (.writer v e) (.await (.readers v e) (.ioLock v e)
      (.release (.ioLock v e) (sfsEndWrite v e k))))))) k)

/-- `sfs_getfree`. -/
def sfsGetfree (k : Code (Resource V)) : Code (Resource V) :=
  .acquire (.sfsLock v) (.release (.sfsLock v) k)

/-- `vfs_start_op`, followed by the rest of the operation or by its `return VFS_UNUSABLE`. -/
def vfsStartOp (ok : Code (Resource V)) : Code (Resource V) :=
  .acquire .opSem (.choice (.release .opSem ok) (.release .opSem .ret))

/-- `vfs_end_op`, with which an operation ends. -/
def vfsEndOp : Code (Resource V) := .acquire .opSem (.release .opSem .ret)

/-- The end of the operations that hold both semaphores. -/
def releaseBoth (k : Code (Resource V)) : Code (Resource V) := .release .openfileSem (.release .tableSem k)

/-- The update of `seek_position`, or of a row, under `openfile_table.sem`, before the operation ends. -/
def updateRow : Code (Resource V) := .acquire .openfileSem (.release .openfileSem vfsEndOp)

/-- `vfs_mount`. -/
def vfsMount : Code (Resource V) := vfsStartOp (.acquire .tableSem (.release .tableSem vfsEndOp))

/-- `vfs_unmount`. -/
def vfsUnmount : Code (Resource V) :=
  vfsStartOp <| .acquire .tableSem <| .choice (.release .tableSem vfsEndOp) <|
    .acquire .openfileSem <| .choice (releaseBoth vfsEndOp) (sfsUnmount v (releaseBoth vfsEndOp))

/-- `vfs_open`. -/
def vfsOpen : Code (Resource V) :=
  vfsStartOp <| .choice vfsEndOp <| .acquire .tableSem <| .acquire .openfileSem <|
    .choice (releaseBoth vfsEndOp) (releaseBoth (sfsOpen v vfsEndOp updateRow))

/-- `vfs_close`; a file that is not open does not end the operation. -/
def vfsClose : Code (Resource V) :=
  vfsStartOp <| .acquire .openfileSem <|
    .choice (.release .openfileSem .ret) (sfsClose v (.release .openfileSem vfsEndOp))

/-- `vfs_seek`; wrong arguments do not end the operation. -/
def vfsSeek : Code (Resource V) :=
  vfsStartOp <| .choice .ret <| .acquire .openfileSem <|
    .choice (.release .openfileSem .ret) (.release .openfileSem vfsEndOp)

/-- `vfs_read`; wrong arguments do not end the operation. -/
def vfsRead : Code (Resource V) := vfsStartOp <| .choice .ret <| sfsRead v e (.choice updateRow vfsEndOp)

/-- `vfs_write`; wrong arguments do not end the operation. -/
def vfsWrite : Code (Resource V) := vfsStartOp <| .choice .ret <| sfsWrite v e (.choice updateRow vfsEndOp)

/-- What `vfs_create` and `vfs_remove` have in common: `call` is the call of the file system. -/
def underTable (call : Code (Resource V) → Code (Resource V)) : Code (Resource V) :=
  .acquire .tableSem <| .choice (.release .tableSem vfsEndOp) (call (.release .tableSem vfsEndOp))

/-- `vfs_create`. -/
def vfsCreate : Code (Resource V) :=
  .choice .ret <| vfsStartOp <| .choice vfsEndOp <| underTable (sfsCreate v)

/-- `vfs_remove`. -/
def vfsRemove : Code (Resource V) := vfsStartOp <| .choice vfsEndOp <| underTable (sfsRemove v)

/-- `vfs_getfree`. -/
def vfsGetfree : Code (Resource V) := vfsStartOp <| underTable (sfsGetfree v)

/-- The loop of `vfs_deinit` over the volumes. -/
def unmountAll : List V → Code (Resource V) → Code (Resource V)
  | [], k => k
  | v :: vs, k => sfsUnmount v (unmountAll vs k)

/-- `vfs_deinit`; while it waits for `vfs_unmount_sem` it holds nothing. -/
def vfsDeinit (vs : List V) : Code (Resource V) :=
  let rest : Code (Resource V) :=
    .acquire .tableSem (.acquire .openfileSem (unmountAll vs (releaseBoth (.release .opSem .ret))))
  .acquire .opSem (.choice (.release .opSem (.acquire .opSem rest)) rest)

end Functions

/-- The calls; the volume and the entry are those that the call finds, if it finds them. -/
inductive Call (V : Type) where
  | openFile (v : V)
  | close (v : V)
  | seek
  | read (v : V) (e : Fs.Slot)
  | write (v : V) (e : Fs.Slot)
  | create (v : V)
  | remove (v : V)
  | getfree (v : V)
  | mount
  | unmount (v : V)
  | deinit (vs : List V)

def program {V : Type} : Call V → Code (Resource V)
  | .openFile v => vfsOpen v
  | .close v => vfsClose v
  | .seek => vfsSeek
  | .read v e => vfsRead v e
  | .write v e => vfsWrite v e
  | .create v => vfsCreate v
  | .remove v => vfsRemove v
  | .getfree v => vfsGetfree v
  | .mount => vfsMount
  | .unmount v => vfsUnmount v
  | .deinit vs => vfsDeinit vs

/-- A thread calls a function of the virtual file system, goes on inside it, or is woken on `io_cond`. -/
inductive Action (τ V : Type) where
  | call (t : τ) (c : Call V)
  | go (t : τ) (b : Bool)
  | wake (t : τ)

def step {τ V : Type} [Fintype τ] [DecidableEq τ] [DecidableEq V] (s : State τ (Resource V)) :
    Action τ V → Option (State τ (Resource V))
  | .call t c => LockOrder.step s (.call t (program c))
  | .go t b => LockOrder.step s (.go t b)
  | .wake t => LockOrder.step s (.wake t)

/-! ## The order is kept -/

section Order

variable {V : Type} [DecidableEq V] {v : V} {e : Fs.Slot} {held : List (Resource V)}
  {k entered failed found missing : Code (Resource V)}

theorem ordered_sfsLock (h : ∀ r ∈ held, rank r < 4) (hk : Ordered rank held k) :
    Ordered rank held (.acquire (.sfsLock v) (.release (.sfsLock v) k)) := by
  refine ⟨h, ?_⟩
  rw [ordered_release_head]
  exact hk

omit [DecidableEq V] in
/-- `openfile_lock` is taken before `sfs->lock`. -/
theorem below_sfsLock (h : ∀ r ∈ held, rank r < 3) : ∀ r ∈ Resource.openfileLock v :: held, rank r < 4 := by
  intro r hr
  rcases List.mem_cons.1 hr with rfl | hr
  · simp [rank]
  · have := h r hr
    omega

theorem ordered_sfsEnterExt (h : ∀ r ∈ held, rank r < 3) (m : Bool) (hk : Ordered rank held entered)
    (hf : Ordered rank held failed) : Ordered rank held (sfsEnterExt v m entered failed) := by
  have hout : Ordered rank (.openfileLock v :: held) (.release (.openfileLock v) entered) := by
    rw [ordered_release_head]
    exact hk
  refine ⟨hf, h, ?_, ?_⟩
  · rw [ordered_release_head]
    exact hf
  · cases m with
    | true => exact ⟨ordered_sfsLock (below_sfsLock h) hout, hout⟩
    | false => exact hout

theorem ordered_sfsExit (h : ∀ r ∈ held, rank r < 3) (hk : Ordered rank held k) :
    Ordered rank held (sfsExit v k) := by
  have hout : Ordered rank (.openfileLock v :: held) (.release (.openfileLock v) k) := by
    rw [ordered_release_head]
    exact hk
  exact ⟨h, hout, ordered_sfsLock (below_sfsLock h) hout, hout⟩

theorem ordered_sfsResolveFile (h : ∀ r ∈ held, rank r < 4) (hf : Ordered rank held found)
    (hm : Ordered rank held missing) : Ordered rank held (sfsResolveFile v found missing) := by
  refine ⟨hm, h, ?_, ?_⟩
  · rw [ordered_release_head]
    exact hf
  · rw [ordered_release_head]
    exact hm

theorem ordered_deleteMarked (h : ∀ r ∈ held, rank r < 4) (hk : Ordered rank held k) :
    ∀ n, Ordered rank held (deleteMarked v n k)
  | 0 => hk
  | n + 1 => ⟨ordered_sfsLock h (ordered_deleteMarked h hk n), ordered_deleteMarked h hk n⟩

theorem ordered_sfsUnmount (h : ∀ r ∈ held, rank r < 4) (hk : Ordered rank held k) :
    Ordered rank held (sfsUnmount v k) := by
  have hlast : Ordered rank held (.acquire (.sfsLock v) (.destroy (.sfsLock v) k)) :=
    ⟨h, ordered_destroy_head.2 hk⟩
  exact ordered_deleteMarked h hlast 32

theorem ordered_unmountAll (h : ∀ r ∈ held, rank r < 4) (hk : Ordered rank held k) :
    ∀ vs : List V, Ordered rank held (unmountAll vs k)
  | [] => hk
  | _ :: vs => ordered_sfsUnmount h (ordered_unmountAll h hk vs)

theorem ordered_vfsEndOp : Ordered rank [] (vfsEndOp : Code (Resource V)) := by
  simp [vfsEndOp]

theorem ordered_updateRow : Ordered rank [] (updateRow : Code (Resource V)) := by
  simp [updateRow, vfsEndOp]

theorem ordered_vfsStartOp (hk : Ordered rank [] k) : Ordered rank [] (vfsStartOp k) := by
  simpa [vfsStartOp] using hk

theorem ordered_sfsRead (hk : Ordered rank [] k) : Ordered rank [] (sfsRead v e k) := by
  refine ⟨hk, ordered_sfsEnterExt (by simp) false ?_ hk⟩
  have hexit : Ordered rank [] (sfsExit v k) := ordered_sfsExit (by simp) hk
  simpa [sfsEndRead, rank] using hexit

theorem ordered_sfsWrite (hk : Ordered rank [] k) : Ordered rank [] (sfsWrite v e k) := by
  refine ⟨hk, ordered_sfsEnterExt (by simp) false ⟨hk, ?_⟩ hk⟩
  have hexit : Ordered rank [] (sfsExit v k) := ordered_sfsExit (by simp) hk
  simpa [sfsEndWrite, rank] using hexit

/-- The file system is called with `vfs_table.sem` held. -/
theorem ordered_underTable {call : Code (Resource V) → Code (Resource V)}
    (h : ∀ k, Ordered rank [.tableSem] k → Ordered rank [.tableSem] (call k)) :
    Ordered rank [] (underTable call) := by
  have hout : Ordered rank [.tableSem] (.release .tableSem vfsEndOp : Code (Resource V)) := by
    simpa using ordered_vfsEndOp
  exact ⟨by simp, hout, h _ hout⟩

/-- **The calls take their locks in order**, on every path. -/
theorem ordered_program (c : Call V) : Ordered rank [] (program c) := by
  have hend : Ordered rank [] (vfsEndOp : Code (Resource V)) := ordered_vfsEndOp
  have hboth : ∀ k : Code (Resource V), Ordered rank [] k →
      Ordered rank [.openfileSem, .tableSem] (releaseBoth k) := fun k hk => by
    simpa [releaseBoth] using hk
  have htable : ∀ r ∈ [(.tableSem : Resource V)], rank r < 3 := by simp [rank]
  cases c with
  | openFile v =>
    have hopen : Ordered rank [] (sfsOpen v vfsEndOp updateRow) :=
      ordered_sfsResolveFile (by simp)
        (ordered_sfsEnterExt (by simp) false
          (ordered_sfsExit (by simp) ⟨hend, ordered_updateRow⟩) ordered_updateRow) ordered_updateRow
    exact ordered_vfsStartOp ⟨hend, by simp, by simp [rank], hboth _ hend, hboth _ hopen⟩
  | close v =>
    have hout : Ordered rank [.openfileSem] (.release .openfileSem vfsEndOp : Code (Resource V)) := by
      simpa using hend
    have hsem : ∀ r ∈ [(.openfileSem : Resource V)], rank r < 3 := by simp [rank]
    exact ordered_vfsStartOp ⟨by simp, by simp,
      ordered_sfsEnterExt hsem false (ordered_sfsExit hsem hout) hout⟩
  | seek =>
    exact ordered_vfsStartOp ⟨rfl, by simp, by simp, by simpa using hend⟩
  | read v e => exact ordered_vfsStartOp ⟨rfl, ordered_sfsRead ⟨ordered_updateRow, hend⟩⟩
  | write v e => exact ordered_vfsStartOp ⟨rfl, ordered_sfsWrite ⟨ordered_updateRow, hend⟩⟩
  | create v =>
    refine ⟨rfl, ordered_vfsStartOp ⟨hend, ordered_underTable fun k hk => ?_⟩⟩
    have hlock : ∀ r ∈ [(.tableSem : Resource V)], rank r < 4 := by simp [rank]
    exact ⟨hk, ordered_sfsResolveFile hlock hk ⟨hk, ordered_sfsLock hlock hk⟩⟩
  | remove v =>
    refine ordered_vfsStartOp ⟨hend, ordered_underTable fun k hk => ?_⟩
    have hlock : ∀ r ∈ [(.tableSem : Resource V)], rank r < 4 := by simp [rank]
    exact ordered_sfsResolveFile hlock
      ⟨hk, ordered_sfsEnterExt htable true (ordered_sfsExit htable hk) hk⟩ hk
  | getfree v => exact ordered_vfsStartOp (ordered_underTable fun k hk => ordered_sfsLock (by simp [rank]) hk)
  | mount => exact ordered_vfsStartOp (by simpa using hend)
  | unmount v =>
    refine ordered_vfsStartOp ⟨by simp, by simpa using hend, by simp [rank], hboth _ hend, ?_⟩
    exact ordered_sfsUnmount (by simp [rank]) (hboth _ hend)
  | deinit vs =>
    have hrest : Ordered rank [.opSem]
        (.acquire .tableSem (.acquire .openfileSem (unmountAll vs (releaseBoth (.release .opSem .ret))))) := by
      refine ⟨by simp [rank], by simp [rank], ordered_unmountAll (by simp [rank]) ?_ vs⟩
      simp [releaseBoth]
    exact ⟨by simp, ⟨by simp, by simpa using hrest⟩, hrest⟩

end Order

/-! ## Runs -/

section Runs

variable {τ V : Type} [Fintype τ] [DecidableEq τ] [DecidableEq V]

theorem disciplined_step {s s' : State τ (Resource V)} (h : Disciplined rank s) {a : Action τ V}
    (hs : step s a = some s') : Disciplined rank s' := by
  cases a with
  | call t c =>
    refine h.step (a := .call t (program c)) (fun t' p hp => ?_) hs
    cases hp
    exact ordered_program c
  | go t b => exact h.step (a := .go t b) (fun t' p hp => by cases hp) hs
  | wake t => exact h.step (a := .wake t) (fun t' p hp => by cases hp) hs

/-- **No deadlock among the locks of the file system.**  Whatever calls any number of threads make and
however these interleave, no thread waits for itself through others. -/
theorem fs_no_deadlock (as : List (Action τ V)) (s : State τ (Resource V))
    (hr : run step State.init as = some s) (t : τ) : ¬ Relation.TransGen (WaitsFor s) t t :=
  (run_always (fun h hs => disciplined_step h hs) disciplined_init hr).acyclic t

end Runs

/-- Thread 0 removes a file, with `vfs_table.sem` and `openfile_lock`; thread 1 wants to create one, and
thread 2 closes a file of the same volume. -/
def contention : List (Action (Fin 3) Unit) :=
  [.call 0 (.remove ()), .go 0 true, .go 0 true, .go 0 true, .go 0 false, .go 0 true,
    .go 0 false, .go 0 false, .go 0 true, .go 0 true, .go 0 true, .go 0 false, .go 0 false, .go 0 true,
    .call 1 (.create ()), .go 1 false, .go 1 true, .go 1 true, .go 1 true, .go 1 false,
    .call 2 (.close ()), .go 2 true, .go 2 true, .go 2 true, .go 2 true, .go 2 false, .go 2 false]

theorem fs_no_deadlock_contention :
    ∃ s, run step State.init contention = some s ∧ WaitsFor s 1 0 ∧ WaitsFor s 2 0 ∧
      ∀ t, ¬ Relation.TransGen (WaitsFor s) t t := by
  have hrun : ∃ s, run step State.init contention = some s ∧
      ((s.code 1).waits = some .tableSem ∧ (s.code 2).waits = some (.openfileLock ())) ∧
      (.tableSem ∈ s.holds 0 ∧ .openfileLock () ∈ s.holds 0) := by decide +kernel
  obtain ⟨s, hs, ⟨h1, h2⟩, h3, h4⟩ := hrun
  exact ⟨s, hs, ⟨_, h1, h3⟩, ⟨_, h2, h4⟩, fun t => fs_no_deadlock contention s hs t⟩

end Buenos.Vfs.Locks
