import Buenos.Fs.Vfs.System

/-!
# The count of active operations

`vfs_ops` should be the number of calls between their successful `vfs_start_op` and their return.

* `Code.Balanced` — every path of a function that ends with a return calls `vfs_end_op` exactly when
  it is in an operation, as long as `vfs_verify_open` finds the handle open.
* `keepsCount` — the condition on a step: a seek position is not negative, a read buffer is proper,
  and `vfs_verify_open` finds an open row.

Principal results: `vfs_ops_inProgress` (the count is exact in every run whose steps meet the
condition), `vfs_close_leaks` (a close of a bad handle leaves an operation behind for ever).
-/

namespace Buenos.Vfs

open Buenos.Fs (VFS_OK VFS_ERROR VFS_NOT_FOUND)
open Transition

variable {n : ℕ}

/-! ## Balanced code -/

/-- Code that leaves an operation (`inOp`) exactly through `vfs_end_op`. -/
inductive Code.Balanced : Code → Bool → Prop
  | ret (r : ℤ) : Balanced (.ret r) false
  | endOp (r : ℤ) : Balanced (.endOp r) true
  | startOp {k : Bool → Code} (h : ∀ ok, Balanced (k ok) ok) : Balanced (.startOp k) false
  | semP {x : Sem} {k : Code} {inOp : Bool} (h : Balanced k inOp) : Balanced (.semP x k) inOp
  | semV {x : Sem} {k : Code} {inOp : Bool} (h : Balanced k inOp) : Balanced (.semV x k) inOp
  | verify {file : ℤ} {k : Option Row → Code} {inOp : Bool}
      (h : ∀ row, Balanced (k (some row)) inOp) : Balanced (.verify file k) inOp
  | access {f : Tables → Tables} {k : Tables → Code} {inOp : Bool} (hf : ∀ s, (f s).ops = s.ops)
      (h : ∀ s, Balanced (k s) inOp) : Balanced (.access f k) inOp
  | enter {fs : ℕ} {op : FsOp} {k : ℤ → Code} {inOp : Bool} (h : ∀ r, Balanced (k r) inOp) :
      Balanced (.enter fs op k) inOp
  | crash {inOp : Bool} : Balanced .crash inOp

/-- The arguments that do not make `vfs_seek` or `vfs_read` return early. -/
def Call.properArgs : Call → Bool
  | .seek _ seekPosition => 0 ≤ seekPosition
  | .read _ buffer bufsize => 0 ≤ bufsize ∧ buffer = true
  | _ => true

section Balanced

variable {inOp : Bool}

theorem balanced_look {k : Tables → Code} (h : ∀ s, (k s).Balanced inOp) :
    (Code.look k).Balanced inOp := .access (fun _ => rfl) h

theorem balanced_store {f : Tables → Tables} {k : Code} (hf : ∀ s, (f s).ops = s.ops)
    (h : k.Balanced inOp) : (Code.store f k).Balanced inOp := .access hf fun _ => h

theorem balanced_callFs {fs : FsPtr} {op : FsOp} {k : ℤ → Code} (h : ∀ r, (k r).Balanced inOp) :
    (Code.callFs fs op k).Balanced inOp := by
  cases fs with
  | reserved => exact .crash
  | driver id => exact .enter h

/-- A function that returns at once when the VFS is not usable. -/
theorem balanced_startOp {r : ℤ} {c : Code} (h : c.Balanced true) :
    (Code.startOp fun ok => if !ok then .ret r else c).Balanced false := by
  refine .startOp fun ok => ?_
  cases ok with
  | false => exact .ret r
  | true => exact h

theorem balanced_advance (row : Row) (r : ℤ) : (advance row r).Balanced true := by
  unfold advance
  split
  · exact .semP (balanced_store (fun _ => rfl) (.semV (.endOp r)))
  · exact .endOp r

theorem balanced_callLocked (volumename : Str) (op : FsOp) :
    (callLocked volumename op).Balanced true := by
  refine .semP (balanced_look fun s => ?_)
  split
  · exact .semV (.endOp _)
  · exact balanced_callFs fun r => .semV (.endOp r)

theorem balanced_unmountRows {k : Code} (hk : k.Balanced false) :
    ∀ rows : List Mount, (unmountRows rows k).Balanced false
  | [] => hk
  | row :: rows => by
    refine balanced_look fun s => ?_
    split
    · exact balanced_unmountRows hk rows
    · exact balanced_callFs fun _ =>
        balanced_store (fun _ => rfl) (balanced_unmountRows hk rows)

theorem balanced_deinitTables : deinitTables.Balanced false :=
  .semP (.semP (balanced_unmountRows
    (.semV (.semV (.semV (.ret _)))) _))

end Balanced

/-! ## The functions -/

theorem mounted_ops (s : Tables) (fs : ℕ) (name : Str) (r : Except ℤ Mount) :
    (s.mounted fs name r).ops = s.ops := by
  cases r <;> rfl

theorem reserved_ops (s : Tables) (r : Except ℤ (Row × FsPtr)) : (s.reserved r).ops = s.ops := by
  cases r <;> rfl

theorem vfsMount_balanced (fs : ℕ) (name : Str) : (vfsMount fs name).Balanced false := by
  unfold vfsMount
  split
  · exact .ret _
  · refine balanced_startOp (.semP (.access (fun s => ?_) fun s => .semV ?_))
    · exact mounted_ops s fs name _
    · split
      · exact .endOp _
      · exact .endOp _

theorem vfsUnmount_balanced (name : Str) : (vfsUnmount name).Balanced false := by
  refine balanced_startOp (.semP (balanced_look fun s => ?_))
  split
  · exact .semV (.endOp _)
  · rename_i row fs _
    refine .semP (balanced_look fun s => ?_)
    cases inUse s fs
    · exact balanced_callFs fun _ =>
        balanced_store (fun _ => rfl) (.semV (.semV (.endOp _)))
    · exact .semV (.semV (.endOp _))

theorem vfsOpen_balanced (pathname : Str) : (vfsOpen pathname).Balanced false := by
  refine balanced_startOp ?_
  split
  · exact .endOp _
  · rename_i volumename filename _
    refine .semP (.semP (.access (fun s => ?_) fun s =>
      .semV (.semV ?_)))
    · exact reserved_ops s _
    · generalize openRow s volumename = row
      cases row with
      | error r => exact .endOp _
      | ok p =>
        refine balanced_callFs fun fileid => ?_
        split
        · exact .semP (balanced_store (fun _ => rfl) (.semV (.endOp _)))
        · exact balanced_store (fun _ => rfl) (.endOp _)

theorem vfsClose_balanced (file : ℤ) : (vfsClose file).Balanced false := by
  refine balanced_startOp (.semP (.verify fun row => balanced_look fun s => ?_))
  split
  · exact .crash
  · exact balanced_callFs fun _ => balanced_store (fun _ => rfl) (.semV (.endOp _))

theorem vfsSeek_balanced {file seekPosition : ℤ} (h : 0 ≤ seekPosition) :
    (vfsSeek file seekPosition).Balanced false := by
  refine balanced_startOp ?_
  rw [if_neg (by omega)]
  exact .semP (.verify fun row => balanced_store (fun _ => rfl) (.semV (.endOp _)))

theorem vfsRead_balanced {file bufsize : ℤ} (h : 0 ≤ bufsize) :
    (vfsRead file true bufsize).Balanced false := by
  refine balanced_startOp (.verify fun row => balanced_look fun s => ?_)
  rw [if_neg (by simpa using h)]
  split
  · exact .crash
  · exact balanced_callFs (balanced_advance row)

theorem vfsWrite_balanced (file : ℤ) (buffer : Bool) (datasize : ℤ) :
    (vfsWrite file buffer datasize).Balanced false := by
  refine balanced_startOp (.verify fun row => balanced_look fun s => ?_)
  split
  · exact .crash
  · split
    · exact .crash
    · exact balanced_callFs (balanced_advance row)

theorem vfsCreate_balanced (pathname : Str) (size : ℤ) : (vfsCreate pathname size).Balanced false := by
  unfold vfsCreate
  split
  · exact .ret _
  · refine balanced_startOp ?_
    split
    · exact .endOp _
    · exact balanced_callLocked _ _

theorem vfsRemove_balanced (pathname : Str) : (vfsRemove pathname).Balanced false := by
  refine balanced_startOp ?_
  split
  · exact .endOp _
  · exact balanced_callLocked _ _

theorem vfsGetfree_balanced (filesystem : Str) : (vfsGetfree filesystem).Balanced false :=
  balanced_startOp (balanced_callLocked _ _)

theorem vfsDeinit_balanced : vfsDeinit.Balanced false := by
  refine .semP (.access (fun s => rfl) fun s => ?_)
  split
  · refine .semV (.semP (.semP (balanced_look fun s => ?_)))
    split
    · exact balanced_deinitTables
    · exact .crash
  · exact balanced_deinitTables

/-- **Every function is balanced**, up to early returns for improper arguments. -/
theorem Call.balanced (c : Call) (h : c.properArgs = true) : c.code.Balanced false := by
  cases c with
  | mount fs name => exact vfsMount_balanced fs name
  | unmount name => exact vfsUnmount_balanced name
  | openFile pathname => exact vfsOpen_balanced pathname
  | close file => exact vfsClose_balanced file
  | seek file seekPosition => exact vfsSeek_balanced (by simpa [Call.properArgs] using h)
  | read file buffer bufsize =>
    simp only [Call.properArgs, decide_eq_true_eq] at h
    rw [h.2]
    exact vfsRead_balanced h.1
  | write file buffer datasize => exact vfsWrite_balanced file buffer datasize
  | create pathname size => exact vfsCreate_balanced pathname size
  | remove pathname => exact vfsRemove_balanced pathname
  | getfree filesystem => exact vfsGetfree_balanced filesystem
  | deinit => exact vfsDeinit_balanced

/-! ## The invariant -/

/-- The position of a thread is balanced with its operation. -/
def Pc.Balanced : Pc → Bool → Prop
  | .idle, inOp => inOp = false
  | .at c, inOp => c.Balanced inOp
  | .inside _ _ k, inOp => ∀ r, (k r).Balanced inOp

/-- The count is exact and every thread will keep it so. -/
structure Counted (s : Sys n) : Prop where
  ops : s.tables.ops = s.inProgress
  balanced : ∀ t, (s.threads t).pc.Balanced (s.threads t).inOp

/-- The handle that the thread is about to verify. -/
def Pc.verified : Pc → Option ℤ
  | .at (.verify file _) => some file
  | _ => none

/-- The step keeps the count: proper arguments, and `vfs_verify_open` finds the handle open. -/
def keepsCount (s : Sys n) : Action n → Prop
  | .call _ c => c.properArgs = true
  | .step t => ∀ file ∈ (s.threads t).pc.verified, (vfsVerifyOpen s.tables file).isSome = true
  | .leave _ _ => True

instance (s : Sys n) : ∀ a, Decidable (keepsCount s a)
  | .call _ c => inferInstanceAs (Decidable (c.properArgs = true))
  | .step t => inferInstanceAs (Decidable (∀ file ∈ (s.threads t).pc.verified,
      (vfsVerifyOpen s.tables file).isSome = true))
  | .leave _ _ => isTrue trivial

section Steps

variable {s : Sys n} {t : Fin n}

theorem finish_tables (s : Sys n) (t : Fin n) (r : ℤ) : (s.finish t r).tables = s.tables := by
  unfold Sys.finish
  split
  · split <;> rfl
  · rfl

theorem finish_threads (s : Sys n) (t : Fin n) (r : ℤ) :
    (s.finish t r).threads = Function.update s.threads t Thread.rest := by
  unfold Sys.finish
  split
  · split <;> rfl
  · rfl

theorem begin_tables (s : Sys n) (t : Fin n) (c : Call) : (s.begin t c).tables = s.tables := by
  cases c <;> rfl

theorem begin_threads (s : Sys n) (t : Fin n) (c : Call) : (s.begin t c).threads =
    Function.update s.threads t { s.threads t with pc := .at c.code, call := some c } := by
  cases c <;> rfl

theorem vfsEndOp_ops (s : Tables) : (vfsEndOp s).ops = s.ops - 1 := by
  unfold vfsEndOp
  simp only
  split <;> rfl

/-- One thread moves to a balanced position and the count follows it. -/
theorem Counted.move {s' : Sys n} (h : Counted s) {th : Thread}
    (hthreads : s'.threads = Function.update s.threads t th) (hb : th.pc.Balanced th.inOp)
    (hops : s'.tables.ops + (s.threads t).inOp.toNat = s.tables.ops + th.inOp.toNat) :
    Counted s' := by
  refine ⟨?_, fun t' => ?_⟩
  · have hcount := count_update Thread.inOp s.threads t th
    rw [← hthreads] at hcount
    have := h.ops
    unfold Sys.inProgress at this ⊢
    omega
  · rw [hthreads]
    by_cases ht : t' = t
    · rw [ht, Function.update_self]
      exact hb
    · rw [Function.update_of_ne ht]
      exact h.balanced t'

/-- **One step of a function** keeps the count. -/
theorem Counted.codeStep (h : Counted s) {c : Code} {s' : Sys n}
    (hpc : (s.threads t).pc = .at c)
    (hver : ∀ file k, c = .verify file k → (vfsVerifyOpen s.tables file).isSome = true)
    (hs : c.step s t = some s') : Counted s' := by
  have hb : c.Balanced (s.threads t).inOp := by
    have hb := h.balanced t
    rwa [hpc] at hb
  generalize hin : (s.threads t).inOp = inOp at hb
  cases hb with
  | ret r =>
    cases hs
    refine h.move (finish_threads s t r) rfl ?_
    rw [finish_tables, hin]
    rfl
  | endOp r =>
    rw [Code.step] at hs
    split at hs
    · cases hs
    · cases hs
      refine h.move (finish_threads _ t r) rfl ?_
      rw [finish_tables, hin]
      simp only [Sys.setTables, vfsEndOp_ops, Bool.toNat_true, Thread.rest, Bool.toNat_false]
      omega
  | startOp hb =>
    rw [Code.step] at hs
    split at hs
    · cases hs
    · cases hs
      refine h.move rfl (hb _) ?_
      rw [hin]
      simp only [Sys.setTables, Sys.setThread, vfsStartOp]
      cases s.tables.usable
      · rfl
      · simp
  | semP hb =>
    rw [Code.step] at hs
    split at hs
    · cases hs
    · cases hs
      subst hin
      exact h.move rfl hb rfl
  | semV hb =>
    cases hs
    subst hin
    exact h.move rfl hb rfl
  | @verify file k _ hb =>
    cases hs
    subst hin
    obtain ⟨row, hrow⟩ := Option.isSome_iff_exists.1 (hver file k rfl)
    refine h.move rfl ?_ rfl
    rw [hrow]
    exact hb row
  | access hf hb =>
    cases hs
    subst hin
    refine h.move rfl (hb _) ?_
    simp only [Sys.goto, Sys.setThread, Sys.setTables, hf]
  | enter hb =>
    cases hs
    subst hin
    exact h.move rfl hb rfl
  | crash => cases hs

/-- **One action** that meets the condition keeps the count. -/
theorem Counted.step {a : Action n} {s' : Sys n} (hc : keepsCount s a) (h : Counted s)
    (hs : Vfs.step s a = some s') : Counted s' := by
  cases a with
  | call t c =>
    rw [Vfs.step] at hs
    split at hs
    · rename_i hpc
      cases hs
      have hb := h.balanced t
      rw [hpc] at hb
      have hin : (s.threads t).inOp = false := hb
      refine h.move (begin_threads s t c) ?_ ?_
      · simp only [hin]
        exact c.balanced hc
      · rw [begin_tables]
    · cases hs
  | step t =>
    rw [Vfs.step] at hs
    split at hs
    · rename_i c hpc
      refine h.codeStep hpc (fun file k he => ?_) hs
      rw [keepsCount, hpc, he] at hc
      exact hc file rfl
    · cases hs
  | leave t r =>
    rw [Vfs.step] at hs
    split at hs
    · rename_i fs op k hpc
      cases hs
      have hb := h.balanced t
      rw [hpc] at hb
      exact h.move rfl (hb r) rfl
    · cases hs

theorem Counted.init (n : ℕ) : Counted (Sys.init n) := by
  refine ⟨?_, fun t => rfl⟩
  have hzero : (Sys.init n).inProgress = 0 := count_eq_zero.2 fun t => rfl
  rw [hzero]
  rfl

end Steps

/-- **`vfs_ops` counts the calls in progress** in every state that threads reach from `vfs_init` by
steps that meet the condition; it is 0 when no call is in progress, so that `vfs_deinit` has
nothing to wait for. -/
theorem vfs_ops_inProgress (n : ℕ) (as : List (Action n)) (s : Sys n)
    (hc : Every step keepsCount (Sys.init n) as) (hr : run step (Sys.init n) as = some s) :
    s.tables.ops = s.inProgress ∧ ((∀ t, (s.threads t).inOp = false) → s.tables.ops = 0) := by
  have h : Counted s := run_invariant (fun hc hi hs => hi.step hc hs) (Counted.init n) hc hr
  refine ⟨h.ops, fun hno => ?_⟩
  rw [h.ops, show s.inProgress = 0 from count_eq_zero.2 hno]
  rfl

/-- Mount a filesystem as `a`, then open a file on it. -/
def openActions : List (Action 1) :=
  [Action.call 0 (.mount 7 [97])] ++ List.replicate 5 (Action.step 0) ++
    [Action.call 0 (.openFile [91, 97, 93, 102])] ++ List.replicate 7 (Action.step 0) ++ [Action.leave 0 5] ++
    List.replicate 2 (Action.step 0)

theorem vfs_ops_inProgress_open :
    ∃ s, run step (Sys.init 1) openActions = some s ∧ s.tables.ops = s.inProgress ∧
      ((∀ t, (s.threads t).inOp = false) → s.tables.ops = 0) := by
  have hsome : (run step (Sys.init 1) openActions).isSome = true := by decide +kernel
  obtain ⟨s, hs⟩ := Option.isSome_iff_exists.1 hsome
  exact ⟨s, hs, vfs_ops_inProgress 1 openActions s (by decide +kernel) hs⟩

/-- Close a handle that is not open. -/
def badClose : List (Action 1) := .call 0 (.close (-1)) :: List.replicate 5 (.step 0)

/-- `vfs_deinit` up to its wait for pending operations. -/
def startDeinit : List (Action 1) := .call 0 .deinit :: List.replicate 3 (.step 0)

/-- **A close of a bad handle is never counted as finished**: after it has returned, no call is in
progress and `vfs_ops` is 1, and `vfs_deinit` then waits on a semaphore that nobody will raise. -/
theorem vfs_close_leaks :
    (run step (Sys.init 1) badClose).map
      (fun s => (s.tables.ops, s.inProgress, (s.threads 0).inOp, (s.threads 0).call)) =
        some (1, 0, false, none) ∧
    (run step (Sys.init 1) (badClose ++ startDeinit)).map
      (fun s => (s.tables.sem .unmount, (step s (.step 0)).isSome)) = some (0, false) := by
  decide +kernel

end Buenos.Vfs
