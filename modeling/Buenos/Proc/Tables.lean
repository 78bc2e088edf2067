import Buenos.Proc.Memory

/-!
# Page tables in runs

* `Tables` — the page table of every thread carries its ASID and has one entry for a pair of pages.
* `Orderly` — that, and slots and threads are paired.

Principal result: `Orderly.next`, that every event keeps this.
-/

namespace Buenos.Proc

open Buenos.Vm Buenos.Transition

variable {rows : ℕ} {s s' : Machine rows} {t : TID} {e : Event rows}

/-- The page table of every thread is its own and in order. -/
def Tables (s : Machine rows) : Prop := ∀ t pt, s.pagetable t = some pt → pt.Wf t

theorem Tables.set (h : Tables s) {pt : Option Pagetable} (hpt : ∀ x, pt = some x → x.Wf t) {s' : Machine rows}
    (hs : s'.pagetable = Function.update s.pagetable t pt) : Tables s' := by
  intro t' pt' ht'
  rw [hs] at ht'
  by_cases heq : t' = t
  · subst heq
    rw [Function.update_self] at ht'
    exact hpt pt' ht'
  · rw [Function.update_of_ne heq] at ht'
    exact h t' pt' ht'

theorem vmCreatePagetable_wf {pool pool' : Pool} {asid : ℕ} {memory : ℕ → TlbEntry} {pt : Pagetable}
    (h : vmCreatePagetable pool asid memory = some (some pt, pool')) :
    pt.Wf asid ∧ ∀ page, pt.mapping page = none := by
  unfold vmCreatePagetable at h
  split at h
  · cases h
  · split at h
    · cases h
    · cases h
      refine ⟨⟨rfl, Nat.zero_le _, ?_, ?_⟩, fun page => Pagetable.mapping_none ?_⟩
      · intro i hi
        exact absurd hi (Nat.not_lt_zero i)
      · intro i hi
        exact absurd hi (Nat.not_lt_zero i)
      · intro i hi
        exact absurd hi (Nat.not_lt_zero i)

/-- A start that fails leaves the thread without a page table and does not touch the TLB. -/
theorem failStart_tables (h : failStart s t = some s') :
    s'.tlb = s.tlb ∧ s'.pagetable = Function.update s.pagetable t none := by
  unfold failStart at h
  split at h
  · simp only at h
    split at h
    · rename_i hnone
      cases h
      exact ⟨rfl, (Function.update_eq_self_iff.2 hnone.symm).symm⟩
    · split at h
      · cases h
      · split at h
        · cases h
        · split at h
          · cases h
          · cases h
            exact ⟨rfl, rfl⟩
  · cases h

/-- `exit` leaves the thread without a page table; the rows for its entries are invalidated. -/
theorem exitProcess_tables (hw : Tables s) {retval : ℤ} (h : exitProcess s t retval = some s') :
    s'.pagetable = Function.update s.pagetable t none ∧ ∃ pt pt', s.pagetable t = some pt ∧ pt'.Wf t ∧
      (∀ vpn2, pt'.findEntry vpn2 = pt.findEntry vpn2) ∧
      s'.tlb = invalidateTlb pt' (List.range pt'.validCount) s.tlb := by
  unfold exitProcess at h
  split at h
  · cases h
  · split at h
    · rename_i procs pt hexit hpt
      split at h
      · cases h
      · rename_i pt' pool hun
        split at h
        · cases h
        · split at h
          · cases h
          · cases h
            exact ⟨rfl, pt, pt', hpt, (vmUnmap_mapping (hw t pt hpt) hun).1,
              vmUnmap_findEntry (hw t pt hpt) hun, rfl⟩
    · cases h

theorem Tables.next (h : Tables s) (hpair : Paired s.procs) (hs : next s e = some s') : Tables s' := by
  cases next_effect hpair hs with
  | none => exact h
  | created hnone hc => exact h.set (by rintro x ⟨⟩; exact (vmCreatePagetable_wf hc).1) rfl
  | @mapped t _ pt _ _ _ _ _ hpt hget hphys hmap =>
    exact h.set (by rintro x ⟨⟩; exact (vmMap_mapping (h t pt hpt) hmap).1) rfl
  | heap hp => exact h
  | @dirtied t _ pt _ _ _ htodo hpt hset =>
    exact h.set (by rintro x ⟨⟩; exact (vmSetDirty_mapping (h t pt hpt) hset).1) rfl
  | replaced hpt hi => exact h
  | refilled hpt hmiss hfill => exact h
  | @limited t _ _ pt _ hp hpt hr =>
    exact h.set (by rintro x ⟨⟩; exact (syscallHandleMemlimit_mapping (h t pt hpt) hr).1) rfl
  | failed hwhy hpool hf => exact h.set (by rintro x ⟨⟩) (failStart_tables hf).2
  | exited hwhy he => exact h.set (by rintro x ⟨⟩) (exitProcess_tables h he).1

/-- The page tables and the process table are in order. -/
structure Orderly (s : Machine rows) : Prop where
  paired : Paired s.procs
  tables : Tables s

theorem orderly_boot (rows numPages staticEnd : ℕ) : Orderly (Machine.boot rows numPages staticEnd) :=
  ⟨paired_init, fun t pt h => by cases h⟩

theorem Orderly.next (h : Orderly s) (hs : next s e = some s') : Orderly s' :=
  ⟨next_paired h.paired hs, h.tables.next h.paired hs⟩

end Buenos.Proc
