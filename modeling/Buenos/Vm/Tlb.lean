import Buenos.Vm.Pagetable
import Mathlib.Data.List.FinRange

/-!
# The TLB

The hardware TLB and `vm/tlb.c`.  A row holds an entry for a pair of pages of one address space, or
nothing yet; an access matches a row on the pair `(VPN2, ASID)`.

* `tlbProbe` — the row that matches, the lowest one if there are more.
* `tlbReplaceEntryIfExists` — as `tlb_replace_entry_if_exists`.
* `tryToFill` — as `try_to_fill`, with the row that `tlbwr` picks.
* `tlbAccess` — what the hardware does with an access.
-/

namespace Buenos.Vm

/-- The rows of the TLB. -/
abbrev Tlb (rows : ℕ) := Fin rows → Option TlbEntry

section Rows

variable {rows : ℕ}

/-- Does the entry match an access? -/
def TlbEntry.matches (e : TlbEntry) (vpn2 asid : ℕ) : Bool := e.vpn2 == vpn2 && e.asid == asid

/-- `_tlb_probe`. -/
def tlbProbe (tlb : Tlb rows) (vpn2 asid : ℕ) : Option (Fin rows) :=
  (List.finRange rows).find? fun r => (tlb r).any (·.matches vpn2 asid)

/-- `tlb_replace_entry_if_exists`, with the same entry to look for and to write. -/
def tlbReplaceEntryIfExists (tlb : Tlb rows) (e : TlbEntry) : Tlb rows :=
  match tlbProbe tlb e.vpn2 e.asid with
  | none => tlb
  | some r => Function.update tlb r (some e)

/-- The test of `try_to_fill` on the half of the page. -/
def Half.canFill (h : Half) (checkDirty : Bool) : Bool := h.v && (!checkDirty || h.d)

/-- `try_to_fill`: the TLB with the entry of the page in the row `random`, `none` when it returns 0. -/
def tryToFill (tlb : Tlb rows) (pt : Pagetable) (badvaddr : ℕ) (checkDirty : Bool) (random : Fin rows) :
    Option (Tlb rows) :=
  match vmGetEntryByVaddr pt badvaddr with
  | none => none
  | some i =>
    if ((pt.entries i).half (onOddPage badvaddr)).canFill checkDirty then
      some (Function.update tlb random (some (pt.entries i)))
    else none

/-- Does the page table let `try_to_fill` succeed? -/
def fillable (pt : Pagetable) (badvaddr : ℕ) (checkDirty : Bool) : Bool :=
  (vmGetEntryByVaddr pt badvaddr).any fun i => ((pt.entries i).half (onOddPage badvaddr)).canFill checkDirty

/-- The outcome of an access in the TLB: it goes through, it needs a refill, or it writes to a page
without the dirty bit. -/
inductive Access where
  | done
  | miss
  | modified
  deriving DecidableEq

/-- An access of address space `asid`. -/
def tlbAccess (tlb : Tlb rows) (asid vaddr : ℕ) (store : Bool) : Access :=
  match (tlbProbe tlb (vpn2Of vaddr) asid).bind tlb with
  | none => .miss
  | some e =>
    let h := e.half (onOddPage vaddr)
    if h.v then (if store && !h.d then .modified else .done) else .miss

variable {tlb : Tlb rows} {r : Fin rows} {e : TlbEntry} {vpn2 asid : ℕ}

theorem matches_iff : e.matches vpn2 asid = true ↔ e.vpn2 = vpn2 ∧ e.asid = asid := by
  simp [TlbEntry.matches]

theorem tlbProbe_some (h : tlbProbe tlb vpn2 asid = some r) :
    ∃ e, tlb r = some e ∧ e.vpn2 = vpn2 ∧ e.asid = asid := by
  have hany := List.find?_some h
  rw [Option.any_eq_true] at hany
  obtain ⟨e, he, hm⟩ := hany
  exact ⟨e, he, matches_iff.1 hm⟩

/-- What a row holds after the replacement. -/
theorem tlbReplaceEntryIfExists_row (tlb : Tlb rows) (e : TlbEntry) (r : Fin rows) :
    tlbReplaceEntryIfExists tlb e r = tlb r ∨
      tlbReplaceEntryIfExists tlb e r = some e ∧ ∃ e', tlb r = some e' ∧ e'.vpn2 = e.vpn2 ∧ e'.asid = e.asid := by
  unfold tlbReplaceEntryIfExists
  cases hp : tlbProbe tlb e.vpn2 e.asid with
  | none => exact Or.inl rfl
  | some r' =>
    by_cases hr : r = r'
    · subst hr
      exact Or.inr ⟨Function.update_self _ _ _, tlbProbe_some hp⟩
    · exact Or.inl (Function.update_of_ne hr _ _)

/-- The entry that `try_to_fill` writes is the page table's for the address. -/
theorem tryToFill_some {pt : Pagetable} {badvaddr : ℕ} {checkDirty : Bool} {random : Fin rows} {tlb' : Tlb rows}
    (h : tryToFill tlb pt badvaddr checkDirty random = some tlb') :
    fillable pt badvaddr checkDirty = true ∧ ∃ i, pt.findEntry (vpn2Of badvaddr) = some i ∧
      tlb' = Function.update tlb random (some (pt.entries i)) := by
  unfold tryToFill at h
  split at h
  · cases h
  · rename_i i hi
    split at h
    · rename_i hc
      cases h
      refine ⟨by rw [fillable, hi, Option.any_some, hc], i, ?_, rfl⟩
      unfold vmGetEntryByVaddr at hi
      split at hi
      · cases hi
      · exact hi
    · cases h

theorem tryToFill_none {pt : Pagetable} {badvaddr : ℕ} {checkDirty : Bool} {random : Fin rows}
    (h : tryToFill tlb pt badvaddr checkDirty random = none) : fillable pt badvaddr checkDirty = false := by
  unfold tryToFill at h
  split at h
  · rename_i hi
    rw [fillable, hi]
    rfl
  · rename_i i hi
    split at h
    · cases h
    · rename_i hc
      rw [fillable, hi, Option.any_some]
      exact eq_false_of_ne_true hc

/-! ## Rows and the pairs they hold -/

/-- The rows hold the same pairs. -/
def SamePairs (tlb tlb' : Tlb rows) : Prop :=
  ∀ r, (tlb' r).map (fun e => (e.vpn2, e.asid)) = (tlb r).map fun e => (e.vpn2, e.asid)

/-- No two rows hold one pair. -/
def Distinct (tlb : Tlb rows) : Prop :=
  ∀ r r' e e', tlb r = some e → tlb r' = some e' → e.vpn2 = e'.vpn2 → e.asid = e'.asid → r = r'

theorem SamePairs.some {tlb' : Tlb rows} (h : SamePairs tlb tlb') (hr : tlb' r = some e) :
    ∃ e', tlb r = some e' ∧ e'.vpn2 = e.vpn2 ∧ e'.asid = e.asid := by
  have hp := h r
  rw [hr, Option.map_some] at hp
  obtain ⟨e', he', heq⟩ := Option.map_eq_some_iff.1 hp.symm
  exact ⟨e', he', congrArg Prod.fst heq, congrArg Prod.snd heq⟩

theorem tlbReplaceEntryIfExists_pairs (tlb : Tlb rows) (e : TlbEntry) :
    SamePairs tlb (tlbReplaceEntryIfExists tlb e) := by
  intro r
  rcases tlbReplaceEntryIfExists_row tlb e r with h | ⟨h, e', he', hv, ha⟩
  · rw [h]
  · rw [h, he', Option.map_some, Option.map_some, hv, ha]

theorem SamePairs.trans {tlb' tlb'' : Tlb rows} (h : SamePairs tlb tlb') (h' : SamePairs tlb' tlb'') :
    SamePairs tlb tlb'' := fun r => (h' r).trans (h r)

theorem SamePairs.distinct {tlb' : Tlb rows} (h : SamePairs tlb tlb') (hd : Distinct tlb) : Distinct tlb' := by
  intro r r' e e' hr hr' hv ha
  obtain ⟨f, hf, hfv, hfa⟩ := h.some hr
  obtain ⟨f', hf', hfv', hfa'⟩ := h.some hr'
  exact hd r r' f f' hf hf' (hfv.trans (hv.trans hfv'.symm)) (hfa.trans (ha.trans hfa'.symm))

/-- The probe looks at the pairs only. -/
theorem SamePairs.probe {tlb' : Tlb rows} (h : SamePairs tlb tlb') (vpn2 asid : ℕ) :
    tlbProbe tlb' vpn2 asid = tlbProbe tlb vpn2 asid := by
  unfold tlbProbe
  congr 1
  funext r
  have hp := h r
  cases hr : tlb r with
  | none =>
    rw [hr, Option.map_none, Option.map_eq_none_iff] at hp
    rw [hp]
  | some e =>
    rw [hr, Option.map_some] at hp
    obtain ⟨e', he', heq⟩ := Option.map_eq_some_iff.1 hp
    obtain ⟨hv, ha⟩ := Prod.mk.inj heq
    rw [he', Option.any_some, Option.any_some, TlbEntry.matches, TlbEntry.matches, hv, ha]

/-- A write to one row leaves the pairs distinct when no other row holds the pair. -/
theorem Distinct.write (hd : Distinct tlb) (hother : ∀ r', r' ≠ r → ∀ f, tlb r' = some f →
    ¬ (f.vpn2 = e.vpn2 ∧ f.asid = e.asid)) : Distinct (Function.update tlb r (some e)) := by
  intro r1 r2 e1 e2 h1 h2 hv ha
  by_cases hr1 : r1 = r
  · by_cases hr2 : r2 = r
    · rw [hr1, hr2]
    · rw [hr1, Function.update_self] at h1
      cases h1
      rw [Function.update_of_ne hr2] at h2
      exact absurd ⟨hv.symm, ha.symm⟩ (hother r2 hr2 e2 h2)
  · rw [Function.update_of_ne hr1] at h1
    by_cases hr2 : r2 = r
    · rw [hr2, Function.update_self] at h2
      cases h2
      exact absurd ⟨hv, ha⟩ (hother r1 hr1 e1 h1)
    · rw [Function.update_of_ne hr2] at h2
      exact hd r1 r2 e1 e2 h1 h2 hv ha

end Rows

end Buenos.Vm
