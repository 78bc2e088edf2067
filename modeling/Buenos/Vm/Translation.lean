import Buenos.Base.AddressSpace
import Buenos.Vm.PagetableMap
import Buenos.Vm.Tlb

/-!
# Where an address leads

The place in physical memory that belongs to an address, as the page table has it and as the TLB has it.

* `physOf` — the place that a page table gives.
* `tlbPlace` — the place that an access goes to, when it goes through.

Principal results: `physOf_same`, that two addresses lead to one place only when their pages have one frame, and
`tlbPlace_isSome`.
-/

namespace Buenos.Vm

open AddressSpace

/-- The place that the page table gives for an address. -/
def physOf (pt : Pagetable) (vaddr : ℕ) : Option ℕ :=
  (pt.mapping (vaddr / PAGE_SIZE)).map fun m => m.frame * PAGE_SIZE + vaddr % PAGE_SIZE

section Pagetable

variable {pt pt' : Pagetable} {vaddr vaddr' p : ℕ}

theorem physOf_eq_some : physOf pt vaddr = some p ↔
    p % PAGE_SIZE = vaddr % PAGE_SIZE ∧ (pt.mapping (vaddr / PAGE_SIZE)).map (·.frame) = some (p / PAGE_SIZE) := by
  unfold physOf
  cases pt.mapping (vaddr / PAGE_SIZE) with
  | none => simp
  | some m =>
    simp only [Option.map_some, Option.some.injEq]
    constructor
    · rintro rfl
      unfold PAGE_SIZE
      omega
    · rintro ⟨hmod, hdiv⟩
      rw [hdiv, ← hmod]
      exact Nat.div_add_mod' p PAGE_SIZE

theorem physOf_isSome : (physOf pt vaddr).isSome = (pt.mapping (vaddr / PAGE_SIZE)).isSome := by
  rw [physOf, Option.isSome_map]

/-- **Two addresses that lead to one place** are as far into their pages, and the pages have one frame. -/
theorem physOf_same (h : physOf pt vaddr = some p) (h' : physOf pt' vaddr' = some p)
    (hpage : (pt.mapping (vaddr / PAGE_SIZE)).map (·.frame) = some (p / PAGE_SIZE) →
      (pt'.mapping (vaddr' / PAGE_SIZE)).map (·.frame) = some (p / PAGE_SIZE) →
      vaddr / PAGE_SIZE = vaddr' / PAGE_SIZE) : vaddr = vaddr' := by
  rw [physOf_eq_some] at h h'
  have hsame := hpage h.2 h'.2
  have hmod : vaddr % PAGE_SIZE = vaddr' % PAGE_SIZE := h.1.symm.trans h'.1
  rw [← Nat.div_add_mod' vaddr PAGE_SIZE, hsame, hmod]
  exact Nat.div_add_mod' vaddr' PAGE_SIZE

end Pagetable

section Rows

variable {rows : ℕ} {tlb : Tlb rows} {asid vaddr p : ℕ} {store : Bool}

/-- The place that an access of address space `asid` goes to; `none` when it does not go through. -/
def tlbPlace (tlb : Tlb rows) (asid vaddr : ℕ) (store : Bool) : Option ℕ :=
  match (tlbProbe tlb (vpn2Of vaddr) asid).bind tlb with
  | none => none
  | some e =>
    let h := e.half (onOddPage vaddr)
    if h.v && (!store || h.d) then some (h.pfn * PAGE_SIZE + vaddr % PAGE_SIZE) else none

/-- An access goes to a place when it goes through. -/
theorem tlbPlace_isSome : (tlbPlace tlb asid vaddr store).isSome = true ↔ tlbAccess tlb asid vaddr store = .done := by
  unfold tlbPlace tlbAccess
  cases (tlbProbe tlb (vpn2Of vaddr) asid).bind tlb with
  | none => simp
  | some e =>
    simp only
    generalize e.half (onOddPage vaddr) = h
    rcases h with ⟨pfn, d, v⟩
    cases v <;> cases d <;> cases store <;> simp

/-- The row that an access goes through. -/
theorem tlbPlace_row (h : tlbPlace tlb asid vaddr store = some p) : ∃ r e, tlb r = some e ∧ e.vpn2 = vpn2Of vaddr ∧
    e.asid = asid ∧ (e.half (onOddPage vaddr)).v = true ∧
    p = (e.half (onOddPage vaddr)).pfn * PAGE_SIZE + vaddr % PAGE_SIZE := by
  unfold tlbPlace at h
  split at h
  · cases h
  · rename_i e he
    simp only at h
    split at h
    · rename_i hok
      cases h
      obtain ⟨r, hr, her⟩ := Option.bind_eq_some_iff.1 he
      obtain ⟨e', he', hv, ha⟩ := tlbProbe_some hr
      rw [her] at he'
      cases he'
      exact ⟨r, e, her, hv, ha, (Bool.and_eq_true _ _ ▸ hok).1, rfl⟩
    · cases h

end Rows

end Buenos.Vm
