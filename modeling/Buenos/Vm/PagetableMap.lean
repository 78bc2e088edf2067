import Buenos.Base.Transition
import Buenos.Vm.Pagetable
import Mathlib.Data.Finset.Card

/-!
# Page tables as finite maps

Sequences of `vm_map`, `vm_set_dirty` and `vm_unmap` on one page table that starts empty, beside a finite
map from pages to frames with which the same is done.

* `Op`, `step` — the operations; `vm_unmap` runs on whatever page pool there is.
* `PageMap` — the map, and the pairs of which a page has ever been mapped.
* `Represents` — what the map says about the table.
* `Exact` — `vm_get_vaddr_page_offsets` is right about an address.

Principal results: `pagetable_refines`, `lookup_exact`.
-/

namespace Buenos.Vm.PagetableMap

open Buenos.Transition

/-! ## Operations -/

/-- An operation on the page table. -/
inductive Op where
  | map (physaddr vaddr : ℕ) (dirty : Bool)
  | setDirty (vaddr : ℕ) (dirty : Bool)
  | unmap (vaddr : ℕ) (pool : Pool)

/-- The table after an operation; `vm_map` leaves it when it returns -1, and `none` is a failed assertion
or a kernel panic. -/
def step (pt : Pagetable) : Op → Option Pagetable
  | .map physaddr vaddr dirty => some ((vmMap pt physaddr vaddr dirty).getD pt)
  | .setDirty vaddr dirty => vmSetDirty pt vaddr dirty
  | .unmap vaddr pool => (vmUnmap pt vaddr pool).map (·.1)

/-- `vm_set_dirty` and `vm_unmap` are for mapped pages. -/
def Allowed (pt : Pagetable) : Op → Prop
  | .map _ _ _ => True
  | .setDirty vaddr _ => (pt.mapping (vaddr / PAGE_SIZE)).isSome = true
  | .unmap vaddr _ => (pt.mapping (vaddr / PAGE_SIZE)).isSome = true

instance (pt : Pagetable) (op : Op) : Decidable (Allowed pt op) := by
  cases op with
  | map => exact instDecidableTrue
  | setDirty => exact inferInstanceAs (Decidable (_ = true))
  | unmap => exact inferInstanceAs (Decidable (_ = true))

/-! ## The finite map -/

/-- A partial map from pages, and the pairs of pages of which one has ever been mapped. -/
structure PageMap where
  page : ℕ → Option Mapping
  pairs : Finset ℕ

/-- Nothing is mapped, and nothing has been. -/
def PageMap.empty : PageMap := ⟨fun _ => none, ∅⟩

/-- A page is not mapped again, and there is room for so many pairs only. -/
def PageMap.refuses (m : PageMap) (vaddr : ℕ) : Prop :=
  m.page (vaddr / PAGE_SIZE) ≠ none ∨ vpn2Of vaddr ∉ m.pairs ∧ m.pairs.card = PAGETABLE_ENTRIES

instance (m : PageMap) (vaddr : ℕ) : Decidable (m.refuses vaddr) :=
  inferInstanceAs (Decidable (_ ∨ _ ∧ _))

/-- The same operation on the map. -/
def PageMap.apply (m : PageMap) : Op → PageMap
  | .map physaddr vaddr dirty =>
    if m.refuses vaddr then m
    else { page := Function.update m.page (vaddr / PAGE_SIZE) (some ⟨physaddr / PAGE_SIZE, dirty⟩)
           pairs := insert (vpn2Of vaddr) m.pairs }
  | .setDirty vaddr dirty =>
    let x := (m.page (vaddr / PAGE_SIZE)).map fun x => { x with dirty := dirty }
    { m with page := Function.update m.page (vaddr / PAGE_SIZE) x }
  | .unmap vaddr _ => { m with page := Function.update m.page (vaddr / PAGE_SIZE) none }

/-- **The table represents the map.** -/
structure Represents (pt : Pagetable) (m : PageMap) : Prop where
  distinct : ∀ i < pt.validCount, ∀ j < pt.validCount, (pt.entries i).vpn2 = (pt.entries j).vpn2 → i = j
  bounded : pt.validCount ≤ PAGETABLE_ENTRIES
  exact : ∀ page x, m.page page = some x ↔ ∃ i < pt.validCount, (pt.entries i).vpn2 = page / 2 ∧
    (pt.entries i).half (decide (page % 2 = 1)) = ⟨x.frame, x.dirty, true⟩
  pairs : ∀ v, v ∈ m.pairs ↔ ∃ i < pt.validCount, (pt.entries i).vpn2 = v
  count : pt.validCount = m.pairs.card
  finite : ∀ page, m.page page ≠ none → page / 2 ∈ m.pairs

section Refinement

variable {pt pt' : Pagetable} {m : PageMap} {t vaddr physaddr page : ℕ} {dirty : Bool}

/-- The invariant of a run: the table is in order, and the map and the pairs are those of its entries. -/
structure Related (t : ℕ) (pt : Pagetable) (m : PageMap) : Prop where
  wf : pt.Wf t
  mapping : pt.mapping = m.page
  pairs : ∀ v, v ∈ m.pairs ↔ (pt.findEntry v).isSome = true
  count : pt.validCount = m.pairs.card

/-- A mapping of a page is a valid half of its entry. -/
theorem mapping_some (hw : pt.Wf t) {x : Mapping} : pt.mapping page = some x ↔ ∃ i < pt.validCount,
    (pt.entries i).vpn2 = page / 2 ∧ (pt.entries i).half (decide (page % 2 = 1)) = ⟨x.frame, x.dirty, true⟩ := by
  have hhalf : ∀ h : Half, h.mapping = some x ↔ h = ⟨x.frame, x.dirty, true⟩ := by
    rintro ⟨pfn, d, v⟩
    cases v
    · simp [Half.mapping]
    · simp [Half.mapping, Mapping.ext_iff]
  constructor
  · intro h
    cases hf : pt.findEntry (page / 2) with
    | none =>
      rw [Pagetable.mapping, hf] at h
      cases h
    | some i =>
      obtain ⟨hi, hv⟩ := findEntry_some hf
      rw [hw.mapping_eq hi hv] at h
      exact ⟨i, hi, hv, (hhalf _).1 h⟩
  · rintro ⟨i, hi, hv, hx⟩
    rw [hw.mapping_eq hi hv]
    exact (hhalf _).2 hx

theorem Related.represents (h : Related t pt m) : Represents pt m where
  distinct := h.wf.distinct
  bounded := h.wf.count
  exact := fun page x => by
    rw [← h.mapping]
    exact mapping_some h.wf
  pairs := fun v => by
    rw [h.pairs]
    exact findEntry_isSome
  count := h.count
  finite := fun page hp => by
    obtain ⟨x, hx⟩ := Option.ne_none_iff_exists'.1 hp
    rw [← h.mapping] at hx
    obtain ⟨i, hi, hv, -⟩ := (mapping_some h.wf).1 hx
    rw [h.pairs, findEntry_isSome]
    exact ⟨i, hi, hv⟩

/-- **`vm_map` returns -1** exactly for the addresses that the map refuses. -/
theorem Related.refuses_iff (h : Related t pt m) : vmMap pt physaddr vaddr dirty = none ↔ m.refuses vaddr := by
  have hsome : (vmMap pt physaddr vaddr dirty).isSome = true ↔ _ := vmMap_isSome h.wf
  rw [h.mapping, ← h.pairs, h.count] at hsome
  have hle : m.pairs.card ≤ PAGETABLE_ENTRIES := h.count ▸ h.wf.count
  have hroom : m.pairs.card < PAGETABLE_ENTRIES ↔ m.pairs.card ≠ PAGETABLE_ENTRIES := by omega
  rw [← Option.not_isSome_iff_eq_none, hsome, PageMap.refuses, hroom]
  tauto

/-- Every operation keeps the table and the map together. -/
theorem Related.step (h : Related t pt m) {op : Op} (hallowed : Allowed pt op)
    (hs : PagetableMap.step pt op = some pt') : Related t pt' (m.apply op) := by
  cases op with
  | map physaddr vaddr dirty =>
    cases hmap : vmMap pt physaddr vaddr dirty with
    | none =>
      simp only [PagetableMap.step, hmap] at hs
      cases hs
      rw [PageMap.apply, if_pos (h.refuses_iff.1 hmap)]
      exact h
    | some pt1 =>
      simp only [PagetableMap.step, hmap] at hs
      cases hs
      have hnot : ¬ m.refuses vaddr := by
        have hiff : vmMap pt physaddr vaddr dirty = none ↔ m.refuses vaddr := h.refuses_iff
        rw [← hiff, hmap]
        simp
      rw [PageMap.apply, if_neg hnot]
      obtain ⟨hw, -, hm⟩ := vmMap_mapping h.wf hmap
      obtain ⟨hentries, hcount⟩ := vmMap_entries hmap
      refine ⟨hw, hm.trans (by rw [h.mapping]), fun v => ?_, ?_⟩
      · show v ∈ insert (vpn2Of vaddr) m.pairs ↔ (pt1.findEntry v).isSome = true
        rw [Finset.mem_insert, h.pairs, hentries]
      · show pt1.validCount = (insert (vpn2Of vaddr) m.pairs).card
        rw [hcount, h.count]
        by_cases hv : (pt.findEntry (vpn2Of vaddr)).isSome = true
        · rw [if_pos hv, Finset.insert_eq_of_mem ((h.pairs _).2 hv)]
        · rw [if_neg hv, Finset.card_insert_of_notMem fun hmem => hv ((h.pairs _).1 hmem)]
  | setDirty vaddr dirty =>
    obtain ⟨hw, x, hx, hm⟩ := vmSetDirty_mapping h.wf hs
    obtain ⟨hentries, hcount⟩ := vmSetDirty_entries hs
    refine ⟨hw, ?_, fun v => ?_, hcount.trans h.count⟩
    · rw [hm, h.mapping, PageMap.apply]
      rw [h.mapping] at hx
      simp only [hx, Option.map_some]
    · rw [hentries]
      exact h.pairs v
  | unmap vaddr pool =>
    obtain ⟨⟨pt1, pool1⟩, hun, rfl⟩ := Option.map_eq_some_iff.1 hs
    obtain ⟨hw, hm⟩ := vmUnmap_mapping h.wf hun
    refine ⟨hw, hm.trans (by rw [h.mapping]; rfl), fun v => ?_, ?_⟩
    · show v ∈ m.pairs ↔ (pt1.findEntry v).isSome = true
      rw [vmUnmap_findEntry h.wf hun]
      exact h.pairs v
    · show pt1.validCount = m.pairs.card
      rw [vmUnmap_validCount h.wf hun]
      exact h.count

theorem Related.run {ops : List Op} (h : Related t pt m) (hops : Every PagetableMap.step Allowed pt ops)
    (hr : Transition.run PagetableMap.step pt ops = some pt') : Related t pt' (ops.foldl PageMap.apply m) := by
  induction ops generalizing pt m with
  | nil =>
    cases hr
    exact h
  | cons op ops ih =>
    rw [Transition.run] at hr
    rw [Every] at hops
    cases hs : PagetableMap.step pt op with
    | none =>
      rw [hs] at hr
      cases hr
    | some pt1 =>
      rw [hs] at hr hops
      exact ih (h.step hops.1 hs) hops.2 hr

theorem Related.empty (hempty : pt.validCount = 0) : Related pt.asid pt PageMap.empty := by
  have hno : ∀ i, ¬ i < pt.validCount := fun i hi => by
    rw [hempty] at hi
    exact Nat.not_lt_zero i hi
  have hfind : ∀ v, ¬ (pt.findEntry v).isSome = true := fun v hv => by
    obtain ⟨i, hi, -⟩ := findEntry_isSome.1 hv
    exact hno i hi
  refine ⟨⟨rfl, by rw [hempty]; exact Nat.zero_le _, fun i hi => absurd hi (hno i), fun i hi => absurd hi (hno i)⟩,
    funext fun page => Pagetable.mapping_none fun i hi => absurd hi (hno i), fun v => ?_, hempty⟩
  simp [PageMap.empty, hfind]

end Refinement

section Principal

variable {pt pt' : Pagetable} {ops : List Op}

/-- **Page tables refine finite maps**: after any sequence of operations the table represents the map on
which the same was done; `vm_map` returns -1 exactly for a page that is mapped and for a new pair when the
table is full, and then leaves the table; otherwise it changes the mapping of that page only. -/
theorem pagetable_refines (hempty : pt.validCount = 0) (hops : Every step Allowed pt ops)
    (hr : run step pt ops = some pt') :
    Represents pt' (ops.foldl PageMap.apply .empty) ∧ ∀ physaddr vaddr dirty,
      (vmMap pt' physaddr vaddr dirty = none ↔
        (ops.foldl PageMap.apply .empty).page (vaddr / PAGE_SIZE) ≠ none ∨
          vpn2Of vaddr ∉ (ops.foldl PageMap.apply .empty).pairs ∧ pt'.validCount = PAGETABLE_ENTRIES) ∧
      (vmMap pt' physaddr vaddr dirty = none → step pt' (.map physaddr vaddr dirty) = some pt') ∧
      ∀ pt'', vmMap pt' physaddr vaddr dirty = some pt'' → step pt' (.map physaddr vaddr dirty) = some pt'' ∧
        Represents pt'' ((ops ++ [Op.map physaddr vaddr dirty]).foldl PageMap.apply .empty) ∧
        pt''.mapping (vaddr / PAGE_SIZE) = some ⟨physaddr / PAGE_SIZE, dirty⟩ ∧
        ∀ page, page ≠ vaddr / PAGE_SIZE → pt''.mapping page = pt'.mapping page := by
  have h := (Related.empty hempty).run hops hr
  refine ⟨h.represents, fun physaddr vaddr dirty => ⟨?_, fun hnone => ?_, fun pt'' hsome => ?_⟩⟩
  · rw [h.count]
    exact h.refuses_iff
  · rw [step, hnone, Option.getD_none]
  · have hs : step pt' (.map physaddr vaddr dirty) = some pt'' := by
      rw [step, hsome, Option.getD_some]
    obtain ⟨-, -, hm⟩ := vmMap_mapping h.wf hsome
    refine ⟨hs, ?_, ?_, fun page hp => ?_⟩
    · rw [List.foldl_append]
      have hrel := h.step (show Allowed pt' (.map physaddr vaddr dirty) from trivial) hs
      exact hrel.represents
    · rw [hm, Function.update_self]
    · rw [hm, Function.update_of_ne hp]

/-- A page table in a page with old contents. -/
def oldPage : Pagetable := ⟨0x3000, 7, 0, fun i => ⟨i, 9, ⟨i, true, true⟩, ⟨i, true, true⟩⟩⟩

/-- An odd page is mapped and unmapped, the even page of its pair is mapped and the odd page again. -/
def remaps : List Op :=
  [.map 0x8000 0x5000 true, .unmap 0x5000 ⟨16, 2, fun _ => true, 0⟩, .map 0x9000 0x4000 true,
    .setDirty 0x4000 false, .map 0xa000 0x5000 false]

theorem pagetable_refines_remaps : ∃ pt', run step oldPage remaps = some pt' ∧
    Represents pt' (remaps.foldl PageMap.apply .empty) := by
  have hsome : (run step oldPage remaps).isSome = true := by decide +kernel
  obtain ⟨pt', hr⟩ := Option.isSome_iff_exists.1 hsome
  exact ⟨pt', hr, (pagetable_refines rfl (by decide +kernel) hr).1⟩

end Principal

/-! ## Lookups -/

/-- `vm_get_vaddr_page_offsets` is right about an address: it succeeds exactly when the address is not below
4096 and its page is mapped, and then it gives the start of that page and its frame. -/
def Exact (pt : Pagetable) (vaddr : ℕ) : Prop :=
  ((vmGetVaddrPageOffsets pt vaddr).isSome = true ↔
    4096 ≤ vaddr ∧ (pt.mapping (vaddr / PAGE_SIZE)).isSome = true) ∧
  ∀ frame start, vmGetVaddrPageOffsets pt vaddr = some (frame, start) →
    start = vaddr / PAGE_SIZE * PAGE_SIZE ∧ ∃ dirty, pt.mapping (vaddr / PAGE_SIZE) = some ⟨frame, dirty⟩

/-- The address is on an even page that is not mapped, and the odd page of its pair is. -/
def OnOddNeighbour (pt : Pagetable) (vaddr : ℕ) : Prop :=
  4096 ≤ vaddr ∧ vaddr / PAGE_SIZE % 2 = 0 ∧ pt.mapping (vaddr / PAGE_SIZE) = none ∧
    (pt.mapping (vaddr / PAGE_SIZE + 1)).isSome = true

instance (pt : Pagetable) (vaddr : ℕ) : Decidable (OnOddNeighbour pt vaddr) :=
  inferInstanceAs (Decidable (_ ∧ _ ∧ _ ∧ _))

section Lookup

variable {pt : Pagetable} {t vaddr i : ℕ}

/-- The lookup in a table whose pairs have one entry each. -/
theorem vmGetVaddrPageOffsets_eq (hw : pt.Wf t) (hlow : 4096 ≤ vaddr) :
    vmGetVaddrPageOffsets pt vaddr = match pt.findEntry (vpn2Of vaddr) with
      | none => none
      | some i =>
        if !onOddPage vaddr && (pt.entries i).even.v then some ((pt.entries i).even.pfn, (pt.entries i).vpn2 * 8192)
        else if (pt.entries i).odd.v then some ((pt.entries i).odd.pfn, (pt.entries i).vpn2 * 8192 + 0x1000)
        else none := by
  unfold vmGetVaddrPageOffsets
  rw [if_neg (by omega)]
  cases hf : (List.range pt.validCount).find? fun i => (pt.entries i).vpn2 == vpn2Of vaddr &&
      (!onOddPage vaddr && (pt.entries i).even.v || (pt.entries i).odd.v) with
  | none =>
    have hno := List.find?_eq_none.1 hf
    cases hi : pt.findEntry (vpn2Of vaddr) with
    | none => rfl
    | some i =>
      obtain ⟨hlt, hv⟩ := findEntry_some hi
      have hnot := hno i (List.mem_range.2 hlt)
      simp only [hv, beq_self_eq_true, Bool.true_and, Bool.not_eq_true, Bool.or_eq_false_iff] at hnot
      simp only [hnot.1, hnot.2, Bool.false_eq_true, if_false]
  | some i =>
    have hlt := List.mem_range.1 (List.mem_of_find?_eq_some hf)
    have hcond := List.find?_some hf
    simp only [Bool.and_eq_true, beq_iff_eq] at hcond
    rw [← hcond.1, hw.findEntry_eq hlt]
    simp only
    by_cases heven : (!onOddPage vaddr && (pt.entries i).even.v) = true
    · rw [if_pos heven, if_pos heven]
    · rw [if_neg heven, if_neg heven]
      have hodd : (pt.entries i).odd.v = true := by
        rcases Bool.or_eq_true _ _ ▸ hcond.2 with h | h
        · exact absurd h heven
        · exact h
      rw [if_pos hodd]

theorem Half.mapping_isSome (h : Half) : h.mapping.isSome = h.v := by
  unfold Half.mapping
  cases h.v <;> rfl

/-- **`vm_get_vaddr_page_offsets`** is right about every address that is not next to a mapped odd page. -/
theorem exact_iff (hw : pt.Wf t) : Exact pt vaddr ↔ ¬ OnOddNeighbour pt vaddr := by
  by_cases hlow : 4096 ≤ vaddr
  · unfold Exact OnOddNeighbour
    rw [vmGetVaddrPageOffsets_eq hw hlow]
    cases hf : pt.findEntry (vpn2Of vaddr) with
    | none =>
      have hno := findEntry_none hf
      rw [vpn2Of_eq] at hno
      have hnone := Pagetable.mapping_none hno
      simp only [hnone]
      refine iff_of_true ⟨by simp, fun _ _ h => by cases h⟩ fun h => ?_
      have hpair : (vaddr / PAGE_SIZE + 1) / 2 = vaddr / PAGE_SIZE / 2 := by omega
      rw [Pagetable.mapping_none (by rw [hpair]; exact hno)] at h
      exact absurd h.2.2.2 (by simp)
    | some i =>
      obtain ⟨hlt, hv⟩ := findEntry_some hf
      rw [vpn2Of_eq] at hv
      have hmap := hw.mapping_eq hlt hv
      simp only [hmap, Half.mapping_isSome, hv]
      cases hpar : decide (vaddr / PAGE_SIZE % 2 = 1) with
      | true =>
        have hodd : onOddPage vaddr = true := hpar
        have hmod : vaddr / PAGE_SIZE % 2 = 1 := of_decide_eq_true hpar
        have hhalf : (pt.entries i).half true = (pt.entries i).odd := rfl
        simp only [hodd, hhalf, Bool.not_true, Bool.false_and, Bool.false_eq_true, if_false]
        refine iff_of_true ⟨?_, fun frame start h => ?_⟩ fun h => ?_
        · by_cases hval : (pt.entries i).odd.v = true
          · simp [hval, hlow]
          · simp [hval]
        · by_cases hval : (pt.entries i).odd.v = true
          · rw [if_pos hval] at h
            cases h
            refine ⟨by unfold PAGE_SIZE at *; omega, (pt.entries i).odd.d, ?_⟩
            rw [Half.mapping, if_pos hval]
          · rw [if_neg hval] at h
            cases h
        · omega
      | false =>
        have heven : onOddPage vaddr = false := hpar
        have hmod : vaddr / PAGE_SIZE % 2 = 0 := by
          have hne := of_decide_eq_false hpar
          omega
        have hhalf : (pt.entries i).half false = (pt.entries i).even := rfl
        have hnext : pt.mapping (vaddr / PAGE_SIZE + 1) = (pt.entries i).odd.mapping := by
          rw [hw.mapping_eq hlt (by rw [hv]; omega), decide_eq_true (by omega)]
          rfl
        simp only [heven, hhalf, hnext, Half.mapping_isSome, Bool.not_false, Bool.true_and]
        by_cases hval : (pt.entries i).even.v = true
        · rw [if_pos hval]
          refine iff_of_true ⟨by simp [hval, hlow], fun frame start h => ?_⟩ fun h => ?_
          · cases h
            refine ⟨by unfold PAGE_SIZE at *; omega, (pt.entries i).even.d, ?_⟩
            rw [Half.mapping, if_pos hval]
          · rw [Half.mapping, if_pos hval] at h
            exact absurd h.2.2.1 (by simp)
        · rw [if_neg hval]
          by_cases hoddv : (pt.entries i).odd.v = true
          · rw [if_pos hoddv]
            refine iff_of_false (fun h => ?_) fun h => ?_
            · exact hval (h.1.1 rfl).2
            · refine h ⟨hlow, hmod, ?_, hoddv⟩
              rw [Half.mapping, if_neg hval]
          · rw [if_neg hoddv]
            refine iff_of_true ⟨by simp [hval], fun _ _ h => by cases h⟩ fun h => ?_
            exact hoddv h.2.2.2
  · have hnone : vmGetVaddrPageOffsets pt vaddr = none := by
      rw [vmGetVaddrPageOffsets, if_pos (by omega)]
    refine iff_of_true ⟨by simp [hnone, hlow], fun _ _ h => ?_⟩ fun h => hlow h.1
    rw [hnone] at h
    cases h

/-- Every operation keeps the table in order, also on pages that are not mapped. -/
theorem step_wf {pt' : Pagetable} {op : Op} (hw : pt.Wf t) (hs : step pt op = some pt') : pt'.Wf t := by
  cases op with
  | map physaddr vaddr dirty =>
    cases hmap : vmMap pt physaddr vaddr dirty with
    | none =>
      simp only [step, hmap] at hs
      cases hs
      exact hw
    | some pt1 =>
      simp only [step, hmap] at hs
      cases hs
      exact (vmMap_mapping hw hmap).1
  | setDirty vaddr dirty => exact (vmSetDirty_mapping hw hs).1
  | unmap vaddr pool =>
    obtain ⟨⟨pt1, pool1⟩, hun, rfl⟩ := Option.map_eq_some_iff.1 hs
    exact (vmUnmap_mapping hw hun).1

theorem wf_of_run {pt0 : Pagetable} {ops : List Op} (hempty : pt0.validCount = 0) (hr : run step pt0 ops = some pt) :
    pt.Wf pt0.asid :=
  run_always (I := fun pt => pt.Wf pt0.asid) step_wf (Related.empty hempty).wf hr

/-- **Page lookup** in every page table that is built by the operations: it is exact for an address unless
the address is on an unmapped even page next to a mapped odd page. -/
theorem lookup_exact {pt0 : Pagetable} {ops : List Op} (hempty : pt0.validCount = 0)
    (hr : run step pt0 ops = some pt) (vaddr : ℕ) : Exact pt vaddr ↔ ¬ OnOddNeighbour pt vaddr := by
  exact exact_iff (wf_of_run hempty hr)

/-- Both pages of a pair are mapped, and the even one is looked up. -/
theorem lookup_exact_pair : ∃ pt, run step oldPage [.map 0x8000 0x4000 true, .map 0x9000 0x5000 true] = some pt ∧
    Exact pt 0x4abc := by
  have hrun : ∃ pt ∈ run step oldPage [.map 0x8000 0x4000 true, .map 0x9000 0x5000 true],
      ¬ OnOddNeighbour pt 0x4abc := by decide +kernel
  obtain ⟨pt, hr, hnot⟩ := hrun
  exact ⟨pt, hr, (lookup_exact rfl hr 0x4abc).2 hnot⟩

/-- Only the odd page of a pair is mapped, and an address on the even one is found. -/
theorem lookup_finds_neighbour : ∃ pt, run step oldPage [.map 0x9000 0x5000 true] = some pt ∧
    pt.mapping (0x4abc / PAGE_SIZE) = none ∧ vmGetVaddrPageOffsets pt 0x4abc = some (9, 0x5000) ∧
    ¬ Exact pt 0x4abc := by
  have hrun : ∃ pt ∈ run step oldPage [.map 0x9000 0x5000 true], pt.mapping (0x4abc / PAGE_SIZE) = none ∧
      vmGetVaddrPageOffsets pt 0x4abc = some (9, 0x5000) := by decide +kernel
  obtain ⟨pt, hr, hnone, hsome⟩ := hrun
  refine ⟨pt, hr, hnone, hsome, fun h => ?_⟩
  have hmap := (h.1.1 (by rw [hsome]; rfl)).2
  rw [hnone] at hmap
  cases hmap

end Lookup

end Buenos.Vm.PagetableMap
