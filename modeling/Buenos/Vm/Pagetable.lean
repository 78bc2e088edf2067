import Mathlib.Data.List.Nodup
import Mathlib.Data.Nat.Basic
import Mathlib.Logic.Function.Basic
import Mathlib.Tactic.Common

/-!
# The page pool and page tables

`vm/pagepool.c` and the page tables of `vm/vm.c`.  Addresses are numbers below `2 ^ 32`; the page of an
address is `vaddr / PAGE_SIZE`, and a TLB entry covers the even page and the odd page of a pair.

* `Pool` — the physical pages, with `pagepoolGetPhysPage` and `pagepoolFreePhysPage`.
* `Pagetable` — `pagetable_t`, with `vmMap`, `vmUnmap`, `vmSetDirty` and the lookups.
* `Pagetable.mapping` — what a page table is for: a partial map from pages to frames.

Principal results: `vmMap_mapping`, `vmUnmap_mapping` and `vmSetDirty_mapping`, the functions as
updates of that map, and `vmMap_isSome`, when `vm_map` succeeds.
-/

namespace Buenos.Vm

def PAGE_SIZE : ℕ := 4096
def PAGETABLE_ENTRIES : ℕ := 340

/-! ## Physical pages -/

/-- The data of `pagepool.c`; `used` is the bitmap. -/
structure Pool where
  numPages : ℕ
  staticEnd : ℕ
  used : ℕ → Bool
  numFreePages : ℤ

/-- `pagepool_get_phys_page`: the address of a page, 0 if there is none; `none` is a failed
assertion. -/
def pagepoolGetPhysPage (p : Pool) : Option (ℕ × Pool) :=
  if 0 < p.numFreePages then
    match (List.range p.numPages).find? fun i => !p.used i with
    | none => none
    | some i => some (i * PAGE_SIZE,
        { p with used := Function.update p.used i true, numFreePages := p.numFreePages - 1 })
  else some (0, p)

/-- `pagepool_free_phys_page`; `none` is a failed assertion. -/
def pagepoolFreePhysPage (p : Pool) (physAddr : ℕ) : Option Pool :=
  let i := physAddr / PAGE_SIZE
  if i < p.staticEnd then none
  else if p.used i = false then none
  else some { p with used := Function.update p.used i false, numFreePages := p.numFreePages + 1 }

/-! ## Page tables -/

/-- The fields of one page in a `tlb_entry_t`: `PFN0`, `D0` and `V0`, or `PFN1`, `D1` and `V1`. -/
structure Half where
  pfn : ℕ
  d : Bool
  v : Bool
  deriving DecidableEq

/-- `tlb_entry_t`. -/
structure TlbEntry where
  vpn2 : ℕ
  asid : ℕ
  even : Half
  odd : Half
  deriving DecidableEq

/-- The half of an even or an odd page. -/
def TlbEntry.half (e : TlbEntry) : Bool → Half
  | false => e.even
  | true => e.odd

def TlbEntry.setHalf (e : TlbEntry) (odd : Bool) (h : Half) : TlbEntry :=
  match odd with
  | false => { e with even := h }
  | true => { e with odd := h }

/-- Clear the valid bit of a half. -/
def TlbEntry.invalidate (e : TlbEntry) (odd : Bool) : TlbEntry :=
  e.setHalf odd { e.half odd with v := false }

/-- `pagetable_t`, in the page at the physical address `addr`.  The entries from `validCount` on are
whatever is in memory. -/
structure Pagetable where
  addr : ℕ
  asid : ℕ
  validCount : ℕ
  entries : ℕ → TlbEntry

/-- `vaddr >> 13`. -/
def vpn2Of (vaddr : ℕ) : ℕ := vaddr / 8192

/-- `ADDR_IS_ON_ODD_PAGE`. -/
def onOddPage (vaddr : ℕ) : Bool := decide (vaddr / PAGE_SIZE % 2 = 1)

/-- The first of the valid entries for a pair of pages. -/
def Pagetable.findEntry (pt : Pagetable) (vpn2 : ℕ) : Option ℕ :=
  (List.range pt.validCount).find? fun i => (pt.entries i).vpn2 == vpn2

def Pagetable.setEntry (pt : Pagetable) (i : ℕ) (e : TlbEntry) : Pagetable :=
  { pt with entries := Function.update pt.entries i e }

/-- `vm_create_pagetable`, on a page with the contents `memory`; the table is `none` when there is no
page for it. -/
def vmCreatePagetable (pool : Pool) (asid : ℕ) (memory : ℕ → TlbEntry) : Option (Option Pagetable × Pool) :=
  match pagepoolGetPhysPage pool with
  | none => none
  | some (addr, pool) => if addr = 0 then some (none, pool) else some (some ⟨addr, asid, 0, memory⟩, pool)

/-- `vm_destroy_pagetable`. -/
def vmDestroyPagetable (pt : Pagetable) (pool : Pool) : Option Pool := pagepoolFreePhysPage pool pt.addr

/-- `vm_map`; `none` when it returns -1. -/
def vmMap (pt : Pagetable) (physaddr vaddr : ℕ) (dirty : Bool) : Option Pagetable :=
  let odd := onOddPage vaddr
  let new : Half := ⟨physaddr / PAGE_SIZE, dirty, true⟩
  match pt.findEntry (vpn2Of vaddr) with
  | some i =>
    if ((pt.entries i).half odd).v then none
    else some (pt.setEntry i ((pt.entries i).setHalf odd new))
  | none =>
    if PAGETABLE_ENTRIES ≤ pt.validCount then none
    else
      let e := { pt.entries pt.validCount with vpn2 := vpn2Of vaddr, asid := pt.asid % 256 }
      some { pt.setEntry pt.validCount ((e.setHalf odd new).invalidate !odd) with
             validCount := pt.validCount + 1 }

/-- `vm_get_entry_by_vaddr`: the index of the entry. -/
def vmGetEntryByVaddr (pt : Pagetable) (vaddr : ℕ) : Option ℕ :=
  if vaddr < 0x1000 then none else pt.findEntry (vpn2Of vaddr)

/-- `vm_get_vaddr_page_offsets`: the frame and the start of the page that it finds. -/
def vmGetVaddrPageOffsets (pt : Pagetable) (vaddr : ℕ) : Option (ℕ × ℕ) :=
  if vaddr < 0x1000 then none
  else
    match (List.range pt.validCount).find? fun i => (pt.entries i).vpn2 == vpn2Of vaddr &&
        (!onOddPage vaddr && (pt.entries i).even.v || (pt.entries i).odd.v) with
    | none => none
    | some i =>
      let e := pt.entries i
      if !onOddPage vaddr && e.even.v then some (e.even.pfn, e.vpn2 * 8192)
      -- also for an address on an even page
      else some (e.odd.pfn, e.vpn2 * 8192 + 0x1000)

/-- The loop of `vm_unmap`. -/
def vmUnmapLoop (vaddr : ℕ) : List ℕ → Pagetable → Pool → Option (Pagetable × Pool)
  | [], pt, pool => some (pt, pool)
  | i :: is, pt, pool =>
    if (pt.entries i).vpn2 = vpn2Of vaddr then
      match pagepoolFreePhysPage pool (((pt.entries i).half (onOddPage vaddr)).pfn * PAGE_SIZE) with
      | none => none
      | some pool =>
        vmUnmapLoop vaddr is (pt.setEntry i ((pt.entries i).invalidate (onOddPage vaddr))) pool
    else vmUnmapLoop vaddr is pt pool

/-- `vm_unmap`. -/
def vmUnmap (pt : Pagetable) (vaddr : ℕ) (pool : Pool) : Option (Pagetable × Pool) :=
  vmUnmapLoop vaddr (List.range pt.validCount) pt pool

/-- `vm_set_dirty`; `none` is a kernel panic. -/
def vmSetDirty (pt : Pagetable) (vaddr : ℕ) (dirty : Bool) : Option Pagetable :=
  match pt.findEntry (vpn2Of vaddr) with
  | none => none
  | some i =>
    let h := (pt.entries i).half (onOddPage vaddr)
    if h.v = false then none
    else some (pt.setEntry i ((pt.entries i).setHalf (onOddPage vaddr) { h with d := dirty }))

/-! ## The map from pages to frames -/

/-- A mapping of a page: the frame and whether it may be written. -/
@[ext] structure Mapping where
  frame : ℕ
  dirty : Bool
  deriving DecidableEq

/-- The mapping in a half of an entry. -/
def Half.mapping (h : Half) : Option Mapping := if h.v then some ⟨h.pfn, h.d⟩ else none

/-- Where a page is mapped. -/
def Pagetable.mapping (pt : Pagetable) (page : ℕ) : Option Mapping :=
  match pt.findEntry (page / 2) with
  | none => none
  | some i => ((pt.entries i).half (decide (page % 2 = 1))).mapping

/-- The page table of thread `t` as `vm_map` builds it: its entries carry the ASID of the thread, and
no pair of pages has two entries. -/
structure Pagetable.Wf (pt : Pagetable) (t : ℕ) : Prop where
  asid : pt.asid = t
  count : pt.validCount ≤ PAGETABLE_ENTRIES
  entryAsid : ∀ i < pt.validCount, (pt.entries i).asid = t % 256
  distinct : ∀ i < pt.validCount, ∀ j < pt.validCount, (pt.entries i).vpn2 = (pt.entries j).vpn2 → i = j

section Entries

variable {e : TlbEntry} {odd odd' : Bool} {h : Half}

@[simp] theorem setHalf_vpn2 : (e.setHalf odd h).vpn2 = e.vpn2 := by
  cases odd <;> rfl

@[simp] theorem setHalf_asid : (e.setHalf odd h).asid = e.asid := by
  cases odd <;> rfl

@[simp] theorem setHalf_half_self : (e.setHalf odd h).half odd = h := by
  cases odd <;> rfl

theorem setHalf_half_of_ne (hne : odd' ≠ odd) : (e.setHalf odd h).half odd' = e.half odd' := by
  cases odd <;> cases odd' <;> first | rfl | exact absurd rfl hne

@[simp] theorem invalidate_vpn2 : (e.invalidate odd).vpn2 = e.vpn2 := setHalf_vpn2

@[simp] theorem invalidate_asid : (e.invalidate odd).asid = e.asid := setHalf_asid

@[simp] theorem invalidate_mapping_self : ((e.invalidate odd).half odd).mapping = none := by
  rw [TlbEntry.invalidate, setHalf_half_self]
  rfl

theorem vpn2Of_eq (vaddr : ℕ) : vpn2Of vaddr = vaddr / PAGE_SIZE / 2 := by
  rw [vpn2Of, PAGE_SIZE, Nat.div_div_eq_div_mul]

end Entries

section Mapping

variable {pt pt' : Pagetable} {t i page vaddr : ℕ}

theorem findEntry_some {v : ℕ} (h : pt.findEntry v = some i) : i < pt.validCount ∧ (pt.entries i).vpn2 = v :=
  ⟨by simpa using List.mem_of_find?_eq_some h, by simpa using List.find?_some h⟩

theorem findEntry_none {v : ℕ} (h : pt.findEntry v = none) : ∀ i < pt.validCount, (pt.entries i).vpn2 ≠ v := by
  intro i hi
  simpa using List.find?_eq_none.1 h i (by simpa using hi)

/-- The only entry of a pair is the one that is found. -/
theorem Pagetable.Wf.findEntry_eq (hw : pt.Wf t) (hi : i < pt.validCount) :
    pt.findEntry (pt.entries i).vpn2 = some i := by
  cases h : pt.findEntry (pt.entries i).vpn2 with
  | none => exact absurd rfl (findEntry_none h i hi)
  | some j =>
    obtain ⟨h1, h2⟩ := findEntry_some h
    rw [hw.distinct j h1 i hi h2]

/-- The mapping of a page of an entry. -/
theorem Pagetable.Wf.mapping_eq (hw : pt.Wf t) (hi : i < pt.validCount)
    (hp : (pt.entries i).vpn2 = page / 2) :
    pt.mapping page = ((pt.entries i).half (decide (page % 2 = 1))).mapping := by
  rw [Pagetable.mapping, ← hp, hw.findEntry_eq hi]

theorem Pagetable.mapping_none (hno : ∀ i < pt.validCount, (pt.entries i).vpn2 ≠ page / 2) :
    pt.mapping page = none := by
  cases h : pt.findEntry (page / 2) with
  | none => rw [Pagetable.mapping, h]
  | some i =>
    obtain ⟨h1, h2⟩ := findEntry_some h
    exact absurd h2 (hno i h1)

/-- Changing the halves of one entry keeps the table in order. -/
theorem Pagetable.Wf.setEntry (hw : pt.Wf t) {e : TlbEntry} (hv : e.vpn2 = (pt.entries i).vpn2)
    (ha : e.asid = (pt.entries i).asid) : (pt.setEntry i e).Wf t := by
  have hvpn : ∀ j, ((pt.setEntry i e).entries j).vpn2 = (pt.entries j).vpn2 := by
    intro j
    by_cases hj : j = i
    · rw [hj]
      simpa [Pagetable.setEntry] using hv
    · simp [Pagetable.setEntry, hj]
  refine ⟨hw.asid, hw.count, fun j hj => ?_, fun j hj j' hj' he => ?_⟩
  · by_cases hji : j = i
    · rw [hji] at hj ⊢
      simpa [Pagetable.setEntry, ha] using hw.entryAsid i hj
    · simpa [Pagetable.setEntry, hji] using hw.entryAsid j hj
  · rw [hvpn, hvpn] at he
    exact hw.distinct j hj j' hj' he

/-- Changing one half of one entry changes the mapping of one page. -/
theorem Pagetable.Wf.mapping_setEntry (hw : pt.Wf t) (hi : i < pt.validCount)
    (hp : (pt.entries i).vpn2 = page / 2) {e : TlbEntry} (hv : e.vpn2 = (pt.entries i).vpn2)
    (ha : e.asid = (pt.entries i).asid) (hother : ∀ odd, odd ≠ decide (page % 2 = 1) →
      (e.half odd).mapping = ((pt.entries i).half odd).mapping) :
    (pt.setEntry i e).mapping =
      Function.update pt.mapping page (e.half (decide (page % 2 = 1))).mapping := by
  have hw' := hw.setEntry hv ha
  have hself : (pt.setEntry i e).entries i = e := Function.update_self _ _ _
  funext q
  by_cases hq : q / 2 = page / 2
  · have hm' : (pt.setEntry i e).mapping q = _ := hw'.mapping_eq (i := i) hi (by rw [hself, hv, hp, hq])
    rw [hself] at hm'
    by_cases hqp : q = page
    · rw [hqp] at hm' ⊢
      rw [hm', Function.update_self]
    · have hm : pt.mapping q = _ := hw.mapping_eq hi (by rw [hp, hq])
      rw [hm', Function.update_of_ne hqp, hm, hother]
      intro h
      have hmod : q % 2 = 1 ↔ page % 2 = 1 := decide_eq_decide.1 h
      omega
  · rw [Function.update_of_ne (by rintro rfl; exact hq rfl)]
    cases hf : pt.findEntry (q / 2) with
    | none =>
      have hno := findEntry_none hf
      rw [show pt.mapping q = none from Pagetable.mapping_none hno, Pagetable.mapping_none]
      intro j hj
      by_cases hji : j = i
      · rw [hji, hself, hv, hp]
        exact fun h => hq h.symm
      · simpa [Pagetable.setEntry, hji] using hno j hj
    | some j =>
      obtain ⟨h1, h2⟩ := findEntry_some hf
      have hji : j ≠ i := by
        rintro rfl
        exact hq (h2.symm.trans hp)
      have hsame : (pt.setEntry i e).entries j = pt.entries j := Function.update_of_ne hji _ _
      rw [hw.mapping_eq h1 h2, hw'.mapping_eq (i := j) h1 (by rw [hsame, h2]), hsame]

/-- A new entry with one valid half maps one page. -/
theorem Pagetable.Wf.append (hw : pt.Wf t) (hcount : ¬ PAGETABLE_ENTRIES ≤ pt.validCount) {e : TlbEntry}
    (hp : e.vpn2 = page / 2) (ha : e.asid = t % 256)
    (hno : ∀ i < pt.validCount, (pt.entries i).vpn2 ≠ page / 2)
    (hother : ∀ odd, odd ≠ decide (page % 2 = 1) → (e.half odd).mapping = none) :
    ({ pt.setEntry pt.validCount e with validCount := pt.validCount + 1 } : Pagetable).Wf t ∧
      ({ pt.setEntry pt.validCount e with validCount := pt.validCount + 1 } : Pagetable).mapping =
        Function.update pt.mapping page (e.half (decide (page % 2 = 1))).mapping := by
  have hself : (pt.setEntry pt.validCount e).entries pt.validCount = e := Function.update_self _ _ _
  have hold : ∀ j < pt.validCount, (pt.setEntry pt.validCount e).entries j = pt.entries j :=
    fun j hj => Function.update_of_ne (Nat.ne_of_lt hj) _ _
  have hwf : ({ pt.setEntry pt.validCount e with validCount := pt.validCount + 1 } : Pagetable).Wf t := by
    refine ⟨hw.asid, by simp only [PAGETABLE_ENTRIES] at hcount ⊢; omega, fun j hj => ?_,
      fun j hj j' hj' he => ?_⟩
    · simp only at hj ⊢
      by_cases hje : j = pt.validCount
      · rw [hje, hself, ha]
      · rw [hold j (by omega)]
        exact hw.entryAsid j (by omega)
    · simp only at hj hj' he
      by_cases hje : j = pt.validCount
      · by_cases hje' : j' = pt.validCount
        · rw [hje, hje']
        · rw [hje, hself, hold j' (by omega), hp] at he
          exact absurd he.symm (hno j' (by omega))
      · rw [hold j (by omega)] at he
        by_cases hje' : j' = pt.validCount
        · rw [hje', hself, hp] at he
          exact absurd he (hno j (by omega))
        · rw [hold j' (by omega)] at he
          exact hw.distinct j (by omega) j' (by omega) he
  refine ⟨hwf, ?_⟩
  funext q
  by_cases hq : q / 2 = page / 2
  · have hm : Pagetable.mapping _ q = _ := hwf.mapping_eq (i := pt.validCount) (Nat.lt_succ_self _)
      (by simp only [hself]; rw [hp, hq])
    simp only [hself] at hm
    by_cases hqp : q = page
    · rw [hqp] at hm ⊢
      rw [hm, Function.update_self]
    · rw [hm, Function.update_of_ne hqp, hother, Pagetable.mapping_none]
      · rw [hq]
        exact hno
      · intro h
        have hmod : q % 2 = 1 ↔ page % 2 = 1 := decide_eq_decide.1 h
        omega
  · rw [Function.update_of_ne (by rintro rfl; exact hq rfl)]
    cases hf : pt.findEntry (q / 2) with
    | none =>
      have hnoq := findEntry_none hf
      rw [show pt.mapping q = none from Pagetable.mapping_none hnoq, Pagetable.mapping_none]
      intro j hj
      simp only at hj ⊢
      by_cases hje : j = pt.validCount
      · rw [hje, hself, hp]
        exact fun h => hq h.symm
      · rw [hold j (by omega)]
        exact hnoq j (by omega)
    | some j =>
      obtain ⟨h1, h2⟩ := findEntry_some hf
      have hm : Pagetable.mapping _ q = _ := hwf.mapping_eq (i := j) (Nat.lt_succ_of_lt h1)
        (by simp only [hold j h1]; exact h2)
      rw [hm, hw.mapping_eq h1 h2]
      simp only [hold j h1]

/-- **`vm_map`** adds one page that was not mapped. -/
theorem vmMap_mapping (hw : pt.Wf t) {physaddr : ℕ} {dirty : Bool}
    (h : vmMap pt physaddr vaddr dirty = some pt') :
    pt'.Wf t ∧ pt.mapping (vaddr / PAGE_SIZE) = none ∧ pt'.mapping =
      Function.update pt.mapping (vaddr / PAGE_SIZE) (some ⟨physaddr / PAGE_SIZE, dirty⟩) := by
  have hodd : onOddPage vaddr = decide (vaddr / PAGE_SIZE % 2 = 1) := rfl
  unfold vmMap at h
  simp only at h
  split at h
  · rename_i i hf
    obtain ⟨h1, h2⟩ := findEntry_some hf
    rw [vpn2Of_eq] at h2
    split at h
    · cases h
    · rename_i hv
      cases h
      refine ⟨hw.setEntry setHalf_vpn2 setHalf_asid, ?_, ?_⟩
      · rw [hw.mapping_eq h1 h2, ← hodd, Half.mapping, if_neg hv]
      · rw [hw.mapping_setEntry h1 h2 setHalf_vpn2 setHalf_asid, ← hodd, setHalf_half_self]
        · rfl
        · intro odd ho
          rw [setHalf_half_of_ne (by rwa [hodd])]
  · rename_i hf
    have hno := findEntry_none hf
    rw [vpn2Of_eq] at hno
    split at h
    · cases h
    · rename_i hcount
      cases h
      have hother : ∀ odd, odd ≠ decide (vaddr / PAGE_SIZE % 2 = 1) →
          (((TlbEntry.setHalf { pt.entries pt.validCount with vpn2 := vpn2Of vaddr, asid := pt.asid % 256 }
            (onOddPage vaddr) ⟨physaddr / PAGE_SIZE, dirty, true⟩).invalidate
              !onOddPage vaddr).half odd).mapping = none := by
        intro odd ho
        rw [← hodd] at ho
        rw [Bool.eq_not_of_ne ho]
        exact invalidate_mapping_self
      obtain ⟨hw', hm⟩ := hw.append hcount (by rw [invalidate_vpn2, setHalf_vpn2, ← vpn2Of_eq])
        (by rw [invalidate_asid, setHalf_asid, hw.asid]) hno hother
      refine ⟨hw', Pagetable.mapping_none hno, hm.trans ?_⟩
      rw [← hodd, TlbEntry.invalidate, setHalf_half_of_ne (by simp), setHalf_half_self]
      rfl

theorem vmMap_addr {physaddr : ℕ} {dirty : Bool} (h : vmMap pt physaddr vaddr dirty = some pt') :
    pt'.addr = pt.addr := by
  unfold vmMap at h
  simp only at h
  split at h
  · split at h
    · cases h
    · cases h
      rfl
  · split at h
    · cases h
    · cases h
      rfl

theorem Pagetable.setEntry_findEntry {e : TlbEntry} (hv : e.vpn2 = (pt.entries i).vpn2) (v : ℕ) :
    (pt.setEntry i e).findEntry v = pt.findEntry v := by
  unfold Pagetable.findEntry
  congr 1
  funext j
  by_cases hj : j = i
  · rw [hj]
    simp [Pagetable.setEntry, hv]
  · simp [Pagetable.setEntry, hj]

/-- Which pairs have an entry. -/
theorem findEntry_isSome {v : ℕ} : (pt.findEntry v).isSome = true ↔ ∃ i < pt.validCount, (pt.entries i).vpn2 = v := by
  cases h : pt.findEntry v with
  | none => simpa using fun i hi => findEntry_none h i hi
  | some i =>
    obtain ⟨h1, h2⟩ := findEntry_some h
    simpa using ⟨i, h1, h2⟩

/-- **When `vm_map` succeeds**: the page is not mapped, and there is an entry for its pair, or room for one. -/
theorem vmMap_isSome (hw : pt.Wf t) {physaddr : ℕ} {dirty : Bool} :
    (vmMap pt physaddr vaddr dirty).isSome = true ↔ pt.mapping (vaddr / PAGE_SIZE) = none ∧
      ((pt.findEntry (vpn2Of vaddr)).isSome = true ∨ pt.validCount < PAGETABLE_ENTRIES) := by
  unfold vmMap
  simp only
  cases hf : pt.findEntry (vpn2Of vaddr) with
  | none =>
    have hno := findEntry_none hf
    rw [vpn2Of_eq] at hno
    rw [Pagetable.mapping_none hno]
    by_cases hcount : PAGETABLE_ENTRIES ≤ pt.validCount
    · simp [hcount]
    · simp [hcount, not_le.1 hcount]
  | some i =>
    obtain ⟨h1, h2⟩ := findEntry_some hf
    rw [vpn2Of_eq] at h2
    rw [hw.mapping_eq h1 h2]
    show _ ↔ ((pt.entries i).half (onOddPage vaddr)).mapping = none ∧ _
    unfold Half.mapping
    by_cases hv : ((pt.entries i).half (onOddPage vaddr)).v = true
    · simp [hv]
    · simp [hv]

/-- The pairs that have an entry after `vm_map`, and their number. -/
theorem vmMap_entries {physaddr : ℕ} {dirty : Bool} (h : vmMap pt physaddr vaddr dirty = some pt') :
    (∀ v, (pt'.findEntry v).isSome = true ↔ v = vpn2Of vaddr ∨ (pt.findEntry v).isSome = true) ∧
      pt'.validCount = if (pt.findEntry (vpn2Of vaddr)).isSome then pt.validCount else pt.validCount + 1 := by
  unfold vmMap at h
  simp only at h
  split at h
  · rename_i i hf
    split at h
    · cases h
    · cases h
      refine ⟨fun v => ?_, ?_⟩
      · rw [Pagetable.setEntry_findEntry setHalf_vpn2]
        refine ⟨Or.inr, fun hv => hv.elim (fun hv => ?_) id⟩
        rw [hv, hf]
        rfl
      · rw [hf]
        rfl
  · rename_i hf
    split at h
    · cases h
    · cases h
      refine ⟨fun v => ?_, ?_⟩
      · rw [findEntry_isSome, findEntry_isSome]
        simp only [Pagetable.setEntry]
        refine ⟨fun ⟨i, hi, hv⟩ => ?_, fun hv => ?_⟩
        · by_cases hie : i = pt.validCount
          · rw [hie, Function.update_self, invalidate_vpn2, setHalf_vpn2] at hv
            exact Or.inl hv.symm
          · rw [Function.update_of_ne hie] at hv
            exact Or.inr ⟨i, by omega, hv⟩
        · rcases hv with hv | ⟨i, hi, hv⟩
          · refine ⟨pt.validCount, Nat.lt_succ_self _, ?_⟩
            rw [Function.update_self, invalidate_vpn2, setHalf_vpn2]
            exact hv.symm
          · refine ⟨i, Nat.lt_succ_of_lt hi, ?_⟩
            rw [Function.update_of_ne (Nat.ne_of_lt hi)]
            exact hv
      · rw [hf]
        rfl

theorem vmSetDirty_addr {dirty : Bool} (h : vmSetDirty pt vaddr dirty = some pt') : pt'.addr = pt.addr := by
  unfold vmSetDirty at h
  split at h
  · cases h
  · simp only at h
    split at h
    · cases h
    · cases h
      rfl

/-- `vm_set_dirty` finds a page that is mapped. -/
theorem vmSetDirty_some (h : (pt.mapping (vaddr / PAGE_SIZE)).isSome = true) (dirty : Bool) :
    ∃ pt', vmSetDirty pt vaddr dirty = some pt' := by
  rw [Pagetable.mapping, ← vpn2Of_eq] at h
  unfold vmSetDirty
  cases hf : pt.findEntry (vpn2Of vaddr) with
  | none => simp [hf] at h
  | some i =>
    have hv : ((pt.entries i).half (onOddPage vaddr)).v = true := by
      by_contra hv
      simp only [hf, Half.mapping] at h
      rw [← onOddPage, if_neg hv] at h
      cases h
    simp [hv]

/-- `vm_set_dirty` leaves the entries in place. -/
theorem vmSetDirty_entries {dirty : Bool} (h : vmSetDirty pt vaddr dirty = some pt') :
    (∀ v, pt'.findEntry v = pt.findEntry v) ∧ pt'.validCount = pt.validCount := by
  unfold vmSetDirty at h
  split at h
  · cases h
  · simp only at h
    split at h
    · cases h
    · cases h
      exact ⟨fun v => Pagetable.setEntry_findEntry setHalf_vpn2 v, rfl⟩

/-! ### `vm_unmap` -/

theorem vmUnmapLoop_none {pool : Pool} (is : List ℕ) (hno : ∀ i ∈ is, (pt.entries i).vpn2 ≠ vpn2Of vaddr) :
    vmUnmapLoop vaddr is pt pool = some (pt, pool) := by
  induction is with
  | nil => rfl
  | cons i is ih =>
    rw [vmUnmapLoop, if_neg (hno i List.mem_cons_self)]
    exact ih fun j hj => hno j (List.mem_cons_of_mem _ hj)

/-- The loop of `vm_unmap` over indices of which only `i` has the pair of the address. -/
theorem vmUnmapLoop_some {pool : Pool} (is js : List ℕ) (hi : (pt.entries i).vpn2 = vpn2Of vaddr)
    (his : ∀ j ∈ is, (pt.entries j).vpn2 ≠ vpn2Of vaddr)
    (hjs : ∀ j ∈ js, j ≠ i ∧ (pt.entries j).vpn2 ≠ vpn2Of vaddr) :
    vmUnmapLoop vaddr (is ++ i :: js) pt pool =
      (pagepoolFreePhysPage pool (((pt.entries i).half (onOddPage vaddr)).pfn * PAGE_SIZE)).map
        fun pool => (pt.setEntry i ((pt.entries i).invalidate (onOddPage vaddr)), pool) := by
  induction is with
  | nil =>
    rw [List.nil_append, vmUnmapLoop, if_pos hi]
    cases pagepoolFreePhysPage pool (((pt.entries i).half (onOddPage vaddr)).pfn * PAGE_SIZE) with
    | none => rfl
    | some pool' =>
      simp only [Option.map_some]
      refine vmUnmapLoop_none js fun j hj => ?_
      rw [Pagetable.setEntry]
      simp only [Function.update_of_ne (hjs j hj).1]
      exact (hjs j hj).2
  | cons j is ih =>
    rw [List.cons_append, vmUnmapLoop, if_neg (his j List.mem_cons_self)]
    exact ih fun j' hj' => his j' (List.mem_cons_of_mem _ hj')

/-- **`vm_unmap`** frees the frame in the half of the page, valid or not, and invalidates the half. -/
theorem vmUnmap_eq (hw : pt.Wf t) (pool : Pool) :
    vmUnmap pt vaddr pool = match pt.findEntry (vpn2Of vaddr) with
      | none => some (pt, pool)
      | some i =>
        (pagepoolFreePhysPage pool (((pt.entries i).half (onOddPage vaddr)).pfn * PAGE_SIZE)).map
          fun pool => (pt.setEntry i ((pt.entries i).invalidate (onOddPage vaddr)), pool) := by
  unfold vmUnmap
  cases hf : pt.findEntry (vpn2Of vaddr) with
  | none => exact vmUnmapLoop_none _ fun i hi => findEntry_none hf i (by simpa using hi)
  | some i =>
    obtain ⟨h1, h2⟩ := findEntry_some hf
    obtain ⟨is, js, hsplit⟩ := List.append_of_mem (List.mem_range.2 h1)
    have hnd : (List.range pt.validCount).Nodup := List.nodup_range
    have hmem : ∀ j, j ∈ is ∨ j ∈ js → j < pt.validCount := by
      intro j hj
      rw [← List.mem_range, hsplit]
      simp only [List.mem_append, List.mem_cons]
      tauto
    rw [hsplit] at hnd ⊢
    have hnot := (List.nodup_cons.1 (List.nodup_middle.1 hnd)).1
    simp only [List.mem_append, not_or] at hnot
    refine vmUnmapLoop_some is js h2 (fun j hj he => ?_) fun j hj => ⟨?_, fun he => ?_⟩
    · have hji := hw.distinct j (hmem j (Or.inl hj)) i h1 (he.trans h2.symm)
      exact hnot.1 (hji ▸ hj)
    · rintro rfl
      exact hnot.2 hj
    · have hji := hw.distinct j (hmem j (Or.inr hj)) i h1 (he.trans h2.symm)
      exact hnot.2 (hji ▸ hj)

/-- `vm_unmap` leaves the entries in place. -/
theorem vmUnmap_findEntry (hw : pt.Wf t) {pool pool' : Pool} (h : vmUnmap pt vaddr pool = some (pt', pool'))
    (v : ℕ) : pt'.findEntry v = pt.findEntry v := by
  rw [vmUnmap_eq hw] at h
  split at h
  · cases h
    rfl
  · obtain ⟨pool'', -, he⟩ := Option.map_eq_some_iff.1 h
    cases he
    exact Pagetable.setEntry_findEntry invalidate_vpn2 v

theorem vmUnmap_validCount (hw : pt.Wf t) {pool pool' : Pool} (h : vmUnmap pt vaddr pool = some (pt', pool')) :
    pt'.validCount = pt.validCount := by
  rw [vmUnmap_eq hw] at h
  split at h
  · cases h
    rfl
  · obtain ⟨pool'', -, he⟩ := Option.map_eq_some_iff.1 h
    cases he
    rfl

theorem vmUnmap_mapping (hw : pt.Wf t) {pool pool' : Pool} (h : vmUnmap pt vaddr pool = some (pt', pool')) :
    pt'.Wf t ∧ pt'.mapping = Function.update pt.mapping (vaddr / PAGE_SIZE) none := by
  rw [vmUnmap_eq hw] at h
  split at h
  · rename_i hf
    cases h
    refine ⟨hw, ?_⟩
    have hno := findEntry_none hf
    rw [vpn2Of_eq] at hno
    exact (Function.update_eq_self_iff.2 (Pagetable.mapping_none hno).symm).symm
  · rename_i i hf
    obtain ⟨h1, h2⟩ := findEntry_some hf
    rw [vpn2Of_eq] at h2
    obtain ⟨pool'', -, he⟩ := Option.map_eq_some_iff.1 h
    cases he
    refine ⟨hw.setEntry invalidate_vpn2 invalidate_asid, ?_⟩
    rw [hw.mapping_setEntry h1 h2 invalidate_vpn2 invalidate_asid]
    · congr 1
      exact invalidate_mapping_self
    · intro odd ho
      rw [TlbEntry.invalidate, setHalf_half_of_ne (by rwa [onOddPage])]

/-- **`vm_set_dirty`** changes the write permission of one mapped page. -/
theorem vmSetDirty_mapping (hw : pt.Wf t) {dirty : Bool} (h : vmSetDirty pt vaddr dirty = some pt') :
    pt'.Wf t ∧ ∃ m, pt.mapping (vaddr / PAGE_SIZE) = some m ∧
      pt'.mapping = Function.update pt.mapping (vaddr / PAGE_SIZE) (some { m with dirty := dirty }) := by
  have hodd : onOddPage vaddr = decide (vaddr / PAGE_SIZE % 2 = 1) := rfl
  unfold vmSetDirty at h
  split at h
  · cases h
  · rename_i i hf
    obtain ⟨h1, h2⟩ := findEntry_some hf
    rw [vpn2Of_eq] at h2
    simp only at h
    split at h
    · cases h
    · rename_i hv
      rw [Bool.not_eq_false] at hv
      cases h
      refine ⟨hw.setEntry setHalf_vpn2 setHalf_asid, ⟨((pt.entries i).half (onOddPage vaddr)).pfn,
        ((pt.entries i).half (onOddPage vaddr)).d⟩, ?_, ?_⟩
      · rw [hw.mapping_eq h1 h2, ← hodd, Half.mapping, if_pos hv]
      · rw [hw.mapping_setEntry h1 h2 setHalf_vpn2 setHalf_asid, ← hodd, setHalf_half_self, Half.mapping,
          if_pos hv]
        intro odd ho
        rw [setHalf_half_of_ne (by rwa [hodd])]

end Mapping

end Buenos.Vm
