import Buenos.Vm.Pagetable
import Mathlib.Algebra.Group.Int.Defs
import Mathlib.Algebra.Group.Nat.Defs

/-!
# The heap

`syscall_handle_memlimit` of `proc/syscall_handler_proc.c`.  The end of the heap is `heap_vaddr` of the
process plus `offset`, a static variable of the function that all processes share.

* `pageDiff`, `canBeMapped` — the helpers.
* `mapHeapPages`, `unmapHeapPages` — the two loops.
* `syscallHandleMemlimit` — the system call.
* `unmappedPages` — the pages that a call takes from the process.

Principal result: `syscallHandleMemlimit_mapping`, that a call changes no mapping of another page.
-/

namespace Buenos.Proc

open Buenos.Vm

/-- A `uint32_t`. -/
def u32 (n : ℕ) : ℕ := n % 2 ^ 32

/-- `a - b` of two `uint32_t`. -/
def sub32 (a b : ℕ) : ℕ := (a + (2 ^ 32 - b % 2 ^ 32)) % 2 ^ 32

/-- `(int)n` of a `uint32_t`. -/
def toInt (n : ℕ) : ℤ := if n < 2 ^ 31 then n else (n : ℤ) - 2 ^ 32

/-- `addr & PAGE_SIZE_MASK`. -/
def pageStart (vaddr : ℕ) : ℕ := vaddr / PAGE_SIZE * PAGE_SIZE

def USERLAND_STACK_TOP : ℕ := 0x7fffeffc
def CONFIG_USERLAND_STACK_SIZE : ℕ := 1
def STACK_BOTTOM : ℕ := pageStart USERLAND_STACK_TOP - (CONFIG_USERLAND_STACK_SIZE - 1) * PAGE_SIZE

/-- `page_diff`. -/
def pageDiff (vaddrNew vaddrOld : ℕ) : ℤ := (toInt (sub32 (pageStart vaddrNew) (pageStart vaddrOld))).tdiv PAGE_SIZE

/-- `can_be_mapped`. -/
def canBeMapped (n : ℤ) (startPageVaddr : ℕ) (pt : Pagetable) : Bool :=
  if (PAGETABLE_ENTRIES : ℤ) - pt.validCount < n then false
  else (List.range n.toNat).all fun j => (List.range pt.validCount).all fun i =>
    let vaddr := u32 (startPageVaddr + j * PAGE_SIZE)
    !((pt.entries i).vpn2 == vpn2Of vaddr && ((pt.entries i).half (onOddPage vaddr)).v)

/-- The loop that maps pages; what `vm_map` returns is not looked at. -/
def mapHeapPages (pageNow : ℕ) : List ℕ → Pagetable → Pool → Option (Pagetable × Pool)
  | [], pt, pool => some (pt, pool)
  | i :: is, pt, pool =>
    match pagepoolGetPhysPage pool with
    | none => none
    | some (physPage, pool) =>
      mapHeapPages pageNow is ((vmMap pt physPage (u32 (pageNow + i * PAGE_SIZE)) true).getD pt) pool

/-- The loop that unmaps pages. -/
def unmapHeapPages (pageNow : ℕ) : List ℕ → Pagetable → Pool → Option (Pagetable × Pool)
  | [], pt, pool => some (pt, pool)
  | i :: is, pt, pool =>
    match vmUnmap pt (sub32 pageNow (i * PAGE_SIZE)) pool with
    | none => none
    | some (pt, pool) => unmapHeapPages pageNow is pt pool

/-- What `syscall_handle_memlimit` leaves behind and returns; 0 is `NULL`. -/
structure MemlimitResult where
  ret : ℕ
  offset : ℕ
  pagetable : Pagetable
  pool : Pool

/-- The current end of the heap, `heap_now`. -/
def heapNow (heapVaddr offset : ℕ) : ℕ := u32 (heapVaddr + offset)

/-- `syscall_handle_memlimit`, with the pages it maps or unmaps.  `none` is a failed assertion. -/
def syscallHandleMemlimit (heapEnd heapVaddr offset : ℕ) (pt : Pagetable) (pool : Pool) :
    Option MemlimitResult :=
  let heapNow := heapNow heapVaddr offset
  let pageNow := pageStart heapNow
  if heapEnd = 0 then some ⟨heapNow, offset, pt, pool⟩
  else
    let requiredPages := pageDiff heapEnd heapNow
    let moved := u32 (offset + sub32 heapEnd heapNow)
    if STACK_BOTTOM ≤ heapEnd ∨ heapEnd < heapVaddr then some ⟨0, offset, pt, pool⟩
    else if 0 < requiredPages then
      if pool.numFreePages < requiredPages ∨ canBeMapped requiredPages pageNow pt then
        some ⟨0, offset, pt, pool⟩
      else
        (mapHeapPages pageNow ((List.range requiredPages.toNat).map (· + 1)) pt pool).map
          fun (pt, pool) => ⟨heapEnd, moved, pt, pool⟩
    else if requiredPages < 0 then
      (unmapHeapPages pageNow (List.range (-requiredPages).toNat) pt pool).map
        fun (pt, pool) => ⟨heapEnd, moved, pt, pool⟩
    else some ⟨heapEnd, moved, pt, pool⟩

/-- The pages that a call unmaps. -/
def unmappedPages (heapEnd heapVaddr offset : ℕ) : List ℕ :=
  let heapNow := heapNow heapVaddr offset
  if heapEnd = 0 ∨ STACK_BOTTOM ≤ heapEnd ∨ heapEnd < heapVaddr then []
  else (List.range (-pageDiff heapEnd heapNow).toNat).map fun i =>
    sub32 (pageStart heapNow) (i * PAGE_SIZE) / PAGE_SIZE

section Mappings

variable {pt pt' : Pagetable} {pool pool' : Pool} {t pageNow page : ℕ} {m : Mapping}

/-- The loop that maps pages keeps what is mapped. -/
theorem mapHeapPages_mapping {is : List ℕ} (hw : pt.Wf t)
    (h : mapHeapPages pageNow is pt pool = some (pt', pool')) :
    pt'.Wf t ∧ ∀ page m, pt.mapping page = some m → pt'.mapping page = some m := by
  induction is generalizing pt pool with
  | nil =>
    cases h
    exact ⟨hw, fun _ _ hm => hm⟩
  | cons i is ih =>
    rw [mapHeapPages] at h
    split at h
    · cases h
    · rename_i physPage pool1 hget
      cases hmap : vmMap pt physPage (u32 (pageNow + i * PAGE_SIZE)) true with
      | none =>
        rw [hmap] at h
        exact ih hw h
      | some pt1 =>
        rw [hmap] at h
        obtain ⟨hw1, hnone, hm1⟩ := vmMap_mapping hw hmap
        obtain ⟨hw', hm'⟩ := ih hw1 h
        refine ⟨hw', fun page m hm => hm' page m ?_⟩
        rw [hm1, Function.update_of_ne]
        · exact hm
        · rintro rfl
          rw [hnone] at hm
          cases hm

/-- The loop that unmaps pages keeps the others. -/
theorem unmapHeapPages_mapping {is : List ℕ} (hw : pt.Wf t)
    (h : unmapHeapPages pageNow is pt pool = some (pt', pool')) :
    pt'.Wf t ∧ ∀ page, page ∉ is.map (fun i => sub32 pageNow (i * PAGE_SIZE) / PAGE_SIZE) →
      pt'.mapping page = pt.mapping page := by
  induction is generalizing pt pool with
  | nil =>
    cases h
    exact ⟨hw, fun _ _ => rfl⟩
  | cons i is ih =>
    rw [unmapHeapPages] at h
    split at h
    · cases h
    · rename_i pt1 pool1 hun
      obtain ⟨hw1, hm1⟩ := vmUnmap_mapping hw hun
      obtain ⟨hw', hm'⟩ := ih hw1 h
      refine ⟨hw', fun page hpage => ?_⟩
      simp only [List.map_cons, List.mem_cons, not_or] at hpage
      rw [hm' page hpage.2, hm1, Function.update_of_ne hpage.1]

/-- **A call of `memlimit`** keeps every mapping of a page that it does not unmap. -/
theorem syscallHandleMemlimit_mapping {heapEnd heapVaddr offset : ℕ} {r : MemlimitResult} (hw : pt.Wf t)
    (h : syscallHandleMemlimit heapEnd heapVaddr offset pt pool = some r) :
    r.pagetable.Wf t ∧ ∀ page m, page ∉ unmappedPages heapEnd heapVaddr offset →
      pt.mapping page = some m → r.pagetable.mapping page = some m := by
  unfold syscallHandleMemlimit at h
  simp only at h
  split at h
  · cases h
    exact ⟨hw, fun _ _ _ hm => hm⟩
  · rename_i h0
    split at h
    · cases h
      exact ⟨hw, fun _ _ _ hm => hm⟩
    · rename_i hrange
      have hpages : unmappedPages heapEnd heapVaddr offset =
          (List.range (-pageDiff heapEnd (heapNow heapVaddr offset)).toNat).map fun i =>
            sub32 (pageStart (heapNow heapVaddr offset)) (i * PAGE_SIZE) / PAGE_SIZE :=
        if_neg (not_or.2 ⟨h0, hrange⟩)
      split at h
      · split at h
        · cases h
          exact ⟨hw, fun _ _ _ hm => hm⟩
        · obtain ⟨⟨pt1, pool1⟩, hmap, rfl⟩ := Option.map_eq_some_iff.1 h
          obtain ⟨hw', hm'⟩ := mapHeapPages_mapping hw hmap
          exact ⟨hw', fun page m _ hm => hm' page m hm⟩
      · split at h
        · obtain ⟨⟨pt1, pool1⟩, hun, rfl⟩ := Option.map_eq_some_iff.1 h
          obtain ⟨hw', hm'⟩ := unmapHeapPages_mapping hw hun
          refine ⟨hw', fun page m hpage hm => ?_⟩
          rw [hpages] at hpage
          rw [hm' page hpage, hm]
        · cases h
          exact ⟨hw, fun _ _ _ hm => hm⟩

end Mappings

end Buenos.Proc
