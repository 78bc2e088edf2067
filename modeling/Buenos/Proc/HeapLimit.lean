import Buenos.Proc.Preparing
import Buenos.Vm.PagetableMap

/-!
# The heap of a single process

`syscall_handle_memlimit` when only one process runs, so that `offset` is its own.

* `HeapState` — the page table maps the segments and the stack, and the heap from its start to its end.
* `newPages` — the pages that a call has to add; `Fits` — the page table can take them.
* `AllOrNothing` — what the call promises.

Principal results: `mapHeapPages_fits`, `unmapHeapPages_mapped`, and `memlimit_allOrNothing`.
-/

namespace Buenos.Proc

open Buenos.Vm Buenos.Vm.PagetableMap

/-! ## Room in a page table -/

/-- The pairs of pages that have an entry. -/
def pairsOf (pt : Pagetable) : Finset ℕ := (Finset.range pt.validCount).image fun i => (pt.entries i).vpn2

/-- The page table can take these pages: none of them is mapped, and there are entries for their pairs. -/
structure Fits (pt : Pagetable) (pages : List ℕ) : Prop where
  unmapped : ∀ page ∈ pages, pt.mapping page = none
  room : (pairsOf pt ∪ (pages.map (· / 2)).toFinset).card ≤ PAGETABLE_ENTRIES

section Room

variable {pt pt' : Pagetable} {t page physPage vaddr : ℕ} {pages : List ℕ}

theorem mem_pairsOf {q : ℕ} : q ∈ pairsOf pt ↔ (pt.findEntry q).isSome = true := by
  rw [findEntry_isSome, pairsOf, Finset.mem_image]
  simp only [Finset.mem_range]

theorem pairsOf_card (hw : pt.Wf t) : (pairsOf pt).card = pt.validCount := by
  rw [pairsOf, Finset.card_image_of_injOn, Finset.card_range]
  intro i hi j hj heq
  exact hw.distinct i (by simpa using hi) j (by simpa using hj) heq

/-- A page that is mapped has an entry for its pair. -/
theorem mapped_pair (h : pt.mapping page ≠ none) : page / 2 ∈ pairsOf pt := by
  rw [mem_pairsOf]
  cases hf : pt.findEntry (page / 2) with
  | none =>
    rw [Pagetable.mapping, hf] at h
    exact absurd rfl h
  | some i => rfl

/-- The table takes no pages. -/
theorem Fits.nil (hw : pt.Wf t) : Fits pt [] := by
  refine ⟨fun page hp => absurd hp List.not_mem_nil, ?_⟩
  rw [List.map_nil, List.toFinset_nil, Finset.union_empty, pairsOf_card hw]
  exact hw.count

theorem vmMap_pairsOf (h : vmMap pt physPage vaddr true = some pt') :
    pairsOf pt' = insert (vaddr / PAGE_SIZE / 2) (pairsOf pt) := by
  ext q
  rw [Finset.mem_insert, mem_pairsOf, mem_pairsOf, (vmMap_entries h).1, vpn2Of_eq]

/-- The first page can be mapped, and the table can take the rest. -/
theorem Fits.map (physPage : ℕ) (hw : pt.Wf t) (h : Fits pt (vaddr / PAGE_SIZE :: pages)) :
    ∃ pt', vmMap pt physPage vaddr true = some pt' ∧ (vaddr / PAGE_SIZE ∉ pages → Fits pt' pages) := by
  have hroom := h.room
  rw [List.map_cons, List.toFinset_cons, Finset.union_insert] at hroom
  have hsome : (vmMap pt physPage vaddr true).isSome = true := by
    rw [vmMap_isSome hw]
    refine ⟨h.unmapped _ List.mem_cons_self, ?_⟩
    by_cases hq : vpn2Of vaddr ∈ pairsOf pt
    · exact Or.inl (mem_pairsOf.1 hq)
    · refine Or.inr ?_
      rw [vpn2Of_eq] at hq
      have hsub : insert (vaddr / PAGE_SIZE / 2) (pairsOf pt) ⊆
          insert (vaddr / PAGE_SIZE / 2) (pairsOf pt ∪ (pages.map (· / 2)).toFinset) :=
        Finset.insert_subset_insert _ Finset.subset_union_left
      have hcard := (Finset.card_le_card hsub).trans hroom
      rw [Finset.card_insert_of_notMem hq, pairsOf_card hw] at hcard
      exact hcard
  obtain ⟨pt', hmap⟩ := Option.isSome_iff_exists.1 hsome
  refine ⟨pt', hmap, fun hnot => ⟨fun page hp => ?_, ?_⟩⟩
  · rw [(vmMap_mapping hw hmap).2.2, Function.update_of_ne (by rintro rfl; exact hnot hp)]
    exact h.unmapped page (List.mem_cons_of_mem _ hp)
  · rw [vmMap_pairsOf hmap, Finset.insert_union]
    exact hroom

end Room

/-! ## The loops -/

section Loops

variable {ι : Type} [DecidableEq ι] {frame : ι → Option ℕ} {table : ι} {page : ℕ → ι} {pool pool' : Pool}
  {pt pt' : Pagetable} {t pageNow : ℕ} {is : List ℕ}

omit [DecidableEq ι] in
/-- The frames with one owner more, who owns nothing. -/
theorem Frames.spare (h : Frames frame pool) : Frames (fun o : Option ι => o.bind frame) pool := by
  refine ⟨h.pos, h.static, h.count, fun o f hf => ?_, fun o o' f hf hf' => ?_, fun f hle hu => ?_⟩
  · obtain ⟨i, rfl, hi⟩ := Option.bind_eq_some_iff.1 hf
    exact h.owned i f hi
  · obtain ⟨i, rfl, hi⟩ := Option.bind_eq_some_iff.1 hf
    obtain ⟨j, rfl, hj⟩ := Option.bind_eq_some_iff.1 hf'
    rw [h.once i j f hi hj]
  · obtain ⟨i, hi⟩ := h.complete f hle hu
    exact ⟨some i, hi⟩

/-- With frames enough the loop that maps pages goes through, whether `vm_map` succeeds or not. -/
theorem mapHeapPages_total (is : List ℕ) : ∀ {ι : Type} [DecidableEq ι] {frame : ι → Option ℕ} {pool : Pool}
    {pt : Pagetable}, Frames frame pool → (is.length : ℤ) ≤ pool.numFreePages →
    ∃ pt' pool', mapHeapPages pageNow is pt pool = some (pt', pool') := by
  induction is with
  | nil => exact fun _ _ => ⟨_, _, rfl⟩
  | cons i is ih =>
    intro ι _ frame pool pt h hfree
    rw [List.length_cons] at hfree
    obtain ⟨physPage, pool1, hget, hphys, hcount⟩ := h.get_pos (by omega)
    rw [mapHeapPages, hget]
    exact ih (h.spare.take (o := none) hget hphys rfl) (by omega)

/-- Entries stay in the table. -/
theorem mapHeapPages_pairsOf (h : mapHeapPages pageNow is pt pool = some (pt', pool')) :
    pairsOf pt ⊆ pairsOf pt' := by
  induction is generalizing pt pool with
  | nil =>
    cases h
    exact Finset.Subset.refl _
  | cons i is ih =>
    rw [mapHeapPages] at h
    split at h
    · cases h
    · rename_i physPage pool1 hget
      cases hmap : vmMap pt physPage (u32 (pageNow + i * PAGE_SIZE)) true with
      | none =>
        rw [hmap] at h
        exact ih h
      | some pt1 =>
        rw [hmap] at h
        have hsub : pairsOf pt ⊆ pairsOf pt1 := by
          rw [vmMap_pairsOf hmap]
          exact Finset.subset_insert _ _
        exact hsub.trans (ih h)

/-- **The loop that maps pages** when the page table can take them. -/
theorem mapHeapPages_fits (h : Frames frame pool) (ho : Owns frame table page pt) (hw : pt.Wf t)
    (hfree : (is.length : ℤ) ≤ pool.numFreePages)
    (hnodup : (is.map fun i => u32 (pageNow + i * PAGE_SIZE) / PAGE_SIZE).Nodup)
    (hfits : Fits pt (is.map fun i => u32 (pageNow + i * PAGE_SIZE) / PAGE_SIZE)) :
    ∃ pt' pool' frame', mapHeapPages pageNow is pt pool = some (pt', pool') ∧ Frames frame' pool' ∧
      Owns frame' table page pt' ∧ pt'.Wf t ∧ pool'.numFreePages = pool.numFreePages - is.length ∧
      ∀ p, pt'.mapping p ≠ none ↔
        pt.mapping p ≠ none ∨ p ∈ is.map fun i => u32 (pageNow + i * PAGE_SIZE) / PAGE_SIZE := by
  induction is generalizing frame pt pool with
  | nil => exact ⟨pt, pool, frame, rfl, h, ho, hw, by simp, by simp⟩
  | cons i is ih =>
    rw [List.length_cons] at hfree
    rw [List.map_cons] at hnodup hfits
    obtain ⟨hnot, hnodup⟩ := List.nodup_cons.1 hnodup
    obtain ⟨physPage, pool1, hget, hphys, hcount⟩ := h.get_pos (by omega)
    obtain ⟨pt1, hmap, hrest⟩ := hfits.map physPage hw
    obtain ⟨h1, ho1⟩ := ho.map h hw hget hphys hmap
    obtain ⟨hw1, -, hm1⟩ := vmMap_mapping hw hmap
    obtain ⟨pt', pool', frame', hloop, h', ho', hw', hcount', hm'⟩ :=
      ih h1 ho1 hw1 (by omega) hnodup (hrest hnot)
    refine ⟨pt', pool', frame', ?_, h', ho', hw', ?_, fun p => ?_⟩
    · rw [mapHeapPages, hget]
      simp only [hmap, Option.getD_some]
      exact hloop
    · rw [hcount', hcount, List.length_cons]
      push_cast
      omega
    · rw [hm', hm1, List.map_cons, List.mem_cons]
      by_cases hp : p = u32 (pageNow + i * PAGE_SIZE) / PAGE_SIZE
      · simp [hp]
      · rw [Function.update_of_ne hp]
        simp [hp]

/-- `vm_unmap` of a page that is mapped frees a frame. -/
theorem vmUnmap_numFreePages {vaddr : ℕ} (hw : pt.Wf t) (hm : pt.mapping (vaddr / PAGE_SIZE) ≠ none)
    (h : vmUnmap pt vaddr pool = some (pt', pool')) : pool'.numFreePages = pool.numFreePages + 1 := by
  rw [vmUnmap_eq hw] at h
  cases hf : pt.findEntry (vpn2Of vaddr) with
  | none =>
    rw [Pagetable.mapping, ← vpn2Of_eq, hf] at hm
    exact absurd rfl hm
  | some i =>
    rw [hf] at h
    obtain ⟨pool1, hfree, heq⟩ := Option.map_eq_some_iff.1 h
    cases heq
    unfold pagepoolFreePhysPage at hfree
    simp only at hfree
    split at hfree
    · cases hfree
    · split at hfree
      · cases hfree
      · cases hfree
        rfl

/-- `vm_unmap` of a page that is mapped finds it. -/
theorem unmapsMapped_of_mapping {vaddr : ℕ} (hw : pt.Wf t) (hm : pt.mapping (vaddr / PAGE_SIZE) ≠ none) :
    unmapsMapped pt vaddr = true := by
  obtain ⟨x, hx⟩ := Option.ne_none_iff_exists'.1 hm
  obtain ⟨i, hi, hv, hhalf⟩ := (mapping_some hw).1 hx
  have hf : pt.findEntry (vpn2Of vaddr) = some i := by
    rw [vpn2Of_eq, ← hv]
    exact hw.findEntry_eq hi
  rw [unmapsMapped, hf, Option.all_some]
  show ((pt.entries i).half (decide (vaddr / PAGE_SIZE % 2 = 1))).v = true
  rw [hhalf]

/-- **The loop that unmaps pages** when all of them are mapped. -/
theorem unmapHeapPages_mapped (h : Frames frame pool) (ho : Owns frame table page pt) (hw : pt.Wf t)
    (hnodup : (is.map fun i => sub32 pageNow (i * PAGE_SIZE) / PAGE_SIZE).Nodup)
    (hmapped : ∀ p ∈ is.map fun i => sub32 pageNow (i * PAGE_SIZE) / PAGE_SIZE, pt.mapping p ≠ none) :
    ∃ pt' pool' frame', unmapHeapPages pageNow is pt pool = some (pt', pool') ∧ Frames frame' pool' ∧
      Owns frame' table page pt' ∧ pt'.Wf t ∧ pool'.numFreePages = pool.numFreePages + is.length ∧
      ∀ p, pt'.mapping p ≠ none ↔
        pt.mapping p ≠ none ∧ p ∉ is.map fun i => sub32 pageNow (i * PAGE_SIZE) / PAGE_SIZE := by
  induction is generalizing frame pt pool with
  | nil => exact ⟨pt, pool, frame, rfl, h, ho, hw, by simp, by simp⟩
  | cons i is ih =>
    rw [List.map_cons] at hnodup hmapped
    obtain ⟨hnot, hnodup⟩ := List.nodup_cons.1 hnodup
    have hfirst := hmapped _ List.mem_cons_self
    obtain ⟨pt1, pool1, hun, hw1, haddr, hm1, h1⟩ := ho.unmap h hw (unmapsMapped_of_mapping hw hfirst)
    have ho1 := ho.update haddr hm1
    obtain ⟨pt', pool', frame', hloop, h', ho', hw', hcount', hm'⟩ := ih h1 ho1 hw1 hnodup fun p hp => by
      rw [hm1, Function.update_of_ne (by rintro rfl; exact hnot hp)]
      exact hmapped p (List.mem_cons_of_mem _ hp)
    refine ⟨pt', pool', frame', ?_, h', ho', hw', ?_, fun p => ?_⟩
    · rw [unmapHeapPages, hun]
      exact hloop
    · rw [hcount', vmUnmap_numFreePages hw hfirst hun, List.length_cons]
      push_cast
      omega
    · rw [hm', hm1, List.map_cons, List.mem_cons]
      by_cases hp : p = sub32 pageNow (i * PAGE_SIZE) / PAGE_SIZE
      · simp [hp]
      · rw [Function.update_of_ne hp]
        simp [hp]

end Loops

/-! ## The heap -/

/-- The page is one of those from the page of `a` to the page of `b`. -/
def InPages (a b page : ℕ) : Prop := a / PAGE_SIZE ≤ page ∧ page ≤ b / PAGE_SIZE

instance (a b page : ℕ) : Decidable (InPages a b page) := inferInstanceAs (Decidable (_ ∧ _))

/-- **The memory of a process**: its page table maps the pages in `rest`, which are those of its segments
and of its stack, and the heap from the page of its start to the page of its end; the frames of all of them
are in use. -/
structure HeapState (rest : Set ℕ) (t heapVaddr heapEnd : ℕ) (pt : Pagetable) (pool : Pool) : Prop where
  wf : pt.Wf t
  le : heapVaddr ≤ heapEnd
  lt : heapEnd < 2 ^ 32
  mapped : ∀ page, pt.mapping page ≠ none ↔ page ∈ rest ∨ InPages heapVaddr heapEnd page
  apart : ∀ page ∈ rest, ¬ InPages heapVaddr heapEnd page
  stack : STACK_BOTTOM / PAGE_SIZE ∈ rest
  frames : ∃ frame : CallOwner → Option ℕ, Frames frame pool ∧ Owns frame .table .page pt

/-- The pages that the heap needs to end in the page of `p`. -/
def newPages (heapEnd p : ℕ) : List ℕ :=
  (List.range (p / PAGE_SIZE - heapEnd / PAGE_SIZE)).map fun i => heapEnd / PAGE_SIZE + (i + 1)

/-- The pages can be provided: there are frames for them, and the page table can take them. -/
def Provided (pt : Pagetable) (pool : Pool) (pages : List ℕ) : Prop :=
  (pages.length : ℤ) ≤ pool.numFreePages ∧ Fits pt pages

/-- **All or nothing**: what a call `memlimit(p)` does that is not a query. -/
structure AllOrNothing (rest : Set ℕ) (t heapVaddr offset : ℕ) (pt : Pagetable) (pool : Pool) (p : ℕ)
    (r : MemlimitResult) : Prop where
  all : r.ret ≠ 0 → r.ret = p ∧ heapNow heapVaddr r.offset = p ∧ HeapState rest t heapVaddr p r.pagetable r.pool ∧
    (∀ page ∈ rest, r.pagetable.mapping page = pt.mapping page) ∧
    r.pool.numFreePages =
      pool.numFreePages - ((p / PAGE_SIZE : ℕ) - (heapNow heapVaddr offset / PAGE_SIZE : ℕ) : ℤ)
  nothing : r.ret = 0 → r.offset = offset ∧ r.pagetable = pt ∧ r.pool = pool ∧
    (p < heapVaddr ∨ STACK_BOTTOM ≤ p ∨ ¬ Provided pt pool (newPages (heapNow heapVaddr offset) p))

section Limit

variable {rest : Set ℕ} {t heapVaddr heapEnd offset p page : ℕ} {pt pt' : Pagetable} {pool : Pool}

theorem STACK_BOTTOM_eq : STACK_BOTTOM = 0x7fffe000 := rfl

/-- The end of the heap lies below the stack, or the heap starts above it. -/
theorem HeapState.below (h : HeapState rest t heapVaddr heapEnd pt pool) (hp : p < STACK_BOTTOM)
    (hle : heapVaddr ≤ p) : heapEnd / PAGE_SIZE < STACK_BOTTOM / PAGE_SIZE ∧
      p / PAGE_SIZE < STACK_BOTTOM / PAGE_SIZE := by
  have hapart := h.apart _ h.stack
  have hpage : heapVaddr / PAGE_SIZE ≤ p / PAGE_SIZE := Nat.div_le_div_right hle
  have hlt : p / PAGE_SIZE < STACK_BOTTOM / PAGE_SIZE := by
    rw [STACK_BOTTOM_eq] at hp ⊢
    unfold PAGE_SIZE
    omega
  refine ⟨?_, hlt⟩
  by_contra hge
  exact hapart ⟨by omega, by omega⟩

theorem HeapState.small (h : HeapState rest t heapVaddr heapEnd pt pool) (hp : p < STACK_BOTTOM)
    (hle : heapVaddr ≤ p) : p < 2 ^ 31 ∧ heapEnd < 2 ^ 31 := by
  obtain ⟨hend, hpage⟩ := h.below hp hle
  rw [STACK_BOTTOM_eq] at hend hpage
  unfold PAGE_SIZE at hend hpage
  omega

/-- `page_diff` is the distance of the pages. -/
theorem pageDiff_eq {a b : ℕ} (ha : a < 2 ^ 31) (hb : b < 2 ^ 31) :
    pageDiff a b = (a / PAGE_SIZE : ℕ) - (b / PAGE_SIZE : ℕ) := by
  have hdiff : toInt (sub32 (pageStart a) (pageStart b)) =
      ((a / PAGE_SIZE : ℕ) - (b / PAGE_SIZE : ℕ) : ℤ) * PAGE_SIZE := by
    unfold toInt sub32 pageStart PAGE_SIZE
    split
    · omega
    · omega
  rw [pageDiff, hdiff, Int.mul_tdiv_cancel _ (by decide)]

/-- The end of the heap after a call that moves it. -/
theorem heapNow_moved (hp : p < 2 ^ 32) :
    heapNow heapVaddr (u32 (offset + sub32 p (heapNow heapVaddr offset))) = p := by
  unfold heapNow u32 sub32
  omega

/-- The page of the end of the heap is mapped, so that `can_be_mapped` says no to any number of pages. -/
theorem canBeMapped_false {n : ℤ} (hw : pt.Wf t) (hlt : heapEnd < 2 ^ 32)
    (hm : pt.mapping (heapEnd / PAGE_SIZE) ≠ none) (hn : 0 < n) :
    canBeMapped n (pageStart heapEnd) pt = false := by
  unfold canBeMapped
  split
  · rfl
  · obtain ⟨x, hx⟩ := Option.ne_none_iff_exists'.1 hm
    obtain ⟨i, hi, hv, hhalf⟩ := (mapping_some hw).1 hx
    have hpage : u32 (pageStart heapEnd + 0 * PAGE_SIZE) / PAGE_SIZE = heapEnd / PAGE_SIZE := by
      unfold u32 pageStart PAGE_SIZE
      omega
    rw [List.all_eq_false]
    refine ⟨0, List.mem_range.2 (by omega), ?_⟩
    rw [Bool.not_eq_true, List.all_eq_false]
    refine ⟨i, List.mem_range.2 hi, ?_⟩
    have hvpn : vpn2Of (u32 (pageStart heapEnd + 0 * PAGE_SIZE)) = (pt.entries i).vpn2 := by
      rw [vpn2Of_eq, hpage, hv]
    have hodd : onOddPage (u32 (pageStart heapEnd + 0 * PAGE_SIZE)) = decide (heapEnd / PAGE_SIZE % 2 = 1) := by
      rw [onOddPage, hpage]
    simp only [hvpn, hodd, hhalf]
    simp

/-- The pages of the loop that maps them. -/
theorem newPages_eq {n : ℕ} (hn : n = p / PAGE_SIZE - heapEnd / PAGE_SIZE)
    (hp : p / PAGE_SIZE < STACK_BOTTOM / PAGE_SIZE) :
    (((List.range n).map (· + 1)).map fun i => u32 (pageStart heapEnd + i * PAGE_SIZE) / PAGE_SIZE) =
      newPages heapEnd p := by
  rw [newPages, List.map_map, ← hn]
  refine List.map_congr_left fun i hi => ?_
  have hi := List.mem_range.1 hi
  rw [STACK_BOTTOM_eq] at hp
  simp only [Function.comp_apply]
  unfold u32 pageStart PAGE_SIZE at *
  omega

theorem mem_newPages : page ∈ newPages heapEnd p ↔ heapEnd / PAGE_SIZE < page ∧ page ≤ p / PAGE_SIZE := by
  rw [newPages, List.mem_map]
  constructor
  · rintro ⟨i, hi, rfl⟩
    have hi := List.mem_range.1 hi
    omega
  · rintro ⟨h1, h2⟩
    exact ⟨page - heapEnd / PAGE_SIZE - 1, List.mem_range.2 (by omega), by omega⟩

theorem newPages_nodup : (newPages heapEnd p).Nodup :=
  List.nodup_range.map fun i j hij => by
    have heq : heapEnd / PAGE_SIZE + (i + 1) = heapEnd / PAGE_SIZE + (j + 1) := hij
    omega

theorem newPages_length : (newPages heapEnd p).length = p / PAGE_SIZE - heapEnd / PAGE_SIZE := by
  rw [newPages, List.length_map, List.length_range]

/-- The pages of the loop that unmaps them. -/
theorem oldPages_eq {n : ℕ} (hlt : heapEnd < 2 ^ 32) (hn : n ≤ heapEnd / PAGE_SIZE) :
    ((List.range n).map fun i => sub32 (pageStart heapEnd) (i * PAGE_SIZE) / PAGE_SIZE) =
      (List.range n).map fun i => heapEnd / PAGE_SIZE - i := by
  refine List.map_congr_left fun i hi => ?_
  have hi := List.mem_range.1 hi
  unfold sub32 pageStart PAGE_SIZE at *
  omega

end Limit

/-! ## The call -/

section Call

variable {rest : Set ℕ} {t heapVaddr offset p : ℕ} {pt : Pagetable} {pool : Pool}

/-- `NULL` with a reason. -/
theorem AllOrNothing.null (hwhy : p < heapVaddr ∨ STACK_BOTTOM ≤ p ∨
      ¬ Provided pt pool (newPages (heapNow heapVaddr offset) p)) :
    AllOrNothing rest t heapVaddr offset pt pool p ⟨0, offset, pt, pool⟩ :=
  ⟨fun h => absurd rfl h, fun _ => ⟨rfl, rfl, rfl, hwhy⟩⟩

/-- The call stays in the page. -/
theorem AllOrNothing.same (h : HeapState rest t heapVaddr (heapNow heapVaddr offset) pt pool) (hp0 : p ≠ 0)
    (hle : heapVaddr ≤ p) (hlt : p < 2 ^ 32) (hpage : p / PAGE_SIZE = heapNow heapVaddr offset / PAGE_SIZE) :
    AllOrNothing rest t heapVaddr offset pt pool p
      ⟨p, u32 (offset + sub32 p (heapNow heapVaddr offset)), pt, pool⟩ := by
  have hin : ∀ page, InPages heapVaddr p page ↔ InPages heapVaddr (heapNow heapVaddr offset) page := by
    intro page
    rw [InPages, InPages, hpage]
  refine ⟨fun _ => ⟨rfl, heapNow_moved hlt, ⟨h.wf, hle, hlt, fun page => ?_, fun page hr => ?_, h.stack, h.frames⟩,
    fun page _ => rfl, ?_⟩, fun h0 => absurd h0 hp0⟩
  · rw [h.mapped, hin]
  · rw [hin]
    exact h.apart page hr
  · rw [hpage]
    show pool.numFreePages = _
    omega

/-- **The heap shrinks.** -/
theorem AllOrNothing.shrink (h : HeapState rest t heapVaddr (heapNow heapVaddr offset) pt pool) (hp0 : p ≠ 0)
    (hle : heapVaddr ≤ p) (hlt : p < 2 ^ 32) (hpage : p / PAGE_SIZE < heapNow heapVaddr offset / PAGE_SIZE) :
    ∃ pt' pool', unmapHeapPages (pageStart (heapNow heapVaddr offset))
        (List.range (heapNow heapVaddr offset / PAGE_SIZE - p / PAGE_SIZE)) pt pool = some (pt', pool') ∧
      AllOrNothing rest t heapVaddr offset pt pool p
        ⟨p, u32 (offset + sub32 p (heapNow heapVaddr offset)), pt', pool'⟩ := by
  have hstart : heapVaddr / PAGE_SIZE ≤ p / PAGE_SIZE := Nat.div_le_div_right hle
  have hnonneg := Nat.zero_le (p / PAGE_SIZE)
  obtain ⟨frame, hframes, howns⟩ := h.frames
  have heq := oldPages_eq h.lt (Nat.sub_le (heapNow heapVaddr offset / PAGE_SIZE) (p / PAGE_SIZE))
  have hmem : ∀ page, page ∈ (List.range (heapNow heapVaddr offset / PAGE_SIZE - p / PAGE_SIZE)).map
      (fun i => sub32 (pageStart (heapNow heapVaddr offset)) (i * PAGE_SIZE) / PAGE_SIZE) ↔
      p / PAGE_SIZE < page ∧ page ≤ heapNow heapVaddr offset / PAGE_SIZE := by
    intro page
    rw [heq, List.mem_map]
    refine ⟨?_, fun hp => ⟨heapNow heapVaddr offset / PAGE_SIZE - page, List.mem_range.2 (by omega), by omega⟩⟩
    rintro ⟨i, hi, rfl⟩
    have hi := List.mem_range.1 hi
    omega
  have hnodup : ((List.range (heapNow heapVaddr offset / PAGE_SIZE - p / PAGE_SIZE)).map fun i =>
      sub32 (pageStart (heapNow heapVaddr offset)) (i * PAGE_SIZE) / PAGE_SIZE).Nodup := by
    rw [heq]
    refine List.Nodup.map_on (fun i hi j hj hij => ?_) List.nodup_range
    have hi := List.mem_range.1 hi
    have hj := List.mem_range.1 hj
    omega
  obtain ⟨pt', pool', frame', hloop, hframes', howns', hwf', hfree', hm'⟩ :=
    unmapHeapPages_mapped hframes howns h.wf hnodup fun page hp => by
      rw [h.mapped]
      have hp := (hmem page).1 hp
      exact Or.inr ⟨by omega, hp.2⟩
  have hsub : ∀ page, InPages heapVaddr p page → InPages heapVaddr (heapNow heapVaddr offset) page :=
    fun page hin => ⟨hin.1, hin.2.trans hpage.le⟩
  refine ⟨pt', pool', hloop, fun _ => ⟨rfl, heapNow_moved hlt, ⟨hwf', hle, hlt, fun page => ?_,
    fun page hr hin => h.apart page hr (hsub page hin), h.stack, ⟨frame', hframes', howns'⟩⟩,
    fun page hr => ?_, ?_⟩, fun h0 => absurd h0 hp0⟩
  · rw [hm', h.mapped, hmem]
    constructor
    · rintro ⟨hr | hin, hnot⟩
      · exact Or.inl hr
      · exact Or.inr ⟨hin.1, by have := hin.2; omega⟩
    · rintro (hr | hin)
      · exact ⟨Or.inl hr, fun hp => h.apart page hr ⟨by omega, hp.2⟩⟩
      · exact ⟨Or.inr (hsub page hin), fun hp => absurd hin.2 (by omega)⟩
  · refine (unmapHeapPages_mapping h.wf hloop).2 page fun hp => h.apart page hr ?_
    have hp := (hmem page).1 hp
    exact ⟨by omega, hp.2⟩
  · rw [hfree', List.length_range]
    push_cast
    omega

/-- **The loop of a heap that grows**: the promise is kept exactly when the page table can take the pages. -/
theorem AllOrNothing.grow (h : HeapState rest t heapVaddr (heapNow heapVaddr offset) pt pool) (hp0 : p ≠ 0)
    (hle : heapVaddr ≤ p) (hlt : p < STACK_BOTTOM) (hpage : heapNow heapVaddr offset / PAGE_SIZE < p / PAGE_SIZE)
    (hfree : ((newPages (heapNow heapVaddr offset) p).length : ℤ) ≤ pool.numFreePages) :
    ∃ pt' pool', mapHeapPages (pageStart (heapNow heapVaddr offset))
        ((List.range (p / PAGE_SIZE - heapNow heapVaddr offset / PAGE_SIZE)).map (· + 1)) pt pool = some (pt', pool') ∧
      (AllOrNothing rest t heapVaddr offset pt pool p
          ⟨p, u32 (offset + sub32 p (heapNow heapVaddr offset)), pt', pool'⟩ ↔
        Fits pt (newPages (heapNow heapVaddr offset) p)) := by
  obtain ⟨frame, hframes, howns⟩ := h.frames
  have hbelow := (h.below hlt hle).2
  have hlt32 : p < 2 ^ 32 := by
    rw [STACK_BOTTOM_eq] at hlt
    omega
  have heq : (((List.range (p / PAGE_SIZE - heapNow heapVaddr offset / PAGE_SIZE)).map (· + 1)).map fun i =>
      u32 (pageStart (heapNow heapVaddr offset) + i * PAGE_SIZE) / PAGE_SIZE) =
      newPages (heapNow heapVaddr offset) p := newPages_eq rfl hbelow
  have hlen : ((List.range (p / PAGE_SIZE - heapNow heapVaddr offset / PAGE_SIZE)).map (· + 1)).length =
      (newPages (heapNow heapVaddr offset) p).length := by
    rw [List.length_map, List.length_range, newPages_length]
  rw [← hlen] at hfree
  have hstart : heapVaddr / PAGE_SIZE ≤ heapNow heapVaddr offset / PAGE_SIZE := Nat.div_le_div_right h.le
  obtain ⟨pt', pool', hloop⟩ := mapHeapPages_total _ hframes hfree
  refine ⟨pt', pool', hloop, fun hall => ?_, fun hfits => ?_⟩
  · -- the pages are mapped as heap, so that they were free and the table has entries for all pairs
    obtain ⟨-, -, hstate, -, -⟩ := hall.all hp0
    refine ⟨fun page hp => ?_, ?_⟩
    · have hp := mem_newPages.1 hp
      by_contra hm
      rcases (h.mapped page).1 hm with hr | hin
      · exact hstate.apart page hr ⟨by omega, hp.2⟩
      · have := hin.2
        omega
    · have hsub : pairsOf pt ∪ ((newPages (heapNow heapVaddr offset) p).map (· / 2)).toFinset ⊆ pairsOf pt' := by
        refine Finset.union_subset (mapHeapPages_pairsOf hloop) fun q hq => ?_
        obtain ⟨page, hp, rfl⟩ := List.mem_map.1 (List.mem_toFinset.1 hq)
        have hp := mem_newPages.1 hp
        exact mapped_pair ((hstate.mapped page).2 (Or.inr ⟨by omega, hp.2⟩))
      refine (Finset.card_le_card hsub).trans ?_
      rw [pairsOf_card hstate.wf]
      exact hstate.wf.count
  · rw [← heq] at hfits
    have hnodup : ((((List.range (p / PAGE_SIZE - heapNow heapVaddr offset / PAGE_SIZE)).map (· + 1)).map fun i =>
        u32 (pageStart (heapNow heapVaddr offset) + i * PAGE_SIZE) / PAGE_SIZE)).Nodup := by
      rw [heq]
      exact newPages_nodup
    obtain ⟨pt1, pool1, frame', hloop', hframes', howns', hwf', hfree', hm'⟩ :=
      mapHeapPages_fits hframes howns h.wf hfree hnodup hfits
    rw [hloop] at hloop'
    cases hloop'
    rw [heq] at hm' hfits
    refine ⟨fun _ => ⟨rfl, heapNow_moved hlt32, ⟨hwf', hle, hlt32, fun page => ?_, fun page hr hin => ?_, h.stack,
      ⟨frame', hframes', howns'⟩⟩, fun page hr => ?_, ?_⟩, fun h0 => absurd h0 hp0⟩
    · rw [hm', h.mapped, mem_newPages, or_assoc]
      refine or_congr_right ⟨?_, fun hin => ?_⟩
      · rintro (hin | hp)
        · exact ⟨hin.1, hin.2.trans hpage.le⟩
        · exact ⟨by omega, hp.2⟩
      · by_cases hold : page ≤ heapNow heapVaddr offset / PAGE_SIZE
        · exact Or.inl ⟨hin.1, hold⟩
        · exact Or.inr ⟨not_le.1 hold, hin.2⟩
    · by_cases hold : page ≤ heapNow heapVaddr offset / PAGE_SIZE
      · exact h.apart page hr ⟨hin.1, hold⟩
      · have hnone := hfits.unmapped page (mem_newPages.2 ⟨not_le.1 hold, hin.2⟩)
        exact (h.mapped page).2 (Or.inl hr) hnone
    · obtain ⟨x, hx⟩ := Option.ne_none_iff_exists'.1 ((h.mapped page).2 (Or.inl hr))
      rw [hx]
      exact (mapHeapPages_mapping h.wf hloop).2 page x hx
    · rw [hfree', List.length_map, List.length_range]
      push_cast
      omega

/-- **A heap that grows** with frames enough: `can_be_mapped` does not stop the call, whatever there is to map. -/
theorem memlimit_grow (h : HeapState rest t heapVaddr (heapNow heapVaddr offset) pt pool) (hp0 : p ≠ 0)
    (hle : heapVaddr ≤ p) (hlt : p < STACK_BOTTOM) (hpage : heapNow heapVaddr offset / PAGE_SIZE < p / PAGE_SIZE)
    (hfree : ((newPages (heapNow heapVaddr offset) p).length : ℤ) ≤ pool.numFreePages) :
    ∃ r, syscallHandleMemlimit p heapVaddr offset pt pool = some r ∧ r.ret = p ∧
      (AllOrNothing rest t heapVaddr offset pt pool p r ↔ Fits pt (newPages (heapNow heapVaddr offset) p)) := by
  obtain ⟨pt', pool', hloop, hiff⟩ := AllOrNothing.grow h hp0 hle hlt hpage hfree
  have hmapped : pt.mapping (heapNow heapVaddr offset / PAGE_SIZE) ≠ none :=
    (h.mapped _).2 (Or.inr ⟨Nat.div_le_div_right h.le, le_refl _⟩)
  have hn : pageDiff p (heapNow heapVaddr offset) = (newPages (heapNow heapVaddr offset) p).length := by
    obtain ⟨hp31, hend31⟩ := h.small hlt hle
    rw [pageDiff_eq hp31 hend31, newPages_length]
    omega
  have hpos : (0 : ℤ) < (newPages (heapNow heapVaddr offset) p).length := by
    rw [newPages_length]
    omega
  refine ⟨_, ?_, rfl, hiff⟩
  unfold syscallHandleMemlimit
  simp only [if_neg hp0, hn, canBeMapped_false h.wf h.lt hmapped hpos]
  rw [if_neg (not_or.2 ⟨not_le.2 hlt, not_lt.2 hle⟩), if_pos hpos, if_neg (by simpa using hfree), Int.toNat_natCast,
    newPages_length, hloop]
  rfl

/-- **`memlimit` is all or nothing** exactly in these cases: the address lies outside the range of the heap,
there are too few frames, or the page table can take all the pages that the heap needs. -/
theorem memlimit_allOrNothing (h : HeapState rest t heapVaddr (heapNow heapVaddr offset) pt pool) (hp0 : p ≠ 0) :
    ∃ r, syscallHandleMemlimit p heapVaddr offset pt pool = some r ∧
      (AllOrNothing rest t heapVaddr offset pt pool p r ↔ p < heapVaddr ∨ STACK_BOTTOM ≤ p ∨
        pool.numFreePages < (newPages (heapNow heapVaddr offset) p).length ∨
        Fits pt (newPages (heapNow heapVaddr offset) p)) := by
  by_cases hrange : STACK_BOTTOM ≤ p ∨ p < heapVaddr
  · have hwhy : p < heapVaddr ∨ STACK_BOTTOM ≤ p := hrange.symm
    refine ⟨_, ?_, iff_of_true (AllOrNothing.null (hwhy.imp_right Or.inl)) (hwhy.imp_right Or.inl)⟩
    unfold syscallHandleMemlimit
    simp only [if_neg hp0]
    rw [if_pos hrange]
  · obtain ⟨hlt, hle⟩ := not_or.1 hrange
    rw [not_le] at hlt
    rw [not_lt] at hle
    obtain ⟨hp31, hend31⟩ := h.small hlt hle
    have hdiff := pageDiff_eq hp31 hend31
    have hfits : p / PAGE_SIZE ≤ heapNow heapVaddr offset / PAGE_SIZE →
        Fits pt (newPages (heapNow heapVaddr offset) p) := by
      intro hpages
      rw [newPages, Nat.sub_eq_zero_of_le hpages]
      exact Fits.nil h.wf
    rcases Nat.lt_trichotomy (heapNow heapVaddr offset / PAGE_SIZE) (p / PAGE_SIZE) with hgrow | hsame | hshrink
    · by_cases hfree : pool.numFreePages < (newPages (heapNow heapVaddr offset) p).length
      · have hnot : ¬ Provided pt pool (newPages (heapNow heapVaddr offset) p) := fun hprov =>
          absurd hprov.1 (not_le.2 hfree)
        refine ⟨_, ?_, iff_of_true (AllOrNothing.null (Or.inr (Or.inr hnot))) (Or.inr (Or.inr (Or.inl hfree)))⟩
        rw [newPages_length] at hfree
        unfold syscallHandleMemlimit
        simp only [if_neg hp0, hdiff]
        rw [if_neg hrange, if_pos (by omega), if_pos (Or.inl (by omega))]
      · obtain ⟨r, hr, -, hiff⟩ := memlimit_grow h hp0 hle hlt hgrow (not_lt.1 hfree)
        refine ⟨r, hr, hiff.trans ⟨fun hf => Or.inr (Or.inr (Or.inr hf)), ?_⟩⟩
        rintro (hc | hc | hc | hf)
        · exact absurd hle (not_le.2 hc)
        · exact absurd hlt (not_lt.2 hc)
        · exact absurd hc hfree
        · exact hf
    · refine ⟨_, ?_, iff_of_true (AllOrNothing.same h hp0 hle (by omega) hsame.symm) ?_⟩
      · unfold syscallHandleMemlimit
        simp only [if_neg hp0, hdiff]
        rw [if_neg hrange, if_neg (by omega), if_neg (by omega)]
      · exact Or.inr (Or.inr (Or.inr (hfits hsame.ge)))
    · obtain ⟨pt', pool', hloop, hall⟩ := AllOrNothing.shrink h hp0 hle (by omega) hshrink
      have hnat : (-((p / PAGE_SIZE : ℕ) - (heapNow heapVaddr offset / PAGE_SIZE : ℕ) : ℤ)).toNat =
          heapNow heapVaddr offset / PAGE_SIZE - p / PAGE_SIZE := by omega
      refine ⟨_, ?_, iff_of_true hall (Or.inr (Or.inr (Or.inr (hfits hshrink.le))))⟩
      unfold syscallHandleMemlimit
      simp only [if_neg hp0, hdiff]
      rw [if_neg hrange, if_neg (by omega), if_pos (by omega), hnat, hloop]
      rfl

end Call

/-! ## Processes that have been started -/

section Started

variable {pool : Pool} {t heapVaddr : ℕ} {w : World} {pt : Pagetable} {vaddrs : List ℕ}

/-- The pages of a list of addresses. -/
def addrPages (vaddrs : List ℕ) : Set ℕ := {page | page ∈ vaddrs.map (· / PAGE_SIZE)}

/-- When the last address that has been mapped is the one of the heap, the heap is that page. -/
theorem Taken.heapState (h : Taken pool t w pt (vaddrs ++ [heapVaddr]) none) (hlt : heapVaddr < 2 ^ 32)
    (hstack : STACK_BOTTOM ∈ vaddrs) : HeapState (addrPages vaddrs) t heapVaddr heapVaddr pt w.pool := by
  obtain ⟨frame, hframes, howns, -, -⟩ := h.owners
  have hin : ∀ page, InPages heapVaddr heapVaddr page ↔ page = heapVaddr / PAGE_SIZE := fun page =>
    ⟨fun hp => le_antisymm hp.2 hp.1, fun hp => ⟨hp.ge, hp.le⟩⟩
  refine ⟨h.maps.wf, le_refl _, hlt, fun page => ?_, fun page hr hp => ?_,
    (List.mem_map_of_mem hstack : STACK_BOTTOM / PAGE_SIZE ∈ vaddrs.map (· / PAGE_SIZE)),
    ⟨frame, hframes, howns⟩⟩
  · rw [← Option.isSome_iff_ne_none, h.maps.mapped, List.map_append, List.mem_append, hin, List.map_singleton,
      List.mem_singleton]
    rfl
  · have honce := h.maps.once
    rw [List.map_append] at honce
    exact (List.nodup_append.1 honce).2.2 page hr _ List.mem_cons_self ((hin page).1 hp)

/-- **`process_start` leaves a heap of one page.** -/
theorem prepare_heapState {c : StartCall} {s : StartState} (hpool : PoolWf w.pool) (h : prepare c w = .ok s) :
    ∃ pt, s.world.pagetable = some pt ∧
      HeapState (addrPages s.elf.segmentAddrs) c.thread s.elf.heapVaddr s.elf.heapVaddr pt s.world.pool := by
  have hresult := prepare_result c hpool
  rw [h] at hresult
  cases hresult with
  | @ready _ _ pt _ _ _ _ _ htaken =>
    exact ⟨pt, htaken.pagetable, htaken.heapState (Nat.mod_lt _ (by decide))
      (List.mem_append_left _ (List.mem_append_left _ List.mem_cons_self))⟩

/-- Pages can be mapped, so there is a process with these pages. -/
theorem exists_heapState (hpool : PoolWf pool) (t : TID) (hcan : CanMap (vaddrs ++ [heapVaddr]))
    (hfree : (vaddrs.length + 2 : ℤ) ≤ pool.numFreePages) (hlt : heapVaddr < 2 ^ 32) (hstack : STACK_BOTTOM ∈ vaddrs) :
    ∃ pt pool', HeapState (addrPages vaddrs) t heapVaddr heapVaddr pt pool' ∧
      pool'.numFreePages = pool.numFreePages - (vaddrs.length + 2) ∧ pt.validCount ≤ vaddrs.length + 1 := by
  let c : StartCall := ⟨t, none, none, emptyPage, 0⟩
  let s : StartState := ⟨⟨fun _ => ⟨freeEntry, "", 0, fun _ => none⟩, none, none, pool, fun _ => none, none⟩, none,
    none, .zeroed 0⟩
  have hempty : ∀ addrs : List ℕ, [] ++ addrs = addrs := fun _ => rfl
  rcases createPagetable_result (c := c) (s := s) hpool rfl with ⟨hzero, -⟩ | ⟨-, pt, pool1, -, htaken⟩
  · have hzero : pool.numFreePages = 0 := hzero
    omega
  · have hmap : MapResult pool t _ [] (vaddrs ++ [heapVaddr]) _ := mapPages_result htaken
    have hlen : ((vaddrs ++ [heapVaddr]).length : ℤ) = vaddrs.length + 1 := by
      rw [List.length_append, List.length_singleton]
      rfl
    generalize mapPages (vaddrs ++ [heapVaddr]) (s.withMemory (some pt) pool1) = r at hmap
    cases hmap with
    | @done pt' pool' _ _ h =>
      rw [hempty] at h
      refine ⟨pt', pool', h.heapState hlt hstack, ?_, ?_⟩
      · have hcount : pool'.numFreePages = pool.numFreePages - 1 - (vaddrs ++ [heapVaddr]).length := h.free rfl
        rw [hlen] at hcount
        omega
      · rw [h.maps.count]
        refine (List.toFinset_card_le _).trans ?_
        rw [List.length_map, List.length_append, List.length_singleton]
    | @noFrame k _ _ hk hnone _ _ =>
      rw [List.length_nil] at hnone
      push_cast at hnone
      omega
    | @refused k _ _ _ hk _ hnot _ =>
      rw [← List.take_append_drop (k + 1) (vaddrs ++ [heapVaddr])] at hcan
      exact absurd hcan.prefix hnot

end Started

/-- A process with a segment of one page asks for two pages more. -/
theorem memlimit_allOrNothing_twoPages : ∃ pt pool,
    HeapState (addrPages [0x7fffe000, 0x10000000]) 0 0x10001000 0x10001000 pt pool ∧
      ∃ r, syscallHandleMemlimit 0x10003000 0x10001000 0 pt pool = some r ∧
        AllOrNothing (addrPages [0x7fffe000, 0x10000000]) 0 0x10001000 0 pt pool 0x10003000 r := by
  obtain ⟨pt, pool, h, -, hcount⟩ := @exists_heapState smallPool 0x10001000 [0x7fffe000, 0x10000000]
    smallPool_wf 0 (by decide) (by decide) (by decide) (by decide)
  have hfits : Fits pt (newPages (heapNow 0x10001000 0) 0x10003000) := by
    refine ⟨fun page hp => ?_, ?_⟩
    · by_contra hm
      have hp : page = 0x10002 ∨ page = 0x10003 := by
        have hp := mem_newPages.1 hp
        unfold heapNow u32 PAGE_SIZE at hp
        omega
      rcases (h.mapped page).1 hm with hr | hin
      · have hr : page = 0x7fffe ∨ page = 0x10000 := by simpa [addrPages, PAGE_SIZE] using hr
        omega
      · unfold InPages PAGE_SIZE at hin
        omega
    · have hcard := Finset.card_union_le (pairsOf pt)
        ((newPages (heapNow 0x10001000 0) 0x10003000).map (· / 2)).toFinset
      have hfew := List.toFinset_card_le ((newPages (heapNow 0x10001000 0) 0x10003000).map (· / 2))
      rw [List.length_map, newPages_length] at hfew
      rw [pairsOf_card h.wf] at hcard
      unfold heapNow u32 PAGE_SIZE at *
      rw [List.length_cons, List.length_singleton] at hcount
      unfold PAGETABLE_ENTRIES
      omega
  have hstate : HeapState _ 0 0x10001000 (heapNow 0x10001000 0) pt pool := h
  obtain ⟨r, hr, hiff⟩ := memlimit_allOrNothing hstate (show 0x10003000 ≠ 0 by decide)
  exact ⟨pt, pool, h, r, hr, hiff.2 (Or.inr (Or.inr (Or.inr hfits)))⟩

/-- The read-only segment of a process lies behind its heap; it asks for the page of this segment, and gets
it. -/
theorem memlimit_takes_segment : ∃ pt pool,
    HeapState (addrPages [0x7fffe000, 0x10002000, 0x10000000]) 0 0x10001000 0x10001000 pt pool ∧
      ∃ r, syscallHandleMemlimit 0x10002000 0x10001000 0 pt pool = some r ∧ r.ret = 0x10002000 ∧
        ¬ AllOrNothing (addrPages [0x7fffe000, 0x10002000, 0x10000000]) 0 0x10001000 0 pt pool 0x10002000 r := by
  obtain ⟨pt, pool, h, hfree, -⟩ := @exists_heapState smallPool 0x10001000
    [0x7fffe000, 0x10002000, 0x10000000] smallPool_wf 0 (by decide) (by decide) (by decide) (by decide)
  have hfree : pool.numFreePages = 9 := hfree
  have hstate : HeapState _ 0 0x10001000 (heapNow 0x10001000 0) pt pool := h
  obtain ⟨r, hr, hret, hiff⟩ := memlimit_grow hstate (show 0x10002000 ≠ 0 by decide) (by decide) (by decide)
    (by decide) (by rw [hfree]; decide)
  refine ⟨pt, pool, h, r, hr, hret, fun hall => ?_⟩
  have hmem : (0x10002 : ℕ) ∈ newPages (heapNow 0x10001000 0) 0x10002000 := by decide
  exact (h.mapped 0x10002).2 (Or.inl (by simp [addrPages, PAGE_SIZE])) ((hiff.1 hall).unmapped _ hmem)

end Buenos.Proc
