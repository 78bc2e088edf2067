import Buenos.Base.Transition
import Buenos.Lib.Bitmap
import Buenos.Vm.Pagetable
import Mathlib.Data.Finset.Card
import Mathlib.Data.Finset.Range

/-!
# The page pool and its bitmap

`vm/pagepool.c` over the bitmap of `lib/bitmap.c`, from `pagepool_init` on.

* `PagePool` — the static variables; the bitmap lies in a buffer of `n` bytes.
* `getPhysPage`, `freePhysPage` — the two functions, with their assertions.
* `PagePool.toPool` — the pool as `Buenos.Vm.Pagetable` has it, a set of used pages with a counter.
* `Session` — a pool with the pages that have been handed out and not been freed since.

Principal results: `getPhysPage_toPool` and `freePhysPage_toPool`, that the two models agree, and
`pagepool_correct`.
-/

namespace Buenos.Vm

open Bytes Buenos.Transition

section Model

variable {n : ℕ}

/-- The static variables of `pagepool.c`. -/
structure PagePool (n : ℕ) where
  freePages : Buf n
  numPages : ℕ
  numFreePages : ℤ
  staticEnd : ℕ

/-- `kmalloc_get_reserved_pages`. -/
def kmallocGetReservedPages (freeAreaStart : ℕ) : ℕ :=
  (freeAreaStart - 0x80000000) / PAGE_SIZE + if (freeAreaStart - 0x80000000) % PAGE_SIZE ≠ 0 then 1 else 0

/-- The loop of `pagepool_init` over the reserved pages. -/
def reservePages (freePages : Buf n) (numResPages : ℕ) : Buf n :=
  (List.range numResPages).foldl (fun b i => bitmapSet b i true) freePages

/-- `pagepool_init`, with the buffer that `kmalloc` returns and `free_area_start` after that call. -/
def pagepoolInit (memory : Buf n) (numPages freeAreaStart : ℕ) : PagePool n where
  freePages := reservePages (bitmapInit memory numPages) (kmallocGetReservedPages freeAreaStart)
  numPages := numPages
  numFreePages := (numPages : ℤ) - kmallocGetReservedPages freeAreaStart
  staticEnd := kmallocGetReservedPages freeAreaStart

/-- `pagepool_get_phys_page`; `none` is a failed assertion. -/
def getPhysPage (p : PagePool n) : Option (ℕ × PagePool n) :=
  if 0 < p.numFreePages then
    match bitmapFindnset p.freePages p.numPages with
    | (i, freePages) =>
      let numFreePages := p.numFreePages - 1
      match i with
      | none => none
      | some i =>
        if 0 ≤ numFreePages then
          some (i * PAGE_SIZE, { p with freePages := freePages, numFreePages := numFreePages })
        else none
  else some (0, p)

/-- `pagepool_free_phys_page`; `none` is a failed assertion. -/
def freePhysPage (p : PagePool n) (physAddr : ℕ) : Option (PagePool n) :=
  let i := physAddr / PAGE_SIZE
  if i < p.staticEnd then none
  else if bitmapGet p.freePages i = 1 then
    some { p with freePages := bitmapSet p.freePages i false, numFreePages := p.numFreePages + 1 }
  else none

/-- The number of clear bits below `pagepool_num_pages`. -/
def PagePool.clearBits (p : PagePool n) : ℕ :=
  ((Finset.range p.numPages).filter fun i => bitmapGet p.freePages i = 0).card

/-- The pool as a set of used pages. -/
def PagePool.toPool (p : PagePool n) : Pool :=
  ⟨p.numPages, p.staticEnd, fun i => bitmapGet p.freePages i == 1, p.numFreePages⟩

/-! ## The two models -/

variable {p p' : PagePool n} {i a : ℕ}

/-- The bitmap has room for the pages. -/
def PagePool.Fits (p : PagePool n) : Prop := bitmapSizeof p.numPages ≤ n

theorem PagePool.Fits.lt (h : p.Fits) (hi : i < p.numPages) : 4 * (i / 32) + 4 ≤ n := by
  unfold PagePool.Fits bitmapSizeof at h
  omega

theorem bitmapSet_used (h : p.Fits) (hi : i < p.numPages) (value : Bool) :
    (fun j => bitmapGet (bitmapSet p.freePages i value) j == 1) =
      Function.update (fun j => bitmapGet p.freePages j == 1) i value := by
  funext j
  rw [bitmapGet_bitmapSet _ _ _ (h.lt hi)]
  by_cases hj : j = i
  · rw [hj, Function.update_self, if_pos rfl]
    cases value <;> rfl
  · rw [if_neg hj, Function.update_of_ne hj]

/-- **The search of the bitmap** is the search for the first page that is not used. -/
theorem findnset_find (p : PagePool n) :
    (List.range p.numPages).find? (fun i => !(bitmapGet p.freePages i == 1)) =
        (bitmapFindnset p.freePages p.numPages).1 ∧
      ∀ i, (bitmapFindnset p.freePages p.numPages).1 = some i →
        i < p.numPages ∧ (bitmapFindnset p.freePages p.numPages).2 = bitmapSet p.freePages i true := by
  cases hf : bitmapFindnset p.freePages p.numPages with
  | mk r b =>
    cases r with
    | none =>
      obtain ⟨-, hall⟩ := bitmapFindnset_none hf
      refine ⟨List.find?_eq_none.2 fun i hi => ?_, fun i hi => by cases hi⟩
      simp [hall i (List.mem_range.1 hi)]
    | some i =>
      obtain ⟨hlt, hclear, hbelow, rfl⟩ := bitmapFindnset_some hf
      refine ⟨?_, fun j hj => ?_⟩
      · rw [List.find?_range_eq_some]
        refine ⟨by simp [hclear], List.mem_range.2 hlt, fun j hj => ?_⟩
        simp [hbelow j hj]
      · cases hj
        exact ⟨hlt, rfl⟩

/-- **`pagepool_get_phys_page`** in the two models.  With a counter that is positive the assertion on
the counter holds. -/
theorem getPhysPage_toPool (h : p.Fits) :
    pagepoolGetPhysPage p.toPool = (getPhysPage p).map fun r => (r.1, r.2.toPool) := by
  unfold pagepoolGetPhysPage getPhysPage
  have hfree : p.toPool.numFreePages = p.numFreePages := rfl
  obtain ⟨hfind, hset⟩ := findnset_find p
  by_cases hpos : 0 < p.numFreePages
  · rw [if_pos hpos, hfree, if_pos hpos]
    show (match (List.range p.numPages).find? fun i => !(bitmapGet p.freePages i == 1) with
      | none => none
      | some i => _) = _
    rw [hfind]
    cases hr : bitmapFindnset p.freePages p.numPages with
    | mk r b =>
      rw [hr] at hset
      cases r with
      | none => rfl
      | some i =>
        obtain ⟨hi, rfl⟩ := hset i rfl
        have hnonneg : 0 ≤ p.numFreePages - 1 := by omega
        simp only [hnonneg, if_true, Option.map_some, PagePool.toPool]
        rw [bitmapSet_used h hi]
  · rw [if_neg hpos, hfree, if_neg hpos]
    rfl

/-- **`pagepool_free_phys_page`** in the two models, for a page of the pool. -/
theorem freePhysPage_toPool (h : p.Fits) (ha : a / PAGE_SIZE < p.numPages) :
    pagepoolFreePhysPage p.toPool a = (freePhysPage p a).map PagePool.toPool := by
  unfold pagepoolFreePhysPage freePhysPage
  have hstatic : p.toPool.staticEnd = p.staticEnd := rfl
  have hused : p.toPool.used (a / PAGE_SIZE) = (bitmapGet p.freePages (a / PAGE_SIZE) == 1) := rfl
  simp only [hstatic, hused]
  by_cases hs : a / PAGE_SIZE < p.staticEnd
  · rw [if_pos hs, if_pos hs]
    rfl
  · rw [if_neg hs, if_neg hs]
    by_cases hb : bitmapGet p.freePages (a / PAGE_SIZE) = 1
    · rw [if_pos hb, if_neg (by simp [hb]), Option.map_some]
      simp only [PagePool.toPool]
      rw [bitmapSet_used h ha]
    · rw [if_neg hb, if_pos (by simp [hb])]
      rfl

/-! ## Sequences of calls -/

/-- A call. -/
inductive PoolCall where
  | get
  | free (physAddr : ℕ)

/-- A pool, and the pages that have been handed out and not been freed since. -/
structure Session (n : ℕ) where
  pool : PagePool n
  out : ℕ → Bool

/-- After `pagepool_init`. -/
def Session.init (memory : Buf n) (numPages freeAreaStart : ℕ) : Session n :=
  ⟨pagepoolInit memory numPages freeAreaStart, fun _ => false⟩

/-- The next call; `none` is a failed assertion. -/
def Session.step (s : Session n) : PoolCall → Option (Session n)
  | .get => (getPhysPage s.pool).map fun r =>
      ⟨r.2, if r.1 = 0 then s.out else Function.update s.out (r.1 / PAGE_SIZE) true⟩
  | .free physAddr => (freePhysPage s.pool physAddr).map fun pool =>
      ⟨pool, Function.update s.out (physAddr / PAGE_SIZE) false⟩

/-- Only pages that are handed out are freed. -/
def freesOut (s : Session n) : PoolCall → Prop
  | .get => True
  | .free physAddr => ∃ i, physAddr = i * PAGE_SIZE ∧ s.out i = true

/-- Bits and counter agree with what has been handed out. -/
structure Session.Agrees (s : Session n) : Prop where
  fits : s.pool.Fits
  pos : 0 < s.pool.staticEnd
  used : ∀ i < s.pool.numPages, bitmapGet s.pool.freePages i = 1 ↔ i < s.pool.staticEnd ∨ s.out i = true
  out : ∀ i, s.out i = true → s.pool.staticEnd ≤ i ∧ i < s.pool.numPages
  count : s.pool.numFreePages = s.pool.clearBits

section Steps

variable {s : Session n}

/-- The clear bits after one bit is changed. -/
theorem clearBits_set (h : p.Fits) (hi : i < p.numPages) (hn : p'.numPages = p.numPages) :
    (bitmapGet p.freePages i = 0 → p'.freePages = bitmapSet p.freePages i true →
      p'.clearBits + 1 = p.clearBits) ∧
    (bitmapGet p.freePages i = 1 → p'.freePages = bitmapSet p.freePages i false →
      p'.clearBits = p.clearBits + 1) := by
  have hget : ∀ value j, bitmapGet (bitmapSet p.freePages i value) j =
      if j = i then (if value then 1 else 0) else bitmapGet p.freePages j :=
    fun value j => bitmapGet_bitmapSet _ _ _ (h.lt hi)
  unfold PagePool.clearBits
  rw [hn]
  refine ⟨fun hclear hb => ?_, fun hset hb => ?_⟩
  · rw [hb]
    have hmem : i ∈ (Finset.range p.numPages).filter fun j => bitmapGet p.freePages j = 0 := by
      simp [hi, hclear]
    rw [← Finset.card_erase_add_one hmem]
    congr 2
    ext j
    by_cases hj : j = i
    · simp [hj, hget]
    · simp [hj, hget]
  · rw [hb]
    have hmem : i ∉ (Finset.range p.numPages).filter fun j => bitmapGet p.freePages j = 0 := by
      simp [hset]
    rw [← Finset.card_insert_of_notMem hmem]
    congr 1
    ext j
    by_cases hj : j = i
    · simp [hj, hget, hi]
    · simp [hj, hget]

/-- What `pagepool_get_phys_page` does: it hands out the lowest page that is free. -/
theorem Session.Agrees.get (h : s.Agrees) :
    (s.pool.clearBits = 0 ∧ getPhysPage s.pool = some (0, s.pool)) ∨
      ∃ i, i < s.pool.numPages ∧ bitmapGet s.pool.freePages i = 0 ∧
        (∀ j < i, bitmapGet s.pool.freePages j = 1) ∧ getPhysPage s.pool = some (i * PAGE_SIZE,
          { s.pool with freePages := bitmapSet s.pool.freePages i true
                        numFreePages := s.pool.numFreePages - 1 }) := by
  have hcount := h.count
  unfold getPhysPage
  by_cases hpos : 0 < s.pool.numFreePages
  · rw [if_pos hpos]
    refine Or.inr ?_
    cases hf : bitmapFindnset s.pool.freePages s.pool.numPages with
    | mk r b =>
      cases r with
      | none =>
        obtain ⟨-, hall⟩ := bitmapFindnset_none hf
        have hzero : s.pool.clearBits = 0 := by
          rw [PagePool.clearBits, Finset.card_eq_zero]
          refine Finset.filter_eq_empty_iff.2 fun i hi => ?_
          rw [hall i (Finset.mem_range.1 hi)]
          decide
        rw [hcount, hzero] at hpos
        exact absurd hpos (by decide)
      | some i =>
        obtain ⟨hlt, hclear, hbelow, rfl⟩ := bitmapFindnset_some hf
        refine ⟨i, hlt, hclear, hbelow, ?_⟩
        simp only
        rw [if_pos (by omega)]
  · rw [if_neg hpos]
    refine Or.inl ⟨?_, rfl⟩
    omega

/-- A page that is not used is not static and not handed out. -/
theorem Session.Agrees.clear_iff (h : s.Agrees) (hi : i < s.pool.numPages) :
    bitmapGet s.pool.freePages i = 0 ↔ s.pool.staticEnd ≤ i ∧ s.out i = false := by
  have hused := h.used i hi
  rcases bitmapGet_eq_zero_or_one s.pool.freePages i with hb | hb
  · rw [hb] at hused ⊢
    simp only [zero_ne_one, false_iff, not_or, not_lt, Bool.not_eq_true] at hused
    simpa using hused
  · rw [hb] at hused ⊢
    simp only [true_iff] at hused
    refine iff_of_false one_ne_zero fun hc => ?_
    rcases hused with hlt | hout
    · omega
    · rw [hc.2] at hout
      cases hout

/-- **Every call** goes through and keeps the agreement. -/
theorem Session.Agrees.step (h : s.Agrees) {c : PoolCall} (hc : freesOut s c) :
    ∃ s', s.step c = some s' ∧ s'.Agrees := by
  cases c with
  | get =>
    rcases h.get with ⟨-, hget⟩ | ⟨i, hlt, hclear, -, hget⟩
    · refine ⟨s, ?_, h⟩
      rw [Session.step, hget]
      rfl
    · have hstatic := (h.clear_iff hlt).1 hclear
      have hne : i * PAGE_SIZE ≠ 0 := by
        have hpos := h.pos
        unfold PAGE_SIZE
        omega
      have hdiv : i * PAGE_SIZE / PAGE_SIZE = i := Nat.mul_div_cancel i (by decide)
      refine ⟨_, by rw [Session.step, hget]; rfl, ?_⟩
      simp only [if_neg hne, hdiv]
      refine ⟨h.fits, h.pos, fun j hj => ?_, fun j hj => ?_, ?_⟩
      · show bitmapGet (bitmapSet s.pool.freePages i true) j = 1 ↔ _
        rw [bitmapGet_bitmapSet _ _ _ (h.fits.lt hlt)]
        by_cases hji : j = i
        · simp [hji]
        · simpa [hji] using h.used j hj
      · simp only at hj
        by_cases hji : j = i
        · rw [hji]
          exact ⟨hstatic.1, hlt⟩
        · rw [Function.update_of_ne hji] at hj
          exact h.out j hj
      · generalize hp' : PagePool.mk (bitmapSet s.pool.freePages i true) s.pool.numPages
          (s.pool.numFreePages - 1) s.pool.staticEnd = p'
        have hbits := (clearBits_set h.fits hlt (show p'.numPages = _ by rw [← hp'])).1 hclear (by rw [← hp'])
        have hcount := h.count
        have hfree : p'.numFreePages = s.pool.numFreePages - 1 := by rw [← hp']
        show p'.numFreePages = p'.clearBits
        omega
  | free physAddr =>
    obtain ⟨i, rfl, hout⟩ := hc
    obtain ⟨hstatic, hlt⟩ := h.out i hout
    have hset : bitmapGet s.pool.freePages i = 1 := (h.used i hlt).2 (Or.inr hout)
    have hdiv : i * PAGE_SIZE / PAGE_SIZE = i := Nat.mul_div_cancel i (by decide)
    have hfree : freePhysPage s.pool (i * PAGE_SIZE) = some { s.pool with
        freePages := bitmapSet s.pool.freePages i false, numFreePages := s.pool.numFreePages + 1 } := by
      unfold freePhysPage
      simp only [hdiv]
      rw [if_neg (not_lt.2 hstatic), if_pos hset]
    refine ⟨_, by rw [Session.step, hfree]; rfl, ?_⟩
    simp only [hdiv]
    refine ⟨h.fits, h.pos, fun j hj => ?_, fun j hj => ?_, ?_⟩
    · show bitmapGet (bitmapSet s.pool.freePages i false) j = 1 ↔ _
      rw [bitmapGet_bitmapSet _ _ _ (h.fits.lt hlt)]
      by_cases hji : j = i
      · simp [hji, not_lt.2 hstatic]
      · simpa [hji] using h.used j hj
    · simp only at hj
      by_cases hji : j = i
      · rw [hji, Function.update_self] at hj
        cases hj
      · rw [Function.update_of_ne hji] at hj
        exact h.out j hj
    · generalize hp' : PagePool.mk (bitmapSet s.pool.freePages i false) s.pool.numPages
        (s.pool.numFreePages + 1) s.pool.staticEnd = p'
      have hbits := (clearBits_set h.fits hlt (show p'.numPages = _ by rw [← hp'])).2 hset (by rw [← hp'])
      have hcount := h.count
      have hfree : p'.numFreePages = s.pool.numFreePages + 1 := by rw [← hp']
      show p'.numFreePages = p'.clearBits
      omega

end Steps

/-! ## From the start -/

/-- `bitmap_init` clears every bit of the pages. -/
theorem bitmapGet_init {memory : Buf n} {size : ℕ} (hi : i < size) : bitmapGet (bitmapInit memory size) i = 0 := by
  have hbyte : ∀ o < bitmapSizeof size, (bitmapInit memory size).byte o = 0 := by
    intro o ho
    rw [bitmapInit, Buf.byte_store]
    split
    · simp
    · rename_i hout
      rw [Buf.byte_of_ge]
      simp only [Nat.zero_le, zero_add, List.length_replicate, true_and, not_and] at hout
      have hge := hout ho
      omega
  have hword : (bitmapInit memory size).word (4 * (i / 32)) = 0 := by
    unfold Buf.word
    have hle : 4 * (i / 32) + 3 < bitmapSizeof size := by
      unfold bitmapSizeof
      omega
    rw [hbyte _ (by omega), hbyte _ (by omega), hbyte _ (by omega), hbyte _ hle]
    rfl
  rw [bitmapGet_eq, hword]
  simp

/-- The bits after the loop of `pagepool_init`. -/
theorem bitmapGet_reserve {b : Buf n} {numResPages : ℕ} (hfits : ∀ j < numResPages, 4 * (j / 32) + 4 ≤ n) :
    bitmapGet (reservePages b numResPages) i = if i < numResPages then 1 else bitmapGet b i := by
  induction numResPages with
  | zero => rfl
  | succ k ih =>
    have hstep : reservePages b (k + 1) = bitmapSet (reservePages b k) k true := by
      unfold reservePages
      rw [List.range_succ, List.foldl_append]
      rfl
    rw [hstep, bitmapGet_bitmapSet _ _ _ (hfits k (Nat.lt_succ_self k)),
      ih fun j hj => hfits j (Nat.lt_succ_of_lt hj)]
    by_cases hik : i = k
    · simp [hik]
    · rw [if_neg hik]
      by_cases hlt : i < k
      · rw [if_pos hlt, if_pos (Nat.lt_succ_of_lt hlt)]
      · rw [if_neg hlt, if_neg (by omega)]

/-- The kernel lies in memory: so many pages are reserved. -/
theorem reservedPages_bounds {numPages freeAreaStart : ℕ} (hstart : 0x80000000 < freeAreaStart)
    (hend : freeAreaStart ≤ 0x80000000 + numPages * PAGE_SIZE) :
    0 < kmallocGetReservedPages freeAreaStart ∧ kmallocGetReservedPages freeAreaStart ≤ numPages := by
  unfold kmallocGetReservedPages PAGE_SIZE at *
  split
  · omega
  · omega

theorem Session.Agrees.init {memory : Buf n} {numPages freeAreaStart : ℕ} (hn : n = bitmapSizeof numPages)
    (hstart : 0x80000000 < freeAreaStart) (hend : freeAreaStart ≤ 0x80000000 + numPages * PAGE_SIZE) :
    (Session.init memory numPages freeAreaStart).Agrees := by
  obtain ⟨hpos, hle⟩ := reservedPages_bounds hstart hend
  have hfits : (Session.init memory numPages freeAreaStart).pool.Fits := by
    show bitmapSizeof numPages ≤ n
    rw [hn]
  have hget : ∀ j < numPages, bitmapGet (Session.init memory numPages freeAreaStart).pool.freePages j =
      if j < kmallocGetReservedPages freeAreaStart then 1 else 0 := by
    intro j hj
    have hroom : ∀ i < kmallocGetReservedPages freeAreaStart, 4 * (i / 32) + 4 ≤ n :=
      fun i hi => PagePool.Fits.lt hfits (lt_of_lt_of_le hi hle)
    simp only [Session.init, pagepoolInit]
    rw [bitmapGet_reserve hroom, bitmapGet_init hj]
  refine ⟨hfits, hpos, fun j hj => ?_, (fun j hj => by cases hj), ?_⟩
  · rw [hget j hj]
    show _ ↔ j < kmallocGetReservedPages freeAreaStart ∨ false = true
    split
    · rename_i hlt
      simp [hlt]
    · rename_i hlt
      simp [hlt]
  · have hclear : ((Finset.range numPages).filter fun j =>
        bitmapGet (Session.init memory numPages freeAreaStart).pool.freePages j = 0) =
        Finset.range numPages \ Finset.range (kmallocGetReservedPages freeAreaStart) := by
      ext j
      simp only [Finset.mem_filter, Finset.mem_range, Finset.mem_sdiff]
      refine and_congr_right fun hj => ?_
      rw [hget j hj]
      split
      · rename_i hlt
        simp [hlt]
      · rename_i hlt
        simp [hlt]
    have hcard : (Session.init memory numPages freeAreaStart).pool.clearBits =
        numPages - kmallocGetReservedPages freeAreaStart := by
      show ((Finset.range numPages).filter _).card = _
      rw [hclear, Finset.card_sdiff_of_subset (Finset.range_subset_range.2 hle), Finset.card_range,
        Finset.card_range]
    rw [hcard]
    show (numPages : ℤ) - kmallocGetReservedPages freeAreaStart = _
    omega

/-- **The page pool is correct**: in every sequence of calls that frees only pages that are handed out no
assertion fails, the counter is the number of clear bits, and a call gets the lowest page that is neither
static nor handed out, or 0 when there is none. -/
theorem pagepool_correct {memory : Buf n} {numPages freeAreaStart : ℕ} (hn : n = bitmapSizeof numPages)
    (hstart : 0x80000000 < freeAreaStart) (hend : freeAreaStart ≤ 0x80000000 + numPages * PAGE_SIZE)
    {calls : List PoolCall}
    (hcalls : Every Session.step freesOut (Session.init memory numPages freeAreaStart) calls) :
    ∃ s, run Session.step (Session.init memory numPages freeAreaStart) calls = some s ∧
      s.pool.numFreePages = s.pool.clearBits ∧
      (∀ physAddr, freesOut s (.free physAddr) → freePhysPage s.pool physAddr ≠ none) ∧
      ∃ a pool, getPhysPage s.pool = some (a, pool) ∧
        (a = 0 ↔ ∀ i, s.pool.staticEnd ≤ i → i < s.pool.numPages → s.out i = true) ∧
        (a ≠ 0 → ∃ i, a = i * PAGE_SIZE ∧ s.pool.staticEnd ≤ i ∧ i < s.pool.numPages ∧ s.out i = false ∧
          ∀ j, s.pool.staticEnd ≤ j → j < i → s.out j = true) := by
  obtain ⟨s, hr, h⟩ := run_total (fun hc h => Session.Agrees.step h hc)
    (Session.Agrees.init hn hstart hend) hcalls
  refine ⟨s, hr, h.count, fun physAddr hout hnone => ?_, ?_⟩
  · obtain ⟨s', hs', -⟩ := h.step (show freesOut s (.free physAddr) from hout)
    rw [Session.step, hnone] at hs'
    cases hs'
  · rcases h.get with ⟨hzero, hget⟩ | ⟨i, hlt, hclear, hbelow, hget⟩
    · refine ⟨0, s.pool, hget, iff_of_true rfl fun i hi hlt => ?_, fun hne => absurd rfl hne⟩
      have hnot : bitmapGet s.pool.freePages i ≠ 0 := by
        rw [PagePool.clearBits, Finset.card_eq_zero] at hzero
        exact Finset.filter_eq_empty_iff.1 hzero (Finset.mem_range.2 hlt)
      by_contra hout
      exact hnot ((h.clear_iff hlt).2 ⟨hi, by simpa using hout⟩)
    · obtain ⟨hstatic, hout⟩ := (h.clear_iff hlt).1 hclear
      have hne : i * PAGE_SIZE ≠ 0 := by
        have hpos := h.pos
        unfold PAGE_SIZE
        omega
      refine ⟨i * PAGE_SIZE, _, hget, iff_of_false hne fun hall => ?_, fun _ =>
        ⟨i, rfl, hstatic, hlt, hout, fun j hj hji => ?_⟩⟩
      · rw [hall i hstatic hlt] at hout
        cases hout
      · have hused := (h.used j (by omega)).1 (hbelow j hji)
        exact hused.resolve_left (not_lt.2 hj)

end Model

/-- Two pages are handed out, the first is freed and handed out again, on a machine with 40 pages. -/
theorem pagepool_correct_reuse : ∃ s, run Session.step (Session.init (Buf.const 8 0xff) 40 0x80002001)
      [.get, .get, .free 0x3000, .get] = some s ∧ s.pool.numFreePages = s.pool.clearBits := by
  have hcalls : Every Session.step freesOut (Session.init (Buf.const 8 0xff) 40 0x80002001)
      [.get, .get, .free 0x3000, .get] := ⟨trivial, trivial, ⟨3, rfl, by decide +kernel⟩, trivial, trivial⟩
  obtain ⟨s, hr, hcount, -⟩ := pagepool_correct (by decide) (by decide) (by decide) hcalls
  exact ⟨s, hr, hcount⟩

end Buenos.Vm
