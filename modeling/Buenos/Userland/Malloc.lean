import Buenos.Base.Transition
import Mathlib.Order.Interval.Set.Basic
import Mathlib.Order.Disjoint
import Mathlib.Order.CompletePartialOrder
import Mathlib.Data.BitVec

/-!
# The userland allocator

`malloc` and `free` of `tests/malloc.c` over the memory of one process.  Headers live in that memory, in
the machine's byte order, at any address: a header is what the bytes at a pointer say.  `memlimit` is a
parameter in what it decides: it may refuse any request.

* `initMalloc`, `nextFree`, `divideSegment`, `mergeAround`, `lastFree`, `malloc`, `free` — line by line.
  `none` is a call that does not return: a NULL pointer is followed, or a loop goes round for ever.
* `State.live` — the pointers that `malloc` returned and nobody has freed, with the sizes asked for.
* `Contract` — live payloads are aligned, disjoint from each other and from all reachable headers, and
  everything is inside the heap.

Principal result: `malloc_contract_iff` — the contract is kept exactly in runs that hand out nothing: the
heap of `init_malloc` ends on an aligned address, and the first segment behind it starts one byte later.
-/

namespace Buenos.Malloc

open Transition

/-! ## Memory and headers -/

/-- A machine word: a pointer, or an `int` as its bits. -/
abbrev Word := BitVec 32

def ALIGNMENT : Word := 4

def HDR_SIZE : Word := 16

def HEADER_ALIGN : Word := ALIGNMENT - HDR_SIZE % ALIGNMENT

def SEG_HEADER_SIZE : Word := HDR_SIZE + HEADER_ALIGN

/-- The fields of `segment_header_t`. -/
inductive Field where
  | next
  | prev
  | size
  | free
  deriving DecidableEq

def Field.offset : Field → Word
  | .next => 0
  | .prev => 4
  | .size => 8
  | .free => 12

/-- The word at an address, highest byte first. -/
def load (mem : Word → BitVec 8) (a : Word) : Word :=
  mem a ++ mem (a + 1) ++ mem (a + 2) ++ mem (a + 3)

def store (mem : Word → BitVec 8) (a w : Word) : Word → BitVec 8 := fun x =>
  if x = a then w.extractLsb' 24 8
  else if x = a + 1 then w.extractLsb' 16 8
  else if x = a + 2 then w.extractLsb' 8 8
  else if x = a + 3 then w.extractLsb' 0 8
  else mem x

/-- The process: its heap as the kernel sees it, its memory, `heap.start` and the `done` of
`init_malloc`, and what it has allocated. -/
structure State where
  heapStart : Word
  heapEnd : Word
  mem : Word → BitVec 8
  start : Word
  done : Bool
  live : List (Word × Word)

/-- Read a field of the header at `p`. -/
def State.get (s : State) (p : Word) (f : Field) : Option Word :=
  if p = 0 then none else some (load s.mem (p + f.offset))

/-- Write a field of the header at `p`. -/
def State.set (s : State) (p : Word) (f : Field) (w : Word) : Option State :=
  if p = 0 then none else some { s with mem := store s.mem (p + f.offset) w }

/-- `syscall_memlimit`: NULL asks for the heap end, and a request may be refused. -/
def memlimit (s : State) (p : Word) (grant : Bool) : Word × State :=
  if p = 0 then (s.heapEnd, s)
  else if s.heapStart ≤ p ∧ grant = true then (p, { s with heapEnd := p })
  else (0, s)

/-- What `memlimit` decides about the requests of one `malloc`. -/
structure Grants where
  align : Bool
  header : Bool
  grow : Bool

/-! ## The functions -/

/-- The first lines of `init_malloc`: where `heap.start` goes. -/
def alignHeap (s : State) (g : Grants) : Word × State :=
  let start := (memlimit s 0 false).1
  if start % ALIGNMENT ≠ 0 then memlimit s (start + (ALIGNMENT - start % ALIGNMENT)) g.align
  else (start, s)

def initMalloc (s : State) (g : Grants) : Option State :=
  if s.done = true then some s
  else
    let (start, s) := alignHeap s g
    let s := { (memlimit s (start + SEG_HEADER_SIZE) g.header).2 with start := start }
    do
      let s ← s.set start .next 0
      let s ← s.set start .prev 0
      let s ← s.set start .size 0
      let s ← s.set start .free 1
      some { s with done := true }

/-- `adjust_size`: the size rounded up, `none` for a bad one.  The sum wraps as the machine's does. -/
def adjustSize (size : Word) : Option Word :=
  if size.toInt ≤ 0 then none
  else if size.srem ALIGNMENT ≠ 0 then some (size + (ALIGNMENT - size.srem ALIGNMENT))
  else some size

/-- The rounds a walk over the headers can make before it meets one for the second time. -/
def ROUNDS : ℕ := 2 ^ 32

/-- The loop of `next_free`. -/
def findSegment (s : State) (size : Word) : ℕ → Word → Option Word
  | 0, _ => none
  | rounds + 1, seg => do
    let next ← s.get seg .next
    if next = 0 then some seg
    else
      let free ← s.get seg .free
      let segSize ← s.get seg .size
      if free ≠ 0 ∧ size.toInt ≤ segSize.toInt then some seg
      else findSegment s size rounds next

/-- `next_free`; a result of 0 is NULL. -/
def nextFree (s : State) (start size : Word) (grow : Bool) : Option (Word × State) := do
  let seg ← findSegment s size ROUNDS start
  let free ← s.get seg .free
  let segSize ← s.get seg .size
  if free = 0 ∨ segSize.toInt < size.toInt then
    let heapEnd := (memlimit s 0 grow).1
    let (newHeapEnd, s) := memlimit s (heapEnd + 1 + size + SEG_HEADER_SIZE) grow
    if newHeapEnd = 0 then some (0, s)
    else
      let lastSeg := heapEnd + 1
      let s ← s.set seg .next lastSeg
      let s ← s.set lastSeg .prev seg
      let s ← s.set lastSeg .next 0
      some (lastSeg, s)
  else some (seg, s)

def divideSegment (s : State) (seg size : Word) : Option State := do
  let next ← s.get seg .next
  if next ≠ 0 then
    -- `free` of the new header keeps what the memory held there
    let between := seg + size + SEG_HEADER_SIZE
    let s ← s.set between .next (← s.get seg .next)
    let s ← s.set between .prev seg
    let s ← s.set between .size ((← s.get seg .size) - size - SEG_HEADER_SIZE)
    let s ← s.set (← s.get seg .next) .prev between
    let s ← s.set seg .next between
    s.set seg .size size
  else s.set seg .size size

def dataVaddr (header : Word) : Word := header + SEG_HEADER_SIZE

def findHeader (segmentStart : Word) : Word := segmentStart - SEG_HEADER_SIZE

/-- The first half of `merge_around`, and the segment that the second half goes on with. -/
def mergePrev (s : State) (between next prev : Word) : Option (State × Word) :=
  if prev = 0 then some (s, between)
  else do
    let free ← s.get prev .free
    if free = 0 then some (s, between)
    else
      let s ← s.set next .prev prev
      let s ← s.set prev .next next
      let s ← s.set prev .size
        ((← s.get prev .size) + ((← s.get between .size) + SEG_HEADER_SIZE))
      some (s, prev)

/-- The second half of `merge_around`. -/
def mergeNext (s : State) (between next : Word) : Option State :=
  if next = 0 then some s
  else do
    let free ← s.get next .free
    if free = 0 then some s
    else
      let s ← s.set between .size
        ((← s.get between .size) + ((← s.get next .size) + SEG_HEADER_SIZE))
      let s ← s.set between .next (← s.get next .next)
      s.set (← s.get next .next) .prev between

def mergeAround (s : State) (between : Word) : Option State := do
  let next ← s.get between .next
  let prev ← s.get between .prev
  let (s, between) ← mergePrev s between next prev
  mergeNext s between next

/-- The loop of `last_free`. -/
def lastFree (s : State) : ℕ → Word → Option Bool
  | 0, _ => none
  | rounds + 1, header => do
    let next ← s.get header .next
    if next = 0 then some true
    else
      let free ← s.get next .free
      if free = 0 then some false else lastFree s rounds next

def malloc (s : State) (size : Word) (g : Grants) : Option (Word × State) := do
  let s ← initMalloc s g
  match adjustSize size with
  | none => some (0, s)
  | some size =>
    let (seg, s) ← nextFree s s.start size g.grow
    if seg = 0 then some (0, s)
    else
      let s ← s.set seg .free 0
      let s ← divideSegment s seg size
      some (dataVaddr seg, s)

def free (s : State) (ptr : Word) (grant : Bool) : Option State :=
  if ptr = 0 then some s
  else do
    let header := findHeader ptr
    let s ← s.set header .free 1
    let s ← mergeAround s header
    if ← lastFree s ROUNDS header then some (memlimit s header grant).2 else some s

/-! ## Runs and the contract -/

/-- What a process does with its heap: it allocates, frees what is live (or NULL), and writes to its
payloads. -/
inductive Action where
  | malloc (size : Word) (g : Grants)
  | free (ptr : Word) (grant : Bool)
  | write (a : Word) (b : BitVec 8)

/-- The bytes from `a` on, `n` of them. -/
def region (a n : Word) : Set ℕ := Set.Ico a.toNat (a.toNat + n.toNat)

def State.writable (s : State) (a : Word) : Bool :=
  s.live.any fun x => decide (x.1.toNat ≤ a.toNat ∧ a.toNat < x.1.toNat + x.2.toNat)

def step (s : State) : Action → Option State
  | .malloc size g => do
    let (ptr, s) ← malloc s size g
    if ptr = 0 then some s else some { s with live := (ptr, size) :: s.live }
  | .free ptr grant =>
    if ptr = 0 ∨ ptr ∈ s.live.map Prod.fst then do
      let s ← free s ptr grant
      some { s with live := s.live.eraseP (·.1 = ptr) }
    else none
  | .write a b =>
    if s.writable a then some { s with mem := Function.update s.mem a b } else none

/-- A process before its first `malloc`: an empty heap at any address. -/
def State.init (heapStart : Word) (mem : Word → BitVec 8) : State :=
  ⟨heapStart, heapStart, mem, 0, false, []⟩

/-- The headers that can be reached from `heap.start`. -/
inductive Reachable (s : State) : Word → Prop
  | start : s.start ≠ 0 → Reachable s s.start
  | next {p n : Word} : Reachable s p → s.get p .next = some n → n ≠ 0 → Reachable s n

def State.heap (s : State) : Set ℕ := Set.Ico s.heapStart.toNat s.heapEnd.toNat

/-- **The allocator's contract.** -/
structure Contract (s : State) : Prop where
  aligned : ∀ x ∈ s.live, x.1 % ALIGNMENT = 0
  apart : s.live.Pairwise fun x y => Disjoint (region x.1 x.2) (region y.1 y.2)
  offHeaders : ∀ x ∈ s.live, ∀ p, Reachable s p → Disjoint (region x.1 x.2) (region p HDR_SIZE)
  payloads : ∀ x ∈ s.live, region x.1 x.2 ⊆ s.heap
  headers : ∀ p, Reachable s p → region p HDR_SIZE ⊆ s.heap

/-- The action leads to a state that meets the contract. -/
def KeepsContract (s : State) (a : Action) : Prop := ∀ s', step s a = some s' → Contract s'

/-- `memlimit` grants the request. -/
def Granted (s : State) (p : Word) (grant : Bool) : Prop :=
  p ≠ 0 ∧ s.heapStart ≤ p ∧ grant = true

/-- `init_malloc` has run, or gets the room for its header. -/
def HeaderGranted (s : State) (g : Grants) : Prop :=
  s.done = true ∨
    Granted (alignHeap s g).2 ((alignHeap s g).1 + SEG_HEADER_SIZE) g.header

/-- The request of `next_free` for a segment of `size` bytes is answered with NULL. -/
def GrowthRefused (s : State) (size : Word) (grow : Bool) : Prop :=
  (memlimit s (s.heapEnd + 1 + size + SEG_HEADER_SIZE) grow).1 = 0

/-- The condition on a call: `init_malloc` has its header, and a size above 0 can be rounded up to an
`int` and is refused by `memlimit`. -/
def HandsOutNothing (s : State) : Action → Prop
  | .malloc size g => HeaderGranted s g ∧
      (size.toInt ≤ 0 ∨ size.toInt ≤ 2 ^ 31 - 4 ∧
        ∀ s' ∈ initMalloc s g, ∀ n ∈ adjustSize size, GrowthRefused s' n g.grow)
  | _ => True

instance (s : State) (p : Word) (grant : Bool) : Decidable (Granted s p grant) :=
  inferInstanceAs (Decidable (_ ∧ _))

instance (s : State) (g : Grants) : Decidable (HeaderGranted s g) :=
  inferInstanceAs (Decidable (_ ∨ _))

instance (s : State) (size : Word) (grow : Bool) : Decidable (GrowthRefused s size grow) :=
  inferInstanceAs (Decidable (_ = _))

instance (s : State) : ∀ a : Action, Decidable (HandsOutNothing s a)
  | .malloc size g =>
    -- the sizes are one value at most, not all words
    have (s' : State) : Decidable (∀ n ∈ adjustSize size, GrowthRefused s' n g.grow) :=
      Option.decidableForallMem (adjustSize size)
    inferInstanceAs (Decidable (_ ∧ _))
  | .free _ _ => isTrue trivial
  | .write _ _ => isTrue trivial

/-! ## Headers in memory -/

theorem load_store_self (mem : Word → BitVec 8) (a w : Word) : load (store mem a w) a = w := by
  have h1 : a + 1 ≠ a := by bv_omega
  have h2 : a + 2 ≠ a ∧ a + 2 ≠ a + 1 := by constructor <;> bv_omega
  have h3 : a + 3 ≠ a ∧ a + 3 ≠ a + 1 ∧ a + 3 ≠ a + 2 := by refine ⟨?_, ?_, ?_⟩ <;> bv_omega
  simp only [load, store, h1, h2.1, h2.2, h3.1, h3.2.1, h3.2.2, if_true, if_false]
  ext i hi
  rw [← BitVec.getLsbD_eq_getElem, ← BitVec.getLsbD_eq_getElem]
  simp only [BitVec.getLsbD_append, BitVec.getLsbD_extractLsb']
  split_ifs
  all_goals
    rw [decide_eq_true (by omega), Bool.true_and]
    congr 1
    omega

/-- A store leaves the other words of a header alone. -/
theorem load_store_of_far (mem : Word → BitVec 8) {a b : Word} (w : Word) (hab : 4 ≤ (b - a).toNat)
    (hba : (b - a).toNat ≤ 2 ^ 32 - 4) : load (store mem a w) b = load mem b := by
  have hne : ∀ i j : Word, i.toNat < 4 → j.toNat < 4 → b + i ≠ a + j := by
    intro i j hi hj h
    bv_omega
  have h0 : ∀ j : Word, j.toNat < 4 → b ≠ a + j := by
    intro j hj h
    bv_omega
  have hi0 : ∀ i : Word, i.toNat < 4 → b + i ≠ a := by
    intro i hi h
    bv_omega
  have hb : b ≠ a := by
    intro h
    bv_omega
  simp only [load, store, hb, h0 1 (by decide), h0 2 (by decide), h0 3 (by decide), hi0 1 (by decide),
    hi0 2 (by decide), hi0 3 (by decide), hne 1 1 (by decide) (by decide),
    hne 1 2 (by decide) (by decide), hne 1 3 (by decide) (by decide), hne 2 1 (by decide) (by decide),
    hne 2 2 (by decide) (by decide), hne 2 3 (by decide) (by decide), hne 3 1 (by decide) (by decide),
    hne 3 2 (by decide) (by decide), hne 3 3 (by decide) (by decide), if_false]

@[simp] theorem get_ne {s : State} {p : Word} (hp : p ≠ 0) (f : Field) :
    s.get p f = some (load s.mem (p + f.offset)) := if_neg hp

@[simp] theorem set_ne {s : State} {p : Word} (hp : p ≠ 0) (f : Field) (w : Word) :
    s.set p f w = some { s with mem := store s.mem (p + f.offset) w } := if_neg hp

/-! ## A heap on which nothing is allocated -/

theorem toInt_word (w : Word) :
    w.toInt = if w.toNat < 2 ^ 31 then (w.toNat : ℤ) else (w.toNat : ℤ) - 2 ^ 32 := by
  rw [BitVec.toInt_eq_toNat_cond]
  split_ifs <;> omega

theorem mod_toNat (w : Word) : (w % 4).toNat = w.toNat % 4 := by
  rw [BitVec.toNat_umod]
  rfl

theorem mod_eq_zero {w : Word} : w % 4 = 0 ↔ w.toNat % 4 = 0 := by
  rw [← BitVec.toNat_inj, mod_toNat]
  rfl

/-- The next multiple of the alignment, as the machine computes it. -/
theorem roundUp_toNat (w : Word) :
    (w + (4 - w % 4)).toNat = (w.toNat + (4 - w.toNat % 4)) % 2 ^ 32 := by
  have h4 : (4 - w % 4).toNat = 4 - w.toNat % 4 := by
    rw [BitVec.toNat_sub, mod_toNat]
    have : (4 : Word).toNat = 4 := rfl
    omega
  rw [BitVec.toNat_add, h4]

/-- A size above 0 is rounded up to a multiple of the alignment. -/
theorem adjustSize_pos {size : Word} (hsize : 0 < size.toInt) :
    ∃ n : Word, adjustSize size = some n ∧ n.toNat = (size.toNat + 3) / 4 * 4 := by
  have hlt : size.toNat < 2 ^ 31 := by
    rw [toInt_word] at hsize
    split_ifs at hsize <;> omega
  have hrem : size.srem ALIGNMENT = size % 4 := by
    have hm : size.msb = false := by
      rw [BitVec.msb_eq_false_iff_two_mul_lt]
      omega
    have h4 : (4 : Word).msb = false := by decide
    rw [BitVec.srem, ALIGNMENT, hm, h4]
    rfl
  rw [adjustSize, if_neg (by omega), hrem]
  by_cases h : size % 4 = 0
  · refine ⟨size, by rw [if_neg (by simpa using h)], ?_⟩
    rw [mod_eq_zero] at h
    omega
  · refine ⟨_, by rw [if_pos h], ?_⟩
    rw [mod_eq_zero] at h
    rw [ALIGNMENT, roundUp_toNat]
    omega

theorem adjustSize_nonpos {size : Word} (hsize : size.toInt ≤ 0) : adjustSize size = none :=
  if_pos hsize

/-- The process before `init_malloc`. -/
structure Initial (s : State) : Prop where
  done : s.done = false
  heapEnd : s.heapEnd = s.heapStart
  start : s.start = 0
  live : s.live = []

/-- The process after `init_malloc`: one empty free segment, close to the heap's start. -/
structure Fresh (s : State) : Prop where
  done : s.done = true
  live : s.live = []
  start_ne : s.start ≠ 0
  next : load s.mem (s.start + Field.offset .next) = 0
  size : load s.mem (s.start + Field.offset .size) = 0
  free : load s.mem (s.start + Field.offset .free) = 1

/-- The header of `init_malloc` is inside the heap, which ends behind it. -/
structure Roomy (s : State) : Prop where
  aligned : s.start.toNat % 4 = 0
  above : s.heapStart.toNat ≤ s.start.toNat
  heapEnd : s.heapEnd.toNat = s.start.toNat + 20

/-- The heap ends where the header of `init_malloc` starts. -/
structure Headless (s : State) : Prop where
  heapEnd : s.heapEnd = s.start
  start : s.start.toNat % 4 = 0 ∨ 2 ^ 32 - 4 < s.start.toNat ∧ s.heapStart = s.start

theorem SEG_HEADER_SIZE_eq : SEG_HEADER_SIZE = 20 := by decide

theorem memlimit_granted {s : State} {p : Word} {grant : Bool} (h : Granted s p grant) :
    memlimit s p grant = (p, { s with heapEnd := p }) := by
  rw [memlimit, if_neg h.1, if_pos ⟨h.2.1, h.2.2⟩]

theorem memlimit_refused {s : State} {p : Word} {grant : Bool} (h : ¬ Granted s p grant) :
    (memlimit s p grant).2 = s := by
  rw [memlimit]
  split_ifs with h0 h1
  · rfl
  · exact absurd ⟨h0, h1⟩ h
  · rfl

/-- Where `init_malloc` puts its header. -/
theorem Initial.alignHeap {s : State} (hs : Initial s) {g : Grants} (hne : (alignHeap s g).1 ≠ 0) :
    (alignHeap s g).2 = { s with heapEnd := (alignHeap s g).1 } ∧
      (((alignHeap s g).1.toNat % 4 = 0 ∧ s.heapStart.toNat ≤ (alignHeap s g).1.toNat ∧
        (alignHeap s g).1.toNat ≤ s.heapStart.toNat + 3) ∨
        2 ^ 32 - 4 < (alignHeap s g).1.toNat ∧ s.heapStart = (alignHeap s g).1) := by
  have hq : (memlimit s 0 false).1 = s.heapStart := by rw [memlimit, if_pos rfl, hs.heapEnd]
  have hsame : s = { s with heapEnd := s.heapStart } := by
    have hend := hs.heapEnd
    cases s
    cases hend
    rfl
  revert hne
  rw [Malloc.alignHeap, hq]
  by_cases hal : s.heapStart % ALIGNMENT = 0
  · rw [if_neg (by simpa using hal)]
    intro _
    rw [ALIGNMENT, mod_eq_zero] at hal
    exact ⟨hsame, .inl ⟨hal, le_refl _, Nat.le_add_right _ _⟩⟩
  · rw [if_pos hal]
    rw [ALIGNMENT, mod_eq_zero] at hal
    have hlt := s.heapStart.isLt
    have hup := roundUp_toNat s.heapStart
    rw [ALIGNMENT]
    by_cases hp : s.heapStart + (4 - s.heapStart % 4) = 0
    · rw [memlimit, if_pos hp, hs.heapEnd]
      intro _
      rw [hp] at hup
      have h0 : (0 : Word).toNat = 0 := rfl
      have hnear : 2 ^ 32 - 4 < s.heapStart.toNat := by omega
      exact ⟨hsame, .inr ⟨hnear, rfl⟩⟩
    · by_cases hg : Granted s (s.heapStart + (4 - s.heapStart % 4)) g.align
      · rw [memlimit_granted hg]
        intro _
        have hle : s.heapStart.toNat ≤ (s.heapStart + (4 - s.heapStart % 4)).toNat := hg.2.1
        have hmod : (s.heapStart + (4 - s.heapStart % 4)).toNat % 4 = 0 := by omega
        have hnear : (s.heapStart + (4 - s.heapStart % 4)).toNat ≤ s.heapStart.toNat + 3 := by omega
        exact ⟨rfl, .inl ⟨hmod, hle, hnear⟩⟩
      · intro hne
        rw [memlimit, if_neg hp, if_neg (fun h => hg ⟨hp, h⟩)] at hne
        exact absurd rfl hne

theorem load_store_field (mem : Word → BitVec 8) (p w : Word) {f f' : Field} (hf : f ≠ f') :
    load (store mem (p + f.offset) w) (p + f'.offset) = load mem (p + f'.offset) := by
  have hd : p + f'.offset - (p + f.offset) = f'.offset - f.offset := by bv_omega
  apply load_store_of_far
  · rw [hd]
    cases f <;> cases f' <;> first | exact absurd rfl hf | decide
  · rw [hd]
    cases f <;> cases f' <;> first | exact absurd rfl hf | decide

theorem memlimit_same (s : State) (p : Word) (grant : Bool) :
    (memlimit s p grant).2 = { s with heapEnd := (memlimit s p grant).2.heapEnd } := by
  rw [memlimit]
  split_ifs <;> rfl

/-- The header of `init_malloc`. -/
def firstHeader (mem : Word → BitVec 8) (p : Word) : Word → BitVec 8 :=
  store (store (store (store mem (p + Field.offset .next) 0) (p + Field.offset .prev) 0)
    (p + Field.offset .size) 0) (p + Field.offset .free) 1

theorem initMalloc_eq {s : State} {g : Grants} (hd : s.done = false) (hne : (alignHeap s g).1 ≠ 0) :
    initMalloc s g = some { (memlimit (alignHeap s g).2 ((alignHeap s g).1 + SEG_HEADER_SIZE)
      g.header).2 with
        start := (alignHeap s g).1
        mem := firstHeader (memlimit (alignHeap s g).2 ((alignHeap s g).1 + SEG_HEADER_SIZE)
          g.header).2.mem (alignHeap s g).1
        done := true } := by
  rw [initMalloc, if_neg (by simp [hd])]
  simp only [set_ne hne, Option.bind_eq_bind, Option.bind_some]
  rfl

theorem initMalloc_null {s : State} {g : Grants} (hd : s.done = false) (h0 : (alignHeap s g).1 = 0) :
    initMalloc s g = none := by
  rw [initMalloc, if_neg (by simp [hd])]
  simp only [h0, State.set, if_true, Option.bind_eq_bind, Option.bind_none]

/-- **What `init_malloc` leaves**: one header, inside the heap exactly when `memlimit` granted it. -/
theorem Initial.initMalloc {s s1 : State} (hs : Initial s) {g : Grants}
    (h : initMalloc s g = some s1) :
    Fresh s1 ∧ (HeaderGranted s g ∧ Roomy s1 ∨ ¬ HeaderGranted s g ∧ Headless s1) := by
  by_cases hne : (Malloc.alignHeap s g).1 = 0
  · rw [initMalloc_null hs.done hne] at h
    cases h
  obtain ⟨hend, hplace⟩ := hs.alignHeap hne
  rw [initMalloc_eq hs.done hne] at h
  cases h
  have hmem := memlimit_same (Malloc.alignHeap s g).2 ((Malloc.alignHeap s g).1 + SEG_HEADER_SIZE)
    g.header
  constructor
  · refine ⟨rfl, ?_, hne, ?_, ?_, ?_⟩
    · rw [hmem, hend]
      exact hs.live
    · simp only [firstHeader]
      rw [load_store_field _ _ _ (by decide), load_store_field _ _ _ (by decide),
        load_store_field _ _ _ (by decide), load_store_self]
    · simp only [firstHeader]
      rw [load_store_field _ _ _ (by decide), load_store_self]
    · simp only [firstHeader]
      rw [load_store_self]
  · have hlt := (Malloc.alignHeap s g).1.isLt
    have hsum : ((Malloc.alignHeap s g).1 + SEG_HEADER_SIZE).toNat =
        ((Malloc.alignHeap s g).1.toNat + 20) % 2 ^ 32 := by
      rw [SEG_HEADER_SIZE_eq, BitVec.toNat_add]
      rfl
    by_cases hg : Granted (Malloc.alignHeap s g).2 ((Malloc.alignHeap s g).1 + SEG_HEADER_SIZE) g.header
    · have hle : s.heapStart.toNat ≤ ((Malloc.alignHeap s g).1 + SEG_HEADER_SIZE).toNat := by
        have := hg.2.1
        rw [hend] at this
        exact this
      rw [memlimit_granted hg]
      refine .inl ⟨.inr hg, ?_⟩
      -- a sum that wraps would be below the heap's start
      obtain ⟨hmod, habove, hnear⟩ | ⟨hnear, heq⟩ := hplace
      · refine ⟨hmod, ?_, ?_⟩
        · rw [hend]
          exact habove
        · have : ((Malloc.alignHeap s g).1 + SEG_HEADER_SIZE).toNat = (Malloc.alignHeap s g).1.toNat + 20 := by
            omega
          exact this
      · rw [heq] at hle
        omega
    · rw [memlimit_refused hg, hend]
      refine .inr ⟨?_, rfl, ?_⟩
      · rintro (h | h)
        · rw [hs.done] at h
          cases h
        · exact hg h
      · obtain ⟨hmod, -, -⟩ | hnear := hplace
        · exact .inl hmod
        · exact .inr hnear

/-! ## `malloc` on such a heap -/

theorem malloc_init {s s1 : State} {g : Grants} (h : initMalloc s g = some s1) (hd : s1.done = true)
    (size : Word) : malloc s size g = malloc s1 size g := by
  have h1 : initMalloc s1 g = some s1 := if_pos hd
  rw [malloc, malloc, h, h1]

namespace Fresh

variable {s : State} (hs : Fresh s)

include hs

theorem get_next : s.get s.start .next = some 0 := by rw [get_ne hs.start_ne, hs.next]

theorem get_size : s.get s.start .size = some 0 := by rw [get_ne hs.start_ne, hs.size]

theorem get_free : s.get s.start .free = some 1 := by rw [get_ne hs.start_ne, hs.free]

theorem findSegment (size : Word) : findSegment s size ROUNDS s.start = some s.start := by
  have hr : ROUNDS = (2 ^ 32 - 1) + 1 := by decide
  rw [hr, Malloc.findSegment, hs.get_next]
  rfl

theorem initMalloc (g : Grants) : initMalloc s g = some s := if_pos hs.done

theorem malloc_nonpos {size : Word} (hsize : size.toInt ≤ 0) (g : Grants) :
    malloc s size g = some (0, s) := by
  rw [malloc, hs.initMalloc, adjustSize_nonpos hsize]
  rfl

/-- A segment is needed and `memlimit` refuses. -/
theorem nextFree_refused {n : Word} (hn : 0 < n.toInt) {grow : Bool} (h : GrowthRefused s n grow) :
    nextFree s s.start n grow = some (0, s) := by
  have hend : (memlimit s 0 grow).1 = s.heapEnd := by rw [memlimit, if_pos rfl]
  have hsame : (memlimit s (s.heapEnd + 1 + n + SEG_HEADER_SIZE) grow).2 = s := by
    apply memlimit_refused
    intro hg
    rw [GrowthRefused, memlimit_granted hg] at h
    exact hg.1 h
  rw [GrowthRefused] at h
  rw [nextFree, hs.findSegment]
  simp only [Option.bind_eq_bind, Option.bind_some, hs.get_free, hs.get_size, hend]
  rw [if_pos (.inr (by simpa using hn)), if_pos h, hsame]

/-- A segment is needed and `memlimit` answers: it starts one byte behind the heap's old end. -/
theorem nextFree_grown {n : Word} (hn : 0 < n.toInt) {grow : Bool} (h : ¬ GrowthRefused s n grow)
    {seg : Word} {s' : State} (hr : nextFree s s.start n grow = some (seg, s')) :
    seg = s.heapEnd + 1 ∧ seg ≠ 0 := by
  have hend : (memlimit s 0 grow).1 = s.heapEnd := by rw [memlimit, if_pos rfl]
  rw [GrowthRefused] at h
  rw [nextFree, hs.findSegment] at hr
  simp only [Option.bind_eq_bind, Option.bind_some, hs.get_free, hs.get_size, hend] at hr
  rw [if_pos (.inr (by simpa using hn)), if_neg h] at hr
  by_cases h0 : s.heapEnd + 1 = 0
  · rw [set_ne hs.start_ne, Option.bind_some, State.set, if_pos h0] at hr
    cases hr
  · simp only [set_ne hs.start_ne, set_ne h0, Option.bind_some] at hr
    cases hr
    exact ⟨rfl, h0⟩

theorem malloc_refused {size n : Word} (hn : 0 < n.toInt) (ha : adjustSize size = some n) {g : Grants}
    (h : GrowthRefused s n g.grow) : malloc s size g = some (0, s) := by
  rw [malloc, hs.initMalloc, ha]
  simp only [Option.bind_eq_bind, Option.bind_some, hs.nextFree_refused hn h, if_true]

theorem malloc_grown {size n : Word} (hn : 0 < n.toInt) (ha : adjustSize size = some n) {g : Grants}
    (h : ¬ GrowthRefused s n g.grow) {p : Word} {s' : State} (hr : malloc s size g = some (p, s')) :
    p = s.heapEnd + 21 := by
  rw [malloc, hs.initMalloc, ha] at hr
  simp only [Option.bind_eq_bind, Option.bind_some] at hr
  obtain ⟨⟨seg, s1⟩, h1, hr⟩ := Option.bind_eq_some_iff.1 hr
  obtain ⟨hseg, hne⟩ := hs.nextFree_grown hn h h1
  rw [if_neg hne] at hr
  obtain ⟨s2, -, hr⟩ := Option.bind_eq_some_iff.1 hr
  obtain ⟨s3, -, hr⟩ := Option.bind_eq_some_iff.1 hr
  cases hr
  rw [hseg, dataVaddr, SEG_HEADER_SIZE_eq, BitVec.add_assoc]
  rfl

/-- A size that wraps is negative, and the empty segment is large enough for it. -/
theorem malloc_wraps {size n : Word} (hn : n.toInt ≤ 0) (ha : adjustSize size = some n) (g : Grants) :
    ∃ mem, malloc s size g = some (s.start + 20, { s with mem := mem }) := by
  have hnext : nextFree s s.start n g.grow = some (s.start, s) := by
    rw [nextFree, hs.findSegment]
    simp only [Option.bind_eq_bind, Option.bind_some, hs.get_free, hs.get_size]
    refine if_neg ?_
    rintro (h | h)
    · exact absurd h (by decide)
    · exact absurd h (not_lt.2 hn)
  rw [malloc, hs.initMalloc, ha]
  simp only [Option.bind_eq_bind, Option.bind_some, hnext, hs.start_ne, if_false, set_ne hs.start_ne]
  rw [divideSegment, get_ne hs.start_ne]
  simp only [Option.bind_eq_bind, Option.bind_some]
  rw [load_store_field _ _ _ (by decide), hs.next, if_neg (by simp), set_ne hs.start_ne]
  exact ⟨_, rfl⟩

/-- The only header is the first one. -/
theorem reachable_iff {p : Word} : Reachable s p ↔ p = s.start := by
  constructor
  · intro h
    induction h with
    | start _ => rfl
    | next _ hn hne ih =>
      rw [ih, hs.get_next] at hn
      cases hn
      exact absurd rfl hne
  · rintro rfl
    exact .start hs.start_ne

theorem contract (hroom : Roomy s) : Contract s := by
  have hnone : ∀ x, x ∉ s.live := by
    rw [hs.live]
    exact fun _ => List.not_mem_nil
  refine ⟨fun x hx => absurd hx (hnone x), ?_, fun x hx => absurd hx (hnone x),
    fun x hx => absurd hx (hnone x), ?_⟩
  · rw [hs.live]
    exact .nil
  · intro p hp x hx
    rw [hs.reachable_iff.1 hp] at hx
    obtain ⟨h1, h2⟩ := hx
    have h16 : HDR_SIZE.toNat = 16 := rfl
    have habove := hroom.above
    have hend := hroom.heapEnd
    exact ⟨by omega, by omega⟩

end Fresh

theorem Initial.contract {s : State} (hs : Initial s) : Contract s := by
  have hnone : ∀ x, x ∉ s.live := by
    rw [hs.live]
    exact fun _ => List.not_mem_nil
  have hreach : ∀ p, ¬ Reachable s p := by
    intro p h
    induction h with
    | start hne => exact hne hs.start
    | next _ _ _ ih => exact ih
  refine ⟨fun x hx => absurd hx (hnone x), ?_, fun x hx => absurd hx (hnone x),
    fun x hx => absurd hx (hnone x), fun p hp => absurd hp (hreach p)⟩
  rw [hs.live]
  exact .nil

/-- A header at the heap's end is not in the heap. -/
theorem not_contract_of_end {s : State} (hne : s.start ≠ 0) (hend : s.heapEnd = s.start) :
    ¬ Contract s := by
  intro h
  have h16 : HDR_SIZE.toNat = 16 := rfl
  have hmem : s.start.toNat ∈ region s.start HDR_SIZE := ⟨le_refl _, by omega⟩
  have hlt := (h.headers s.start (.start hne) hmem).2
  rw [hend] at hlt
  omega

/-! ## The contract -/

/-- A segment behind the heap of `init_malloc` is not aligned. -/
theorem not_aligned {p a : Word} (hp : p = a + 21) (ha : a.toNat % 4 = 0) : ¬ p % ALIGNMENT = 0 := by
  intro h
  rw [ALIGNMENT, mod_eq_zero, hp, BitVec.toNat_add] at h
  have h21 : (21 : Word).toNat = 21 := rfl
  omega

theorem not_contract_of_live {s : State} {x : Word × Word} (hx : x ∈ s.live)
    (hal : ¬ x.1 % ALIGNMENT = 0) : ¬ Contract s := fun h => hal (h.aligned x hx)

/-- The sizes above 0, by what `adjust_size` makes of them. -/
theorem adjustSize_cases {size : Word} (hsize : 0 < size.toInt) :
    ∃ n, adjustSize size = some n ∧ (size.toInt ≤ 2 ^ 31 - 4 ∧ 0 < n.toInt ∧ n.toNat ≤ 2 ^ 31 - 4 ∨
      2 ^ 31 - 4 < size.toInt ∧ n.toInt ≤ 0) := by
  obtain ⟨n, ha, hn⟩ := adjustSize_pos hsize
  have h1 := toInt_word size
  have h2 := toInt_word n
  refine ⟨n, ha, ?_⟩
  by_cases hw : size.toInt ≤ 2 ^ 31 - 4
  · left
    split_ifs at h1 h2 <;> omega
  · right
    split_ifs at h1 h2 <;> omega

/-- What a `malloc` leaves behind in a process with one header. -/
theorem Fresh.step_malloc {s s' : State} (hs : Fresh s) {size : Word} {g : Grants}
    (h : step s (.malloc size g) = some s') :
    (size.toInt ≤ 0 ∧ s' = s) ∨
    (2 ^ 31 - 4 < size.toInt ∧ s'.start = s.start ∧ s'.heapEnd = s.heapEnd ∧
      (s.start + 20 ≠ 0 → (s.start + 20, size) ∈ s'.live)) ∨
    (0 < size.toInt ∧ size.toInt ≤ 2 ^ 31 - 4 ∧ ∃ n, adjustSize size = some n ∧ n.toNat ≤ 2 ^ 31 - 4 ∧
      (GrowthRefused s n g.grow ∧ s' = s ∨ ¬ GrowthRefused s n g.grow ∧
        (s.heapEnd + 21 ≠ 0 → (s.heapEnd + 21, size) ∈ s'.live))) := by
  rw [Malloc.step] at h
  obtain ⟨⟨p, s1⟩, hm, h⟩ := Option.bind_eq_some_iff.1 h
  dsimp only at h
  by_cases hsize : size.toInt ≤ 0
  · rw [hs.malloc_nonpos hsize] at hm
    cases hm
    cases h
    exact .inl ⟨hsize, rfl⟩
  obtain ⟨n, ha, ⟨hle, hn, hnn⟩ | ⟨hgt, hn⟩⟩ := adjustSize_cases (not_le.1 hsize)
  · refine .inr (.inr ⟨by omega, hle, n, ha, hnn, ?_⟩)
    by_cases hg : GrowthRefused s n g.grow
    · rw [hs.malloc_refused hn ha hg] at hm
      cases hm
      cases h
      exact .inl ⟨hg, rfl⟩
    · refine .inr ⟨hg, fun hne => ?_⟩
      rw [hs.malloc_grown hn ha hg hm, if_neg hne] at h
      cases h
      exact List.mem_cons_self
  · obtain ⟨mem, hw⟩ := hs.malloc_wraps hn ha g
    rw [hw] at hm
    cases hm
    refine .inr (.inl ⟨hgt, ?_⟩)
    split_ifs at h with h0
    · cases h
      exact ⟨rfl, rfl, fun hne => absurd h0 hne⟩
    · cases h
      exact ⟨rfl, rfl, fun _ => List.mem_cons_self⟩

/-- Nothing has been handed out. -/
def Unused (s : State) : Prop := Initial s ∨ Fresh s ∧ Roomy s

theorem Unused.contract {s : State} (hs : Unused s) : Contract s := by
  obtain hs | ⟨hs, hroom⟩ := hs
  · exact hs.contract
  · exact hs.contract hroom

/-- `init_malloc` from either state. -/
theorem Unused.initMalloc {s s1 : State} (hs : Unused s) {g : Grants} (h : initMalloc s g = some s1) :
    Fresh s1 ∧ (HeaderGranted s g ∧ Roomy s1 ∨ ¬ HeaderGranted s g ∧ Headless s1) := by
  obtain hs | ⟨hs, hroom⟩ := hs
  · exact hs.initMalloc h
  · rw [hs.initMalloc] at h
    cases h
    exact ⟨hs, .inl ⟨.inl hs.done, hroom⟩⟩

theorem Roomy.end_aligned {s : State} (hs : Roomy s) : s.heapEnd.toNat % 4 = 0 := by
  have h1 := hs.aligned
  have h2 := hs.heapEnd
  omega

theorem add_twentyone_ne {a : Word} (ha : a.toNat % 4 = 0) : a + 21 ≠ 0 := by
  intro h
  exact not_aligned rfl ha (by rw [h]; decide)

/-- Behind a heap that ends at the end of the address space there is no room. -/
theorem Headless.refused {s : State} (hs : Headless s) (hal : ¬ s.start.toNat % 4 = 0) {n : Word}
    (hn : n.toNat ≤ 2 ^ 31 - 4) (grow : Bool) : GrowthRefused s n grow := by
  obtain h | ⟨hnear, hstart⟩ := hs.start
  · exact absurd h hal
  have hsum : (s.heapEnd + 1 + n + SEG_HEADER_SIZE).toNat = (s.start.toNat + 21 + n.toNat) % 2 ^ 32 := by
    rw [hs.heapEnd, SEG_HEADER_SIZE_eq]
    simp only [BitVec.toNat_add]
    have h1 : (1 : Word).toNat = 1 := rfl
    have h20 : (20 : Word).toNat = 20 := rfl
    omega
  have hlt := s.start.isLt
  have hne : s.heapEnd + 1 + n + SEG_HEADER_SIZE ≠ 0 := by
    intro h
    rw [h] at hsum
    have h0 : (0 : Word).toNat = 0 := rfl
    omega
  have hlow : ¬ s.heapStart ≤ s.heapEnd + 1 + n + SEG_HEADER_SIZE := by
    rw [BitVec.le_def, hsum, hstart]
    omega
  rw [GrowthRefused, memlimit, if_neg hne, if_neg (fun h => hlow h.1)]

/-- Without its header `init_malloc` leaves a heap that no `malloc` can repair. -/
theorem Headless.not_contract {s s' : State} (hs : Headless s) (hf : Fresh s) {size : Word} {g : Grants}
    (h : step s (.malloc size g) = some s') : ¬ Contract s' := by
  obtain ⟨-, rfl⟩ | ⟨-, hstart, hend, -⟩ | ⟨-, -, n, -, hn, ⟨-, rfl⟩ | ⟨hg, hlive⟩⟩ := hf.step_malloc h
  · exact not_contract_of_end hf.start_ne hs.heapEnd
  · refine not_contract_of_end ?_ ?_
    · rw [hstart]
      exact hf.start_ne
    · rw [hend, hstart, hs.heapEnd]
  · exact not_contract_of_end hf.start_ne hs.heapEnd
  · by_cases hal : s.start.toNat % 4 = 0
    · rw [hs.heapEnd] at hlive
      exact not_contract_of_live (hlive (add_twentyone_ne hal)) (not_aligned rfl hal)
    · exact absurd (hs.refused hal hn g.grow) hg

/-- With its header, the contract is kept by the calls that get nothing. -/
theorem Roomy.contract_iff {s s' : State} (hs : Roomy s) (hf : Fresh s) {size : Word} {g : Grants}
    (h : step s (.malloc size g) = some s') :
    (Contract s' ↔ size.toInt ≤ 0 ∨ size.toInt ≤ 2 ^ 31 - 4 ∧
      ∀ n, adjustSize size = some n → GrowthRefused s n g.grow) ∧ (Contract s' → s' = s) := by
  have hgood : Contract s := hf.contract hs
  obtain ⟨hle, rfl⟩ | ⟨hgt, -, hend, hlive⟩ | ⟨hpos, hle, n, ha, -, ⟨hg, rfl⟩ | ⟨hg, hlive⟩⟩ :=
    hf.step_malloc h
  · exact ⟨⟨fun _ => .inl hle, fun _ => hgood⟩, fun _ => rfl⟩
  · have hbad : ¬ Contract s' := by
      intro hc
      have hroom := hs.heapEnd
      have hlt := s.heapEnd.isLt
      have hsum : (s.start + 20).toNat = s.heapEnd.toNat := by
        rw [BitVec.toNat_add]
        have h20 : (20 : Word).toNat = 20 := rfl
        omega
      have hne : s.start + 20 ≠ 0 := by
        intro h0
        rw [h0] at hsum
        have h00 : (0 : Word).toNat = 0 := rfl
        omega
      have hpos : 0 < size.toNat := by
        have := toInt_word size
        split_ifs at this <;> omega
      have hmem : (s.start + 20).toNat ∈ region (s.start + 20) size := ⟨le_refl _, by omega⟩
      have hin := (hc.payloads _ (hlive hne) hmem).2
      rw [hend] at hin
      omega
    refine ⟨⟨fun hc => absurd hc hbad, ?_⟩, fun hc => absurd hc hbad⟩
    rintro (h | ⟨h, -⟩) <;> omega
  · refine ⟨⟨fun _ => .inr ⟨hle, ?_⟩, fun _ => hgood⟩, fun _ => rfl⟩
    intro n' hn'
    rw [ha] at hn'
    cases hn'
    exact hg
  · have hbad : ¬ Contract s' :=
      not_contract_of_live (hlive (add_twentyone_ne hs.end_aligned)) (not_aligned rfl hs.end_aligned)
    refine ⟨⟨fun hc => absurd hc hbad, ?_⟩, fun hc => absurd hc hbad⟩
    rintro (h | ⟨-, h⟩)
    · omega
    · exact absurd (h n ha) hg

theorem Unused.malloc {s s' : State} (hs : Unused s) {size : Word} {g : Grants}
    (h : step s (.malloc size g) = some s') :
    (Contract s' ↔ HandsOutNothing s (.malloc size g)) ∧ (Contract s' → Unused s') := by
  cases hi : Malloc.initMalloc s g with
  | none =>
    rw [Malloc.step, Malloc.malloc, hi] at h
    cases h
  | some s1 =>
    obtain ⟨hf, hroom⟩ := hs.initMalloc hi
    have h1 : step s1 (.malloc size g) = some s' := by
      rw [Malloc.step, ← malloc_init hi hf.done]
      exact h
    obtain ⟨hg, hroom⟩ | ⟨hg, hless⟩ := hroom
    · obtain ⟨hiff, hkeep⟩ := hroom.contract_iff hf h1
      refine ⟨hiff.trans ⟨fun hc => ⟨hg, ?_⟩, fun hc => ?_⟩, ?_⟩
      · obtain hc | ⟨hle, hc⟩ := hc
        · exact .inl hc
        · refine .inr ⟨hle, fun s2 h2 n hn => ?_⟩
          rw [hi] at h2
          cases h2
          exact hc n hn
      · obtain hc | ⟨hle, hc⟩ := hc.2
        · exact .inl hc
        · exact .inr ⟨hle, fun n hn => hc s1 hi n hn⟩
      · intro hc
        rw [hkeep hc]
        exact .inr ⟨hf, hroom⟩
    · have hbad := hless.not_contract hf h1
      exact ⟨⟨fun hc => absurd hc hbad, fun hc => absurd hc.1 hg⟩, fun hc => absurd hc hbad⟩

/-- Without a live pointer `free` does nothing. -/
theorem step_free_idle {s s' : State} {ptr : Word} {grant : Bool} (hlive : s.live = [])
    (h : step s (.free ptr grant) = some s') : s' = s := by
  rw [step] at h
  split_ifs at h with hp
  obtain rfl | hp := hp
  · rw [free, if_pos rfl] at h
    cases s
    cases hlive
    cases h
    rfl
  · rw [hlive] at hp
    cases hp

/-- **One step** of a process that has been handed nothing. -/
theorem Unused.step {s s' : State} {a : Action} (hs : Unused s) (h : step s a = some s') :
    (KeepsContract s a ↔ HandsOutNothing s a) ∧ (HandsOutNothing s a → Unused s') := by
  have hlive : s.live = [] := by
    obtain hs | ⟨hs, -⟩ := hs
    · exact hs.live
    · exact hs.live
  have hkeeps : KeepsContract s a ↔ Contract s' := by
    constructor
    · exact fun hc => hc s' h
    · intro hc s2 h2
      rw [h] at h2
      cases h2
      exact hc
  cases a with
  | malloc size g =>
    obtain ⟨hiff, hkeep⟩ := hs.malloc h
    exact ⟨hkeeps.trans hiff, fun hc => hkeep (hiff.2 hc)⟩
  | free ptr grant =>
    rw [step_free_idle hlive h] at hkeeps ⊢
    exact ⟨hkeeps.trans ⟨fun _ => trivial, fun _ => hs.contract⟩, fun _ => hs⟩
  | write a b =>
    rw [Malloc.step, State.writable, hlive] at h
    cases h

theorem initial_init (heapStart : Word) (mem : Word → BitVec 8) :
    Initial (State.init heapStart mem) := ⟨rfl, rfl, rfl, rfl⟩

/-- **The allocator keeps its contract exactly while it hands out nothing**: in a run of `malloc`, `free`
and writes to payloads, all states meet the contract if and only if `init_malloc` gets the room for its
header and no `malloc` of a size above 0 gets a segment. -/
theorem malloc_contract_iff (heapStart : Word) (mem : Word → BitVec 8) {as : List Action} {s : State}
    (hr : run step (State.init heapStart mem) as = some s) :
    Every step KeepsContract (State.init heapStart mem) as ↔
      Every step HandsOutNothing (State.init heapStart mem) as :=
  every_iff Unused.step (.inl (initial_init heapStart mem)) hr

def granted : Grants := ⟨true, true, true⟩

/-- A process that may have its header and nothing more. -/
def headerOnly : Grants := ⟨true, true, false⟩

theorem malloc_contract_iff_headerOnly :
    ∃ s, run step (State.init 4097 fun _ => 0)
        [.malloc 0 headerOnly, .malloc 5 headerOnly, .free 0 true] = some s ∧ s.heapEnd = 4120 ∧
      Every step KeepsContract (State.init 4097 fun _ => 0)
        [.malloc 0 headerOnly, .malloc 5 headerOnly, .free 0 true] := by
  have hrun : ∃ s, run step (State.init 4097 fun _ => 0)
      [.malloc 0 headerOnly, .malloc 5 headerOnly, .free 0 true] = some s ∧ s.heapEnd = 4120 := by
    decide +kernel
  obtain ⟨s, hr, hend⟩ := hrun
  refine ⟨s, hr, hend, (malloc_contract_iff 4097 (fun _ => 0) hr).2 ?_⟩
  decide +kernel

/-- The first allocation of a process: the payload starts at an odd address. -/
theorem malloc_misaligned :
    ∃ s, run step (State.init 4096 fun _ => 0) [.malloc 1 granted] = some s ∧ ¬ Contract s := by
  have hrun : ∃ s, run step (State.init 4096 fun _ => 0) [.malloc 1 granted] = some s ∧
      s.live = [(4137, 1)] := by decide +kernel
  obtain ⟨s, hr, hlive⟩ := hrun
  have hmem : ((4137, 1) : Word × Word) ∈ s.live := by
    rw [hlive]
    exact List.mem_cons_self
  exact ⟨s, hr, not_contract_of_live hmem (by decide)⟩

end Buenos.Malloc
