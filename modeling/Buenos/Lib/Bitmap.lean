import Buenos.Base.Bytes

/-!
# Bitmaps (`lib/bitmap.c`)

The kernel bitmap: an array of 32-bit words in memory, bit `pos` is bit `pos % 32` of word
`pos / 32`.

* `bitmapGet` / `bitmapSet` — read and write one bit.
* `bitmapFindnset` — the word-skipping search for the first zero bit below `l`.

Principal results: `bitmapGet_bitmapSet` (read over write), `bitmapFindnset_some` and
`bitmapFindnset_none` (the search returns the least clear bit below `l`, or changes nothing when
all of them are set, whatever the unused bits of the last word are).
-/

namespace Buenos

open Bytes

variable {n : ℕ}

/-- `bitmap_sizeof`: bytes needed for `numBits` bits, a multiple of 4. -/
def bitmapSizeof (numBits : ℕ) : ℕ := (numBits + 31) / 32 * 4

/-- `bitmap_init`: the first `(size + 31) / 32` words are zeroed. -/
def bitmapInit (bitmap : Buf n) (size : ℕ) : Buf n :=
  bitmap.store 0 (List.replicate (bitmapSizeof size) 0)

/-- `bitmap_get`. -/
def bitmapGet (bitmap : Buf n) (pos : ℕ) : ℕ :=
  (bitmap.word (4 * (pos / 32)) >>> (pos % 32)) &&& 1

/-- `bitmap_set`; `~(1 << j)` is taken on 32 bits. -/
def bitmapSet (bitmap : Buf n) (pos : ℕ) (value : Bool) : Buf n :=
  let i := pos / 32
  let j := pos % 32
  if value then bitmap.setWord (4 * i) (bitmap.word (4 * i) ||| 1 <<< j)
  else bitmap.setWord (4 * i) (bitmap.word (4 * i) &&& (2 ^ 32 - 1 - 1 <<< j))

/-- Inner loop of `bitmap_findnset` over the bits `j, j + 1, …` of one word: `none` when the
loop falls through, `some none` for `return -1`. -/
def findBit (bitmap : Buf n) (basepos l : ℕ) : ℕ → ℕ → Option (Option ℕ)
  | 0, _ => none
  | k + 1, j =>
    if bitmapGet bitmap (basepos + j) = 0 then
      if basepos + j ≥ l then some none else some (some (basepos + j))
    else findBit bitmap basepos l k (j + 1)

/-- Outer loop of `bitmap_findnset` over the words `i, i + 1, …`. -/
def findWord (bitmap : Buf n) (l : ℕ) : ℕ → ℕ → Option ℕ × Buf n
  | 0, _ => (none, bitmap)
  | k + 1, i =>
    if bitmap.word (4 * i) ≠ 0xffffffff then
      match findBit bitmap (i * 32) l 32 0 with
      | none => findWord bitmap l k (i + 1)
      | some none => (none, bitmap)
      | some (some p) => (some p, bitmapSet bitmap p true)
    else findWord bitmap l k (i + 1)

/-- `bitmap_findnset`: `none` stands for the return value `-1`. -/
def bitmapFindnset (bitmap : Buf n) (l : ℕ) : Option ℕ × Buf n :=
  findWord bitmap l (bitmapSizeof l / 4) 0

/-! ## Reading and writing bits -/

theorem bitmapGet_eq (bitmap : Buf n) (pos : ℕ) :
    bitmapGet bitmap pos = if (bitmap.word (4 * (pos / 32))).testBit (pos % 32) then 1 else 0 := by
  unfold bitmapGet
  rw [Nat.and_one_is_mod, Nat.testBit_eq_decide_div_mod_eq, Nat.shiftRight_eq_div_pow]
  have := Nat.mod_two_eq_zero_or_one (bitmap.word (4 * (pos / 32)) / 2 ^ (pos % 32))
  rcases this with h | h <;> simp [h]

theorem bitmapGet_le_one (bitmap : Buf n) (pos : ℕ) : bitmapGet bitmap pos ≤ 1 := by
  rw [bitmapGet_eq]; split <;> simp

theorem bitmapGet_eq_zero_or_one (bitmap : Buf n) (pos : ℕ) :
    bitmapGet bitmap pos = 0 ∨ bitmapGet bitmap pos = 1 := by
  have := bitmapGet_le_one bitmap pos
  omega

theorem bitmapGet_ne_zero {bitmap : Buf n} {pos : ℕ} :
    bitmapGet bitmap pos ≠ 0 ↔ bitmapGet bitmap pos = 1 := by
  have := bitmapGet_le_one bitmap pos
  omega

/-- The word written by `bitmapSet`. -/
def setBit (w j : ℕ) (value : Bool) : ℕ :=
  if value then w ||| 1 <<< j else w &&& (2 ^ 32 - 1 - 1 <<< j)

theorem bitmapSet_eq (bitmap : Buf n) (pos : ℕ) (value : Bool) :
    bitmapSet bitmap pos value =
      bitmap.setWord (4 * (pos / 32)) (setBit (bitmap.word (4 * (pos / 32))) (pos % 32) value) := by
  unfold bitmapSet setBit
  cases value <;> simp only [Bool.false_eq_true, if_true, if_false]

theorem setBit_lt {w j : ℕ} {value : Bool} (hw : w < 2 ^ 32) (hj : j < 32) :
    setBit w j value < 2 ^ 32 := by
  unfold setBit
  split
  · apply Nat.or_lt_two_pow hw
    rw [Nat.one_shiftLeft]
    exact Nat.pow_lt_pow_right (by omega) hj
  · exact Nat.lt_of_le_of_lt Nat.and_le_left hw

theorem testBit_setBit {w j i : ℕ} {value : Bool} (hj : j < 32) (hi : i < 32) :
    (setBit w j value).testBit i = if i = j then value else w.testBit i := by
  unfold setBit
  have h2 : (1 <<< j).testBit i = decide (j = i) := by
    rw [Nat.one_shiftLeft, Nat.testBit_two_pow]
  split
  · rename_i hv
    rw [Nat.testBit_or, h2]
    by_cases e : i = j
    · simp [e, hv]
    · simp [e, Ne.symm e]
  · rename_i hv
    have hlt : 1 <<< j < 2 ^ 32 := by
      rw [Nat.one_shiftLeft]; exact Nat.pow_lt_pow_right (by omega) hj
    rw [Nat.testBit_and, show 2 ^ 32 - 1 - 1 <<< j = 2 ^ 32 - (1 <<< j + 1) by omega,
      Nat.testBit_two_pow_sub_succ hlt, h2]
    by_cases e : i = j
    · simp [e, hv]
    · simp [e, Ne.symm e, hi]

/-- **Read over write**: `bitmap_set` changes exactly the given bit. -/
theorem bitmapGet_bitmapSet (bitmap : Buf n) {p : ℕ} (q : ℕ) (value : Bool)
    (hp : 4 * (p / 32) + 4 ≤ n) :
    bitmapGet (bitmapSet bitmap p value) q =
      if q = p then (if value then 1 else 0) else bitmapGet bitmap q := by
  rw [bitmapSet_eq, bitmapGet_eq, bitmapGet_eq]
  by_cases hw : q / 32 = p / 32
  · rw [hw, Buf.word_setWord_self _ _ hp,
      Nat.mod_eq_of_lt (setBit_lt (Buf.word_lt _ _) (Nat.mod_lt _ (by omega))),
      testBit_setBit (Nat.mod_lt _ (by omega)) (Nat.mod_lt _ (by omega))]
    by_cases e : q = p
    · simp [e]
    · have : q % 32 ≠ p % 32 := by omega
      simp [e, this]
  · rw [Buf.word_setWord_disjoint _ (by omega)]
    have : q ≠ p := by rintro rfl; exact hw rfl
    simp [this]

/-! ## The search -/

theorem findBit_some {bitmap : Buf n} {basepos l : ℕ} :
    ∀ {k j : ℕ} {r : Option ℕ}, findBit bitmap basepos l k j = some r →
      ∃ i, j ≤ i ∧ i < j + k ∧ bitmapGet bitmap (basepos + i) = 0 ∧
        (∀ i', j ≤ i' → i' < i → bitmapGet bitmap (basepos + i') = 1) ∧
        r = if basepos + i ≥ l then none else some (basepos + i)
  | 0, _, _, h => by simp [findBit] at h
  | k + 1, j, r, h => by
    unfold findBit at h
    split at h
    · rename_i h0
      refine ⟨j, Nat.le_refl _, by omega, h0, fun i' h1 h2 => by omega, ?_⟩
      split at h <;> simp_all
    · rename_i h0
      obtain ⟨i, h1, h2, h3, h4, h5⟩ := findBit_some h
      refine ⟨i, by omega, by omega, h3, fun i' hi hlt => ?_, h5⟩
      by_cases e : i' = j
      · rw [e]; exact bitmapGet_ne_zero.mp h0
      · exact h4 i' (by omega) hlt

theorem findBit_none {bitmap : Buf n} {basepos l : ℕ} :
    ∀ {k j : ℕ}, findBit bitmap basepos l k j = none →
      ∀ i, j ≤ i → i < j + k → bitmapGet bitmap (basepos + i) = 1
  | 0, _, _, i, h1, h2 => by omega
  | k + 1, j, h, i, h1, h2 => by
    unfold findBit at h
    split at h
    · split at h <;> cases h
    · rename_i h0
      by_cases e : i = j
      · rw [e]; exact bitmapGet_ne_zero.mp h0
      · exact findBit_none h i (by omega) (by omega)

/-- A full word has no clear bit. -/
theorem bitmapGet_of_word_full {bitmap : Buf n} {i j : ℕ} (h : bitmap.word (4 * i) = 0xffffffff)
    (hj : j < 32) : bitmapGet bitmap (i * 32 + j) = 1 := by
  rw [bitmapGet_eq, show (i * 32 + j) / 32 = i by omega, show (i * 32 + j) % 32 = j by omega, h,
    show 0xffffffff = 2 ^ 32 - 1 by rfl, Nat.testBit_two_pow_sub_one]
  simp [hj]

/-- Specification of the outer loop started at word `i`: everything below word `i` is left to
the caller. -/
theorem findWord_spec {bitmap : Buf n} {l : ℕ} :
    ∀ {k i : ℕ},
      (∃ p, findWord bitmap l k i = (some p, bitmapSet bitmap p true) ∧ i * 32 ≤ p ∧ p < l ∧
        bitmapGet bitmap p = 0 ∧ ∀ q, i * 32 ≤ q → q < p → bitmapGet bitmap q = 1) ∨
      (findWord bitmap l k i = (none, bitmap) ∧
        ∀ q, i * 32 ≤ q → q < (i + k) * 32 → q < l → bitmapGet bitmap q = 1)
  | 0, i => by
    refine Or.inr ⟨rfl, fun q h1 h2 _ => ?_⟩
    omega
  | k + 1, i => by
    -- one word: either all its bits are set and the loop goes on, or the first clear bit decides
    have next : (∀ j < 32, bitmapGet bitmap (i * 32 + j) = 1) →
        findWord bitmap l (k + 1) i = findWord bitmap l k (i + 1) →
        (∃ p, findWord bitmap l (k + 1) i = (some p, bitmapSet bitmap p true) ∧ i * 32 ≤ p ∧
          p < l ∧ bitmapGet bitmap p = 0 ∧ ∀ q, i * 32 ≤ q → q < p → bitmapGet bitmap q = 1) ∨
        (findWord bitmap l (k + 1) i = (none, bitmap) ∧
          ∀ q, i * 32 ≤ q → q < (i + (k + 1)) * 32 → q < l → bitmapGet bitmap q = 1) := by
      intro hfull heq
      have hlow : ∀ q, i * 32 ≤ q → q < (i + 1) * 32 → bitmapGet bitmap q = 1 := by
        intro q h1 h2
        have := hfull (q - i * 32) (by omega)
        rwa [show i * 32 + (q - i * 32) = q by omega] at this
      rw [heq]
      rcases findWord_spec (k := k) (i := i + 1) with ⟨p, h1, h2, h3, h4, h5⟩ | ⟨h1, h2⟩
      · refine Or.inl ⟨p, h1, by omega, h3, h4, fun q hq hlt => ?_⟩
        by_cases hc : q < (i + 1) * 32
        · exact hlow q hq hc
        · exact h5 q (by omega) hlt
      · refine Or.inr ⟨h1, fun q hq hlt hl => ?_⟩
        by_cases hc : q < (i + 1) * 32
        · exact hlow q hq hc
        · exact h2 q (by omega) (by omega) hl
    by_cases hw : bitmap.word (4 * i) = 0xffffffff
    · exact next (fun j hj => bitmapGet_of_word_full hw hj) (by simp [findWord, hw])
    · cases hb : findBit bitmap (i * 32) l 32 0 with
      | none =>
        exact next (fun j hj => findBit_none hb j (by omega) (by omega)) (by simp [findWord, hw, hb])
      | some r =>
        obtain ⟨j, _, h2, h3, h4, h5⟩ := findBit_some hb
        have hprev : ∀ q, i * 32 ≤ q → q < i * 32 + j → bitmapGet bitmap q = 1 := by
          intro q h1 h2
          have := h4 (q - i * 32) (by omega) (by omega)
          rwa [show i * 32 + (q - i * 32) = q by omega] at this
        by_cases hl : i * 32 + j ≥ l
        · rw [if_pos hl] at h5
          subst h5
          refine Or.inr ⟨by simp [findWord, hw, hb], fun q h1 _ hq => hprev q h1 (by omega)⟩
        · rw [if_neg hl] at h5
          subst h5
          exact Or.inl ⟨i * 32 + j, by simp [findWord, hw, hb], by omega, by omega, h3, hprev⟩

/-- **The search is exact**: it finds and sets the least clear bit below `l` … -/
theorem bitmapFindnset_some {bitmap bitmap' : Buf n} {l p : ℕ}
    (h : bitmapFindnset bitmap l = (some p, bitmap')) :
    p < l ∧ bitmapGet bitmap p = 0 ∧ (∀ q < p, bitmapGet bitmap q = 1) ∧
      bitmap' = bitmapSet bitmap p true := by
  unfold bitmapFindnset at h
  rcases @findWord_spec _ bitmap l (bitmapSizeof l / 4) 0 with
    ⟨p', h1, _, h3, h4, h5⟩ | ⟨h1, _⟩
  · rw [h1] at h
    cases h
    exact ⟨h3, h4, fun q hq => h5 q (by omega) hq, rfl⟩
  · rw [h1] at h; cases h

/-- … and reports failure, changing nothing, exactly when all bits below `l` are set. -/
theorem bitmapFindnset_none {bitmap bitmap' : Buf n} {l : ℕ}
    (h : bitmapFindnset bitmap l = (none, bitmap')) :
    bitmap' = bitmap ∧ ∀ q < l, bitmapGet bitmap q = 1 := by
  unfold bitmapFindnset at h
  rcases @findWord_spec _ bitmap l (bitmapSizeof l / 4) 0 with
    ⟨p', h1, _⟩ | ⟨h1, h2⟩
  · rw [h1] at h; cases h
  · rw [h1] at h
    cases h
    refine ⟨rfl, fun q hq => h2 q (by omega) ?_ hq⟩
    unfold bitmapSizeof
    omega

end Buenos
