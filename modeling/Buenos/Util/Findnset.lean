import Buenos.Util.Tfstool

/-!
# The two searches for a clear bit

`bitmap_findnset` of `lib/bitmap.c`, which skips full words, and of `util/tfstool.c`, which looks at one
bit after the other, for lengths of type `int`.

* `bitmapSizeofInt`, `bitmapFindnsetInt` — the functions of the kernel on `int`: a sum that is too large
  wraps around.
* `FirstClear` — what a search is for.

Principal results: `findnset_firstClear` and `hostFindnset_firstClear`, `FirstClear.unique` and
`findnset_exact`.
-/

namespace Buenos

open Bytes Tfstool

/-! ## Lengths of type `int` -/

/-- `bitmap_sizeof`: the sum wraps around, and the quotient is rounded towards zero. -/
def bitmapSizeofInt (numBits : ℤ) : ℤ := ((numBits + 31).bmod (2 ^ 32)).tdiv 32 * 4

section

variable {n : ℕ}

/-- `bitmap_findnset` of the kernel. -/
def bitmapFindnsetInt (bitmap : Buf n) (l : ℤ) : Option ℕ × Buf n :=
  findWord bitmap l.toNat ((bitmapSizeofInt l).tdiv 4).toNat 0

/-- The least clear bit below `l` and the bitmap with exactly this bit set, or that there is none and the
same bitmap. -/
def FirstClear (bitmap : Buf n) (l : ℕ) : Option ℕ × Buf n → Prop
  | (some p, bitmap') => p < l ∧ bitmapGet bitmap p = 0 ∧ (∀ q < p, bitmapGet bitmap q = 1) ∧
    bitmap' = bitmapSet bitmap p true ∧ ∀ q, bitmapGet bitmap' q = if q = p then 1 else bitmapGet bitmap q
  | (none, bitmap') => bitmap' = bitmap ∧ ∀ q < l, bitmapGet bitmap q = 1

variable {bitmap : Buf n} {l : ℕ} {e : Endian}

/-- There is one answer only. -/
theorem FirstClear.unique {r r' : Option ℕ × Buf n} (h : FirstClear bitmap l r) (h' : FirstClear bitmap l r') :
    r = r' := by
  obtain ⟨_ | p, b⟩ := r
  · obtain ⟨rfl, hall⟩ := h
    obtain ⟨_ | p', b'⟩ := r'
    · rw [h'.1]
    · obtain ⟨hlt, hclear, -⟩ := h'
      rw [hall p' hlt] at hclear
      cases hclear
  · obtain ⟨hlt, hclear, hbelow, rfl, -⟩ := h
    obtain ⟨_ | p', b'⟩ := r'
    · obtain ⟨-, hall⟩ := h'
      rw [hall p hlt] at hclear
      cases hclear
    · obtain ⟨hlt', hclear', hbelow', rfl, -⟩ := h'
      have hpp : p = p' := by
        rcases Nat.lt_trichotomy p p' with hlt | heq | hlt
        · rw [hbelow' p hlt] at hclear
          cases hclear
        · exact heq
        · rw [hbelow p' hlt] at hclear'
          cases hclear'
      rw [hpp]

/-- A bit below `l` lies in the stored words. -/
theorem stored_of_lt (hn : bitmapSizeof l ≤ n) {p : ℕ} (hp : p < l) : 4 * (p / 32) + 4 ≤ n := by
  unfold bitmapSizeof at hn
  omega

/-- **The search of the kernel**, whatever the bits behind `l` are. -/
theorem findnset_firstClear (hn : bitmapSizeof l ≤ n) : FirstClear bitmap l (bitmapFindnset bitmap l) := by
  cases hr : bitmapFindnset bitmap l with
  | mk r bitmap' =>
    cases r with
    | none => exact bitmapFindnset_none hr
    | some p =>
      obtain ⟨hlt, hclear, hbelow, hset⟩ := bitmapFindnset_some hr
      refine ⟨hlt, hclear, hbelow, hset, fun q => ?_⟩
      rw [hset, bitmapGet_bitmapSet _ _ _ (stored_of_lt hn hlt), if_pos rfl]

variable (bitmap e) in
/-- The loop of the tool from bit `i` on. -/
theorem hostFindLoop_first (k : ℕ) : ∀ i, (∀ q < i, bitmapGet bitmap q = 1) →
    (∃ p, hostFindLoop e bitmap k i = (some p, bitmapSet bitmap p true) ∧ p < i + k ∧ bitmapGet bitmap p = 0 ∧
      ∀ q < p, bitmapGet bitmap q = 1) ∨
    (hostFindLoop e bitmap k i = (none, bitmap) ∧ ∀ q < i + k, bitmapGet bitmap q = 1) := by
  induction k with
  | zero => exact fun i hbelow => Or.inr ⟨rfl, hbelow⟩
  | succ k ih =>
    intro i hbelow
    rw [hostFindLoop, hostBitmapGet_eq, hostBitmapSet_eq]
    by_cases hclear : bitmapGet bitmap i = 0
    · left
      exact ⟨i, if_pos hclear, by omega, hclear, hbelow⟩
    · rw [if_neg hclear, ← Nat.add_assoc, Nat.add_right_comm]
      apply ih
      intro q hq
      rcases Nat.lt_succ_iff_lt_or_eq.1 hq with hlt | rfl
      · exact hbelow q hlt
      · exact bitmapGet_ne_zero.1 hclear

/-- **The search of the tool.** -/
theorem hostFindnset_firstClear (hn : bitmapSizeof l ≤ n) : FirstClear bitmap l (hostFindnset e bitmap l) := by
  have hloop := hostFindLoop_first bitmap e l 0 fun q hq => absurd hq (Nat.not_lt_zero q)
  rw [Nat.zero_add] at hloop
  unfold hostFindnset
  rcases hloop with ⟨p, hrun, hlt, hclear, hbelow⟩ | ⟨hrun, hall⟩
  · rw [hrun]
    refine ⟨hlt, hclear, hbelow, rfl, fun q => ?_⟩
    rw [bitmapGet_bitmapSet _ _ _ (stored_of_lt hn hlt), if_pos rfl]
  · rw [hrun]
    exact ⟨rfl, hall⟩

/-! ## Lengths near the greatest `int` -/

theorem bitmapSizeofInt_fits (h : (l : ℤ) + 31 < 2 ^ 31) : bitmapSizeofInt l = bitmapSizeof l := by
  have hbmod : ((l : ℤ) + 31).bmod (2 ^ 32) = (l + 31 : ℕ) := by
    rw [Int.bmod_eq_of_le (by omega) (by omega)]
    omega
  rw [bitmapSizeofInt, hbmod, bitmapSizeof, Int.tdiv_eq_ediv_of_nonneg (by omega)]
  omega

theorem tdiv_nonpos {a b : ℤ} (ha : a ≤ 0) (hb : 0 ≤ b) : a.tdiv b ≤ 0 := by
  have hneg := Int.tdiv_nonneg (show 0 ≤ -a by omega) hb
  rw [Int.neg_tdiv] at hneg
  omega

/-- The number of bytes is negative. -/
theorem bitmapSizeofInt_wraps {l : ℤ} (hlt : l < 2 ^ 31) (h : 2 ^ 31 ≤ l + 31) : bitmapSizeofInt l ≤ 0 := by
  have hbmod : (l + 31).bmod (2 ^ 32) = l + 31 - 2 ^ 32 := by
    rw [Int.bmod_def]
    omega
  have hdiv : (l + 31 - 2 ^ 32).tdiv 32 ≤ 0 := tdiv_nonpos (by omega) (by omega)
  rw [bitmapSizeofInt, hbmod]
  omega

/-- No word is looked at. -/
theorem bitmapFindnsetInt_wraps {l : ℤ} (hlt : l < 2 ^ 31) (h : 2 ^ 31 ≤ l + 31) :
    bitmapFindnsetInt bitmap l = (none, bitmap) := by
  have hwords : ((bitmapSizeofInt l).tdiv 4).toNat = 0 := by
    have hneg := tdiv_nonpos (bitmapSizeofInt_wraps hlt h) (show (0 : ℤ) ≤ 4 by omega)
    omega
  rw [bitmapFindnsetInt, hwords, findWord]

theorem bitmapFindnsetInt_fits (h : (l : ℤ) + 31 < 2 ^ 31) : bitmapFindnsetInt bitmap l = bitmapFindnset bitmap l := by
  rw [bitmapFindnsetInt, bitmapSizeofInt_fits h, Int.toNat_natCast, bitmapFindnset,
    Int.tdiv_eq_ediv_of_nonneg (by omega)]
  rfl

/-- Both searches find the least clear bit below `l` and set it, or find that there is none. -/
def SearchesAgree (e : Endian) (bitmap : Buf n) (l : ℤ) : Prop :=
  bitmapFindnsetInt bitmap l = hostFindnset e bitmap l.toNat ∧
    FirstClear bitmap l.toNat (bitmapFindnsetInt bitmap l) ∧ FirstClear bitmap l.toNat (hostFindnset e bitmap l.toNat)

/-- A length with a size that is an `int`. -/
theorem searchesAgree_fits (e : Endian) (h : (l : ℤ) + 31 < 2 ^ 31) (hn : bitmapSizeof l ≤ n) :
    SearchesAgree e bitmap l := by
  have hkernel : FirstClear bitmap l (bitmapFindnset bitmap l) := findnset_firstClear hn
  have hhost : FirstClear bitmap l (hostFindnset e bitmap l) := hostFindnset_firstClear hn
  rw [SearchesAgree, Int.toNat_natCast, bitmapFindnsetInt_fits h]
  exact ⟨hkernel.unique hhost, hkernel, hhost⟩

/-- Any other one. -/
theorem searchesAgree_wraps {l : ℤ} (e : Endian) (hlt : l < 2 ^ 31) (h : 2 ^ 31 ≤ l + 31)
    (hn : bitmapSizeof l.toNat ≤ n) :
    SearchesAgree e bitmap l ↔ ∀ q < l.toNat, bitmapGet bitmap q = 1 := by
  have hhost : FirstClear bitmap l.toNat (hostFindnset e bitmap l.toNat) := hostFindnset_firstClear hn
  rw [SearchesAgree, bitmapFindnsetInt_wraps hlt h]
  refine ⟨fun hagree => hagree.2.1.2, fun hall => ?_⟩
  have hkernel : FirstClear bitmap l.toNat (none, bitmap) := ⟨rfl, hall⟩
  exact ⟨hkernel.unique hhost, hkernel, hhost⟩

/-- **The two searches** agree, for every length that is an `int` and every bitmap with the words of this
length, unless `bitmap_sizeof` of the length is not an `int` and there is a clear bit. -/
theorem findnset_exact {l : ℤ} (e : Endian) (h0 : 0 ≤ l) (hlt : l < 2 ^ 31) (hn : bitmapSizeof l.toNat ≤ n) :
    SearchesAgree e bitmap l ↔ l + 31 < 2 ^ 31 ∨ ∀ q < l.toNat, bitmapGet bitmap q = 1 := by
  by_cases hfits : l + 31 < 2 ^ 31
  · refine iff_of_true ?_ (Or.inl hfits)
    have hl : (l.toNat : ℤ) = l := Int.toNat_of_nonneg h0
    rw [← hl] at hfits ⊢
    exact searchesAgree_fits e hfits hn
  · rw [searchesAgree_wraps e hlt (by omega) hn]
    exact ⟨Or.inr, fun h => h.resolve_left hfits⟩

/-- A bitmap of one word, of which seven bits are in use. -/
theorem findnset_exact_word : SearchesAgree .little ((Buf.const 4 0).setWord 0 0x3f) 7 :=
  (findnset_exact .little (by decide) (by decide) (by decide)).2 (Or.inl (by decide))

/-- **The longest bitmap**: its bits are clear, and the kernel does not find one. -/
theorem findnset_longest :
    ¬ ∀ (n : ℕ) (bitmap : Buf n) (l : ℤ) (e : Endian), 0 ≤ l → l < 2 ^ 31 → bitmapSizeof l.toNat ≤ n →
      SearchesAgree e bitmap l := by
  intro h
  obtain ⟨-, hfirst, -⟩ := h (2 ^ 28) (Buf.const (2 ^ 28) 0) (2 ^ 31 - 1) .little (by decide) (by decide) (by decide)
  rw [bitmapFindnsetInt_wraps (by decide) (by decide)] at hfirst
  have hset := hfirst.2 0 (by decide)
  rw [bitmapGet_eq, Buf.word] at hset
  simp at hset

end

end Buenos
