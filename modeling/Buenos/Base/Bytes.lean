import Mathlib.Data.Nat.Bitwise
import Mathlib.Tactic.Common

/-!
# Fixed-size byte buffers with big-endian 32-bit words

Generic library: a memory area of `n` bytes, read and written by byte, by list of bytes and by
big-endian 32-bit word.

* `Buf.byte` — total byte access (`0` outside the buffer).
* `Buf.store` — overwrite consecutive bytes (the part that falls outside is dropped).
* `Buf.word` / `Buf.setWord` — big-endian words, values below `2 ^ 32`.
* `Buf.slice` — copy out consecutive bytes.

Principal results: `Buf.byte_store`, `Buf.word_setWord_self`, `Buf.word_store_disjoint`,
`Buf.slice_store_self`, `Buf.takeWhile_store`, `Buf.ext_byte`.
-/

namespace Bytes

/-- A memory area of `n` bytes. -/
@[ext] structure Buf (n : ℕ) where
  data : Fin n → UInt8

variable {n : ℕ}

/-- The byte at offset `o`; `0` outside the buffer. -/
def Buf.byte (b : Buf n) (o : ℕ) : UInt8 := if h : o < n then b.data ⟨o, h⟩ else 0

/-- Overwrite the bytes from offset `o` on by `bs`. -/
def Buf.store (b : Buf n) (o : ℕ) (bs : List UInt8) : Buf n :=
  ⟨fun i => if o ≤ i.val ∧ i.val < o + bs.length then bs.getD (i.val - o) 0 else b.data i⟩

/-- The `len` bytes from offset `o` on. -/
def Buf.slice (b : Buf n) (o len : ℕ) : List UInt8 := (List.range len).map fun k => b.byte (o + k)

/-- A buffer of `n` equal bytes. -/
def Buf.const (n : ℕ) (v : UInt8) : Buf n := ⟨fun _ => v⟩

/-- Big-endian encoding of a 32-bit word. -/
def be32 (v : ℕ) : List UInt8 :=
  [UInt8.ofNat (v / 2 ^ 24), UInt8.ofNat (v / 2 ^ 16), UInt8.ofNat (v / 2 ^ 8), UInt8.ofNat v]

/-- The big-endian 32-bit word at byte offset `o`. -/
def Buf.word (b : Buf n) (o : ℕ) : ℕ :=
  2 ^ 24 * (b.byte o).toNat + 2 ^ 16 * (b.byte (o + 1)).toNat + 2 ^ 8 * (b.byte (o + 2)).toNat +
    (b.byte (o + 3)).toNat

/-- Write a big-endian 32-bit word at byte offset `o`. -/
def Buf.setWord (b : Buf n) (o v : ℕ) : Buf n := b.store o (be32 v)

@[simp] theorem be32_length (v : ℕ) : (be32 v).length = 4 := rfl

theorem Buf.byte_of_lt (b : Buf n) {o : ℕ} (h : o < n) : b.byte o = b.data ⟨o, h⟩ := dif_pos h

theorem Buf.byte_of_ge (b : Buf n) {o : ℕ} (h : n ≤ o) : b.byte o = 0 :=
  dif_neg (by omega)

/-- Two buffers with the same bytes are equal. -/
theorem Buf.ext_byte {a b : Buf n} (h : ∀ o < n, a.byte o = b.byte o) : a = b := by
  apply Buf.ext
  funext ⟨o, ho⟩
  have := h o ho
  rwa [a.byte_of_lt ho, b.byte_of_lt ho] at this

@[simp] theorem Buf.byte_const (v : UInt8) (o : ℕ) :
    (Buf.const n v).byte o = if o < n then v else 0 := by
  unfold Buf.byte Buf.const
  split <;> rfl

/-- Reading back after a store. -/
theorem Buf.byte_store (b : Buf n) (o : ℕ) (bs : List UInt8) (i : ℕ) :
    (b.store o bs).byte i =
      if o ≤ i ∧ i < o + bs.length ∧ i < n then bs.getD (i - o) 0 else b.byte i := by
  by_cases hi : i < n
  · rw [Buf.byte_of_lt _ hi, Buf.byte_of_lt _ hi]
    simp [Buf.store, hi]
  · rw [Buf.byte_of_ge _ (by omega), Buf.byte_of_ge _ (by omega), if_neg (by omega)]

theorem Buf.byte_store_of_lt (b : Buf n) {o i : ℕ} (bs : List UInt8) (h : i < o) :
    (b.store o bs).byte i = b.byte i := by
  rw [Buf.byte_store, if_neg (by omega)]

theorem Buf.byte_store_of_ge (b : Buf n) {o i : ℕ} {bs : List UInt8} (h : o + bs.length ≤ i) :
    (b.store o bs).byte i = b.byte i := by
  rw [Buf.byte_store, if_neg (by omega)]

theorem Buf.byte_store_of_mem (b : Buf n) {o i : ℕ} {bs : List UInt8} (h1 : o ≤ i)
    (h2 : i < o + bs.length) (h3 : i < n) : (b.store o bs).byte i = bs.getD (i - o) 0 := by
  rw [Buf.byte_store, if_pos ⟨h1, h2, h3⟩]

@[simp] theorem Buf.store_nil (b : Buf n) (o : ℕ) : b.store o [] = b := by
  apply Buf.ext
  funext i
  have : ¬ (o ≤ i.val ∧ i.val < o + ([] : List UInt8).length) := by simp
  simp only [Buf.store, if_neg this]

/-- Two stores in a row, the second one behind the first. -/
theorem Buf.store_append (b : Buf n) (o : ℕ) (xs ys : List UInt8) :
    (b.store o xs).store (o + xs.length) ys = b.store o (xs ++ ys) := by
  apply Buf.ext_byte
  intro i hi
  rw [Buf.byte_store, Buf.byte_store, Buf.byte_store, List.length_append]
  by_cases h : i < o + xs.length
  · rw [if_neg (by omega)]
    by_cases ho : o ≤ i
    · rw [if_pos ⟨ho, h, hi⟩, if_pos ⟨ho, by omega, hi⟩, List.getD_append _ _ _ _ (by omega)]
    · rw [if_neg (by omega), if_neg (by omega)]
  · by_cases hy : i < o + xs.length + ys.length
    · rw [if_pos ⟨by omega, hy, hi⟩, if_pos ⟨by omega, by omega, hi⟩,
        List.getD_append_right _ _ _ _ (by omega), Nat.sub_add_eq]
    · rw [if_neg (by omega), if_neg (by omega), if_neg (by omega)]

/-! ## Slices -/

@[simp] theorem Buf.slice_length (b : Buf n) (o len : ℕ) : (b.slice o len).length = len := by
  simp [Buf.slice]

theorem Buf.slice_getElem? (b : Buf n) (o len k : ℕ) :
    (b.slice o len)[k]? = if k < len then some (b.byte (o + k)) else none := by
  unfold Buf.slice
  split
  · simp [*]
  · simp only [List.getElem?_map, Option.map_eq_none_iff]
    exact List.getElem?_eq_none (by simp; omega)

theorem Buf.slice_congr {a b : Buf n} {o len : ℕ}
    (h : ∀ k < len, a.byte (o + k) = b.byte (o + k)) : a.slice o len = b.slice o len := by
  unfold Buf.slice
  apply List.map_congr_left
  intro k hk
  exact h k (List.mem_range.mp hk)

theorem Buf.slice_store_self (b : Buf n) (o : ℕ) (bs : List UInt8) (h : o + bs.length ≤ n) :
    (b.store o bs).slice o bs.length = bs := by
  apply List.ext_getElem?
  intro k
  rw [Buf.slice_getElem?]
  split
  · rename_i hk
    rw [Buf.byte_store_of_mem b (by omega) (by omega) (by omega)]
    simp [hk]
  · rename_i hk
    exact (List.getElem?_eq_none (by omega)).symm

theorem Buf.slice_add (b : Buf n) (o k l : ℕ) :
    b.slice o (k + l) = b.slice o k ++ b.slice (o + k) l := by
  simp only [Buf.slice, List.range_add, List.map_append, List.map_map, Function.comp_def,
    Nat.add_assoc]

/-- A stored C string is read back. -/
theorem Buf.takeWhile_store (b : Buf n) {o len : ℕ} {bs : List UInt8} (h0 : (0 : UInt8) ∉ bs)
    (hlen : bs.length < len) (hn : o + len ≤ n) :
    ((b.store o (bs ++ [0])).slice o len).takeWhile (· ≠ 0) = bs := by
  have hsplit : len = (bs ++ [0]).length + (len - (bs.length + 1)) := by
    rw [List.length_append, List.length_singleton]
    omega
  rw [hsplit, Buf.slice_add, Buf.slice_store_self _ _ _ (by
    rw [List.length_append, List.length_singleton]
    omega), List.append_assoc, List.takeWhile_append_of_pos]
  · simp
  · intro c hc
    rw [decide_eq_true_iff]
    rintro rfl
    exact h0 hc

/-! ## Words -/

theorem Buf.word_lt (b : Buf n) (o : ℕ) : b.word o < 2 ^ 32 := by
  unfold Buf.word
  have h0 := (b.byte o).toNat_lt
  have h1 := (b.byte (o + 1)).toNat_lt
  have h2 := (b.byte (o + 2)).toNat_lt
  have h3 := (b.byte (o + 3)).toNat_lt
  omega

theorem Buf.word_congr {a b : Buf n} {o : ℕ} (h : ∀ k < 4, a.byte (o + k) = b.byte (o + k)) :
    a.word o = b.word o := by
  have h0 := h 0 (by omega)
  have h1 := h 1 (by omega)
  have h2 := h 2 (by omega)
  have h3 := h 3 (by omega)
  simp only [Nat.add_zero] at h0
  simp only [Buf.word, h0, h1, h2, h3]

/-- A word stored inside the buffer is read back modulo `2 ^ 32`. -/
theorem Buf.word_setWord_self (b : Buf n) {o : ℕ} (v : ℕ) (h : o + 4 ≤ n) :
    (b.setWord o v).word o = v % 2 ^ 32 := by
  unfold Buf.word Buf.setWord
  rw [Buf.byte_store_of_mem b (by omega) (by simp) (by omega),
    Buf.byte_store_of_mem b (by omega) (by simp) (by omega),
    Buf.byte_store_of_mem b (by omega) (by simp) (by omega),
    Buf.byte_store_of_mem b (by omega) (by simp) (by omega)]
  simp only [be32, Nat.sub_self, Nat.add_sub_cancel_left, List.getD_cons_zero, List.getD_cons_succ,
    UInt8.toNat_ofNat']
  omega

/-- A store leaves every word alone that does not overlap it. -/
theorem Buf.word_store_disjoint (b : Buf n) {o o' : ℕ} {bs : List UInt8}
    (h : o' + 4 ≤ o ∨ o + bs.length ≤ o') : (b.store o bs).word o' = b.word o' := by
  apply Buf.word_congr
  intro k hk
  rcases h with h | h
  · exact b.byte_store_of_lt bs (by omega)
  · exact b.byte_store_of_ge (by omega)

theorem Buf.word_setWord_disjoint (b : Buf n) {o o' v : ℕ} (h : o' + 4 ≤ o ∨ o + 4 ≤ o') :
    (b.setWord o v).word o' = b.word o' :=
  b.word_store_disjoint (by simpa using h)

end Bytes
