import Mathlib.Logic.Function.Basic
import Mathlib.Data.List.Range
import Mathlib.Tactic.Common

/-!
# Ring buffers

A buffer of `n` cells with the index of its first element and the number of elements, as C code keeps
it: the fields are signed integers and `%` is the remainder of C.

* `push` — store behind the last element.
* `front`, `pop` — the first element, and the ring without it.
* `contents` — the elements in order.
* `Valid` — the indices are in range.

Principal results: `contents_push` and `contents_pop` (a ring that is in range is a FIFO).
-/

namespace Buenos

/-- A ring buffer. -/
structure Ring (α : Type*) where
  buf : ℤ → α
  head : ℤ
  count : ℤ

namespace Ring

variable {α : Type*}

/-- `buf[(head + count) % n] = x; count++`. -/
def push (n : ℕ) (r : Ring α) (x : α) : Ring α where
  buf := Function.update r.buf ((r.head + r.count).tmod n) x
  head := r.head
  count := r.count + 1

/-- `buf[head]`. -/
def front (r : Ring α) : α := r.buf r.head

/-- `head = (head + 1) % n; count--`. -/
def pop (n : ℕ) (r : Ring α) : Ring α where
  buf := r.buf
  head := (r.head + 1).tmod n
  count := r.count - 1

/-- The `count` elements from `head` on. -/
def contents (n : ℕ) (r : Ring α) : List α :=
  (List.range r.count.toNat).map fun k : ℕ => r.buf ((r.head + (k : ℤ)) % n)

/-- The head is an index of the buffer, and no more elements are counted than there are cells. -/
structure Valid (n : ℕ) (r : Ring α) : Prop where
  head_nonneg : 0 ≤ r.head
  head_lt : r.head < n
  count_nonneg : 0 ≤ r.count
  count_le : r.count ≤ n

variable {n : ℕ} {r : Ring α}

@[simp] theorem push_count (x : α) : (r.push n x).count = r.count + 1 := rfl

@[simp] theorem pop_count : (r.pop n).count = r.count - 1 := rfl

/-- Two offsets of less than one revolution are the same cell only when they are equal. -/
theorem offset_inj {h : ℤ} {i k : ℕ} (hi : i < n) (hk : k < n)
    (he : (h + i) % n = (h + k) % n) : i = k := by
  have hn : (0 : ℤ) < n := by omega
  have hz : (h + i - (h + k)) % n = 0 := by rw [Int.sub_emod, he, Int.sub_self, Int.zero_emod]
  obtain ⟨q, hq⟩ := Int.dvd_of_emod_eq_zero hz
  have hq0 : q = 0 := by
    rcases Int.lt_trichotomy q 0 with hneg | h0 | hpos
    · have : (n : ℤ) * q ≤ n * (-1) := Int.mul_le_mul_of_nonneg_left (by omega) (by omega)
      omega
    · exact h0
    · have : (n : ℤ) * 1 ≤ n * q := Int.mul_le_mul_of_nonneg_left (by omega) (by omega)
      omega
  rw [hq0, Int.mul_zero] at hq
  omega

theorem Valid.push (h : Valid n r) (hc : r.count < n) (x : α) : Valid n (r.push n x) where
  head_nonneg := h.head_nonneg
  head_lt := h.head_lt
  count_nonneg := by
    have := h.count_nonneg
    rw [push_count]
    omega
  count_le := by
    rw [push_count]
    omega

theorem Valid.pop (h : Valid n r) (hc : 0 < r.count) : Valid n (r.pop n) where
  head_nonneg := Int.tmod_nonneg _ (by have := h.head_nonneg; omega)
  head_lt := Int.tmod_lt_of_pos _ (by have := h.head_nonneg; have := h.head_lt; omega)
  count_nonneg := by
    rw [pop_count]
    omega
  count_le := by
    have := h.count_le
    rw [pop_count]
    omega

/-- **A pushed element is the last one.** -/
theorem contents_push (h : Valid n r) (hc : r.count < n) (x : α) :
    (r.push n x).contents n = r.contents n ++ [x] := by
  have h0 := h.head_nonneg
  obtain ⟨c, hcn⟩ := Int.eq_ofNat_of_zero_le h.count_nonneg
  have hlen : (r.push n x).count.toNat = c + 1 := by
    rw [push_count]
    omega
  have hlen' : r.count.toNat = c := by omega
  have hcell : (r.head + r.count).tmod n = (r.head + (c : ℕ)) % n := by
    rw [hcn, Int.tmod_eq_emod_of_nonneg (by omega)]
  rw [contents, hlen, List.range_succ, List.map_append, contents, hlen', List.map_singleton]
  congr 1
  · apply List.map_congr_left
    intro k hk
    have hk := List.mem_range.1 hk
    show Function.update r.buf _ x ((r.head + k) % n) = _
    rw [hcell, Function.update_of_ne]
    intro he
    have := offset_inj (by omega) (by omega) he
    omega
  · show [Function.update r.buf _ x ((r.head + c) % n)] = [x]
    rw [hcell, Function.update_self]

/-- **The first element leaves first.** -/
theorem contents_pop (h : Valid n r) (hc : 0 < r.count) :
    r.contents n = r.front :: (r.pop n).contents n := by
  have h0 := h.head_nonneg
  have hlt := h.head_lt
  obtain ⟨c, hcn⟩ := Int.eq_ofNat_of_zero_le (show 0 ≤ r.count - 1 by omega)
  have hlen : r.count.toNat = c + 1 := by omega
  have hlen' : (r.pop n).count.toNat = c := by
    rw [pop_count]
    omega
  rw [contents, hlen, List.range_succ_eq_map, List.map_cons, List.map_map, contents, hlen']
  congr 1
  · show r.buf ((r.head + (0 : ℕ)) % n) = r.buf r.head
    rw [Int.ofNat_zero, Int.add_zero, Int.emod_eq_of_lt h0 hlt]
  · apply List.map_congr_left
    intro k _
    show r.buf ((r.head + (k.succ : ℕ)) % n) = r.buf (((r.head + 1).tmod n + k) % n)
    rw [Int.tmod_eq_emod_of_nonneg (by omega), Int.emod_add_emod]
    congr 2
    push_cast
    omega

end Ring

end Buenos
