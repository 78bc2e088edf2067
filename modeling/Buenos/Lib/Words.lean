import Mathlib.Order.Nat
import Mathlib.Algebra.Group.Int.Defs
import Mathlib.Algebra.Group.Nat.Defs
import Mathlib.Algebra.Order.Group.Unbundled.Int

/-!
# Words and integers

* `int` — the conversion of an unsigned word to `int`.
* `MIN` — the macro of `lib/libc.h`, for words and for integers.

Principal results: `int_eq` and `MIN_toNat`.
-/

namespace Buenos

/-- `(int)x`. -/
def int (x : UInt32) : ℤ := x.toInt32.toInt

def MIN {α : Type} [LT α] [DecidableLT α] (a b : α) : α := if a > b then b else a

/-- A word below 2³¹ is the same number as an `int`. -/
theorem int_eq {x : UInt32} (h : x.toNat < 2 ^ 31) : int x = x.toNat := by
  have hlt : 2 * x.toBitVec.toNat < 2 ^ 32 := by
    rw [UInt32.toNat_toBitVec]
    omega
  show x.toBitVec.toInt = x.toNat
  rw [BitVec.toInt_eq_toNat_of_lt hlt, UInt32.toNat_toBitVec]

/-- And so is an `int` that is not negative as a word. -/
theorem ofInt_toNat {z : ℤ} (h0 : 0 ≤ z) (h : z < 2 ^ 32) : (UInt32.ofInt z).toNat = z.toNat := by
  rw [UInt32.ofInt, Int.emod_eq_of_lt h0 h, UInt32.toNat_ofNat']
  exact Nat.mod_eq_of_lt (by omega)

theorem sub_toNat {x y : UInt32} (h : y.toNat ≤ x.toNat) : (x - y).toNat = x.toNat - y.toNat :=
  UInt32.toNat_sub_of_le _ _ (UInt32.le_iff_toNat_le.2 h)

theorem MIN_eq {α : Type} [LinearOrder α] (a b : α) : MIN a b = min a b := by
  unfold MIN
  by_cases h : b < a
  · rw [if_pos h, min_eq_right h.le]
  · rw [if_neg h, min_eq_left (not_lt.1 h)]

theorem MIN_toNat (a b : UInt32) : (MIN a b).toNat = min a.toNat b.toNat := by
  unfold MIN
  by_cases h : b < a
  · rw [if_pos h, min_eq_right (UInt32.lt_iff_toNat_lt.1 h).le]
  · rw [if_neg h, min_eq_left (not_lt.1 fun hlt => h (UInt32.lt_iff_toNat_lt.2 hlt))]

end Buenos
