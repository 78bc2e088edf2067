import Buenos.Lib.FormatText
import Mathlib.Tactic.IntervalCases
import Mathlib.Tactic.Ring

/-!
# Numbers that are printed and read again (`lib/libc.c`, `tests/str.c`)

* `atoi` — the function, on what can be read of the string.
* `numberText_value` — the digits of `print_uint` are read as the number.

Principal result: `atoi_printed`, what `atoi` reads of the text that a format with `%d` or `%i` puts into a buffer.
-/

namespace Buenos.Xprintf

/-- The characters that `atoi` skips. -/
def isBlank (c : UInt8) : Bool := c = ascii ' ' || c = 9 || c = 13 || c = 10

def IsDigit (c : UInt8) : Prop := ascii '0' ≤ c ∧ c ≤ ascii '9'

instance isDigitDecidable (c : UInt8) : Decidable (IsDigit c) := inferInstanceAs (Decidable (_ ∧ _))

/-- `value = 10*value + sign*(int)(s[i]-'0')`. -/
def addDigit (sign value : ℤ) (c : UInt8) : ℤ := wrap (10 * value + sign * (c.toNat - (ascii '0').toNat))

/-- The loop of `atoi` over the digits; `none` when the string has no end. -/
def digitsLoop (sign : ℤ) : ℤ → List UInt8 → Option ℤ
  | _, [] => none
  | value, c :: s => if IsDigit c then digitsLoop sign (addDigit sign value c) s else some value

/-- `atoi`. -/
def atoi (s : List UInt8) : Option ℤ :=
  match s.dropWhile isBlank with
  | [] => none
  | c :: s =>
    if c = 0 then some 0
    else if c = ascii '-' then digitsLoop (-1) 0 s
    else if c = ascii '+' then digitsLoop 1 0 s
    else digitsLoop 1 0 (c :: s)

/-! ## Digits -/

section Digits

variable {flags : Flags} {sign value : ℤ} {c : UInt8} {ds s : List UInt8}

/-- Digits up to the first other character. -/
theorem digitsLoop_append (hds : ∀ d ∈ ds, IsDigit d) (hc : ¬ IsDigit c) :
    digitsLoop sign value (ds ++ c :: s) = some (ds.foldl (addDigit sign) value) := by
  induction ds generalizing value with
  | nil => exact if_neg hc
  | cons d ds ih =>
    rw [List.cons_append, digitsLoop, if_pos (hds d List.mem_cons_self)]
    exact ih fun x hx => hds x (List.mem_cons_of_mem _ hx)

theorem wrap_ten (x y : ℤ) : wrap (10 * wrap x + y) = wrap (10 * x + y) := by
  unfold wrap
  rw [← Int.bmod_add_bmod, Int.mul_bmod_bmod, Int.bmod_add_bmod]

/-- A digit of the table is read as its value. -/
theorem digit_value (flags : Flags) {d : ℕ} (hd : d < 10) : IsDigit (digit flags d) ∧
    (((digit flags d).toNat : ℤ) - (ascii '0').toNat = d) := by
  unfold digit
  cases flags.smalls <;> interval_cases d <;> decide

theorem revDigits_isDigit : ∀ (places n : ℕ), ∀ c ∈ revDigits flags 10 places n, IsDigit c
  | 0, _, _, h => absurd h List.not_mem_nil
  | places + 1, n, c, h => by
    rw [revDigits, List.mem_cons] at h
    obtain rfl | h := h
    · exact (digit_value flags (Nat.mod_lt n (by decide))).1
    · split at h
      · exact absurd h List.not_mem_nil
      · exact revDigits_isDigit places _ c h

/-- **The digits of a number** are read as the number, with the sign. -/
theorem revDigits_value : ∀ (places n : ℕ), n < 10 ^ places →
    (revDigits flags 10 places n).reverse.foldl (addDigit sign) 0 = wrap (sign * n)
  | 0, n, hn => by
    obtain rfl : n = 0 := by simpa using hn
    simp [revDigits, wrap]
  | places + 1, n, hn => by
    have hd := (digit_value flags (Nat.mod_lt n (show 0 < 10 by decide))).2
    have hsum : (n : ℤ) = 10 * (n / 10 : ℕ) + (n % 10 : ℕ) := by omega
    rw [revDigits, List.reverse_cons, List.foldl_append, List.foldl_cons, List.foldl_nil, addDigit, hd]
    split
    · rename_i hzero
      rw [hsum, hzero]
      simp
    · have hrest : n / 10 < 10 ^ places := by
        rw [Nat.pow_succ] at hn
        omega
      rw [revDigits_value places _ hrest, wrap_ten, hsum]
      congr 1
      ring

theorem padTo_zero (rev : List UInt8) (c : UInt8) : padTo rev 0 c = rev := by
  have hnone : ((0 : ℤ) - rev.length).toNat = 0 := by omega
  rw [padTo, hnone, List.replicate_zero, List.append_nil]

/-- What `print_uint` puts out for `%d`. -/
theorem numberText_eq (n base : ℕ) : numberText n base flags 0 0 = (revDigits flags base 11 n).reverse := by
  have hmin : MIN (0 : ℤ) 11 = 0 := rfl
  rw [numberText, numberString, hmin, padTo_zero, padTo_zero]

theorem numberText_isDigit (flags : Flags) (n : ℕ) : ∀ c ∈ numberText n 10 flags 0 0, IsDigit c := by
  intro c hc
  rw [numberText_eq] at hc
  exact revDigits_isDigit 11 n c (List.mem_reverse.1 hc)

/-- **A number that is printed** is read again. -/
theorem numberText_value {n : ℕ} (hn : n < 2 ^ 32) (hc : ¬ IsDigit c) :
    digitsLoop sign 0 (numberText n 10 flags 0 0 ++ c :: s) = some (wrap (sign * n)) := by
  rw [digitsLoop_append (numberText_isDigit flags n) hc, numberText_eq, revDigits_value 11 n (by omega)]

theorem numberText_ne_nil (n : ℕ) : numberText n 10 flags 0 0 ≠ [] := by
  rw [numberText_eq, revDigits]
  simp

end Digits

/-! ## Signs -/

section Signs

variable {flags : Flags} {arg : UInt32} {s : List UInt8}

theorem int_cond (x : UInt32) : int x = if x.toNat < 2 ^ 31 then (x.toNat : ℤ) else x.toNat - 2 ^ 32 := by
  have hx := x.toNat_lt
  show x.toBitVec.toInt = _
  rw [BitVec.toInt_eq_toNat_cond, UInt32.toNat_toBitVec]
  split
  · rw [if_pos (by omega)]
  · rw [if_neg (by omega)]
    rfl

/-- The number with its sign is the argument. -/
theorem wrap_magnitude (arg : UInt32) : wrap ((if int arg < 0 then -1 else 1) * (magnitude arg).toNat) = int arg := by
  have harg := arg.toNat_lt
  have hint := int_cond arg
  have hsigned : (if int arg < 0 then -1 else 1) * ((magnitude arg).toNat : ℤ) = int arg := by
    unfold magnitude
    split
    · rename_i hneg
      have hbig : ¬ arg.toNat < 2 ^ 31 := fun hlt => by
        rw [if_pos hlt] at hint
        omega
      rw [if_neg hbig] at hint
      have hsize : UInt32.size = 2 ^ 32 := rfl
      rw [UInt32.toNat_neg, hint, hsize]
      omega
    · rename_i hneg
      have hsmall : arg.toNat < 2 ^ 31 := by
        by_contra hbig
        rw [if_neg hbig] at hint
        omega
      rw [if_pos hsmall] at hint
      rw [hint, one_mul]
  rw [hsigned]
  unfold wrap
  apply Int.bmod_eq_of_le
  · split at hint <;> omega
  · split at hint <;> omega

theorem zero_not_digit : ¬ IsDigit 0 := by decide

/-- A digit is read with the sign `+`. -/
theorem atoi_digit {c : UInt8} (hc : IsDigit c) : atoi (c :: s) = digitsLoop 1 0 (c :: s) := by
  have hne : ∀ d, ¬ IsDigit d → c ≠ d := by
    rintro d hd rfl
    exact hd hc
  have hblank : isBlank c = false := by
    unfold isBlank
    simp [hne (ascii ' ') (by decide), hne 9 (by decide), hne 13 (by decide), hne 10 (by decide)]
  unfold atoi
  rw [List.dropWhile_cons_of_neg (by simp [hblank])]
  simp only
  rw [if_neg (hne 0 (by decide)), if_neg (hne (ascii '-') (by decide)), if_neg (hne (ascii '+') (by decide))]

/-- A number without a sign is read again. -/
theorem atoi_number {n : ℕ} (hn : n < 2 ^ 32) :
    atoi (numberText n 10 flags 0 0 ++ 0 :: s) = some (wrap (1 * n)) := by
  rw [← numberText_value hn zero_not_digit]
  cases htext : numberText n 10 flags 0 0 with
  | nil => exact absurd htext (numberText_ne_nil n)
  | cons c ds =>
    apply atoi_digit
    apply numberText_isDigit flags n
    rw [htext]
    exact List.mem_cons_self

/-- The two signs of a negative number, where the format asks for a sign. -/
def Doubled (flags : Flags) (arg : UInt32) : Prop := int arg < 0 ∧ (flags.sign = true ∨ flags.space = true)

instance doubledDecidable (flags : Flags) (arg : UInt32) : Decidable (Doubled flags arg) :=
  inferInstanceAs (Decidable (_ ∧ _))

/-- **What `atoi` reads** of a number that `%d` puts out: the number, but zero behind two signs. -/
theorem atoi_signed (flags : Flags) (arg : UInt32) (s : List UInt8) :
    atoi (signs flags arg ++ numberText (magnitude arg).toNat 10 flags 0 0 ++ 0 :: s) =
      some (if Doubled flags arg then 0 else int arg) := by
  have hread : ∀ sign : ℤ, digitsLoop sign 0 (numberText (magnitude arg).toNat 10 flags 0 0 ++ 0 :: s) =
      some (wrap (sign * (magnitude arg).toNat)) := fun sign => numberText_value (magnitude arg).toNat_lt zero_not_digit
  have hvalue := wrap_magnitude arg
  by_cases hneg : int arg < 0
  · rw [if_pos hneg] at hvalue
    cases hsign : flags.sign with
    | true =>
      have htext : signs flags arg = [ascii '-', ascii '+'] := by simp [signs, hneg, hsign]
      rw [htext, if_pos (show Doubled flags arg from ⟨hneg, .inl hsign⟩)]
      -- only the first sign is skipped, and the second one is no digit
      rfl
    | false =>
      cases hspace : flags.space with
      | true =>
        have htext : signs flags arg = [ascii '-', ascii ' '] := by simp [signs, hneg, hsign, hspace]
        rw [htext, if_pos (show Doubled flags arg from ⟨hneg, .inr hspace⟩)]
        rfl
      | false =>
        have htext : signs flags arg = [ascii '-'] := by simp [signs, hneg, hsign, hspace]
        rw [htext, if_neg (show ¬ Doubled flags arg by simp [Doubled, hsign, hspace]), ← hvalue]
        exact hread (-1)
  · rw [if_neg hneg] at hvalue
    rw [if_neg fun h : Doubled flags arg => hneg h.1, ← hvalue]
    cases hsign : flags.sign with
    | true =>
      have htext : signs flags arg = [ascii '+'] := by simp [signs, hneg, hsign]
      rw [htext]
      exact hread 1
    | false =>
      cases hspace : flags.space with
      | true =>
        have htext : signs flags arg = [ascii ' '] := by simp [signs, hneg, hsign, hspace]
        rw [htext]
        exact atoi_number (magnitude arg).toNat_lt
      | false =>
        have htext : signs flags arg = [] := by simp [signs, hneg, hsign, hspace]
        rw [htext]
        exact atoi_number (magnitude arg).toNat_lt

end Signs

/-! ## Printing -/

section Printing

variable {v : Version} {fuel n n' : ℕ} {size : ℤ} {fmt rest rest' : List UInt8} {args : List Arg} {arg : UInt32}
  {ch : UInt8} {m : Mods} {r : Output × ℤ} {buf : List UInt8}

/-- A string that starts with another one. -/
theorem eq_append_drop {xs : List UInt8} (h : ∀ k < xs.length, buf[k]? = xs[k]?) :
    buf = xs ++ buf.drop xs.length := by
  have htake : buf.take xs.length = xs := by
    apply List.ext_getElem?
    intro k
    by_cases hk : k < xs.length
    · rw [List.getElem?_take_of_lt hk, h k hk]
    · have hleft : (buf.take xs.length).length ≤ k := by
        rw [List.length_take]
        omega
      rw [List.getElem?_eq_none hleft, List.getElem?_eq_none (not_lt.1 hk)]
  conv_lhs => rw [← List.take_append_drop xs.length buf, htake]

/-- A format that is one signed conversion ends with the number and its signs. -/
theorem signed_text {c : Progress} (htoken : token v n fmt .none = .ok (.conversion ch m, rest))
    (hch : conversionOf ch = .signed) (hend : token v n' rest m.flags = .ok (.finish, rest'))
    (hc : Reaches v (.start fmt (.word arg :: args) .none) c) (hce : AtEnd v c) :
    c.text = signs m.flags arg ++ numberText (magnitude arg).toNat 10 m.flags 0 0 := by
  let a := Progress.start fmt (.word arg :: args) .none
  let b : Progress := ⟨signs m.flags arg ++ numberText (magnitude arg).toNat 10 m.flags 0 0, ⟨rest, args, m.flags⟩⟩
  have hread : read v n a.input a.text.length =
      .ok (some (⟨signs m.flags arg, numberText (magnitude arg).toNat 10 m.flags 0 0⟩, b.input)) := by
    show read v n ⟨fmt, .word arg :: args, .none⟩ 0 = _
    unfold read pieceOf
    simp only [htoken, hch, vaWord]
    rfl
  have hstep : Directive v a b := ⟨n, _, hread, rfl⟩
  have hfinish : AtEnd v b := by
    refine ⟨n', ?_⟩
    show read v n' ⟨rest, args, m.flags⟩ _ = _
    unfold read
    simp only [hend]
  rcases Relation.ReflTransGen.cases_head hc with rfl | ⟨d, hd, hdc⟩
  · obtain ⟨more, hce⟩ := hce
    cases read_unique hread hce
  · rw [← hstep.unique hd] at hdc
    rw [hfinish.reaches hdc]

/-- **Numbers survive printing**: where a format that is one conversion `%d` or `%i`, with any flags, width and
precision, puts an argument into a buffer that it fits, `atoi` reads it again, the least number included; unless the
number is negative and the format asks for a sign or a space, where it reads zero. -/
theorem atoi_printed (htoken : token v n fmt .none = .ok (.conversion ch m, rest)) (hch : conversionOf ch = .signed)
    (hend : token v n' rest m.flags = .ok (.finish, rest'))
    (hr : vxnprintf v fuel size fmt (.word arg :: args) .none = .ok r) (hpos : 0 < r.2) (hfit : r.2 < size)
    (hbuf : ∀ k : ℕ, (k : ℤ) ≤ r.2 → buf[k]? = valueAt r.1 k) :
    atoi buf = some (if Doubled m.flags arg then 0 else int arg) := by
  let text := signs m.flags arg ++ numberText (magnitude arg).toNat 10 m.flags 0 0
  let a := Progress.start fmt (.word arg :: args) .none
  have hb : toTty v Flags.none = false := by cases v <;> rfl
  unfold vxnprintf at hr
  split at hr
  · cases hr
    exact absurd hpos (lt_irrefl 0)
  rename_i hsize
  split at hr
  · cases hr
  rename_i i o hloop
  cases hr
  have hroom : (a.text.length : ℤ) < size := not_le.1 hsize
  have hout : Outcome v size false a o := loop_outcome (a := a) hb hroom hloop
  unfold finish at hpos hfit hbuf
  cases hout with
  | fits c hclean hreach hce hlen =>
    have htext : c.text = text := signed_text htoken hch hend hreach hce
    rw [htext] at hbuf hlen
    rw [if_neg (by rw [filled_written]; omega), printc_buffer hb] at hbuf
    have hprefix : ∀ k < (text ++ [0]).length, buf[k]? = (text ++ [0])[k]? := by
      intro k hk
      rw [List.length_append, List.length_singleton] at hk
      have hin : (k : ℤ) ≤ (filled false text).written := by
        rw [filled_written]
        exact_mod_cast Nat.lt_succ_iff.1 hk
      rw [hbuf k hin]
      exact valueAt_terminated text k
    rw [eq_append_drop hprefix, List.append_assoc]
    exact atoi_signed m.flags arg _
  | cut c hclean hreach hlen =>
    rw [if_pos] at hpos
    · cases hpos
    · rw [filled_written, List.length_take]
      omega
  | overrun c d hreach hover =>
    obtain ⟨hlen, -⟩ := hover
    rw [if_neg] at hfit
    · rw [printc_buffer hb, filled_written, List.length_append] at hfit
      simp at hfit
      omega
    · rw [filled_written, List.length_append]
      simp
      omega

/-- The least number. -/
theorem atoi_printed_least : ∃ r, vxnprintf .kernel 5 16 (cstring "%d") [.word 0x80000000] .none = .ok r ∧
    atoi (cstring "-2147483648") = some (-2 ^ 31) := by
  let printed : Output × ℤ := match vxnprintf .kernel 5 16 (cstring "%d") [.word 0x80000000] .none with
    | .ok r => r
    | .error _ => (.start, 0)
  have hr : vxnprintf .kernel 5 16 (cstring "%d") [.word 0x80000000] .none = .ok printed := by decide +kernel
  have hlen : printed.2 = 11 := by decide +kernel
  have hall : ∀ k : Fin 12, (cstring "-2147483648")[k.val]? = valueAt printed.1 k.val := by decide +kernel
  have htoken : token .kernel 5 (cstring "%d") .none = .ok (.conversion 100 ⟨.none, -1, -1⟩, [0]) := by decide +kernel
  have hend : token .kernel 5 [0] .none = .ok (.finish, []) := by decide +kernel
  exact ⟨printed, hr, atoi_printed htoken (by decide) hend hr (by omega) (by omega) fun k hk => hall ⟨k, by omega⟩⟩

end Printing

end Buenos.Xprintf
