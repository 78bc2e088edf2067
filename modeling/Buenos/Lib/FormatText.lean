import Buenos.Lib.Xprintf
import Mathlib.Logic.Relation
import Mathlib.Data.List.Basic
import Mathlib.Data.List.Induction
import Mathlib.Data.Nat.Cast.Basic

/-!
# Formatted text and its buffer

What `vxnprintf` writes, against the text that a format stands for, whatever the size of the buffer.

* `Piece` — the text of one conversion, in two parts: `forced` is put out without a look at the size.
* `read` — one round on a text without bounds, `Directive` and `Reaches` — the progress in it.
* `filled` — the output to a buffer.
* `Outcome` — how the loop ends: the text fits, it is cut, or two signs have been written where one had place.
* `Respects` — the property of a call, `Overruns` — the conversions that break it.

Principal results: `loop_outcome` and `vxnprintf_respects`.
-/

namespace Buenos.Xprintf

/-! ## Text -/

/-- The text of a conversion. -/
structure Piece where
  forced : List UInt8
  rest : List UInt8
  deriving DecidableEq

def Piece.text (p : Piece) : List UInt8 := p.forced ++ p.rest

/-- The signs of a number. -/
def signs (flags : Flags) (arg : UInt32) : List UInt8 :=
  (if int arg < 0 then [ascii '-'] else []) ++
    if flags.sign then [ascii '+'] else if flags.space then [ascii ' '] else []

def magnitude (arg : UInt32) : UInt32 := if int arg < 0 then -arg else arg

/-- A number, as `print_uint` puts it out. -/
def numberText (n base : ℕ) (flags : Flags) (prec width : ℤ) : List UInt8 :=
  (numberString n base flags prec width).reverse

/-- The part of a string that is put out behind `position` characters. -/
def stringText (prec : ℤ) (position : ℕ) (s : List UInt8) : List UInt8 :=
  if prec = -1 then s.takeWhile (· ≠ 0)
  else (s.takeWhile (· ≠ 0)).take (wrap (position + prec) - position).toNat

/-- The text of a conversion behind `position` characters, with the flags and the arguments that are left. -/
def pieceOf (ch : UInt8) (m : Mods) (args : List Arg) (position : ℕ) : Except Stop (Piece × Flags × List Arg) :=
  match conversionOf ch with
  | .signed =>
    match vaWord args with
    | .error e => .error e
    | .ok (arg, args) => .ok (⟨signs m.flags arg, numberText (magnitude arg).toNat 10 m.flags 0 0⟩, m.flags, args)
  | .unsigned base =>
    match vaWord args with
    | .error e => .error e
    | .ok (uarg, args) =>
      .ok (⟨[], numberText uarg.toNat base m.flags (zeroPadded m.flags m.prec m.width) m.width⟩, m.flags, args)
  | .hex pointer smalls =>
    let flags := { m.flags with alt := m.flags.alt || pointer, smalls := m.flags.smalls || smalls }
    let width := if flags.alt then wrap (m.width - 2) else m.width
    match vaWord args with
    | .error e => .error e
    | .ok (uarg, args) =>
      .ok (⟨if flags.alt then [ascii '0'] else [], (if flags.alt then [ascii 'x'] else []) ++
        numberText uarg.toNat 16 flags (zeroPadded flags m.prec width) width⟩, flags, args)
  | .char =>
    match vaWord args with
    | .error e => .error e
    | .ok (arg, args) => .ok (⟨[arg.toUInt8], []⟩, m.flags, args)
  | .string =>
    match vaString args with
    | .error e => .error e
    | .ok (s, args) => .ok (⟨[], stringText m.prec position s⟩, m.flags, args)
  | .unknown => .ok (⟨[ch], []⟩, m.flags, args)

/-- A round, on a text without bounds. -/
def read (v : Version) (fuel : ℕ) (i : Input) (position : ℕ) : Except Stop (Option (Piece × Input)) :=
  match token v fuel i.fmt i.flags with
  | .error e => .error e
  | .ok (.finish, _) => .ok none
  | .ok (.plain ch, fmt) => .ok (some (⟨[ch], []⟩, { i with fmt := fmt }))
  | .ok (.conversion ch m, fmt) =>
    match pieceOf ch m i.args position with
    | .error e => .error e
    | .ok (p, flags, args) => .ok (some (p, ⟨fmt, args, flags⟩))

/-! ## Buffers -/

/-- Whether the output goes to the TTY. -/
def toTty (v : Version) (flags : Flags) : Bool := v == .kernel && flags.tty

/-- The output of a text to the TTY, without its zeros, or to the buffer. -/
def filled : Bool → List UInt8 → Output
  | true, text => ⟨[], text.filter (· ≠ 0), text.length, text.length⟩
  | false, text => ⟨(text.zipIdx).map fun c => ((c.2 : ℤ), c.1), [], text.length, text.length⟩

/-- What a piece adds to a text in a buffer of `size` characters. -/
def Piece.after (p : Piece) (size : ℤ) (text : List UInt8) : List UInt8 :=
  text ++ p.forced ++ p.rest.take (size - (text ++ p.forced).length).toNat

section Filled

variable {v : Version} {tty : Bool} {flags : Flags} {size limit : ℤ} {text cs s : List UInt8} {c ch : UInt8}

@[simp] theorem filled_written (tty : Bool) (text : List UInt8) : (filled tty text).written = text.length := by
  cases tty with
  | true => rfl
  | false => rfl

@[simp] theorem filled_nil (tty : Bool) : filled tty [] = .start := by
  cases tty with
  | true => rfl
  | false => rfl

theorem toTty_congr {other : Flags} (h : flags.tty = other.tty) : toTty v flags = toTty v other := by
  unfold toTty
  rw [h]

theorem printc_buffer (hb : toTty v flags = false) (o : Output) (c : UInt8) :
    printc v o c flags = { o with stores := o.stores ++ [(o.buf, c)] } := by
  unfold printc
  refine if_neg fun h => ?_
  unfold toTty at hb
  rw [h.1, h.2] at hb
  cases hb

theorem printc_tty (hb : toTty v flags = true) (o : Output) (c : UInt8) :
    printc v o c flags = if c ≠ 0 then { o with tty := o.tty ++ [c] } else o := by
  unfold toTty at hb
  rw [Bool.and_eq_true, beq_iff_eq] at hb
  exact if_pos hb

theorem putc_filled (hb : toTty v flags = tty) : putc v flags (filled tty text) c = filled tty (text ++ [c]) := by
  unfold putc
  cases tty with
  | true =>
    rw [printc_tty hb]
    by_cases hc : c = 0
    · simp [filled, hc]
    · simp [filled, hc]
  | false =>
    rw [printc_buffer hb]
    simp [filled, List.zipIdx_append]

theorem putWhile_filled (hb : toTty v flags = tty) : ∀ {cs text : List UInt8},
    putWhile v flags limit cs (filled tty text) = filled tty (text ++ cs.take (limit - text.length).toNat)
  | [], text => by rw [putWhile, List.take_nil, List.append_nil]
  | c :: cs, text => by
    rw [putWhile, filled_written]
    split
    · rename_i hroom
      obtain ⟨n, hn⟩ : ∃ n, (limit - text.length).toNat = n + 1 := ⟨(limit - text.length).toNat - 1, by omega⟩
      have hn' : (limit - (text ++ [c]).length).toNat = n := by
        rw [List.length_append, List.length_singleton]
        omega
      rw [putc_filled hb, putWhile_filled hb, hn, hn', List.take_succ_cons, List.append_assoc, List.singleton_append]
    · rename_i hroom
      have hzero : (limit - text.length).toNat = 0 := by omega
      rw [hzero, List.take_zero, List.append_nil]

/-- A string is put out up to its terminator. -/
theorem putString_eq : ∀ (s : List UInt8) (o : Output),
    putString v flags limit s o = putWhile v flags limit (s.takeWhile (· ≠ 0)) o
  | [], _ => rfl
  | c :: s, o => by
    rw [putString]
    by_cases hc : c = 0
    · rw [if_neg fun h => h.2 hc, List.takeWhile_cons_of_neg (by simpa using hc)]
      rfl
    · rw [List.takeWhile_cons_of_pos (by simpa using hc), putWhile]
      by_cases hroom : o.written < limit
      · rw [if_pos ⟨hroom, hc⟩, if_pos hroom, putString_eq s]
      · rw [if_neg fun h => hroom h.1, if_neg hroom]

theorem printUint_filled (hb : toTty v flags = tty) (n base : ℕ) (prec width : ℤ) :
    printUint v (filled tty text) (size - text.length) n base flags prec width =
      filled tty (text ++ (numberText n base flags prec width).take (size - text.length).toNat) := by
  unfold printUint
  split
  · rename_i hfull
    have hzero : (size - text.length).toNat = 0 := by omega
    rw [hzero, List.take_zero, List.append_nil]
  · have hlimit : (filled tty text).written + (size - text.length) = size := by
      rw [filled_written]
      omega
    rw [putWhile_filled hb, hlimit]
    rfl

end Filled

/-! ## One round -/

section Round

variable {v : Version} {tty : Bool} {flags : Flags} {size : ℤ} {fuel : ℕ} {text : List UInt8} {ch : UInt8} {m : Mods}
  {args : List Arg}

/-- The part of a string that is put out, cut to the buffer. -/
theorem stringText_take (prec : ℤ) (s : List UInt8) :
    (s.takeWhile (· ≠ 0)).take ((if prec ≠ -1 ∧ wrap (text.length + prec) < size then wrap (text.length + prec)
      else size) - text.length).toNat = (stringText prec text.length s).take (size - text.length).toNat := by
  unfold stringText
  by_cases hprec : prec = -1
  · rw [if_neg fun h => h.1 hprec, if_pos hprec]
  · rw [if_neg hprec, List.take_take]
    by_cases hlimit : wrap (text.length + prec) < size
    · rw [if_pos ⟨hprec, hlimit⟩, min_eq_right (by omega)]
    · rw [if_neg fun h => hlimit h.2, min_eq_left (by omega)]

/-- **A conversion** puts out its text: the forced part as it is, and the rest up to the size. -/
theorem convert_filled (hb : toTty v m.flags = tty) (hroom : text.length < size) :
    convert v size ch m args (filled tty text) =
      match pieceOf ch m args text.length with
      | .error e => .error e
      | .ok (p, flags, args) => .ok (flags, args, filled tty (p.after size text)) := by
  unfold convert pieceOf
  cases conversionOf ch with
  | signed =>
    simp only
    cases hva : vaWord args with
    | error e => rfl
    | ok r =>
      simp only
      have hsigns : (if m.flags.sign = true then putc v m.flags (if int r.1 < 0 then
          putc v m.flags (filled tty text) (ascii '-') else filled tty text) (ascii '+')
          else if m.flags.space = true then putc v m.flags (if int r.1 < 0 then
            putc v m.flags (filled tty text) (ascii '-') else filled tty text) (ascii ' ')
          else if int r.1 < 0 then putc v m.flags (filled tty text) (ascii '-') else filled tty text) =
          filled tty (text ++ signs m.flags r.1) := by
        unfold signs
        split_ifs
        all_goals simp only [putc_filled hb, List.append_assoc, List.append_nil, List.nil_append, List.singleton_append]
      rw [hsigns, filled_written, printUint_filled hb]
      rfl
  | unsigned base =>
    simp only
    cases hva : vaWord args with
    | error e => rfl
    | ok r =>
      simp only [filled_written, printUint_filled hb, Piece.after, List.append_nil]
  | hex pointer smalls =>
    simp only
    cases hva : vaWord args with
    | error e => rfl
    | ok r =>
      have hb' : toTty v { m.flags with alt := m.flags.alt || pointer, smalls := m.flags.smalls || smalls } = tty := hb
      simp only
      by_cases halt : (m.flags.alt || pointer) = true
      · simp only [if_pos halt, putc_filled hb', filled_written, Piece.after, List.length_append, List.length_singleton]
        by_cases hmore : ((text.length + 1 : ℕ) : ℤ) < size
        · obtain ⟨n, hn⟩ : ∃ n, (size - ((text.length + 1 : ℕ) : ℤ)).toNat = n + 1 :=
            ⟨(size - ((text.length + 1 : ℕ) : ℤ)).toNat - 1, by omega⟩
          have hn' : (size - ((text ++ [ascii '0'] ++ [ascii 'x']).length : ℤ)).toNat = n := by
            simp only [List.length_append, List.length_singleton]
            omega
          rw [if_pos hmore, filled_written, printUint_filled hb', hn, hn', List.singleton_append, List.take_succ_cons,
            List.append_assoc (text ++ [ascii '0']), List.singleton_append]
        · have hzero : (size - ((text.length + 1 : ℕ) : ℤ)).toNat = 0 := by omega
          have hzero' : (size - ((text ++ [ascii '0']).length : ℤ)).toNat = 0 := by
            rw [List.length_append, List.length_singleton]
            omega
          rw [if_neg hmore, filled_written, printUint_filled hb', hzero, hzero', List.take_zero, List.take_zero]
      · simp only [if_neg halt, filled_written, printUint_filled hb', Piece.after, List.append_nil, List.nil_append]
  | char =>
    simp only
    cases hva : vaWord args with
    | error e => rfl
    | ok r =>
      simp only [putc_filled hb, Piece.after, List.take_nil, List.append_nil]
  | string =>
    simp only
    cases hva : vaString args with
    | error e => rfl
    | ok r =>
      simp only [putString_eq, putWhile_filled hb, filled_written, Piece.after, List.append_nil]
      exact congrArg (fun t => Except.ok (m.flags, r.2, filled tty (text ++ t))) (stringText_take m.prec r.1)
  | unknown => simp only [putc_filled hb, Piece.after, List.take_nil, List.append_nil]

end Round

section Read

variable {v : Version} {tty : Bool} {size : ℤ} {fuel more : ℕ} {text : List UInt8} {i : Input} {p : Piece} {i' : Input}

theorem pieceOf_tty {ch : UInt8} {m : Mods} {args : List Arg} {position : ℕ} {r : Piece × Flags × List Arg}
    (h : pieceOf ch m args position = .ok r) : r.2.1.tty = m.flags.tty := by
  unfold pieceOf at h
  split at h <;> (try split at h) <;> cases h <;> rfl

theorem read_tty {position : ℕ} (h : read v fuel i position = .ok (some (p, i'))) : i'.flags.tty = i.flags.tty := by
  unfold read at h
  split at h
  · cases h
  · cases h
  · cases h
    rfl
  · rename_i htoken
    split at h
    · cases h
    · rename_i hpiece
      cases h
      exact (pieceOf_tty hpiece).trans (token_tty htoken)

/-- **A round** puts out the text that is read. -/
theorem round_filled (hb : toTty v i.flags = tty) (hroom : text.length < size) :
    round v fuel size i (filled tty text) =
      match read v fuel i text.length with
      | .error e => .error e
      | .ok none => .ok none
      | .ok (some (p, i)) => .ok (some (i, filled tty (p.after size text))) := by
  unfold round read
  cases htoken : token v fuel i.fmt i.flags with
  | error e => rfl
  | ok t =>
    obtain ⟨t, fmt⟩ := t
    cases t with
    | finish => rfl
    | plain ch => simp only [putc_filled hb, Piece.after, List.take_nil, List.append_nil]
    | conversion ch m =>
      have hm : toTty v m.flags = tty := (toTty_congr (token_tty htoken)).trans hb
      simp only [convert_filled hm hroom]
      cases pieceOf ch m i.args text.length with
      | error e => rfl
      | ok r => rfl

theorem read_unique {position : ℕ} {r s : Option (Piece × Input)} (hr : read v fuel i position = .ok r)
    (hs : read v more i position = .ok s) : r = s := by
  unfold read at hr hs
  cases ht : token v fuel i.fmt i.flags with
  | error e =>
    rw [ht] at hr
    cases hr
  | ok t =>
    cases ht' : token v more i.fmt i.flags with
    | error e =>
      rw [ht'] at hs
      cases hs
    | ok t' =>
      rw [← token_unique ht ht'] at ht'
      rw [ht] at hr
      rw [ht', hr] at hs
      exact Except.ok.inj hs

end Read

/-! ## Progress -/

/-- A text, and what is still to be read behind it. -/
@[ext] structure Progress where
  text : List UInt8
  input : Input

/-- The text of the next round is added. -/
def Directive (v : Version) (a b : Progress) : Prop :=
  ∃ fuel p, read v fuel a.input a.text.length = .ok (some (p, b.input)) ∧ b.text = a.text ++ p.text

def Reaches (v : Version) : Progress → Progress → Prop := Relation.ReflTransGen (Directive v)

/-- The format has been read up to its end. -/
def AtEnd (v : Version) (a : Progress) : Prop := ∃ fuel, read v fuel a.input a.text.length = .ok none

/-- Where a format starts. -/
def Progress.start (fmt : List UInt8) (args : List Arg) (flags : Flags) : Progress := ⟨[], ⟨fmt, args, flags⟩⟩

/-- The next conversion is `%d` or `%i` for a negative number, with a flag for a sign or a space: the code puts out
`-` and then the other sign as well. -/
def TwoSigns (v : Version) (i : Input) : Prop :=
  ∃ fuel ch m fmt arg args, token v fuel i.fmt i.flags = .ok (.conversion ch m, fmt) ∧ conversionOf ch = .signed ∧
    i.args = .word arg :: args ∧ int arg < 0 ∧ (m.flags.sign = true ∨ m.flags.space = true)

/-- Two signs come where there is place for one character. -/
def Overruns (v : Version) (size : ℤ) (a : Progress) : Prop := (a.text.length : ℤ) + 1 = size ∧ TwoSigns v a.input

/-- This never happens from here on. -/
def Clean (v : Version) (size : ℤ) (a : Progress) : Prop := ∀ b, Reaches v a b → ¬ Overruns v size b

section Progress

variable {v : Version} {size : ℤ} {fuel position : ℕ} {text : List UInt8} {i i' : Input} {p : Piece} {a b : Progress}

theorem signs_length (flags : Flags) (arg : UInt32) : (signs flags arg).length ≤ 2 ∧
    ((signs flags arg).length = 2 ↔ int arg < 0 ∧ (flags.sign = true ∨ flags.space = true)) := by
  unfold signs
  cases hsign : flags.sign with
  | true => by_cases harg : int arg < 0 <;> simp [harg]
  | false =>
    cases hspace : flags.space with
    | true => by_cases harg : int arg < 0 <;> simp [harg]
    | false => by_cases harg : int arg < 0 <;> simp [harg]

theorem pieceOf_forced {ch : UInt8} {m : Mods} {args : List Arg} {r : Piece × Flags × List Arg}
    (h : pieceOf ch m args position = .ok r) : r.1.forced.length ≤ 2 ∧
      (r.1.forced.length = 2 ↔ conversionOf ch = .signed ∧ ∃ arg rest, args = .word arg :: rest ∧ int arg < 0 ∧
        (m.flags.sign = true ∨ m.flags.space = true)) := by
  unfold pieceOf at h
  cases hc : conversionOf ch with
  | signed =>
    rw [hc] at h
    simp only at h
    split at h
    · cases h
    · rename_i arg rest hva
      cases h
      have hargs : args = .word arg :: rest := by
        unfold vaWord at hva
        split at hva
        · cases hva
          rfl
        · cases hva
      obtain ⟨hle, htwo⟩ := signs_length m.flags arg
      refine ⟨hle, htwo.trans ⟨fun h => ⟨rfl, arg, rest, hargs, h⟩, ?_⟩⟩
      rintro ⟨-, arg', rest', hargs', h⟩
      rw [hargs] at hargs'
      cases hargs'
      exact h
  | unsigned base =>
    rw [hc] at h
    simp only at h
    split at h
    · cases h
    · cases h
      simp
  | hex pointer smalls =>
    rw [hc] at h
    simp only at h
    split at h
    · cases h
    · cases h
      split <;> simp
  | char =>
    rw [hc] at h
    simp only at h
    split at h
    · cases h
    · cases h
      simp
  | string =>
    rw [hc] at h
    simp only at h
    split at h
    · cases h
    · cases h
      simp
  | unknown =>
    rw [hc] at h
    cases h
    simp

/-- **The part that is put out without a look at the size** has two characters just for two signs. -/
theorem read_forced (h : read v fuel i position = .ok (some (p, i'))) :
    p.forced.length ≤ 2 ∧ (p.forced.length = 2 ↔ TwoSigns v i) := by
  unfold read at h
  split at h
  · cases h
  · cases h
  · rename_i htoken
    cases h
    refine ⟨by simp, fun htwo => absurd htwo (by simp), ?_⟩
    rintro ⟨_, _, _, _, _, _, htoken', -⟩
    cases token_unique htoken htoken'
  · rename_i ch m fmt htoken
    split at h
    · cases h
    rename_i hpiece
    cases h
    obtain ⟨hle, htwo⟩ := pieceOf_forced hpiece
    refine ⟨hle, htwo.trans ⟨?_, ?_⟩⟩
    · rintro ⟨hsigned, arg, rest, hargs, hneg, hflags⟩
      exact ⟨fuel, ch, m, fmt, arg, rest, htoken, hsigned, hargs, hneg, hflags⟩
    · rintro ⟨_, _, _, _, arg, rest, htoken', hsigned, hargs, hneg, hflags⟩
      cases token_unique htoken htoken'
      exact ⟨hsigned, arg, rest, hargs, hneg, hflags⟩

/-- Two signs are followed by a number. -/
theorem read_of_twoSigns (h : TwoSigns v i) (position : ℕ) : ∃ fuel r, read v fuel i position = .ok (some r) := by
  obtain ⟨fuel, ch, m, fmt, arg, args, htoken, hsigned, hargs, -⟩ := h
  refine ⟨fuel, ?_⟩
  unfold read pieceOf
  simp only [htoken, hargs, hsigned, vaWord]
  exact ⟨_, rfl⟩

/-- The two signs, of which the first one is `-`. -/
theorem forced_of_twoSigns (h : read v fuel i position = .ok (some (p, i'))) (htwo : TwoSigns v i) :
    ∃ c, p.forced = [ascii '-', c] := by
  obtain ⟨more, ch, m, fmt, arg, args, htoken, hsigned, hargs, hneg, hflags⟩ := htwo
  have hread : read v more i position =
      .ok (some (⟨signs m.flags arg, numberText (magnitude arg).toNat 10 m.flags 0 0⟩, ⟨fmt, args, m.flags⟩)) := by
    unfold read pieceOf
    simp only [htoken, hargs, hsigned, vaWord]
  cases read_unique h hread
  unfold signs
  rw [if_pos hneg]
  cases hsign : m.flags.sign with
  | true => exact ⟨ascii '+', rfl⟩
  | false =>
    have hspace : m.flags.space = true := hflags.resolve_left (by rw [hsign]; decide)
    rw [hspace]
    exact ⟨ascii ' ', rfl⟩

theorem after_eq_take (hfit : ((text ++ p.forced).length : ℤ) ≤ size) :
    p.after size text = (text ++ p.text).take size.toNat := by
  have hrest : size.toNat - (text ++ p.forced).length = (size - (text ++ p.forced).length).toNat := by omega
  unfold Piece.after Piece.text
  rw [← List.append_assoc, List.take_append, hrest,
    List.take_of_length_le (show (text ++ p.forced).length ≤ size.toNat by omega)]

/-- What a piece adds where there is still place behind it. -/
theorem after_eq (h : ((p.after size text).length : ℤ) < size) : p.after size text = text ++ p.text := by
  have hlen : (p.after size text).length =
      (text ++ p.forced).length + min (size - (text ++ p.forced).length).toNat p.rest.length := by
    unfold Piece.after
    rw [List.length_append, List.length_take]
  have hrest : p.rest.length ≤ (size - (text ++ p.forced).length).toNat := by omega
  unfold Piece.after Piece.text
  rw [List.take_of_length_le hrest, List.append_assoc]

theorem Directive.grows (h : Directive v a b) : a.text.length ≤ b.text.length := by
  obtain ⟨-, p, -, htext⟩ := h
  rw [htext, List.length_append]
  exact Nat.le_add_right _ _

theorem Reaches.grows (h : Reaches v a b) : a.text.length ≤ b.text.length := by
  induction h with
  | refl => exact le_rfl
  | tail _ hstep ih => exact ih.trans hstep.grows

theorem AtEnd.reaches (hend : AtEnd v a) (h : Reaches v a b) : b = a := by
  rcases Relation.ReflTransGen.cases_head h with rfl | ⟨c, ⟨fuel, p, hread, -⟩, -⟩
  · rfl
  · obtain ⟨more, hend⟩ := hend
    cases read_unique hread hend

theorem AtEnd.clean (hend : AtEnd v a) : Clean v size a := by
  rintro b hb ⟨-, htwo⟩
  rw [hend.reaches hb] at htwo
  obtain ⟨fuel, r, hread⟩ := read_of_twoSigns htwo a.text.length
  obtain ⟨more, hend⟩ := hend
  cases read_unique hread hend

/-- A full buffer has no place for a sign. -/
theorem clean_of_full (hfull : size ≤ a.text.length) : Clean v size a := by
  rintro b hb ⟨hlen, -⟩
  have hgrows := Reaches.grows hb
  omega

/-- Two rounds from the same place lead to the same place. -/
theorem Directive.unique {c : Progress} (hb : Directive v a b) (hc : Directive v a c) : b = c := by
  obtain ⟨fuel, p, hread, htext⟩ := hb
  obtain ⟨more, q, hread', htext'⟩ := hc
  have hsame := read_unique hread hread'
  rw [Option.some.injEq, Prod.mk.injEq] at hsame
  refine Progress.ext ?_ hsame.2
  rw [htext, htext', hsame.1]

/-- One round at a time. -/
theorem Directive.clean (hstep : Directive v a b) (hno : ¬ Overruns v size a) (hb : Clean v size b) :
    Clean v size a := by
  intro c hc
  rcases Relation.ReflTransGen.cases_head hc with rfl | ⟨d, hd, hreach⟩
  · exact hno
  · rw [← hstep.unique hd] at hreach
    exact hb c hreach

end Progress

/-! ## The whole function -/

/-- How the loop ends: the text fits, or it is cut at the size, or two signs have been put out at the end. -/
inductive Outcome (v : Version) (size : ℤ) (tty : Bool) (a : Progress) : Output → Prop
  | fits (b : Progress) : Clean v size a → Reaches v a b → AtEnd v b → (b.text.length : ℤ) < size →
      Outcome v size tty a (filled tty b.text)
  | cut (b : Progress) : Clean v size a → Reaches v a b → size ≤ b.text.length →
      Outcome v size tty a (filled tty (b.text.take size.toNat))
  | overrun (b : Progress) (c : UInt8) : Reaches v a b → Overruns v size b →
      Outcome v size tty a (filled tty (b.text ++ [ascii '-', c]))

section Outcome

variable {v : Version} {size : ℤ} {tty : Bool} {a b : Progress} {o : Output}

theorem Outcome.step (hstep : Directive v a b) (hno : ¬ Overruns v size a) (h : Outcome v size tty b o) :
    Outcome v size tty a o := by
  cases h with
  | fits c hclean hreach hend hlen =>
    exact .fits c (hstep.clean hno hclean) (Relation.ReflTransGen.head hstep hreach) hend hlen
  | cut c hclean hreach hlen =>
    exact .cut c (hstep.clean hno hclean) (Relation.ReflTransGen.head hstep hreach) hlen
  | overrun d c hreach hover =>
    exact .overrun d c (Relation.ReflTransGen.head hstep hreach) hover

/-- A loop that has no more place ends at once. -/
theorem loop_full {fuel : ℕ} {i : Input} {r : Input × Output} (hfull : size ≤ o.written)
    (h : loop v size fuel i o = .ok r) : r.2 = o := by
  cases fuel with
  | zero => cases h
  | succ fuel =>
    rw [loop, if_neg (not_lt.2 hfull)] at h
    cases h
    rfl

/-- **The loop of `vxnprintf`** puts out the text of the format, up to the size, unless it comes to two signs at the
end of the buffer. -/
theorem loop_outcome : ∀ {fuel : ℕ} {a : Progress} {r : Input × Output}, toTty v a.input.flags = tty →
    (a.text.length : ℤ) < size → loop v size fuel a.input (filled tty a.text) = .ok r → Outcome v size tty a r.2
  | 0, _, _, _, _, h => by cases h
  | fuel + 1, a, r, hb, hroom, h => by
    rw [loop, filled_written, if_pos hroom, round_filled hb hroom] at h
    split at h
    · cases h
    · rename_i hround
      split at hround
      · cases hround
      · rename_i hread
        cases h
        exact .fits a (AtEnd.clean ⟨fuel, hread⟩) Relation.ReflTransGen.refl ⟨fuel, hread⟩ hroom
      · cases hround
    · rename_i i' o' hround
      split at hround
      · cases hround
      · cases hround
      rename_i p i'' hread
      cases hround
      obtain ⟨hforced, htwo⟩ := read_forced hread
      have hstep : Directive v a ⟨a.text ++ p.text, i'⟩ := ⟨fuel, p, hread, rfl⟩
      by_cases hover : Overruns v size a
      · -- the two signs are all that is put out of the piece
        have hlen : p.forced.length = 2 := htwo.2 hover.2
        have hafter : p.after size a.text = a.text ++ p.forced := by
          have hzero : (size - (a.text ++ p.forced).length).toNat = 0 := by
            rw [List.length_append, hlen]
            have hsize := hover.1
            omega
          unfold Piece.after
          rw [hzero, List.take_zero, List.append_nil]
        rw [hafter] at h
        have hfull : size ≤ (filled tty (a.text ++ p.forced)).written := by
          rw [filled_written, List.length_append, hlen]
          have hsize := hover.1
          omega
        obtain ⟨c, hc⟩ := forced_of_twoSigns hread hover.2
        rw [loop_full hfull h, hc]
        exact .overrun a c Relation.ReflTransGen.refl hover
      · have hfit : ((a.text ++ p.forced).length : ℤ) ≤ size := by
          rw [List.length_append]
          by_contra hlong
          exact hover ⟨by omega, htwo.1 (by omega)⟩
        rw [after_eq_take hfit] at h
        by_cases hmore : ((a.text ++ p.text).length : ℤ) < size
        · rw [List.take_of_length_le (by omega)] at h
          have hb' : toTty v i'.flags = tty := (toTty_congr (read_tty hread)).trans hb
          exact (@loop_outcome fuel ⟨a.text ++ p.text, i'⟩ r hb' hmore h).step hstep hover
        · have hsize : size ≤ ((a.text ++ p.text).length : ℤ) := not_lt.1 hmore
          have hfull : size ≤ (filled tty ((a.text ++ p.text).take size.toNat)).written := by
            rw [filled_written, List.length_take]
            omega
          rw [loop_full hfull h]
          exact .cut ⟨a.text ++ p.text, i'⟩ (hstep.clean hover (clean_of_full hsize))
            (Relation.ReflTransGen.single hstep) hsize

end Outcome

/-- The character that is at an offset of the buffer at last. -/
def valueAt (o : Output) (k : ℤ) : Option UInt8 := (o.stores.reverse.find? fun s => s.1 = k).map (·.2)

/-- The whole text of the format. -/
def Whole (v : Version) (a : Progress) (text : List UInt8) : Prop := ∃ b, Reaches v a b ∧ AtEnd v b ∧ text = b.text

/-- The text of the format as far as it has place before a terminator, which is not all. -/
def Truncated (v : Version) (size : ℤ) (a : Progress) (text : List UInt8) : Prop :=
  ∃ b, Reaches v a b ∧ size ≤ b.text.length ∧ text = b.text.take (size.toNat - 1)

/-- Only the buffer has been written; it holds a string and its terminator; the result is the length of the string, or
-1 for one that is truncated. -/
structure Respects (v : Version) (size : ℤ) (a : Progress) (r : Output × ℤ) : Prop where
  inside : ∀ s ∈ r.1.stores, 0 ≤ s.1 ∧ s.1 < size
  tty : r.1.tty = []
  string : ∃ text, (∀ k : ℕ, k < text.length + 1 → valueAt r.1 k = (text ++ [0])[k]?) ∧
    (Whole v a text ∧ r.2 = text.length ∨ Truncated v size a text ∧ r.2 = -1)

section Respects

variable {v : Version} {size : ℤ} {fuel : ℕ} {fmt : List UInt8} {args : List Arg} {flags : Flags} {a : Progress}
  {o : Output} {r : Output × ℤ} {text : List UInt8}

theorem valueAt_append (o : Output) (b : ℤ) (c : UInt8) (k : ℤ) :
    valueAt { o with stores := o.stores ++ [(b, c)] } k = if b = k then some c else valueAt o k := by
  unfold valueAt
  rw [List.reverse_append, List.reverse_singleton, List.singleton_append, List.find?_cons]
  by_cases hk : b = k
  · rw [if_pos hk]
    simp [hk]
  · rw [if_neg hk]
    simp [hk]

theorem stores_filled (text : List UInt8) (c : UInt8) :
    (filled false (text ++ [c])).stores = (filled false text).stores ++ [((text.length : ℤ), c)] := by
  simp [filled, List.zipIdx_append]

theorem mem_filled {s : ℤ × UInt8} (h : s ∈ (filled false text).stores) : 0 ≤ s.1 ∧ s.1 < text.length := by
  unfold filled at h
  obtain ⟨c, hc, rfl⟩ := List.mem_map.1 h
  obtain ⟨-, hlt, -⟩ := List.mem_zipIdx hc
  exact ⟨by omega, by simpa using hlt⟩

theorem valueAt_filled (text : List UInt8) (k : ℕ) : valueAt (filled false text) k = text[k]? := by
  induction text using List.reverseRecOn with
  | nil => rfl
  | append_singleton text c ih =>
    have hsame : valueAt (filled false (text ++ [c])) k =
        valueAt { filled false text with stores := (filled false text).stores ++ [((text.length : ℤ), c)] } k := by
      unfold valueAt
      rw [stores_filled]
    rw [hsame, valueAt_append, ih]
    by_cases hk : (text.length : ℤ) = k
    · have hk' : k = text.length := by omega
      rw [if_pos hk, hk', List.getElem?_concat_length]
    · rw [if_neg hk]
      by_cases hlt : k < text.length
      · rw [List.getElem?_append_left hlt]
      · rw [List.getElem?_eq_none (by omega), List.getElem?_eq_none]
        rw [List.length_append, List.length_singleton]
        omega

/-- The terminator behind a text. -/
theorem valueAt_terminated (text : List UInt8) (k : ℕ) :
    valueAt { filled false text with stores := (filled false text).stores ++ [((text.length : ℤ), 0)] } k =
      (text ++ [0])[k]? := by
  rw [← valueAt_filled]
  unfold valueAt
  rw [stores_filled]

/-- The terminator over the last character of a text. -/
theorem valueAt_cut (hsize : 0 < size) (hlen : size ≤ text.length) (k : ℕ) (hk : k < size.toNat) :
    valueAt { filled false (text.take size.toNat) with
      buf := size - 1, stores := (filled false (text.take size.toNat)).stores ++ [(size - 1, 0)] } k =
      (text.take (size.toNat - 1) ++ [0])[k]? := by
  have htake : (text.take (size.toNat - 1)).length = size.toNat - 1 := by
    rw [List.length_take]
    omega
  have happ := valueAt_append { filled false (text.take size.toNat) with buf := size - 1 } (size - 1) 0 k
  have hsame : valueAt { filled false (text.take size.toNat) with buf := size - 1 } k = (text.take size.toNat)[k]? :=
    valueAt_filled _ k
  rw [happ, hsame]
  by_cases hlast : size - 1 = k
  · have hk' : k = (text.take (size.toNat - 1)).length := by omega
    rw [if_pos hlast, hk', List.getElem?_concat_length]
  · rw [if_neg hlast, List.getElem?_append_left (by omega), List.getElem?_take_of_lt hk,
      List.getElem?_take_of_lt (by omega)]

theorem Outcome.respects (hb : toTty v flags = false) (hsize : 0 < size) (h : Outcome v size false a o) :
    Respects v size a (finish v size flags o) ↔ Clean v size a := by
  cases h with
  | fits b hclean hreach hend hlen =>
    refine ⟨fun _ => hclean, fun _ => ?_⟩
    unfold finish
    rw [if_neg (by rw [filled_written]; omega), printc_buffer hb]
    refine ⟨fun s hs => ?_, rfl, b.text, fun k hk => valueAt_terminated b.text k, Or.inl ⟨⟨b, hreach, hend, rfl⟩, rfl⟩⟩
    rcases List.mem_append.1 hs with hs | hs
    · obtain ⟨h0, hlt⟩ := mem_filled hs
      exact ⟨h0, by omega⟩
    · rw [List.mem_singleton.1 hs]
      exact ⟨Int.natCast_nonneg _, hlen⟩
  | cut b hclean hreach hlen =>
    refine ⟨fun _ => hclean, fun _ => ?_⟩
    have htake : ((b.text.take size.toNat).length : ℤ) = size := by
      rw [List.length_take]
      omega
    unfold finish
    rw [filled_written, if_pos htake, printc_buffer hb]
    have hbuf : (filled false (b.text.take size.toNat)).buf - 1 = size - 1 := congrArg (· - 1) htake
    simp only [hbuf]
    refine ⟨fun s hs => ?_, rfl, b.text.take (size.toNat - 1), fun k hk => ?_, Or.inr ⟨⟨b, hreach, hlen, rfl⟩, rfl⟩⟩
    · rcases List.mem_append.1 hs with hs | hs
      · obtain ⟨h0, hlt⟩ := mem_filled hs
        exact ⟨h0, by omega⟩
      · rw [List.mem_singleton.1 hs]
        exact ⟨by simp only; omega, by simp only; omega⟩
    · rw [List.length_take] at hk
      exact valueAt_cut hsize hlen k (by omega)
  | overrun b d hreach hover =>
    have hdirty : ¬ Clean v size a := fun hclean => hclean b hreach hover
    refine ⟨fun hright => ?_, fun hclean => absurd hclean hdirty⟩
    -- the second sign is behind the buffer
    have hstore : ((b.text.length : ℤ) + 1, d) ∈ (filled false (b.text ++ [ascii '-', d])).stores := by
      have hsplit : b.text ++ [ascii '-', d] = b.text ++ [ascii '-'] ++ [d] := by simp
      rw [hsplit, stores_filled]
      simp
    have hin : ((b.text.length : ℤ) + 1, d) ∈ (finish v size flags (filled false (b.text ++ [ascii '-', d]))).1.stores := by
      unfold finish
      split
      · rw [printc_buffer hb]
        exact List.mem_append_left _ hstore
      · rw [printc_buffer hb]
        exact List.mem_append_left _ hstore
    have hlt := (hright.inside _ hin).2
    have hsize := hover.1
    simp only at hlt
    omega

/-- **A call respects its buffer** just when it does not come to the two signs of a negative number, in `%d` or `%i` with
a flag for a sign or a space, where one character has place. -/
theorem vxnprintf_respects (hb : toTty v flags = false) (hsize : 0 < size)
    (h : vxnprintf v fuel size fmt args flags = .ok r) :
    Respects v size (.start fmt args flags) r ↔ Clean v size (.start fmt args flags) := by
  unfold vxnprintf at h
  rw [if_neg (not_le.2 hsize)] at h
  split at h
  · cases h
  · rename_i i o hloop
    cases h
    exact (@loop_outcome v size false fuel (.start fmt args flags) (i, o) hb hsize hloop).respects hb hsize

end Respects

theorem vxnprintf_respects_plus :
    Respects .kernel 4 (.start (cstring "%+d") [.word 5] .none)
      (⟨[(0, ascii '+'), (1, ascii '5'), (2, 0)], [], 2, 2⟩, 2) ↔
      Clean .kernel 4 (.start (cstring "%+d") [.word 5] .none) :=
  @vxnprintf_respects .kernel 4 3 (cstring "%+d") [.word 5] .none _ rfl (by decide) (by decide +kernel)

/-- A negative number with a plus sign, for a buffer of one character: two characters are written behind it. -/
theorem signs_overrun : ∃ r, vsnprintf 3 1 (cstring "%+d") [.word (-5)] = .ok r ∧
    ¬ Respects .kernel 1 (.start (cstring "%+d") [.word (-5)] .none) r := by
  have hrun : vsnprintf 3 1 (cstring "%+d") [.word (-5)] =
      .ok (⟨[(0, ascii '-'), (1, ascii '+'), (2, 0)], [], 2, 2⟩, 2) := by decide +kernel
  refine ⟨_, hrun, fun hright => ?_⟩
  have hlt := (hright.inside (1, ascii '+') (by decide)).2
  exact absurd hlt (by decide)

end Buenos.Xprintf
