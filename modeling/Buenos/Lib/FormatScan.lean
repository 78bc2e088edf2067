import Buenos.Lib.FormatText
import Mathlib.Data.List.TakeWhile

/-!
# Reading a format

Termination of `vxnprintf`, and the numbers in a conversion.

* `Matches` — the arguments are those that the conversions of a format ask for.
* `RightScan` — `scan_int` reads a whole run of digits, `Plain` — the runs that it reads so.
* `NumberAt` — where a conversion has a number, `Scanned` — where the loop over the modifiers calls `scan_int`.
* `ReadsRight` — the property of a call, `PlainNumbers` — its condition.

Principal result: `vxnprintf_reads`.
-/

namespace Buenos.Xprintf

/-! ## Runs of digits -/

def isDigit (c : UInt8) : Bool := decide (ascii '0' ≤ c ∧ c ≤ ascii '9')

/-- The digits that `scan_int` takes. -/
def isScanned (c : UInt8) : Bool := decide (ascii '0' < c ∧ c < ascii '9')

/-- The decimal value of a run. -/
def decimal (run : List UInt8) : ℕ := run.foldl (fun value c => 10 * value + (c.toNat - (ascii '0').toNat)) 0

/-- `scan_int` reads the decimal value of the run of digits at `t`, and goes on behind it. -/
def RightScan (t : List UInt8) : Prop := scanInt t = .ok ((decimal (t.takeWhile isDigit) : ℤ), t.dropWhile isDigit)

/-- The run of digits at `t` has only the digits 1 to 8, and its value is an `int`. -/
structure Plain (t : List UInt8) : Prop where
  digits : ∀ c ∈ t.takeWhile isDigit, isScanned c = true
  value : decimal (t.takeWhile isDigit) < 2 ^ 31

section Scan

variable {s t : List UInt8} {c : UInt8}

theorem isScanned_isDigit (h : isScanned c = true) : isDigit c = true := by
  unfold isScanned at h
  unfold isDigit
  rw [decide_eq_true_eq] at h ⊢
  exact ⟨UInt8.le_of_lt h.1, UInt8.le_of_lt h.2⟩

/-- The value that `scan_int` computes. -/
def scanValue (value : ℤ) (run : List UInt8) : ℤ :=
  run.foldl (fun value c => wrap (10 * value + (c.toNat - (ascii '0').toNat))) value

theorem scanLoop_eq : ∀ {s : List UInt8} {value : ℤ}, 0 ∈ s →
    scanLoop value s = .ok (scanValue value (s.takeWhile isScanned), s.dropWhile isScanned)
  | [], _, h => absurd h List.not_mem_nil
  | c :: s, value, h => by
    rw [scanLoop]
    by_cases hc : ascii '0' < c ∧ c < ascii '9'
    · have hc' : isScanned c = true := decide_eq_true hc
      have hin : 0 ∈ s := by
        refine (List.mem_cons.1 h).resolve_left fun hzero => ?_
        rw [← hzero] at hc'
        exact absurd hc' (by decide)
      rw [if_pos hc, scanLoop_eq hin, List.takeWhile_cons_of_pos hc', List.dropWhile_cons_of_pos hc']
      rfl
    · have hc' : ¬ isScanned c = true := by
        unfold isScanned
        rwa [decide_eq_true_eq]
      rw [if_neg hc, List.takeWhile_cons_of_neg hc', List.dropWhile_cons_of_neg hc']
      rfl

/-- **`scan_int`** takes the digits from 1 to 8. -/
theorem scanInt_eq (h : 0 ∈ s) : scanInt s = .ok (scanValue 0 (s.takeWhile isScanned), s.dropWhile isScanned) :=
  scanLoop_eq h

theorem wrap_add_wrap (a b : ℤ) : wrap (10 * wrap a + b) = wrap (10 * a + b) := by
  unfold wrap
  rw [← Int.bmod_add_bmod, Int.mul_bmod_bmod, Int.bmod_add_bmod]

/-- The value is the decimal one, up to 2³². -/
theorem scanValue_eq (run : List UInt8) : ∀ n : ℕ, (∀ c ∈ run, isScanned c = true) →
    scanValue (wrap n) run =
      wrap (run.foldl (fun value c => 10 * value + (c.toNat - (ascii '0').toNat)) n : ℕ) := by
  induction run with
  | nil =>
    intro n _
    rw [scanValue, List.foldl_nil, List.foldl_nil]
  | cons c run ih =>
    intro n h
    have hc : ascii '0' < c := by
      have hin := h c List.mem_cons_self
      unfold isScanned at hin
      rw [decide_eq_true_eq] at hin
      exact hin.1
    have hle : (ascii '0').toNat ≤ c.toNat := (UInt8.lt_iff_toNat_lt.1 hc).le
    have hcast : (10 * (n : ℤ) + (c.toNat - (ascii '0').toNat)) =
        ((10 * n + (c.toNat - (ascii '0').toNat) : ℕ) : ℤ) := by omega
    have hrest := ih (10 * n + (c.toNat - (ascii '0').toNat)) fun d hd => h d (List.mem_cons_of_mem c hd)
    rw [scanValue] at hrest
    rw [scanValue, List.foldl_cons, wrap_add_wrap, hcast, hrest, List.foldl_cons]

theorem wrap_eq_iff (n : ℕ) : wrap n = n ↔ n < 2 ^ 31 := by
  unfold wrap
  constructor
  · intro h
    have hlt := @Int.bmod_lt n (2 ^ 32) (by decide)
    omega
  · intro h
    exact Int.bmod_eq_of_le (by omega) (by omega)

theorem takeWhile_eq_of_dropWhile {p q : UInt8 → Bool} (h : s.dropWhile p = s.dropWhile q) :
    s.takeWhile p = s.takeWhile q := by
  have hp := @List.takeWhile_append_dropWhile _ p s
  have hq := @List.takeWhile_append_dropWhile _ q s
  rw [h] at hp
  exact List.append_cancel_right (hp.trans hq.symm)

theorem dropWhile_scanned : ∀ {t : List UInt8}, (∀ c ∈ t.takeWhile isDigit, isScanned c = true) →
    t.dropWhile isScanned = t.dropWhile isDigit
  | [], _ => rfl
  | c :: t, h => by
    by_cases hdigit : isDigit c = true
    · rw [List.takeWhile_cons_of_pos hdigit] at h
      rw [List.dropWhile_cons_of_pos (h c List.mem_cons_self), List.dropWhile_cons_of_pos hdigit]
      exact dropWhile_scanned fun d hd => h d (List.mem_cons_of_mem c hd)
    · rw [List.dropWhile_cons_of_neg fun hc => hdigit (isScanned_isDigit hc), List.dropWhile_cons_of_neg hdigit]

/-- **A number is read right** just when it is plain. -/
theorem rightScan_iff (h : 0 ∈ t) : RightScan t ↔ Plain t := by
  unfold RightScan
  rw [scanInt_eq h, Except.ok.injEq, Prod.mk.injEq]
  have hscanned : ∀ c ∈ t.takeWhile isScanned, isScanned c = true := fun c hc => List.mem_takeWhile_imp hc
  have hvalue := scanValue_eq (t.takeWhile isScanned) 0 hscanned
  have hzero : wrap ((0 : ℕ) : ℤ) = 0 := by decide
  rw [hzero] at hvalue
  rw [hvalue]
  constructor
  · rintro ⟨hval, hdrop⟩
    have htake := takeWhile_eq_of_dropWhile hdrop
    rw [htake] at hval hscanned
    exact ⟨hscanned, (wrap_eq_iff _).1 hval⟩
  · rintro ⟨hdigits, hlt⟩
    have hdrop := dropWhile_scanned hdigits
    rw [takeWhile_eq_of_dropWhile hdrop]
    exact ⟨(wrap_eq_iff _).2 hlt, hdrop⟩

end Scan

/-! ## Conversions and their arguments -/

inductive Kind
  | word
  | string
  deriving DecidableEq

def Arg.kind : Arg → Kind
  | .word _ => .word
  | .string _ => .string

/-- The argument that a conversion takes. -/
def argumentKind (ch : UInt8) : List Kind :=
  match conversionOf ch with
  | .string => [.string]
  | .unknown => []
  | _ => [.word]

/-- The arguments that a format asks for, from inside a conversion on or from outside of all. -/
def kinds : Bool → List UInt8 → List Kind
  | _, [] => []
  | false, c :: fmt => if c = 0 then [] else kinds (c == ascii '%') fmt
  | true, c :: fmt =>
    if c = 0 then [] else if (modifierOf c).isSome then kinds true fmt else argumentKind c ++ kinds false fmt

/-- The arguments match the format: there may be more of them. -/
def Matches (fmt : List UInt8) (args : List Arg) : Prop := kinds false fmt <+: args.map Arg.kind

/-- The places in a conversion, behind its `%`, where a width or a precision is. -/
inductive NumberAt : List UInt8 → List UInt8 → Prop
  | precision {ch : UInt8} {fmt : List UInt8} : modifierOf ch = some .precision → NumberAt (ch :: fmt) fmt
  | width {ch : UInt8} {fmt : List UInt8} : modifierOf ch = some .width → NumberAt (ch :: fmt) (ch :: fmt)
  | flag {ch : UInt8} {fmt t : List UInt8} {set : Flags → Flags} :
      modifierOf ch = some (.flag set) → NumberAt fmt t → NumberAt (ch :: fmt) t
  | afterPrecision {ch : UInt8} {fmt t : List UInt8} :
      modifierOf ch = some .precision → NumberAt (fmt.dropWhile isDigit) t → NumberAt (ch :: fmt) t
  | afterWidth {ch : UInt8} {fmt t : List UInt8} :
      modifierOf ch = some .width → NumberAt ((ch :: fmt).dropWhile isDigit) t → NumberAt (ch :: fmt) t

/-- The places where the loop over the modifiers calls `scan_int`. -/
inductive Scanned : List UInt8 → List UInt8 → Prop
  | precision {ch : UInt8} {fmt : List UInt8} : modifierOf ch = some .precision → Scanned (ch :: fmt) fmt
  | width {ch : UInt8} {fmt : List UInt8} : modifierOf ch = some .width → Scanned (ch :: fmt) (ch :: fmt)
  | next {ch : UInt8} {fmt rest t : List UInt8} {m m' : Mods} :
      modifier ch fmt m = .ok (some (m', rest)) → Scanned rest t → Scanned (ch :: fmt) t

section Modifiers

variable {ch : UInt8} {fmt rest t spec : List UInt8} {m m' : Mods}

theorem modifierOf_zero : modifierOf 0 = none := rfl

theorem mem_of_modifier {kind : Modifier} (hk : modifierOf ch = some kind) (h : 0 ∈ ch :: fmt) : 0 ∈ fmt := by
  refine (List.mem_cons.1 h).resolve_left fun hzero => ?_
  rw [← hzero, modifierOf_zero] at hk
  cases hk

theorem mem_dropWhile {p : UInt8 → Bool} (hp : p 0 = false) (h : 0 ∈ fmt) : 0 ∈ fmt.dropWhile p := by
  have hsplit := @List.takeWhile_append_dropWhile _ p fmt
  rw [← hsplit] at h
  refine (List.mem_append.1 h).resolve_left fun hin => ?_
  rw [List.mem_takeWhile_imp hin] at hp
  cases hp

theorem modifierOf_width (hlow : ascii '1' ≤ ch) (hhigh : ch ≤ ascii '9') : modifierOf ch = some .width := by
  have hne : ∀ c : UInt8, ¬ (ascii '1' ≤ c ∧ c ≤ ascii '9') → ch ≠ c := by
    rintro c hc rfl
    exact hc ⟨hlow, hhigh⟩
  unfold modifierOf
  rw [if_neg (hne _ (by decide)), if_neg (hne _ (by decide)), if_neg (hne _ (by decide)), if_neg (hne _ (by decide)),
    if_neg (hne _ (by decide)), if_neg (hne _ (by decide)), if_pos ⟨hlow, hhigh⟩]

theorem isDigit_of_width (hk : modifierOf ch = some .width) : isDigit ch = true := by
  unfold modifierOf at hk
  split_ifs at hk with _ _ _ _ _ _ hwidth
  all_goals try cases hk
  have hlow : ascii '0' ≤ ch := UInt8.le_trans (by decide) hwidth.1
  exact decide_eq_true ⟨hlow, hwidth.2⟩

/-- Every digit is a modifier. -/
theorem modifierOf_digit (h : isDigit ch = true) : (modifierOf ch).isSome = true := by
  unfold isDigit at h
  rw [decide_eq_true_eq] at h
  by_cases hzero : ch = ascii '0'
  · rw [hzero]
    rfl
  · have hlow : ascii '1' ≤ ch := by
      have hle := UInt8.le_iff_toNat_le.1 h.1
      have hne : ch.toNat ≠ (ascii '0').toNat := fun heq => hzero (UInt8.toNat_inj.1 heq)
      refine UInt8.le_iff_toNat_le.2 ?_
      have hone : (ascii '1').toNat = (ascii '0').toNat + 1 := rfl
      omega
    rw [modifierOf_width hlow h.2]
    rfl

/-- What is left behind a modifier. -/
theorem modifier_cases (h : modifier ch fmt m = .ok (some (m', rest))) (hin : 0 ∈ ch :: fmt) :
    ((∃ set, modifierOf ch = some (.flag set)) ∧ rest = fmt) ∨
    (modifierOf ch = some .precision ∧ rest = fmt.dropWhile isScanned) ∨
    (modifierOf ch = some .width ∧ rest = (ch :: fmt).dropWhile isScanned) := by
  unfold modifier at h
  split at h
  · cases h
  · rename_i set hset
    cases h
    exact Or.inl ⟨⟨set, hset⟩, rfl⟩
  · rename_i hk
    rw [scanInt_eq (mem_of_modifier hk hin)] at h
    cases h
    exact Or.inr (Or.inl ⟨hk, rfl⟩)
  · rename_i hk
    rw [scanInt_eq hin] at h
    cases h
    exact Or.inr (Or.inr ⟨hk, rfl⟩)

theorem modifier_mem (h : modifier ch fmt m = .ok (some (m', rest))) (hin : 0 ∈ ch :: fmt) : 0 ∈ rest := by
  rcases modifier_cases h hin with ⟨⟨set, hk⟩, rfl⟩ | ⟨hk, rfl⟩ | ⟨-, rfl⟩
  · exact mem_of_modifier hk hin
  · exact mem_dropWhile rfl (mem_of_modifier hk hin)
  · exact mem_dropWhile rfl hin

/-- A modifier that has been read right. -/
theorem modifier_right (hk : modifierOf ch = some .precision) (hright : RightScan fmt) (m : Mods) :
    ∃ m', modifier ch fmt m = .ok (some (m', fmt.dropWhile isDigit)) := by
  unfold modifier
  rw [hk]
  simp only [show scanInt fmt = _ from hright]
  exact ⟨_, rfl⟩

theorem modifier_right_width (hk : modifierOf ch = some .width) (hright : RightScan (ch :: fmt)) (m : Mods) :
    ∃ m', modifier ch fmt m = .ok (some (m', (ch :: fmt).dropWhile isDigit)) := by
  unfold modifier
  rw [hk]
  simp only [show scanInt (ch :: fmt) = _ from hright]
  exact ⟨_, rfl⟩

theorem modifier_flag {set : Flags → Flags} (hk : modifierOf ch = some (.flag set)) (m : Mods) :
    ∃ m', modifier ch fmt m = .ok (some (m', fmt)) := by
  unfold modifier
  rw [hk]
  exact ⟨_, rfl⟩

/-- What `modifier` does not look at. -/
def Mods.any : Mods := ⟨.none, 0, 0⟩

theorem plain_of_right (h : NumberAt spec t) : 0 ∈ spec → (∀ t, Scanned spec t → RightScan t) → Plain t := by
  induction h with
  | precision hk =>
    intro hin hright
    exact (rightScan_iff (mem_of_modifier hk hin)).1 (hright _ (.precision hk))
  | width hk =>
    intro hin hright
    exact (rightScan_iff hin).1 (hright _ (.width hk))
  | flag hk _ ih =>
    intro hin hright
    obtain ⟨m', hmod⟩ := modifier_flag hk .any
    exact ih (mem_of_modifier hk hin) fun t ht => hright t (.next hmod ht)
  | afterPrecision hk _ ih =>
    intro hin hright
    obtain ⟨m', hmod⟩ := modifier_right hk (hright _ (.precision hk)) .any
    exact ih (modifier_mem hmod hin) fun t ht => hright t (.next hmod ht)
  | afterWidth hk _ ih =>
    intro hin hright
    obtain ⟨m', hmod⟩ := modifier_right_width hk (hright _ (.width hk)) .any
    exact ih (modifier_mem hmod hin) fun t ht => hright t (.next hmod ht)

theorem right_of_plain (h : Scanned spec t) : 0 ∈ spec → (∀ t, NumberAt spec t → Plain t) → RightScan t := by
  induction h with
  | precision hk =>
    intro hin hplain
    exact (rightScan_iff (mem_of_modifier hk hin)).2 (hplain _ (.precision hk))
  | width hk =>
    intro hin hplain
    exact (rightScan_iff hin).2 (hplain _ (.width hk))
  | @next ch fmt rest t m m' hmod _ ih =>
    intro hin hplain
    refine ih (modifier_mem hmod hin) fun t ht => hplain t ?_
    rcases modifier_cases hmod hin with ⟨⟨set, hk⟩, rfl⟩ | ⟨hk, rfl⟩ | ⟨hk, rfl⟩
    · exact .flag hk ht
    · rw [dropWhile_scanned (hplain _ (.precision hk)).digits] at ht
      exact .afterPrecision hk ht
    · rw [dropWhile_scanned (hplain _ (.width hk)).digits] at ht
      exact .afterWidth hk ht

/-- **The numbers of a conversion are read right** just when they are plain. -/
theorem scanned_iff (hin : 0 ∈ spec) :
    (∀ t, Scanned spec t → RightScan t) ↔ ∀ t, NumberAt spec t → Plain t :=
  ⟨fun h _ ht => plain_of_right ht hin h, fun h _ ht => right_of_plain ht hin h⟩

end Modifiers

/-! ## What is left of the format -/

section Left

variable {v : Version} {fuel : ℕ} {ch : UInt8} {fmt rest : List UInt8} {flags : Flags} {m m' : Mods}

theorem kinds_modifier (h : (modifierOf ch).isSome = true) : kinds true (ch :: fmt) = kinds true fmt := by
  have hne : ch ≠ 0 := by
    rintro rfl
    rw [modifierOf_zero] at h
    cases h
  rw [kinds, if_neg hne, if_pos h]

theorem kinds_dropWhile : ∀ fmt : List UInt8, kinds true (fmt.dropWhile isScanned) = kinds true fmt
  | [] => rfl
  | c :: fmt => by
    by_cases hc : isScanned c = true
    · rw [List.dropWhile_cons_of_pos hc, kinds_dropWhile fmt, kinds_modifier (modifierOf_digit (isScanned_isDigit hc))]
    · rw [List.dropWhile_cons_of_neg hc]

theorem modifier_kinds (h : modifier ch fmt m = .ok (some (m', rest))) (hin : 0 ∈ ch :: fmt) :
    kinds true (ch :: fmt) = kinds true rest ∧ rest.length ≤ fmt.length + 1 := by
  rcases modifier_cases h hin with ⟨⟨set, hk⟩, rfl⟩ | ⟨hk, rfl⟩ | ⟨-, rfl⟩
  · exact ⟨kinds_modifier (by rw [hk]; rfl), Nat.le_succ _⟩
  · rw [kinds_dropWhile, kinds_modifier (by rw [hk]; rfl)]
    exact ⟨rfl, (List.length_dropWhile_le _ _).trans (Nat.le_succ _)⟩
  · rw [kinds_dropWhile]
    exact ⟨rfl, List.length_dropWhile_le _ _⟩

/-- **Behind the modifiers** comes the type of the conversion. -/
theorem modifiers_left : ∀ {fuel : ℕ} {ch : UInt8} {fmt : List UInt8} {m : Mods} {r : Mods × UInt8 × List UInt8},
    modifiers fuel ch fmt m = .ok r → 0 ∈ ch :: fmt →
    0 ∈ r.2.1 :: r.2.2 ∧ r.2.2.length ≤ fmt.length ∧ modifierOf r.2.1 = none ∧
      kinds true (ch :: fmt) = kinds true (r.2.1 :: r.2.2)
  | 0, _, _, _, _, h, _ => by cases h
  | fuel + 1, ch, fmt, m, r, h, hin => by
    rw [modifiers] at h
    split at h
    · cases h
    · rename_i hmod
      cases h
      refine ⟨hin, le_rfl, ?_, rfl⟩
      unfold modifier at hmod
      split at hmod
      · assumption
      · cases hmod
      · split at hmod <;> cases hmod
      · split at hmod <;> cases hmod
    · rename_i m' rest hmod
      have hrest := modifier_mem hmod hin
      obtain ⟨hkinds, hlen⟩ := modifier_kinds hmod hin
      cases rest with
      | nil => exact absurd hrest List.not_mem_nil
      | cons c rest =>
        rw [hkinds]
        rw [List.length_cons] at hlen
        simp only [fetch] at h
        split at h
        · rename_i hzero
          cases h
          exact ⟨hrest, Nat.le_of_succ_le_succ hlen, by rw [hzero]; rfl, rfl⟩
        · obtain ⟨h1, h2, h3, h4⟩ := modifiers_left h hrest
          exact ⟨h1, by omega, h3, h4⟩

theorem modifiers_past : ∀ {fuel : ℕ} {ch : UInt8} {fmt : List UInt8} {m : Mods}, 0 ∈ ch :: fmt →
    modifiers fuel ch fmt m ≠ .error .past
  | 0, _, _, _, _, h => by cases h
  | fuel + 1, ch, fmt, m, hin, h => by
    rw [modifiers] at h
    split at h
    · rename_i e hmod
      unfold modifier at hmod
      split at hmod
      · cases hmod
      · cases hmod
      · rename_i hk
        rw [scanInt_eq (mem_of_modifier hk hin)] at hmod
        cases hmod
      · rw [scanInt_eq hin] at hmod
        cases hmod
    · cases h
    · rename_i m' rest hmod
      have hrest := modifier_mem hmod hin
      cases rest with
      | nil => exact absurd hrest List.not_mem_nil
      | cons c rest =>
        simp only [fetch] at h
        split at h
        · cases h
        · exact modifiers_past hrest h

/-- A modifier with a plain number. -/
theorem modifier_plain {kind : Modifier} (hk : modifierOf ch = some kind) (m : Mods) (hin : 0 ∈ ch :: fmt)
    (hplain : ∀ t, NumberAt (ch :: fmt) t → Plain t) :
    ∃ m' rest, modifier ch fmt m = .ok (some (m', rest)) ∧ rest.length ≤ fmt.length ∧
      ∀ t, NumberAt rest t → Plain t := by
  cases kind with
  | flag set =>
    obtain ⟨m', hmod⟩ := @modifier_flag ch fmt set hk m
    exact ⟨m', fmt, hmod, le_rfl, fun t ht => hplain t (.flag hk ht)⟩
  | precision =>
    have hright := (rightScan_iff (mem_of_modifier hk hin)).2 (hplain _ (.precision hk))
    obtain ⟨m', hmod⟩ := modifier_right hk hright m
    exact ⟨m', _, hmod, List.length_dropWhile_le _ _, fun t ht => hplain t (.afterPrecision hk ht)⟩
  | width =>
    have hright := (rightScan_iff hin).2 (hplain _ (.width hk))
    obtain ⟨m', hmod⟩ := modifier_right_width hk hright m
    refine ⟨m', _, hmod, ?_, fun t ht => hplain t (.afterWidth hk ht)⟩
    rw [List.dropWhile_cons_of_pos (isDigit_of_width hk)]
    exact List.length_dropWhile_le _ _

/-- **The loop over the modifiers ends** where the numbers are plain. -/
theorem modifiers_ends {ch : UInt8} {fmt : List UInt8} {m : Mods} (hin : 0 ∈ ch :: fmt)
    (hplain : ∀ t, NumberAt (ch :: fmt) t → Plain t) : ∃ fuel r, modifiers fuel ch fmt m = .ok r := by
  cases hk : modifierOf ch with
  | none =>
    refine ⟨1, (m, ch, fmt), ?_⟩
    rw [modifiers, modifier, hk]
  | some kind =>
    obtain ⟨m', rest, hmod, hlen, hnumbers⟩ := modifier_plain hk m hin hplain
    have hrest := modifier_mem hmod hin
    cases rest with
    | nil => exact absurd hrest List.not_mem_nil
    | cons c rest =>
      by_cases hc : c = 0
      · refine ⟨1, (m', c, rest), ?_⟩
        rw [modifiers, hmod]
        exact if_pos hc
      · obtain ⟨fuel, r, h⟩ := @modifiers_ends c rest m' hrest hnumbers
        refine ⟨fuel + 1, r, ?_⟩
        rw [modifiers, hmod]
        exact (if_neg hc).trans h
termination_by fmt.length

end Left

/-! ## Rounds -/

section Rounds

variable {v : Version} {tty : Bool} {size : ℤ} {fuel position : ℕ} {ch : UInt8} {fmt rest : List UInt8} {flags : Flags}
  {m m' : Mods} {args : List Arg} {i i' : Input} {o o' : Output} {p : Piece} {a b : Progress}

/-- What a round leaves of the format. -/
theorem token_left {t : Token} (h : token v fuel fmt flags = .ok (t, rest)) (hin : 0 ∈ fmt) :
    t = .finish ∨ (0 ∈ rest ∧ rest.length < fmt.length ∧
      ((∃ ch, t = .plain ch ∧ kinds false fmt = kinds false rest) ∨
        ∃ ch m, t = .conversion ch m ∧ kinds false fmt = argumentKind ch ++ kinds false rest)) := by
  cases fmt with
  | nil => exact absurd hin List.not_mem_nil
  | cons c fmt =>
    unfold token at h
    simp only [fetch] at h
    split at h
    · cases h
      exact Or.inl rfl
    rename_i hc
    have hfmt : 0 ∈ fmt := (List.mem_cons.1 hin).resolve_left fun heq => hc heq.symm
    split at h
    · rename_i hplain
      cases h
      refine Or.inr ⟨hfmt, Nat.lt_succ_self _, Or.inl ⟨c, rfl, ?_⟩⟩
      rw [kinds, if_neg hc, beq_eq_false_iff_ne.2 hplain]
    rename_i hpercent
    rw [not_not] at hpercent
    cases fmt with
    | nil => exact absurd hfmt List.not_mem_nil
    | cons d fmt =>
      simp only at h
      split at h
      · cases h
        exact Or.inl rfl
      split at h
      · cases h
      rename_i m' ch' rest' hmods
      split at h
      · cases h
        exact Or.inl rfl
      rename_i hch
      cases h
      obtain ⟨h1, h2, h3, h4⟩ := modifiers_left hmods hfmt
      have hrest : 0 ∈ rest := (List.mem_cons.1 h1).resolve_left fun heq => hch heq.symm
      refine Or.inr ⟨hrest, ?_, Or.inr ⟨ch', m', rfl, ?_⟩⟩
      · rw [List.length_cons, List.length_cons]
        exact Nat.lt_of_le_of_lt h2 (by omega)
      · rw [kinds, if_neg hc, beq_iff_eq.2 hpercent, h4, kinds, if_neg hch, if_neg]
        rw [h3]
        decide

theorem token_past (hin : 0 ∈ fmt) : token v fuel fmt flags ≠ .error .past := by
  intro h
  cases fmt with
  | nil => exact absurd hin List.not_mem_nil
  | cons c fmt =>
    unfold token at h
    simp only [fetch] at h
    split at h
    · cases h
    rename_i hc
    have hfmt : 0 ∈ fmt := (List.mem_cons.1 hin).resolve_left fun heq => hc heq.symm
    split at h
    · cases h
    cases fmt with
    | nil => exact absurd hfmt List.not_mem_nil
    | cons d fmt =>
      simp only at h
      split at h
      · cases h
      split at h
      · rename_i e hmods
        cases h
        exact modifiers_past hfmt hmods
      · split at h <;> cases h

/-- **The numbers of the next conversion** are plain. -/
def NextPlain (fmt : List UInt8) : Prop := ∀ spec t, fmt = ascii '%' :: spec → NumberAt spec t → Plain t

theorem token_ends (hin : 0 ∈ fmt) (hplain : NextPlain fmt) : ∃ fuel r, token v fuel fmt flags = .ok r := by
  cases fmt with
  | nil => exact absurd hin List.not_mem_nil
  | cons c fmt =>
    by_cases hc : c = 0
    · refine ⟨0, (.finish, fmt), ?_⟩
      unfold token
      exact if_pos hc
    have hfmt : 0 ∈ fmt := (List.mem_cons.1 hin).resolve_left fun heq => hc heq.symm
    by_cases hpercent : c = ascii '%'
    · cases fmt with
      | nil => exact absurd hfmt List.not_mem_nil
      | cons d fmt =>
        obtain ⟨fuel, r, hmods⟩ := @modifiers_ends d fmt ⟨v.keep flags, -1, -1⟩ hfmt
          fun t ht => hplain (d :: fmt) t (by rw [hpercent]) ht
        refine ⟨fuel, ?_⟩
        unfold token
        simp only [fetch, hmods]
        rw [if_neg hc, if_neg (not_not.2 hpercent)]
        split
        · exact ⟨_, rfl⟩
        · split
          · exact ⟨_, rfl⟩
          · exact ⟨_, rfl⟩
    · refine ⟨0, (.plain c, fmt), ?_⟩
      unfold token
      simp only [fetch]
      rw [if_neg hc, if_pos hpercent]

theorem pieceOf_matches {ks : List Kind} (h : argumentKind ch ++ ks <+: args.map Arg.kind) (m : Mods) (position : ℕ) :
    ∃ r, pieceOf ch m args position = .ok r ∧ ks <+: r.2.2.map Arg.kind := by
  have hword : [Kind.word] ++ ks <+: args.map Arg.kind →
      ∃ n rest, args = .word n :: rest ∧ ks <+: rest.map Arg.kind := by
    intro h
    cases args with
    | nil => exact absurd (List.eq_nil_of_prefix_nil h) (by simp)
    | cons arg args =>
      obtain ⟨hkind, hrest⟩ := List.cons_prefix_cons.1 h
      cases arg with
      | word n => exact ⟨n, args, rfl, hrest⟩
      | string s => cases hkind
  have hstring : [Kind.string] ++ ks <+: args.map Arg.kind →
      ∃ s rest, args = .string s :: rest ∧ ks <+: rest.map Arg.kind := by
    intro h
    cases args with
    | nil => exact absurd (List.eq_nil_of_prefix_nil h) (by simp)
    | cons arg args =>
      obtain ⟨hkind, hrest⟩ := List.cons_prefix_cons.1 h
      cases arg with
      | word n => cases hkind
      | string s => exact ⟨s, args, rfl, hrest⟩
  unfold argumentKind at h
  unfold pieceOf
  cases hc : conversionOf ch with
  | string =>
    rw [hc] at h
    obtain ⟨s, rest, rfl, hrest⟩ := hstring h
    exact ⟨_, rfl, hrest⟩
  | unknown =>
    rw [hc] at h
    exact ⟨_, rfl, h⟩
  | signed =>
    rw [hc] at h
    obtain ⟨n, rest, rfl, hrest⟩ := hword h
    exact ⟨_, rfl, hrest⟩
  | unsigned base =>
    rw [hc] at h
    obtain ⟨n, rest, rfl, hrest⟩ := hword h
    exact ⟨_, rfl, hrest⟩
  | hex pointer smalls =>
    rw [hc] at h
    obtain ⟨n, rest, rfl, hrest⟩ := hword h
    exact ⟨_, rfl, hrest⟩
  | char =>
    rw [hc] at h
    obtain ⟨n, rest, rfl, hrest⟩ := hword h
    exact ⟨_, rfl, hrest⟩

/-- **A round with plain numbers and arguments that match** ends, and leaves less of the format. -/
theorem read_ends (hin : 0 ∈ i.fmt) (hargs : Matches i.fmt i.args) (hplain : NextPlain i.fmt) (position : ℕ) :
    ∃ fuel, read v fuel i position = .ok none ∨ ∃ p i', read v fuel i position = .ok (some (p, i')) ∧ 0 ∈ i'.fmt ∧
      Matches i'.fmt i'.args ∧ i'.fmt.length < i.fmt.length := by
  obtain ⟨fuel, ⟨t, rest⟩, htoken⟩ := @token_ends v i.fmt i.flags hin hplain
  refine ⟨fuel, ?_⟩
  unfold read
  rw [htoken]
  rcases token_left htoken hin with rfl | ⟨hrest, hlen, ⟨ch, rfl, hkinds⟩ | ⟨ch, m, rfl, hkinds⟩⟩
  · exact Or.inl rfl
  · unfold Matches at hargs
    rw [hkinds] at hargs
    exact Or.inr ⟨_, _, rfl, hrest, hargs, hlen⟩
  · unfold Matches at hargs
    rw [hkinds] at hargs
    obtain ⟨r, hpiece, hr⟩ := pieceOf_matches hargs m position
    simp only [hpiece]
    exact Or.inr ⟨_, _, rfl, hrest, hr, hlen⟩

end Rounds

/-! ## Whole calls -/

/-- A round of the loop of a call. -/
def Round (v : Version) (size : ℤ) (s s' : Input × Output) : Prop :=
  s.2.written < size ∧ ∃ fuel, round v fuel size s.1 s.2 = .ok (some s')

/-- The call ends, without a read behind the terminator, and in every round `scan_int` reads the numbers right. -/
structure ReadsRight (v : Version) (size : ℤ) (i : Input) : Prop where
  ends : ∃ fuel r, vxnprintf v fuel size i.fmt i.args i.flags = .ok r
  inside : ∀ fuel, vxnprintf v fuel size i.fmt i.args i.flags ≠ .error .past
  scans : ∀ s, Relation.ReflTransGen (Round v size) (i, .start) s → s.2.written < size →
    ∀ spec t, s.1.fmt = ascii '%' :: spec → Scanned spec t → RightScan t

/-- In every conversion that comes behind fewer than `size` characters, the numbers are plain. -/
def PlainNumbers (v : Version) (size : ℤ) (a : Progress) : Prop :=
  ∀ b, Reaches v a b → (b.text.length : ℤ) < size → NextPlain b.input.fmt

section Calls

variable {v : Version} {tty : Bool} {size : ℤ} {fuel : ℕ} {text : List UInt8} {i : Input} {p : Piece} {a b : Progress}

theorem convert_past {ch : UInt8} {m : Mods} {args : List Arg} {o : Output} :
    convert v size ch m args o ≠ .error .past := by
  have hword : ∀ {args : List Arg} {e : Stop}, vaWord args = .error e → e = .argument := by
    intro args e h
    unfold vaWord at h
    split at h <;> cases h
    rfl
  have hstring : ∀ {args : List Arg} {e : Stop}, vaString args = .error e → e = .argument := by
    intro args e h
    unfold vaString at h
    split at h <;> cases h
    rfl
  intro h
  unfold convert at h
  split at h
  · split at h
    · rename_i hva
      cases h
      cases hword hva
    · cases h
  · split at h
    · rename_i hva
      cases h
      cases hword hva
    · cases h
  · split at h
    · rename_i hva
      cases h
      cases hword hva
    · cases h
  · split at h
    · rename_i hva
      cases h
      cases hword hva
    · cases h
  · split at h
    · rename_i hva
      cases h
      cases hstring hva
    · cases h
  · cases h

/-- No round reads behind the terminator. -/
theorem loop_past : ∀ {fuel : ℕ} {i : Input} {o : Output}, 0 ∈ i.fmt → loop v size fuel i o ≠ .error .past
  | 0, _, _, _, h => by cases h
  | fuel + 1, i, o, hin, h => by
    rw [loop] at h
    split at h
    swap
    · cases h
    split at h
    · rename_i e hround
      unfold round at hround
      split at hround
      · rename_i htoken
        cases h
        cases hround
        exact token_past hin htoken
      · cases hround
      · cases hround
      · split at hround
        · rename_i hconvert
          cases h
          cases hround
          exact convert_past hconvert
        · cases hround
    · cases h
    · rename_i i' o' hround
      refine loop_past (?_ : 0 ∈ i'.fmt) h
      unfold round at hround
      split at hround
      · cases hround
      · cases hround
      · rename_i htoken
        cases hround
        rcases token_left htoken hin with hfin | ⟨hrest, -⟩
        · cases hfin
        · exact hrest
      · rename_i htoken
        split at hround
        · cases hround
        · cases hround
          rcases token_left htoken hin with hfin | ⟨hrest, -⟩
          · cases hfin
          · exact hrest

theorem reaches_tty (h : Reaches v a b) : b.input.flags.tty = a.input.flags.tty := by
  induction h with
  | refl => rfl
  | tail _ hstep ih =>
    obtain ⟨fuel, p, hread, -⟩ := hstep
    exact (read_tty hread).trans ih

theorem read_mem {i' : Input} {position : ℕ} (h : read v fuel i position = .ok (some (p, i'))) (hin : 0 ∈ i.fmt) :
    0 ∈ i'.fmt := by
  unfold read at h
  split at h
  · cases h
  · cases h
  · rename_i htoken
    rcases token_left htoken hin with hfin | ⟨hrest, -⟩
    · cases hfin
    · cases h
      exact hrest
  · rename_i htoken
    split at h
    · cases h
    rcases token_left htoken hin with hfin | ⟨hrest, -⟩
    · cases hfin
    · cases h
      exact hrest

theorem reaches_mem (h : Reaches v a b) (hin : 0 ∈ a.input.fmt) : 0 ∈ b.input.fmt := by
  induction h with
  | refl => exact hin
  | tail _ hstep ih =>
    obtain ⟨fuel, p, hread, -⟩ := hstep
    exact read_mem hread ih

/-- **The rounds of a call** are the progress in the text, as long as there is place. -/
theorem reaches_of_rounds (hb : toTty v i.flags = tty) {s : Input × Output}
    (h : Relation.ReflTransGen (Round v size) (i, .start) s) (hroom : s.2.written < size) :
    ∃ b, Reaches v ⟨[], i⟩ b ∧ s = (b.input, filled tty b.text) := by
  induction h with
  | refl => exact ⟨⟨[], i⟩, Relation.ReflTransGen.refl, by rw [filled_nil]⟩
  | @tail s s' _ hstep ih =>
    obtain ⟨hroom', fuel, hround⟩ := hstep
    obtain ⟨b, hreach, rfl⟩ := ih hroom'
    have hb' : toTty v b.input.flags = tty := (toTty_congr (reaches_tty hreach)).trans hb
    simp only [filled_written] at hroom'
    rw [round_filled hb' hroom'] at hround
    split at hround
    · cases hround
    · cases hround
    · rename_i p i' hread
      cases hround
      simp only [filled_written] at hroom
      rw [after_eq hroom]
      exact ⟨⟨b.text ++ p.text, i'⟩, hreach.tail ⟨fuel, p, hread, rfl⟩, rfl⟩

theorem rounds_of_reaches (hb : toTty v i.flags = tty) (h : Reaches v ⟨[], i⟩ b) (hroom : (b.text.length : ℤ) < size) :
    Relation.ReflTransGen (Round v size) (i, .start) (b.input, filled tty b.text) := by
  induction h with
  | refl => rw [filled_nil]
  | @tail b c hreach hstep ih =>
    have hgrows := hstep.grows
    have hroom' : (b.text.length : ℤ) < size := by omega
    have hb' : toTty v b.input.flags = tty := (toTty_congr (reaches_tty hreach)).trans hb
    obtain ⟨fuel, p, hread, htext⟩ := hstep
    refine (ih hroom').tail ⟨by rwa [filled_written], fuel, ?_⟩
    have hafter : p.after size b.text = c.text := by
      rw [htext] at hroom ⊢
      rw [after_eq_take, List.take_of_length_le (by omega)]
      unfold Piece.text at hroom
      simp only [List.length_append] at hroom ⊢
      omega
    simp only [round_filled hb' hroom', hread, hafter]

/-- **The loop ends** where the numbers are plain. -/
theorem loop_ends {a : Progress} (hb : toTty v a.input.flags = tty) (hin : 0 ∈ a.input.fmt)
    (hargs : Matches a.input.fmt a.input.args) (hroom : (a.text.length : ℤ) < size) (hplain : PlainNumbers v size a) :
    ∃ fuel r, loop v size fuel a.input (filled tty a.text) = .ok r := by
  obtain ⟨fuel, hread⟩ := @read_ends v a.input hin hargs (hplain a Relation.ReflTransGen.refl hroom) a.text.length
  have hround := @round_filled v tty size fuel a.text a.input hb hroom
  rcases hread with hread | ⟨p, i', hread, hin', hargs', hlen⟩
  · rw [hread] at hround
    refine ⟨fuel + 1, (a.input, filled tty a.text), ?_⟩
    rw [loop, filled_written, if_pos hroom, hround]
  rw [hread] at hround
  simp only at hround
  by_cases hmore : ((p.after size a.text).length : ℤ) < size
  · have hstep : Directive v a ⟨p.after size a.text, i'⟩ := ⟨fuel, p, hread, after_eq hmore⟩
    have hb' : toTty v i'.flags = tty := (toTty_congr (read_tty hread)).trans hb
    obtain ⟨more, r, hloop⟩ := @loop_ends ⟨p.after size a.text, i'⟩ hb' hin' hargs' hmore
      fun b hreach => hplain b (Relation.ReflTransGen.head hstep hreach)
    refine ⟨max fuel more + 1, r, ?_⟩
    rw [loop, filled_written, if_pos hroom, round_fuel (le_max_left fuel more) hround]
    exact loop_fuel (le_max_right fuel more) hloop
  · refine ⟨(fuel + 1) + 1, (i', filled tty (p.after size a.text)), ?_⟩
    rw [loop, filled_written, if_pos hroom, round_fuel (Nat.le_succ fuel) hround]
    simp only
    rw [loop, filled_written, if_neg hmore]
termination_by a.input.fmt.length

/-- **A format is read to its end, and its numbers are read right**, just when all the numbers in the conversions that
are reached are plain: without the digits 0 and 9, and not too large for an `int`. -/
theorem vxnprintf_reads (v : Version) {size : ℤ} (hsize : 0 < size) (s : List UInt8) {args : List Arg} (flags : Flags)
    (hargs : Matches (s ++ [0]) args) :
    ReadsRight v size ⟨s ++ [0], args, flags⟩ ↔ PlainNumbers v size (.start (s ++ [0]) args flags) := by
  have hin : (0 : UInt8) ∈ s ++ [0] := List.mem_append_right s List.mem_cons_self
  have hspec : ∀ {b : Progress} {spec : List UInt8}, Reaches v (.start (s ++ [0]) args flags) b →
      b.input.fmt = ascii '%' :: spec → 0 ∈ spec := by
    intro b spec hreach hfmt
    have hmem := reaches_mem hreach hin
    rw [hfmt] at hmem
    exact (List.mem_cons.1 hmem).resolve_left (by decide)
  constructor
  · rintro ⟨-, -, hscans⟩ b hreach hroom spec t hfmt ht
    have hrounds := rounds_of_reaches rfl hreach hroom
    exact (scanned_iff (hspec hreach hfmt)).1 (fun t ht => hscans _ hrounds (by rwa [filled_written]) spec t hfmt ht) t ht
  · intro hplain
    refine ⟨?_, fun fuel h => ?_, fun r hrounds hroom spec t hfmt ht => ?_⟩
    · obtain ⟨fuel, r, hloop⟩ := @loop_ends v _ size (.start (s ++ [0]) args flags) rfl hin hargs hsize hplain
      refine ⟨fuel, finish v size flags r.2, ?_⟩
      have hstart : loop v size fuel ⟨s ++ [0], args, flags⟩ .start = .ok r := by
        rw [← filled_nil (toTty v flags)]
        exact hloop
      unfold vxnprintf
      rw [if_neg (not_le.2 hsize), hstart]
    · unfold vxnprintf at h
      rw [if_neg (not_le.2 hsize)] at h
      split at h
      · rename_i e hloop
        cases h
        exact @loop_past v size fuel ⟨s ++ [0], args, flags⟩ .start hin hloop
      · cases h
    · obtain ⟨b, hreach, rfl⟩ := reaches_of_rounds rfl hrounds hroom
      rw [filled_written] at hroom
      exact (scanned_iff (hspec hreach hfmt)).2 (hplain b hreach hroom spec · hfmt) t ht

end Calls

theorem vxnprintf_reads_width :
    ReadsRight .kernel 8 ⟨[ascii '%', ascii '5', ascii 'd'] ++ [0], [.word 42], .none⟩ ↔
      PlainNumbers .kernel 8 (.start ([ascii '%', ascii '5', ascii 'd'] ++ [0]) [.word 42] .none) :=
  vxnprintf_reads .kernel (by decide) [ascii '%', ascii '5', ascii 'd'] .none
    (show kinds false [ascii '%', ascii '5', ascii 'd', 0] <+: [Kind.word] by decide)

/-- A width that starts with 9 is read again and again. -/
theorem modifiers_nine (fuel : ℕ) (fmt : List UInt8) : ∀ m : Mods,
    modifiers fuel (ascii '9') fmt m = .error .rounds := by
  induction fuel with
  | zero => exact fun _ => rfl
  | succ fuel ih =>
    intro m
    have hscan : scanInt (ascii '9' :: fmt) = .ok (0, ascii '9' :: fmt) := by
      rw [scanInt, scanLoop, if_neg (by decide)]
    have hmod : modifier (ascii '9') fmt m = .ok (some ({ m with width := 0 }, ascii '9' :: fmt)) := by
      rw [modifier, show modifierOf (ascii '9') = some .width from rfl]
      simp only [hscan]
    rw [modifiers, hmod]
    exact ih _

/-- A field of 9 characters is never put out. -/
theorem nine_misread : ¬ ReadsRight .kernel 10 ⟨cstring "%9d", [.word 5], .none⟩ := by
  rintro ⟨⟨fuel, r, h⟩, -, -⟩
  have hfmt : cstring "%9d" = [ascii '%', ascii '9', ascii 'd', 0] := by decide
  have htoken : ∀ fuel, token .kernel fuel (cstring "%9d") .none = .error .rounds := by
    intro fuel
    rw [hfmt]
    unfold token
    simp only [fetch, modifiers_nine]
    rfl
  unfold vxnprintf at h
  rw [if_neg (by decide)] at h
  cases fuel with
  | zero => cases h
  | succ fuel =>
    rw [loop, if_pos (by decide), round, htoken] at h
    cases h

end Buenos.Xprintf
