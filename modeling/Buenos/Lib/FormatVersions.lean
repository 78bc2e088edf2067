import Buenos.Lib.FormatText

/-!
# The two versions of `vxnprintf`

The copy for programs does not reset the flags before a conversion.

* `Flags.or`, `Mods.or` — flags that are left over.
* `Alike` — the versions are at the same place of the format and of the arguments.
* `Agree` — the property: the same contents of the buffer and the same result.
* `SameNext`, `SameConversions` — no text is changed by the flags that are left over.

Principal result: `versions_agree`.
-/

namespace Buenos.Xprintf

/-! ## Flags that are left over -/

/-- `f | e`. -/
def Flags.or (f e : Flags) : Flags :=
  ⟨f.tty || e.tty, f.smalls || e.smalls, f.alt || e.alt, f.zeropad || e.zeropad, f.left || e.left, f.space || e.space,
    f.sign || e.sign⟩

def Mods.or (m : Mods) (e : Flags) : Mods := { m with flags := m.flags.or e }

def Token.or : Token → Flags → Token
  | .finish, _ => .finish
  | .plain ch, _ => .plain ch
  | .conversion ch m, e => .conversion ch (m.or e)

section Or

variable {fuel : ℕ} {ch : UInt8} {fmt : List UInt8} {m : Mods} {flags f g e : Flags}

theorem modifierOf_or {set : Flags → Flags} (h : modifierOf ch = some (.flag set)) (f e : Flags) :
    set (f.or e) = (set f).or e := by
  unfold modifierOf at h
  split_ifs at h <;> cases h <;> simp [Flags.or]

theorem modifier_or (ch : UInt8) (fmt : List UInt8) (m : Mods) (e : Flags) :
    modifier ch fmt (m.or e) = (modifier ch fmt m).map fun r => r.map fun r => (r.1.or e, r.2) := by
  unfold modifier
  cases hk : modifierOf ch with
  | none => rfl
  | some kind =>
    cases kind with
    | flag set =>
      have hset := modifierOf_or hk m.flags e
      simp [Mods.or, hset, Except.map]
    | precision =>
      simp only
      cases scanInt fmt with
      | error e => rfl
      | ok r => rfl
    | width =>
      simp only
      cases scanInt (ch :: fmt) with
      | error e => rfl
      | ok r => rfl

/-- The loop over the modifiers keeps them. -/
theorem modifiers_or (e : Flags) : ∀ (fuel : ℕ) (ch : UInt8) (fmt : List UInt8) (m : Mods),
    modifiers fuel ch fmt (m.or e) = (modifiers fuel ch fmt m).map fun r => (r.1.or e, r.2)
  | 0, _, _, _ => rfl
  | fuel + 1, ch, fmt, m => by
    rw [modifiers, modifiers, modifier_or]
    cases modifier ch fmt m with
    | error e => rfl
    | ok r =>
      cases r with
      | none => rfl
      | some r =>
        simp only [Except.map, Option.map_some]
        cases fetch r.2 with
        | error e => rfl
        | ok s =>
          simp only
          split
          · rfl
          · exact modifiers_or e fuel _ _ _

/-- **What the versions read** differs in the flags that are left over. -/
theorem token_userland (fuel : ℕ) (fmt : List UInt8) (flags : Flags) :
    token .userland fuel fmt flags = (token .kernel fuel fmt flags).map fun r => (r.1.or flags, r.2) := by
  have hkeep : (⟨Version.userland.keep flags, -1, -1⟩ : Mods) =
      (⟨Version.kernel.keep flags, -1, -1⟩ : Mods).or flags := by
    simp [Version.keep, Mods.or, Flags.or, Flags.onlyTty, Flags.none]
  unfold token
  cases fetch fmt with
  | error e => rfl
  | ok r =>
    simp only
    split
    · rfl
    split
    · rfl
    cases fetch r.2 with
    | error e => rfl
    | ok s =>
      simp only
      split
      · rfl
      rw [hkeep, modifiers_or]
      cases modifiers fuel s.1 s.2 ⟨Version.kernel.keep flags, -1, -1⟩ with
      | error e => rfl
      | ok mods =>
        simp only [Except.map]
        split
        · rfl
        · rfl

/-- The kernel reads the same with other flags. -/
theorem token_kernel (h : f.tty = g.tty) (fuel : ℕ) (fmt : List UInt8) :
    token .kernel fuel fmt f = token .kernel fuel fmt g := by
  have hkeep : Version.kernel.keep f = Version.kernel.keep g := by
    simp only [Version.keep, Flags.onlyTty, h]
  unfold token
  rw [hkeep]

end Or

/-! ## Rounds of the two versions -/

/-- The versions are at the same place. -/
structure Alike (i j : Input) : Prop where
  fmt : i.fmt = j.fmt
  args : i.args = j.args
  tty : i.flags.tty = j.flags.tty

section Rounds

variable {fuel position : ℕ} {ch : UInt8} {m : Mods} {args : List Arg} {i j i' j' : Input} {p q : Piece}

/-- The arguments that a conversion takes do not depend on the flags. -/
theorem pieceOf_or (ch : UInt8) (m : Mods) (args : List Arg) (position other : ℕ) (e : Flags) :
    (∃ x, pieceOf ch m args position = .error x ∧ pieceOf ch (m.or e) args other = .error x) ∨
    ∃ q f p g rest, pieceOf ch m args position = .ok (q, f, rest) ∧
      pieceOf ch (m.or e) args other = .ok (p, g, rest) := by
  unfold pieceOf
  cases conversionOf ch with
  | signed =>
    cases vaWord args with
    | error x => exact Or.inl ⟨x, rfl, rfl⟩
    | ok r => exact Or.inr ⟨_, _, _, _, _, rfl, rfl⟩
  | unsigned base =>
    cases vaWord args with
    | error x => exact Or.inl ⟨x, rfl, rfl⟩
    | ok r => exact Or.inr ⟨_, _, _, _, _, rfl, rfl⟩
  | hex pointer smalls =>
    cases vaWord args with
    | error x => exact Or.inl ⟨x, rfl, rfl⟩
    | ok r => exact Or.inr ⟨_, _, _, _, _, rfl, rfl⟩
  | char =>
    cases vaWord args with
    | error x => exact Or.inl ⟨x, rfl, rfl⟩
    | ok r => exact Or.inr ⟨_, _, _, _, _, rfl, rfl⟩
  | string =>
    cases vaString args with
    | error x => exact Or.inl ⟨x, rfl, rfl⟩
    | ok r => exact Or.inr ⟨_, _, _, _, _, rfl, rfl⟩
  | unknown => exact Or.inr ⟨_, _, _, _, _, rfl, rfl⟩

/-- The texts of a round in the kernel and in the copy. -/
inductive Texts (fuel : ℕ) (i j : Input) (position other : ℕ) : Piece → Piece → Prop
  | plain (ch : UInt8) : Texts fuel i j position other ⟨[ch], []⟩ ⟨[ch], []⟩
  | conversion (ch : UInt8) (m : Mods) (fmt : List UInt8) (q p : Piece) (f g : Flags) (rest : List Arg) :
      token .kernel fuel i.fmt i.flags = .ok (.conversion ch m, fmt) →
      token .userland fuel j.fmt j.flags = .ok (.conversion ch (m.or j.flags), fmt) →
      pieceOf ch m i.args position = .ok (q, f, rest) →
      pieceOf ch (m.or j.flags) i.args other = .ok (p, g, rest) → Texts fuel i j position other q p

/-- **A round of both versions** from the same place. -/
theorem read_versions (h : Alike i j) (fuel position other : ℕ) :
    (∃ x, read .kernel fuel i position = .error x ∧ read .userland fuel j other = .error x) ∨
    (read .kernel fuel i position = .ok none ∧ read .userland fuel j other = .ok none) ∨
    ∃ q i' p j', read .kernel fuel i position = .ok (some (q, i')) ∧
      read .userland fuel j other = .ok (some (p, j')) ∧ Alike i' j' ∧ Texts fuel i j position other q p := by
  have huser : token .userland fuel j.fmt j.flags =
      (token .kernel fuel i.fmt i.flags).map fun r => (r.1.or j.flags, r.2) := by
    rw [token_userland, token_kernel h.tty, h.fmt]
  unfold read
  cases htoken : token .kernel fuel i.fmt i.flags with
  | error x =>
    rw [htoken] at huser
    rw [huser]
    exact Or.inl ⟨x, rfl, rfl⟩
  | ok t =>
    rw [htoken] at huser
    obtain ⟨t, fmt⟩ := t
    cases t with
    | finish =>
      rw [huser]
      exact Or.inr (Or.inl ⟨rfl, rfl⟩)
    | plain ch =>
      rw [huser]
      exact Or.inr (Or.inr ⟨_, _, _, _, rfl, rfl, ⟨rfl, h.args, h.tty⟩, .plain ch⟩)
    | conversion ch m =>
      have htty := token_tty htoken
      have huser' : token .userland fuel j.fmt j.flags = .ok (.conversion ch (m.or j.flags), fmt) := huser
      simp only [huser', ← h.args]
      rcases pieceOf_or ch m i.args position other j.flags with ⟨x, hq, hp⟩ | ⟨q, f, p, g, rest, hq, hp⟩
      · rw [hq, hp]
        exact Or.inl ⟨x, rfl, rfl⟩
      · simp only [hq, hp]
        refine Or.inr (Or.inr ⟨q, _, p, _, rfl, rfl, ⟨rfl, rfl, ?_⟩, ?_⟩)
        · have hf := pieceOf_tty hq
          have hg := pieceOf_tty hp
          have hor : (m.or j.flags).flags.tty = (m.flags.tty || j.flags.tty) := rfl
          simp only at hf hg ⊢
          rw [hf, hg, hor, htty, h.tty, Bool.or_self]
        · exact .conversion ch m fmt q p f g rest htoken huser' hq hp

/-- The kernel reads the same text from an input that is alike. -/
theorem read_kernel (h : Alike i j) (hq : read .kernel fuel i position = .ok (some (q, i'))) :
    ∃ j', read .kernel fuel j position = .ok (some (q, j')) := by
  unfold read at hq ⊢
  rw [← token_kernel h.tty, ← h.fmt, ← h.args]
  cases htoken : token .kernel fuel i.fmt i.flags with
  | error x =>
    rw [htoken] at hq
    cases hq
  | ok t =>
    rw [htoken] at hq
    obtain ⟨t, fmt⟩ := t
    cases t with
    | finish => cases hq
    | plain ch =>
      cases hq
      exact ⟨_, rfl⟩
    | conversion ch m =>
      simp only at hq ⊢
      cases hpiece : pieceOf ch m i.args position with
      | error x =>
        rw [hpiece] at hq
        cases hq
      | ok r =>
        rw [hpiece] at hq
        cases hq
        exact ⟨_, rfl⟩

end Rounds

/-! ## Agreement -/

/-- The next text is not changed by the flags that are left over. -/
def SameNext (a : Progress) : Prop :=
  ∀ fuel p i q j, read .userland fuel a.input a.text.length = .ok (some (p, i)) →
    read .kernel fuel a.input a.text.length = .ok (some (q, j)) → p = q

/-- No text that comes behind fewer than `size` characters is changed by flags that are left over. -/
def SameConversions (size : ℤ) (a : Progress) : Prop :=
  ∀ b, Reaches .userland a b → (b.text.length : ℤ) < size → SameNext b

/-- The same contents of the buffer, and the same result. -/
structure Agree (size : ℤ) (r r' : Output × ℤ) : Prop where
  contents : ∀ k : ℕ, k < size → valueAt r.1 k = valueAt r'.1 k
  result : r.2 = r'.2

section Agree

variable {size : ℤ} {fuel more : ℕ} {fmt : List UInt8} {args : List Arg} {a b : Progress} {i j : Input}
  {r r' : Output × ℤ} {text : List UInt8}

theorem toTty_userland (flags : Flags) : toTty .userland flags = false := rfl

theorem toTty_kernel {flags : Flags} (h : flags.tty = false) : toTty .kernel flags = false := h

/-- **The loops of both versions** put out the same as long as no text is changed. -/
theorem loops_agree : ∀ {fuel : ℕ} {text : List UInt8} {i j : Input} {s s' : Input × Output}, Alike i j →
    i.flags.tty = false → (text.length : ℤ) < size → SameConversions size ⟨text, j⟩ →
    loop .kernel size fuel i (filled false text) = .ok s →
    loop .userland size fuel j (filled false text) = .ok s' → s.2 = s'.2
  | 0, _, _, _, _, _, _, _, _, _, h, _ => by cases h
  | fuel + 1, text, i, j, s, s', halike, htty, hroom, hsame, h, h' => by
    rw [loop, filled_written, if_pos hroom, round_filled (toTty_kernel htty) hroom] at h
    rw [loop, filled_written, if_pos hroom, round_filled (toTty_userland _) hroom] at h'
    rcases read_versions halike fuel text.length text.length with
      ⟨x, hread, -⟩ | ⟨hread, hread'⟩ | ⟨q, i', p, j', hread, hread', halike', -⟩
    · rw [hread] at h
      cases h
    · rw [hread] at h
      rw [hread'] at h'
      cases h
      cases h'
      rfl
    · obtain ⟨j'', hkernel⟩ := read_kernel halike hread
      have hpq : p = q := hsame ⟨text, j⟩ Relation.ReflTransGen.refl hroom fuel p j' q j'' hread' hkernel
      rw [hread] at h
      rw [hread', hpq] at h'
      simp only at h h'
      by_cases hmore : ((q.after size text).length : ℤ) < size
      · have htext := after_eq hmore
        rw [htext] at h h' hmore
        have hstep : Directive .userland ⟨text, j⟩ ⟨text ++ q.text, j'⟩ := ⟨fuel, p, hread', by rw [hpq]⟩
        exact loops_agree halike' ((read_tty hread).trans htty) hmore
          (fun b hreach => hsame b (Relation.ReflTransGen.head hstep hreach)) h h'
      · have hfull : size ≤ (filled false (q.after size text)).written := by
          rw [filled_written]
          exact not_lt.1 hmore
        rw [loop_full hfull h, loop_full hfull h']

end Agree

/-! ## Lengths -/

/-- A value of type `int`. -/
def IsInt (z : ℤ) : Prop := -2 ^ 31 ≤ z ∧ z < 2 ^ 31

section Ints

variable {v : Version} {fuel : ℕ} {ch : UInt8} {fmt rest : List UInt8} {flags : Flags} {m m' : Mods} {z : ℤ}

theorem wrap_isInt (z : ℤ) : IsInt (wrap z) := by
  have hlow := @Int.le_bmod z (2 ^ 32) (by decide)
  have hhigh := @Int.bmod_lt z (2 ^ 32) (by decide)
  unfold IsInt wrap
  omega

theorem wrap_of_isInt (h : IsInt z) : wrap z = z := by
  obtain ⟨hlow, hhigh⟩ := h
  exact Int.bmod_eq_of_le (by omega) (by omega)

/-- Only what is too small becomes larger. -/
theorem le_wrap (h : z < 2 ^ 31) : z ≤ wrap z := by
  by_cases hlow : -2 ^ 31 ≤ z
  · rw [wrap_of_isInt ⟨hlow, h⟩]
  · have hint := wrap_isInt z
    exact (not_le.1 hlow).le.trans hint.1

theorem scanLoop_isInt : ∀ {s : List UInt8} {value : ℤ} {r : ℤ × List UInt8}, IsInt value →
    scanLoop value s = .ok r → IsInt r.1
  | [], _, _, _, h => by cases h
  | c :: s, value, r, hvalue, h => by
    rw [scanLoop] at h
    split at h
    · exact scanLoop_isInt (wrap_isInt _) h
    · cases h
      exact hvalue

theorem modifier_isInt {r : Mods × List UInt8} (hwidth : IsInt m.width) (hprec : IsInt m.prec)
    (h : modifier ch fmt m = .ok (some r)) : IsInt r.1.width ∧ IsInt r.1.prec := by
  have hzero : IsInt 0 := ⟨by decide, by decide⟩
  unfold modifier at h
  split at h
  · cases h
  · cases h
    exact ⟨hwidth, hprec⟩
  · split at h
    · cases h
    · rename_i hscan
      cases h
      exact ⟨hwidth, scanLoop_isInt hzero hscan⟩
  · split at h
    · cases h
    · rename_i hscan
      cases h
      exact ⟨scanLoop_isInt hzero hscan, hprec⟩

theorem modifiers_isInt : ∀ {fuel : ℕ} {ch : UInt8} {fmt : List UInt8} {m : Mods} {r : Mods × UInt8 × List UInt8},
    IsInt m.width → IsInt m.prec → modifiers fuel ch fmt m = .ok r → IsInt r.1.width ∧ IsInt r.1.prec
  | 0, _, _, _, _, _, _, h => by cases h
  | fuel + 1, ch, fmt, m, r, hwidth, hprec, h => by
    rw [modifiers] at h
    split at h
    · cases h
    · cases h
      exact ⟨hwidth, hprec⟩
    · rename_i m' rest hmod
      obtain ⟨hwidth', hprec'⟩ := modifier_isInt hwidth hprec hmod
      split at h
      · cases h
      · split at h
        · cases h
          exact ⟨hwidth', hprec'⟩
        · exact modifiers_isInt hwidth' hprec' h

/-- The width and the precision of a conversion. -/
theorem token_isInt (h : token v fuel fmt flags = .ok (.conversion ch m, rest)) : IsInt m.width ∧ IsInt m.prec := by
  have hstart : IsInt (-1) := ⟨by decide, by decide⟩
  unfold token at h
  split at h
  · cases h
  split at h
  · cases h
  split at h
  · cases h
  split at h
  · cases h
  split at h
  · cases h
  split at h
  · cases h
  rename_i hmods
  split at h
  · cases h
  · cases h
    exact modifiers_isInt hstart hstart hmods

end Ints

section Lengths

variable {n base : ℕ} {flags f g e : Flags} {prec width : ℤ} {rev : List UInt8} {c : UInt8}

theorem padTo_length (rev : List UInt8) (n : ℤ) (c : UInt8) : (padTo rev n c).length = max rev.length n.toNat := by
  unfold padTo
  rw [List.length_append, List.length_replicate]
  omega

/-- The number of digits does not depend on the flags. -/
theorem revDigits_length (f g : Flags) (base : ℕ) : ∀ places n : ℕ,
    (revDigits f base places n).length = (revDigits g base places n).length
  | 0, _ => rfl
  | places + 1, n => by
    rw [revDigits, revDigits, List.length_cons, List.length_cons]
    split
    · rfl
    · rw [revDigits_length f g base places]

theorem numberText_length (n base : ℕ) (flags : Flags) (prec width : ℤ) : (numberText n base flags prec width).length =
    max (max (revDigits .none base 11 n).length (min prec 11).toNat) (min width 11).toNat := by
  unfold numberText numberString
  rw [List.length_reverse, padTo_length, padTo_length, MIN_eq, MIN_eq, revDigits_length flags .none]

/-- Zero padding does not change the length. -/
theorem zeroPadded_length (n base : ℕ) (f g : Flags) (prec width : ℤ) :
    (numberText n base f (zeroPadded g prec width) width).length =
      max (max (revDigits .none base 11 n).length (min prec 11).toNat) (min width 11).toNat := by
  rw [numberText_length]
  unfold zeroPadded
  split
  · omega
  · rfl

theorem digit_ne (flags : Flags) (d : ℕ) : digit flags d ≠ ascii 'x' := by
  have hall : ∀ c ∈ digitTable, c ≠ ascii 'x' := by decide +kernel
  unfold digit
  rw [List.getD_eq_getElem?_getD]
  cases h : digitTable[if flags.smalls = true then 16 + d else d]? with
  | none => decide
  | some c => exact hall c (List.mem_of_getElem? h)

theorem revDigits_ne (flags : Flags) (base : ℕ) : ∀ (places n : ℕ), ∀ c ∈ revDigits flags base places n, c ≠ ascii 'x'
  | 0, _, c, h => absurd h List.not_mem_nil
  | places + 1, n, c, h => by
    rw [revDigits] at h
    rcases List.mem_cons.1 h with rfl | h
    · exact digit_ne flags _
    · split at h
      · exact absurd h List.not_mem_nil
      · exact revDigits_ne flags base places _ c h

/-- A number has no `x`. -/
theorem numberText_ne (n base : ℕ) (flags : Flags) (prec width : ℤ) :
    ∀ c ∈ numberText n base flags prec width, c ≠ ascii 'x' := by
  intro c hc
  unfold numberText numberString padTo at hc
  rw [List.mem_reverse, List.mem_append, List.mem_append] at hc
  rcases hc with (hc | hc) | hc
  · exact revDigits_ne flags base 11 n c hc
  · rw [List.eq_of_mem_replicate hc]
    decide
  · rw [List.eq_of_mem_replicate hc]
    decide

end Lengths

/-! ## Texts with flags that are left over -/

section Grow

variable {fuel position other : ℕ} {ch : UInt8} {m : Mods} {args rest : List Arg} {e f g : Flags} {p q : Piece}
  {i j : Input}

theorem signs_grow (f e : Flags) (arg : UInt32) : (signs f arg).length ≤ (signs (f.or e) arg).length := by
  unfold signs Flags.or
  rw [List.length_append, List.length_append]
  refine Nat.add_le_add_left ?_ _
  cases f.sign <;> cases f.space <;> cases e.sign <;> cases e.space <;> simp

theorem stringText_eq {prec : ℤ} (hprec : IsInt prec) (h : (position : ℤ) + prec < 2 ^ 31) (s : List UInt8) :
    stringText prec position s =
      if prec = -1 then s.takeWhile (· ≠ 0) else (s.takeWhile (· ≠ 0)).take prec.toNat := by
  have hlow := hprec.1
  unfold stringText
  rw [wrap_of_isInt ⟨by omega, h⟩]
  split
  · rfl
  · congr 1
    omega

/-- The text of a hexadecimal number, in the alternative form or not. -/
def hexPiece (alt : Bool) (n : ℕ) (flags : Flags) (prec width : ℤ) : Piece :=
  ⟨if alt then [ascii '0'] else [], (if alt then [ascii 'x'] else []) ++
    numberText n 16 flags (zeroPadded flags prec (if alt then wrap (width - 2) else width))
      (if alt then wrap (width - 2) else width)⟩

theorem hexPiece_grow {alt alt' : Bool} (halt : alt = true → alt' = true) (n : ℕ) (f g : Flags) {prec width : ℤ}
    (hwidth : IsInt width) :
    (hexPiece alt n f prec width).text.length ≤ (hexPiece alt' n g prec width).text.length ∧
      ((hexPiece alt n f prec width).text = (hexPiece alt' n g prec width).text →
        hexPiece alt' n g prec width = hexPiece alt n f prec width) := by
  cases alt with
  | true =>
    rw [halt rfl]
    unfold hexPiece Piece.text
    simp only [if_true, List.singleton_append, List.length_cons, zeroPadded_length]
    refine ⟨le_rfl, fun htext => ?_⟩
    rw [(List.cons_inj_right _).1 ((List.cons_inj_right _).1 htext)]
  | false =>
    cases alt' with
    | true =>
      unfold hexPiece Piece.text
      simp only [if_true, Bool.false_eq_true, if_false, List.nil_append, List.singleton_append, List.length_cons,
        zeroPadded_length]
      refine ⟨?_, fun htext => ?_⟩
      · have hwrap : width - 2 ≤ wrap (width - 2) := le_wrap (by have hhigh := hwidth.2; omega)
        omega
      · -- the second character is an `x`
        refine absurd rfl (numberText_ne n 16 f (zeroPadded f prec width) width (ascii 'x') ?_)
        rw [htext]
        exact List.mem_cons_of_mem _ List.mem_cons_self
    | false =>
      unfold hexPiece Piece.text
      simp only [Bool.false_eq_true, if_false, List.nil_append, zeroPadded_length]
      refine ⟨le_rfl, fun htext => ?_⟩
      rw [htext]

/-- **Flags that are left over** do not make a text shorter, and where they do not change it, they do not change its
parts either. -/
theorem pieceOf_grow (hwidth : IsInt m.width) (hprec : IsInt m.prec)
    (hq : pieceOf ch m args position = .ok (q, f, rest)) (hp : pieceOf ch (m.or e) args other = .ok (p, g, rest)) :
    ((conversionOf ch = .string → (position : ℤ) + m.prec < 2 ^ 31 ∧ (other : ℤ) + m.prec < 2 ^ 31) →
      q.text.length ≤ p.text.length) ∧ (q.text = p.text → p = q) := by
  unfold pieceOf at hq hp
  cases hc : conversionOf ch with
  | signed =>
    rw [hc] at hq hp
    simp only at hq hp
    cases hva : vaWord args with
    | error x =>
      rw [hva] at hq
      cases hq
    | ok r =>
      rw [hva] at hq hp
      cases hq
      cases hp
      have hlen : (numberText (magnitude r.1).toNat 10 m.flags 0 0).length =
          (numberText (magnitude r.1).toNat 10 (m.or e).flags 0 0).length := by
        rw [numberText_length, numberText_length]
      unfold Piece.text
      simp only [List.length_append]
      refine ⟨fun _ => ?_, fun htext => ?_⟩
      · have hsigns := signs_grow m.flags e r.1
        exact Nat.add_le_add hsigns hlen.le
      · have hforced := List.append_inj' htext hlen
        rw [hforced.1, hforced.2]
  | unsigned base =>
    rw [hc] at hq hp
    simp only at hq hp
    cases hva : vaWord args with
    | error x =>
      rw [hva] at hq
      cases hq
    | ok r =>
      rw [hva] at hq hp
      cases hq
      cases hp
      unfold Piece.text
      simp only [List.nil_append]
      refine ⟨fun _ => ?_, fun htext => ?_⟩
      · rw [zeroPadded_length]
        exact (zeroPadded_length r.1.toNat base (m.or e).flags (m.or e).flags m.prec m.width).ge
      · rw [htext]
  | hex pointer smalls =>
    rw [hc] at hq hp
    simp only at hq hp
    cases hva : vaWord args with
    | error x =>
      rw [hva] at hq
      cases hq
    | ok r =>
      rw [hva] at hq hp
      cases hq
      cases hp
      have halt : (m.flags.alt || pointer) = true → ((m.or e).flags.alt || pointer) = true := by
        unfold Mods.or Flags.or
        cases m.flags.alt <;> cases e.alt <;> cases pointer <;> simp
      obtain ⟨hlen, hsame⟩ := @hexPiece_grow _ _ halt r.1.toNat
        { m.flags with alt := m.flags.alt || pointer, smalls := m.flags.smalls || smalls }
        { (m.or e).flags with alt := (m.or e).flags.alt || pointer, smalls := (m.or e).flags.smalls || smalls }
        m.prec m.width hwidth
      exact ⟨fun _ => hlen, hsame⟩
  | char =>
    rw [hc] at hq hp
    simp only at hq hp
    cases hva : vaWord args with
    | error x =>
      rw [hva] at hq
      cases hq
    | ok r =>
      rw [hva] at hq hp
      cases hq
      cases hp
      exact ⟨fun _ => le_rfl, fun _ => rfl⟩
  | string =>
    rw [hc] at hq hp
    simp only at hq hp
    cases hva : vaString args with
    | error x =>
      rw [hva] at hq
      cases hq
    | ok r =>
      rw [hva] at hq hp
      cases hq
      cases hp
      unfold Piece.text
      simp only [List.nil_append]
      refine ⟨fun hsmall => ?_, fun htext => ?_⟩
      · obtain ⟨hpos, hother⟩ := hsmall trivial
        rw [stringText_eq hprec hpos]
        exact (congrArg List.length (stringText_eq hprec hother r.1)).ge
      · rw [htext]
  | unknown =>
    rw [hc] at hq hp
    cases hq
    cases hp
    exact ⟨fun _ => le_rfl, fun _ => rfl⟩

end Grow

/-! ## The condition is exact -/

/-- No precision of a string leads beyond the range of `int`. -/
def NoOverflow (size : ℤ) (a : Progress) : Prop :=
  ∀ b, Reaches .userland a b → (b.text.length : ℤ) < size → ∀ fuel ch m fmt,
    token .userland fuel b.input.fmt b.input.flags = .ok (.conversion ch m, fmt) → conversionOf ch = .string →
      (b.text.length : ℤ) + m.prec < 2 ^ 31

/-- Both outputs are truncated, to the same text. -/
def CutAlike (size : ℤ) (a : Progress) : Prop :=
  Clean .kernel size a ∧ Clean .userland size a ∧ ∃ text, Truncated .kernel size a text ∧ Truncated .userland size a text

/-- Both outputs run over the buffer, behind the same text. -/
def OverrunAlike (size : ℤ) (a : Progress) : Prop :=
  ∃ b c, Reaches .kernel a b ∧ Overruns .kernel size b ∧ Reaches .userland a c ∧ Overruns .userland size c ∧
    b.text = c.text

section Exact

variable {v : Version} {size : ℤ} {fuel more position other : ℕ} {fmt : List UInt8} {args : List Arg}
  {a b c K U : Progress} {i j : Input} {p q : Piece} {r r' : Output × ℤ} {text text' : List UInt8} {o o' : Output}

theorem Reaches.isPrefix (h : Reaches v a b) : a.text <+: b.text := by
  induction h with
  | refl => exact List.prefix_rfl
  | tail _ hstep ih =>
    obtain ⟨-, p, -, htext⟩ := hstep
    rw [htext]
    exact ih.trans (List.prefix_append _ _)

/-- Of two places that are reached one is reached from the other. -/
theorem Reaches.total (hb : Reaches v a b) (hc : Reaches v a c) : Reaches v b c ∨ Reaches v c b :=
  Relation.ReflTransGen.total_of_right_unique (fun _ _ _ h1 h2 => h1.unique h2) hb hc

/-- The end of a format that fits is behind all places that are reached. -/
theorem AtEnd.longest (hend : AtEnd v b) (hb : Reaches v a b) (hc : Reaches v a c) : c.text.length ≤ b.text.length := by
  rcases hb.total hc with hbc | hcb
  · rw [hend.reaches hbc]
  · exact Reaches.grows hcb

theorem truncated_unique (h : Truncated v size a text) (h' : Truncated v size a text') : text = text' := by
  obtain ⟨b, hb, hlen, rfl⟩ := h
  obtain ⟨c, hc, hlen', rfl⟩ := h'
  have htake : ∀ {b c : Progress}, Reaches v b c → size ≤ b.text.length →
      b.text.take (size.toNat - 1) = c.text.take (size.toNat - 1) := by
    intro b c hbc hlen
    obtain ⟨rest, hrest⟩ := hbc.isPrefix
    rw [← hrest, List.take_append_of_le_length (by omega)]
  rcases hb.total hc with hbc | hcb
  · exact htake hbc hlen
  · exact (htake hcb hlen').symm

theorem Texts.grow (h : Texts fuel i j position other q p)
    (hsmall : ∀ ch m fmt, token .userland fuel j.fmt j.flags = .ok (.conversion ch m, fmt) → conversionOf ch = .string →
      (other : ℤ) + m.prec < 2 ^ 31) (hle : position ≤ other) : q.text.length ≤ p.text.length := by
  cases h with
  | plain ch => exact le_rfl
  | conversion ch m fmt q p f g rest htoken huser hq hp =>
    obtain ⟨hwidth, hprec⟩ := token_isInt htoken
    refine (pieceOf_grow hwidth hprec hq hp).1 fun hstring => ?_
    have hother := hsmall ch (m.or j.flags) fmt huser hstring
    have hprec' : (m.or j.flags).prec = m.prec := rfl
    rw [hprec'] at hother
    omega

theorem Texts.same (h : Texts fuel i j position other q p) (htext : q.text = p.text) : p = q := by
  cases h with
  | plain ch => rfl
  | conversion ch m fmt q p f g rest htoken huser hq hp =>
    obtain ⟨hwidth, hprec⟩ := token_isInt htoken
    exact (pieceOf_grow hwidth hprec hq hp).2 htext

theorem NoOverflow.step (h : NoOverflow size a) (hstep : Directive .userland a b) : NoOverflow size b :=
  fun c hc => h c (Relation.ReflTransGen.head hstep hc)

/-- Where the text of the kernel goes on, the other one does as well. -/
theorem step_userland (halike : Alike a.input b.input) (hstep : Directive .kernel a c) (hU : Reaches .userland b U)
    (hend : AtEnd .userland U) : ∃ fuel q p d, c.text = a.text ++ q.text ∧ d.text = b.text ++ p.text ∧
      read .kernel fuel a.input a.text.length = .ok (some (q, c.input)) ∧
      read .userland fuel b.input b.text.length = .ok (some (p, d.input)) ∧ Alike c.input d.input ∧
      Texts fuel a.input b.input a.text.length b.text.length q p ∧ Reaches .userland d U := by
  obtain ⟨fuel, q, hread, htext⟩ := hstep
  rcases read_versions halike fuel a.text.length b.text.length with
    ⟨x, hx, -⟩ | ⟨hnone, -⟩ | ⟨q', i', p, j', hq, hp, halike', htexts⟩
  · rw [hread] at hx
    cases hx
  · rw [hread] at hnone
    cases hnone
  rw [hread] at hq
  cases hq
  refine ⟨fuel, q, p, ⟨b.text ++ p.text, j'⟩, htext, rfl, hread, hp, halike', htexts, ?_⟩
  rcases Relation.ReflTransGen.cases_head hU with rfl | ⟨d, hd, hreach⟩
  · obtain ⟨more, hnone⟩ := hend
    cases read_unique hp hnone
  · have hsame : d = ⟨b.text ++ p.text, j'⟩ := hd.unique ⟨fuel, p, hp, rfl⟩
    rwa [hsame] at hreach

/-- **The text of the copy** is not shorter than that of the kernel. -/
theorem ends_grow (hK : Reaches .kernel a K) : ∀ {b : Progress}, AtEnd .userland U → Reaches .userland b U →
    Alike a.input b.input → a.text.length ≤ b.text.length → (U.text.length : ℤ) < size → NoOverflow size b →
    K.text.length + b.text.length ≤ U.text.length + a.text.length := by
  induction hK using Relation.ReflTransGen.head_induction_on with
  | refl =>
    intro b _ hU _ _ _ _
    have hgrows := Reaches.grows hU
    omega
  | @head a c hstep _ ih =>
    intro b hend hU halike hle hroom hsmall
    obtain ⟨fuel, q, p, d, hc, hd, hq, hp, halike', htexts, hU'⟩ := step_userland halike hstep hU hend
    have hgrows := Reaches.grows hU
    have hpiece := htexts.grow (hsmall b Relation.ReflTransGen.refl (by omega) fuel) hle
    have hcd : c.text.length ≤ d.text.length := by
      rw [hc, hd, List.length_append, List.length_append]
      omega
    have hrest := ih hend hU' halike' hcd hroom (hsmall.step ⟨fuel, p, hp, hd⟩)
    rw [hc, hd, List.length_append, List.length_append] at hrest
    omega

/-- **Whole texts that are the same** are the same text by text. -/
theorem same_of_ends (hK : Reaches .kernel a K) : ∀ {b : Progress}, AtEnd .kernel K → AtEnd .userland U →
    Reaches .userland b U → Alike a.input b.input → a.text = b.text → K.text = U.text → (U.text.length : ℤ) < size →
    NoOverflow size b → SameConversions size b := by
  induction hK using Relation.ReflTransGen.head_induction_on with
  | refl =>
    intro b hendK _ _ halike htext _ _ _ c hreach _ fuel p i q j hp _
    obtain ⟨more, hnone⟩ := hendK
    have hend : AtEnd .userland b := by
      rcases read_versions halike more K.text.length b.text.length with
        ⟨x, hx, -⟩ | ⟨-, hnone'⟩ | ⟨q', i', p', j', hq', -⟩
      · rw [hnone] at hx
        cases hx
      · exact ⟨more, hnone'⟩
      · rw [hnone] at hq'
        cases hq'
    rw [hend.reaches hreach] at hp
    obtain ⟨more', hnone'⟩ := hend
    cases read_unique hp hnone'
  | @head a c hstep hreachK ih =>
    intro b hendK hendU hU halike htext hKU hroom hsmall
    obtain ⟨fuel, q, p, d, hc, hd, hq, hp, halike', htexts, hU'⟩ := step_userland halike hstep hU hendU
    have hgrows := Reaches.grows hU
    have hdir : Directive .userland b d := ⟨fuel, p, hp, hd⟩
    have hpiece := htexts.grow (hsmall b Relation.ReflTransGen.refl (by omega) fuel) (by rw [htext])
    have hcd : c.text.length ≤ d.text.length := by
      rw [hc, hd, htext, List.length_append, List.length_append]
      omega
    have hrest := ends_grow hreachK hendU hU' halike' hcd hroom (hsmall.step hdir)
    rw [hKU] at hrest
    -- texts of the same length at the start of the same text
    have hsame : c.text = d.text := by
      have hstart := Reaches.isPrefix hreachK
      rw [hKU] at hstart
      exact List.IsPrefix.eq_of_length (List.prefix_of_prefix_length_le hstart (Reaches.isPrefix hU') hcd) (by omega)
    have hqp : q.text = p.text := by
      rw [hc, hd, htext] at hsame
      exact List.append_cancel_left hsame
    have hpq := htexts.same hqp
    intro x hx hxroom
    rcases Relation.ReflTransGen.cases_head hx with rfl | ⟨y, hy, hyx⟩
    · intro fuel' p' i' q' j' hp' hq'
      have hp'' := read_unique hp' hp
      have hkernel := read_kernel halike hq
      obtain ⟨j'', hkernel⟩ := hkernel
      rw [htext] at hkernel
      have hq'' := read_unique hq' hkernel
      cases hp''
      cases hq''
      exact hpq
    · rw [hy.unique hdir] at hyx
      exact ih hendK hendU hU' halike' hsame hKU hroom (hsmall.step hdir) x hyx hxroom

end Exact

section Final

variable {v : Version} {size : ℤ} {fuel more : ℕ} {fmt : List UInt8} {args : List Arg} {a : Progress}
  {r r' : Output × ℤ} {text text' : List UInt8} {o : Output}

theorem finish_versions (size : ℤ) (o : Output) : finish .kernel size .none o = finish .userland size .none o := by
  have hsame : ∀ o c, printc .kernel o c .none = printc .userland o c .none := by
    intro o c
    rw [printc_buffer rfl, printc_buffer rfl]
  unfold finish
  rw [hsame, hsame]

/-- The loop of a call that has ended. -/
theorem loop_of_vxnprintf {flags : Flags} (hsize : 0 < size) (h : vxnprintf v fuel size fmt args flags = .ok r) :
    ∃ s, loop v size fuel ⟨fmt, args, flags⟩ .start = .ok s ∧ r = finish v size flags s.2 := by
  unfold vxnprintf at h
  rw [if_neg (not_le.2 hsize)] at h
  split at h
  · cases h
  · rename_i i o hloop
    cases h
    exact ⟨(i, o), hloop, rfl⟩

theorem agree_of_same (hsize : 0 < size) (hk : vxnprintf .kernel fuel size fmt args .none = .ok r)
    (hu : vxnprintf .userland more size fmt args .none = .ok r')
    (hsame : SameConversions size (.start fmt args .none)) : Agree size r r' := by
  obtain ⟨s, hs, rfl⟩ := loop_of_vxnprintf hsize hk
  obtain ⟨s', hs', rfl⟩ := loop_of_vxnprintf hsize hu
  have hloop := loop_fuel (le_max_left fuel more) hs
  have hloop' := loop_fuel (le_max_right fuel more) hs'
  rw [← filled_nil false] at hloop hloop'
  have hout : s.2 = s'.2 := loops_agree ⟨rfl, rfl, rfl⟩ rfl hsize hsame hloop hloop'
  rw [hout, finish_versions]
  exact ⟨fun _ _ => rfl, rfl⟩

theorem mem_of_valueAt {k : ℤ} {c : UInt8} (h : valueAt o k = some c) : ∃ s ∈ o.stores, s.1 = k := by
  unfold valueAt at h
  obtain ⟨s, hs, -⟩ := Option.map_eq_some_iff.1 h
  have hfound := List.find?_some hs
  rw [decide_eq_true_eq] at hfound
  exact ⟨s, List.mem_reverse.1 (List.mem_of_find?_eq_some hs), hfound⟩

/-- A text that is in the buffer with its terminator is shorter than the buffer. -/
theorem Respects.short (h : Respects v size a r)
    (htext : ∀ k : ℕ, k < text.length + 1 → valueAt r.1 k = (text ++ [0])[k]?) : (text.length : ℤ) < size := by
  have hlast := htext text.length (Nat.lt_succ_self _)
  rw [List.getElem?_concat_length] at hlast
  obtain ⟨s, hs, hk⟩ := mem_of_valueAt hlast
  have hin := (h.inside s hs).2
  rwa [hk] at hin

/-- The same contents are the same text. -/
theorem text_eq {c : UInt8} (hlen : text.length = text'.length)
    (h : ∀ k : ℕ, k < text.length + 1 → (text ++ [c])[k]? = (text' ++ [c])[k]?) : text = text' := by
  refine List.append_cancel_right (List.ext_getElem? fun k => ?_ : text ++ [c] = text' ++ [c])
  by_cases hk : k < text.length + 1
  · exact h k hk
  · rw [List.getElem?_eq_none (by simp; omega), List.getElem?_eq_none (by simp; omega)]

theorem truncated_length (hsize : 0 < size) (h : Truncated v size a text) : (text.length : ℤ) + 1 = size := by
  obtain ⟨b, -, hlen, rfl⟩ := h
  rw [List.length_take]
  omega

theorem whole_not_truncated (hw : Whole v a text) (hlen : (text.length : ℤ) < size) : ¬ Truncated v size a text' := by
  rintro ⟨c, hc, hfull, -⟩
  obtain ⟨b, hb, hend, rfl⟩ := hw
  have hle := hend.longest hb hc
  omega

/-- Places behind as many characters have the same text. -/
theorem Reaches.text_unique {b c : Progress} (hb : Reaches v a b) (hc : Reaches v a c)
    (hlen : b.text.length = c.text.length) : b.text = c.text := by
  rcases hb.total hc with hbc | hcb
  · exact hbc.isPrefix.eq_of_length hlen
  · exact (hcb.isPrefix.eq_of_length hlen.symm).symm

/-- How a call ends: what is in the buffer, and the result. -/
inductive Ended (v : Version) (size : ℤ) (a : Progress) (r : Output × ℤ) : Prop
  | whole (text : List UInt8) : Clean v size a → Whole v a text → (text.length : ℤ) < size → r.2 = text.length →
      (∀ k : ℕ, k < text.length + 1 → valueAt r.1 k = (text ++ [0])[k]?) → Ended v size a r
  | cut (text : List UInt8) : Clean v size a → Truncated v size a text → r.2 = -1 →
      (∀ k : ℕ, k < text.length + 1 → valueAt r.1 k = (text ++ [0])[k]?) → Ended v size a r
  | overrun (b : Progress) : Reaches v a b → Overruns v size b → r.2 = size + 1 →
      (∀ k : ℕ, k < b.text.length + 1 → valueAt r.1 k = (b.text ++ [ascii '-'])[k]?) → Ended v size a r

theorem ended (hsize : 0 < size) (h : vxnprintf v fuel size fmt args .none = .ok r) :
    Ended v size (.start fmt args .none) r := by
  have hb : toTty v .none = false := by cases v <;> rfl
  obtain ⟨s, hloop, rfl⟩ := loop_of_vxnprintf hsize h
  have hout := @loop_outcome v size false fuel (.start fmt args .none) s hb hsize hloop
  by_cases hclean : Clean v size (.start fmt args .none)
  · have hright := (hout.respects hb hsize).2 hclean
    obtain ⟨text, hcont, ⟨hwhole, hret⟩ | ⟨htrunc, hret⟩⟩ := hright.string
    · exact .whole text hclean hwhole (hright.short hcont) hret hcont
    · exact .cut text hclean htrunc hret hcont
  · generalize s.2 = o at hout ⊢
    cases hout with
    | fits b hc => exact absurd hc hclean
    | cut b hc => exact absurd hc hclean
    | overrun b c hreach hover =>
      have hlen := hover.1
      have hne : (filled false (b.text ++ [ascii '-', c])).written ≠ size := by
        rw [filled_written, List.length_append]
        simp only [List.length_cons, List.length_nil]
        omega
      refine .overrun b hreach hover ?_ fun k hk => ?_
      · unfold finish
        rw [if_neg hne, filled_written, List.length_append]
        simp only [List.length_cons, List.length_nil]
        omega
      · unfold finish
        rw [if_neg hne, printc_buffer hb]
        have hbuf : (filled false (b.text ++ [ascii '-', c])).buf ≠ k := by
          show (((b.text ++ [ascii '-', c]).length : ℕ) : ℤ) ≠ k
          rw [List.length_append]
          simp only [List.length_cons, List.length_nil]
          omega
        have hsplit : b.text ++ [ascii '-', c] = (b.text ++ [ascii '-']) ++ [c] := by simp
        rw [valueAt_append, if_neg hbuf, valueAt_filled, hsplit, List.getElem?_append_left]
        rw [List.length_append, List.length_singleton]
        exact hk

/-- Calls that agree. -/
theorem agree_of_alike (hsize : 0 < size) (hk : vxnprintf .kernel fuel size fmt args .none = .ok r)
    (hu : vxnprintf .userland more size fmt args .none = .ok r') :
    SameConversions size (.start fmt args .none) ∨ CutAlike size (.start fmt args .none) ∨
      OverrunAlike size (.start fmt args .none) → Agree size r r' := by
  have hendk := ended hsize hk
  have hendu := ended hsize hu
  rintro (hsame | ⟨hcleank, hcleanu, text, htrunck, htruncu⟩ | ⟨b, c, hreachk, hoverk, hreachu, hoveru, htexts⟩)
  · exact agree_of_same hsize hk hu hsame
  · have hlen := truncated_length hsize htrunck
    cases hendk with
    | whole _ _ hwhole hshort _ _ => exact absurd htrunck (whole_not_truncated hwhole hshort)
    | overrun b hreach hover _ _ => exact absurd hover (hcleank b hreach)
    | cut textk _ htrunck' hretk hcontk =>
      cases hendu with
      | whole _ _ hwhole hshort _ _ => exact absurd htruncu (whole_not_truncated hwhole hshort)
      | overrun b hreach hover _ _ => exact absurd hover (hcleanu b hreach)
      | cut textu _ htruncu' hretu hcontu =>
        rw [truncated_unique htrunck' htrunck] at hcontk
        rw [truncated_unique htruncu' htruncu] at hcontu
        refine ⟨fun k hk => ?_, hretk.trans hretu.symm⟩
        rw [hcontk k (by omega), hcontu k (by omega)]
  · have hlenk := hoverk.1
    have hlenu := hoveru.1
    cases hendk with
    | whole _ hclean _ _ _ _ => exact absurd hoverk (hclean b hreachk)
    | cut _ hclean _ _ _ => exact absurd hoverk (hclean b hreachk)
    | overrun b' hreachk' hoverk' hretk hcontk =>
      cases hendu with
      | whole _ hclean _ _ _ _ => exact absurd hoveru (hclean c hreachu)
      | cut _ hclean _ _ _ => exact absurd hoveru (hclean c hreachu)
      | overrun c' hreachu' hoveru' hretu hcontu =>
        have hlenk' := hoverk'.1
        have hlenu' := hoveru'.1
        rw [hreachk'.text_unique hreachk (by omega)] at hcontk
        rw [hreachu'.text_unique hreachu (by omega)] at hcontu
        refine ⟨fun k hk => ?_, hretk.trans hretu.symm⟩
        rw [hcontk k (by omega), hcontu k (by omega), htexts]

/-- There are no others, unless a precision overflows. -/
theorem alike_of_agree (hsize : 0 < size) (hk : vxnprintf .kernel fuel size fmt args .none = .ok r)
    (hu : vxnprintf .userland more size fmt args .none = .ok r') (hsmall : NoOverflow size (.start fmt args .none))
    (hagree : Agree size r r') :
    SameConversions size (.start fmt args .none) ∨ CutAlike size (.start fmt args .none) ∨
      OverrunAlike size (.start fmt args .none) := by
  have hendk := ended hsize hk
  have hendu := ended hsize hu
  have hresult := hagree.result
  have hcont := hagree.contents
  cases hendk with
  | whole textk _ hwholek hshortk hretk hcontk =>
    cases hendu with
    | whole textu _ hwholeu hshortu hretu hcontu =>
      obtain ⟨K, hK, hatk, hKtext⟩ := hwholek
      obtain ⟨U, hU, hatu, hUtext⟩ := hwholeu
      have htexts : textk = textu := text_eq (by omega) fun k hk => by
        rw [← hcontk k hk, ← hcontu k (by omega)]
        exact hcont k (by omega)
      refine Or.inl (same_of_ends hK hatk hatu hU ⟨rfl, rfl, rfl⟩ rfl ?_ (by rwa [← hUtext]) hsmall)
      rw [← hKtext, ← hUtext, htexts]
    | cut textu _ _ hretu _ => omega
    | overrun c _ _ hretu _ => omega
  | cut textk hcleank htrunck hretk hcontk =>
    cases hendu with
    | whole textu _ _ _ hretu _ => omega
    | cut textu hcleanu htruncu hretu hcontu =>
      have hlenk := truncated_length hsize htrunck
      have hlenu := truncated_length hsize htruncu
      have htexts : textk = textu := text_eq (by omega) fun k hk => by
        rw [← hcontk k hk, ← hcontu k (by omega)]
        exact hcont k (by omega)
      rw [← htexts] at htruncu
      exact Or.inr (Or.inl ⟨hcleank, hcleanu, textk, htrunck, htruncu⟩)
    | overrun c _ _ hretu _ => omega
  | overrun b hreachk hoverk hretk hcontk =>
    cases hendu with
    | whole textu _ _ hshortu hretu _ => omega
    | cut textu _ _ hretu _ => omega
    | overrun c hreachu hoveru hretu hcontu =>
      have hlenk := hoverk.1
      have hlenu := hoveru.1
      have htexts : b.text = c.text := text_eq (by omega) fun k hk => by
        rw [← hcontk k hk, ← hcontu k (by omega)]
        exact hcont k (by omega)
      exact Or.inr (Or.inr ⟨b, c, hreachk, hoverk, hreachu, hoveru, htexts⟩)

/-- **The versions agree** where no text is changed by flags that are left over, and when both outputs are truncated to
the same text or both run over the buffer behind the same.  Unless a precision overflows, they agree just then. -/
theorem versions_agree (hsize : 0 < size) (hk : vxnprintf .kernel fuel size fmt args .none = .ok r)
    (hu : vxnprintf .userland more size fmt args .none = .ok r') :
    (SameConversions size (.start fmt args .none) ∨ CutAlike size (.start fmt args .none) ∨
        OverrunAlike size (.start fmt args .none) → Agree size r r') ∧
      (NoOverflow size (.start fmt args .none) →
        (Agree size r r' ↔ SameConversions size (.start fmt args .none) ∨ CutAlike size (.start fmt args .none) ∨
          OverrunAlike size (.start fmt args .none))) :=
  ⟨agree_of_alike hsize hk hu, fun hsmall => ⟨alike_of_agree hsize hk hu hsmall, agree_of_alike hsize hk hu⟩⟩

end Final

section Hex

/-- `"%x"` for the number 5. -/
def hexStart : Progress := .start (cstring "%x") [.word 5] .none

/-- What it has become. -/
def hexEnd : Progress := ⟨[ascii '5'], ⟨[0], [], { Flags.none with smalls := true }⟩⟩

def hexResult : Output × ℤ := (⟨[(0, ascii '5'), (1, 0)], [], 1, 1⟩, 1)

theorem hex_read (v : Version) : read v 1 hexStart.input 0 = .ok (some (⟨[], [ascii '5']⟩, hexEnd.input)) := by
  cases v with
  | kernel => decide +kernel
  | userland => decide +kernel

theorem hex_reaches {b : Progress} (h : Reaches .userland hexStart b) : b = hexStart ∨ b = hexEnd := by
  rcases Relation.ReflTransGen.cases_head h with rfl | ⟨c, hc, hreach⟩
  · exact Or.inl rfl
  · have hstep : Directive .userland hexStart hexEnd := ⟨1, _, hex_read .userland, rfl⟩
    rw [hc.unique hstep] at hreach
    have hend : AtEnd .userland hexEnd := ⟨0, by decide +kernel⟩
    exact Or.inr (hend.reaches hreach)

theorem hex_same : SameConversions 8 hexStart := by
  intro b hreach _ fuel p i q j hp hq
  rcases hex_reaches hreach with rfl | rfl
  · have hp' := read_unique hp (hex_read .userland)
    have hq' := read_unique hq (hex_read .kernel)
    cases hp'
    cases hq'
    rfl
  · have hend : read .userland 0 hexEnd.input hexEnd.text.length = .ok none := by decide +kernel
    cases read_unique hp hend

theorem hex_noOverflow : NoOverflow 8 hexStart := by
  intro b hreach _ fuel ch m fmt htoken hstring
  rcases hex_reaches hreach with rfl | rfl
  · have htoken' : token .userland 1 hexStart.input.fmt hexStart.input.flags =
        .ok (.conversion (ascii 'x') ⟨.none, -1, -1⟩, [0]) := by decide +kernel
    cases token_unique htoken htoken'
    exact absurd hstring (by decide)
  · have htoken' : token .userland 0 hexEnd.input.fmt hexEnd.input.flags = .ok (.finish, []) := by decide +kernel
    cases token_unique htoken htoken'

theorem versions_agree_hex : Agree 8 hexResult hexResult ∧
    (Agree 8 hexResult hexResult ↔ SameConversions 8 hexStart ∨ CutAlike 8 hexStart ∨ OverrunAlike 8 hexStart) := by
  obtain ⟨hsame, hexact⟩ := @versions_agree 8 3 3 (cstring "%x") [.word 5] hexResult hexResult (by decide)
    (by decide +kernel) (by decide +kernel)
  exact ⟨hsame (Or.inl hex_same), hexact hex_noOverflow⟩

/-- The flag of the first conversion changes the second one. -/
theorem flags_left_over : ∃ r r', vxnprintf .kernel 3 20 (cstring "%#x%x") [.word 1, .word 1] .none = .ok r ∧
    vxnprintf .userland 3 20 (cstring "%#x%x") [.word 1, .word 1] .none = .ok r' ∧ ¬ Agree 20 r r' := by
  have hk : vxnprintf .kernel 3 20 (cstring "%#x%x") [.word 1, .word 1] .none =
      .ok (⟨[(0, ascii '0'), (1, ascii 'x'), (2, ascii '1'), (3, ascii '1'), (4, 0)], [], 4, 4⟩, 4) := by
    decide +kernel
  have hu : vxnprintf .userland 3 20 (cstring "%#x%x") [.word 1, .word 1] .none =
      .ok (⟨[(0, ascii '0'), (1, ascii 'x'), (2, ascii '1'), (3, ascii '0'), (4, ascii 'x'), (5, ascii '1'), (6, 0)],
        [], 6, 6⟩, 6) := by
    decide +kernel
  exact ⟨_, _, hk, hu, fun h => absurd h.result (by decide)⟩

end Hex

end Buenos.Xprintf
