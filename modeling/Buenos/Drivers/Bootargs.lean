import Buenos.Lib.Libc
import Mathlib.Data.List.TakeWhile

/-!
# Boot arguments (`drivers/bootargs.c`)

* `Scan` — the variables of the loops of `bootargs_init`; they share the cursor `o`, and an iteration of
  either one is one byte.
* `keyLoop`, `valueLoop` — the outer and the inner loop, which call each other.
* `bootargsInit`, `bootargsGet` — the two functions; `none` is a write outside of `bootargs_values`, and
  that the fuel is used up.
* `pieces`, `keyOf`, `valueOf` — what the boot string says.

Principal results: `keyLoop_text` (a boot string with room for its pieces is cut into them, and any
other one is written past the table), `bootargsGet_first` and `bootargs_exact`.
-/

namespace Buenos.Bootargs

def CONFIG_BOOTARGS_MAX : ℕ := 32
def BOOT_ARGUMENT_AREA : ℕ := 0xb0001000

def SPACE : UInt8 := 32
def EQUALS : UInt8 := 61

/-! ## The table -/

/-- The `value` of an entry: the literal `""` or an address. -/
inductive Value where
  | emptyString
  | at (address : ℕ)
  deriving DecidableEq, Repr

/-- `struct bootargs_t`; the key `none` is `NULL`. -/
structure BootArg where
  key : Option ℕ
  value : Value
  deriving DecidableEq, Repr

/-- The memory, `bootargs_values`, and the variables `i` and `last`. -/
structure Scan where
  mem : Memory
  values : ℕ → BootArg
  i : ℕ
  last : ℕ

/-- `bmemcopy`. -/
def bmemcopy : ℕ → ℕ → ℕ → Memory → Memory
  | 0, _, _, mem => mem
  | len + 1, target, source, mem =>
    bmemcopy len (target + 1) (source + 1) (Function.update mem target (mem source))

mutual

/-- The outer loop from `o` on, with `k` bytes to go. -/
def keyLoop (valueArea : ℕ) : ℕ → ℕ → Scan → Option Scan
  | 0, _, s => some s
  | k + 1, o, s =>
    let c := s.mem (valueArea + o)
    if c = SPACE ∨ c = 0 ∨ c = EQUALS then
      if s.i < CONFIG_BOOTARGS_MAX then
        let values := Function.update s.values s.i ⟨some (valueArea + s.last), .emptyString⟩
        let mem := Function.update s.mem (valueArea + o) 0
        if c = EQUALS then valueLoop valueArea k (o + 1) ⟨mem, values, s.i, o + 1⟩
        else keyLoop valueArea k (o + 1) ⟨mem, values, s.i + 1, o + 1⟩
      else none
    else keyLoop valueArea k (o + 1) s

/-- The inner loop, which looks for the end of a value. -/
def valueLoop (valueArea : ℕ) : ℕ → ℕ → Scan → Option Scan
  | 0, _, s => some { s with i := s.i + 1 }
  | k + 1, o, s =>
    let c := s.mem (valueArea + o)
    if c = SPACE ∨ c = 0 then
      let entry := { s.values s.i with value := .at (valueArea + s.last) }
      keyLoop valueArea k (o + 1)
        ⟨Function.update s.mem (valueArea + o) 0, Function.update s.values s.i entry, s.i + 1, o + 1⟩
    else valueLoop valueArea k (o + 1) s

end

/-- `bootargs_init`: `kmalloc` returns `valueArea`, and the boot string ends before `size` bytes. -/
def bootargsInit (mem : Memory) (values : ℕ → BootArg) (valueArea size : ℕ) : Option Scan :=
  let values := fun i => if i < CONFIG_BOOTARGS_MAX then { values i with key := none } else values i
  match strlen mem BOOT_ARGUMENT_AREA size with
  | none => none
  | some l =>
    keyLoop valueArea (l + 1) 0 ⟨bmemcopy (l + 1) valueArea BOOT_ARGUMENT_AREA mem, values, 0, 0⟩

/-- The inner loop of `bootargs_get`: whether the strings at `p` and `q` are equal. -/
def sameKey (mem : Memory) (p q : ℕ) : ℕ → ℕ → Option Bool
  | 0, _ => none
  | fuel + 1, o =>
    if mem (p + o) = mem (q + o) then
      if mem (q + o) = 0 then some true else sameKey mem p q fuel (o + 1)
    else some false

/-- The outer loop of `bootargs_get` from entry `i` on, with `k` entries to go. -/
def getLoop (mem : Memory) (values : ℕ → BootArg) (key fuel : ℕ) : ℕ → ℕ → Option (Option Value)
  | 0, _ => some none
  | k + 1, i =>
    match (values i).key with
    | none => some none
    | some p =>
      match sameKey mem p key fuel 0 with
      | none => none
      | some true => some (some (values i).value)
      | some false => getLoop mem values key fuel k (i + 1)

/-- `bootargs_get`; the inner `none` is `NULL`. -/
def bootargsGet (mem : Memory) (values : ℕ → BootArg) (key fuel : ℕ) : Option (Option Value) :=
  getLoop mem values key fuel CONFIG_BOOTARGS_MAX 0

/-! ## The boot string -/

/-- The boot string, split at single spaces. -/
def pieces (text : List UInt8) : List (List UInt8) := text.splitOn SPACE

/-- The text before the first equals sign. -/
def keyOf (piece : List UInt8) : List UInt8 := piece.takeWhile (· ≠ EQUALS)

/-- The text after the first equals sign. -/
def valueOf (piece : List UInt8) : List UInt8 := (piece.dropWhile (· ≠ EQUALS)).tail

/-- What `value` points to. -/
def PointsTo (mem : Memory) : Value → List UInt8 → Prop
  | .emptyString, str => str = []
  | .at a, str => Terminated mem a str

/-- The entry holds the piece. -/
structure Holds (mem : Memory) (entry : BootArg) (piece : List UInt8) : Prop where
  key : ∃ p, entry.key = some p ∧ Terminated mem p (keyOf piece)
  value : PointsTo mem entry.value (valueOf piece)

/-! ## The loops -/

section Loops

variable {valueArea o k t n : ℕ} {s : Scan} {mem : Memory} {xs piece text : List UInt8} {c : UInt8}

/-- **`bmemcopy`** of areas that do not overlap. -/
theorem bmemcopy_copied (hd : Apart t n k) : Copied mem (bmemcopy k t n mem) t n k := by
  induction k generalizing t n mem with
  | zero => exact Copied.refl mem t n
  | succ k ih =>
    have hrest : Apart (t + 1) (n + 1) k := by
      unfold Apart at hd ⊢
      omega
    rw [Nat.add_comm k 1] at hd ⊢
    rw [Nat.add_comm 1 k, bmemcopy, Nat.add_comm k 1]
    exact (copied_byte mem t n).trans (ih hrest) hd

/-- The outer loop passes the characters of a key. -/
theorem keyLoop_skip (h : HoldsBytes s.mem (valueArea + o) xs)
    (hxs : ∀ c ∈ xs, c ≠ SPACE ∧ c ≠ 0 ∧ c ≠ EQUALS) :
    keyLoop valueArea (xs.length + k) o s = keyLoop valueArea k (o + xs.length) s := by
  induction xs generalizing o with
  | nil => simp
  | cons c xs ih =>
    obtain ⟨hc, hrest⟩ := holdsBytes_cons.1 h
    have hne := hxs c (by simp)
    rw [List.length_cons, show xs.length + 1 + k = xs.length + k + 1 by omega, keyLoop]
    simp only [hc]
    rw [if_neg (by simp [hne]), ih (by rwa [Nat.add_assoc] at hrest) fun c' hc' => hxs c' (by simp [hc'])]
    congr 1
    omega

/-- The inner loop passes the characters of a value. -/
theorem valueLoop_skip (h : HoldsBytes s.mem (valueArea + o) xs) (hxs : ∀ c ∈ xs, c ≠ SPACE ∧ c ≠ 0) :
    valueLoop valueArea (xs.length + k) o s = valueLoop valueArea k (o + xs.length) s := by
  induction xs generalizing o with
  | nil => simp
  | cons c xs ih =>
    obtain ⟨hc, hrest⟩ := holdsBytes_cons.1 h
    have hne := hxs c (by simp)
    rw [List.length_cons, show xs.length + 1 + k = xs.length + k + 1 by omega, valueLoop]
    simp only [hc]
    rw [if_neg (by simp [hne]), ih (by rwa [Nat.add_assoc] at hrest) fun c' hc' => hxs c' (by simp [hc'])]
    congr 1
    omega

/-- The character behind a key, when the table is full. -/
theorem keyLoop_full (hc : s.mem (valueArea + o) = c) (hend : c = SPACE ∨ c = 0 ∨ c = EQUALS)
    (hi : CONFIG_BOOTARGS_MAX ≤ s.i) : keyLoop valueArea (k + 1) o s = none := by
  rw [keyLoop]
  simp only [hc]
  rw [if_pos hend, if_neg (by omega)]

/-- The end of a piece without an equals sign. -/
theorem keyLoop_end (hc : s.mem (valueArea + o) = c) (hend : c = SPACE ∨ c = 0)
    (hi : s.i < CONFIG_BOOTARGS_MAX) :
    keyLoop valueArea (k + 1) o s = keyLoop valueArea k (o + 1)
      ⟨Function.update s.mem (valueArea + o) 0,
        Function.update s.values s.i ⟨some (valueArea + s.last), .emptyString⟩, s.i + 1, o + 1⟩ := by
  have hne : c ≠ EQUALS := by rcases hend with rfl | rfl <;> decide
  rw [keyLoop]
  simp only [hc]
  rw [if_pos (hend.imp_right Or.inl), if_pos hi, if_neg hne]

/-- The equals sign behind a key. -/
theorem keyLoop_equals (hc : s.mem (valueArea + o) = EQUALS) (hi : s.i < CONFIG_BOOTARGS_MAX) :
    keyLoop valueArea (k + 1) o s = valueLoop valueArea k (o + 1)
      ⟨Function.update s.mem (valueArea + o) 0,
        Function.update s.values s.i ⟨some (valueArea + s.last), .emptyString⟩, s.i, o + 1⟩ := by
  rw [keyLoop]
  simp only [hc]
  rw [if_pos (Or.inr (Or.inr trivial)), if_pos hi, if_pos trivial]

/-- The end of a value. -/
theorem valueLoop_end (hc : s.mem (valueArea + o) = c) (hend : c = SPACE ∨ c = 0) :
    valueLoop valueArea (k + 1) o s = keyLoop valueArea k (o + 1)
      ⟨Function.update s.mem (valueArea + o) 0,
        Function.update s.values s.i { s.values s.i with value := .at (valueArea + s.last) }, s.i + 1, o + 1⟩ := by
  rw [valueLoop]
  simp only [hc]
  rw [if_pos hend]

end Loops

/-! ## One piece -/

/-- A piece as the two loops read it. -/
theorem piece_cases (piece : List UInt8) :
    (EQUALS ∉ piece ∧ keyOf piece = piece ∧ valueOf piece = []) ∨
      (EQUALS ∉ keyOf piece ∧ piece = keyOf piece ++ EQUALS :: valueOf piece) := by
  by_cases h : EQUALS ∈ piece
  · obtain ⟨key, value, rfl, hkey⟩ := List.eq_append_cons_of_mem h
    have hall : ∀ c ∈ key, decide (c ≠ EQUALS) = true := by
      rintro c hc
      exact decide_eq_true fun he => hkey (he ▸ hc)
    have hk : keyOf (key ++ EQUALS :: value) = key := by
      rw [keyOf, List.takeWhile_append_of_pos hall]
      simp
    have hv : valueOf (key ++ EQUALS :: value) = value := by
      rw [valueOf, List.dropWhile_append_of_pos hall]
      simp
    right
    rw [hk, hv]
    exact ⟨hkey, rfl⟩
  · have hall : ∀ c ∈ piece, decide (c ≠ EQUALS) = true := by
      rintro c hc
      exact decide_eq_true fun he => h (he ▸ hc)
    left
    refine ⟨h, List.takeWhile_eq_self_iff.2 hall, ?_⟩
    rw [valueOf, List.dropWhile_eq_nil_iff.2 hall]
    rfl

section Piece

variable {valueArea o k : ℕ} {s : Scan} {mem : Memory} {piece key value text : List UInt8} {c : UInt8}

/-- The characters of a part of a piece that has no equals sign. -/
theorem plain_of_subset (hpiece : ∀ c ∈ piece, c ≠ SPACE ∧ c ≠ 0) (hsub : key ⊆ piece) (hno : EQUALS ∉ key) :
    ∀ c ∈ key, c ≠ SPACE ∧ c ≠ 0 ∧ c ≠ EQUALS := by
  intro c hc
  obtain ⟨hspace, hzero⟩ := hpiece c (hsub hc)
  exact ⟨hspace, hzero, fun he => hno (he ▸ hc)⟩

/-- A piece without an equals sign. -/
theorem keyLoop_plain (h : HoldsBytes s.mem (valueArea + o) (piece ++ [c])) (hend : c = SPACE ∨ c = 0)
    (hpiece : ∀ c ∈ piece, c ≠ SPACE ∧ c ≠ 0 ∧ c ≠ EQUALS) (hi : s.i < CONFIG_BOOTARGS_MAX) :
    keyLoop valueArea (piece.length + 1 + k) o s = keyLoop valueArea k (o + piece.length + 1)
      ⟨Function.update s.mem (valueArea + o + piece.length) 0,
        Function.update s.values s.i ⟨some (valueArea + s.last), .emptyString⟩, s.i + 1, o + piece.length + 1⟩ := by
  obtain ⟨hbytes, hterm⟩ := holdsBytes_append.1 h
  have hc := (holdsBytes_cons.1 hterm).1
  rw [Nat.add_assoc valueArea] at hc ⊢
  rw [Nat.add_assoc piece.length, keyLoop_skip hbytes hpiece, Nat.add_comm 1 k, keyLoop_end hc hend hi]

/-- A piece with an equals sign. -/
theorem keyLoop_assignment (h : HoldsBytes s.mem (valueArea + o) (key ++ EQUALS :: (value ++ [c])))
    (hend : c = SPACE ∨ c = 0) (hkey : ∀ c ∈ key, c ≠ SPACE ∧ c ≠ 0 ∧ c ≠ EQUALS)
    (hvalue : ∀ c ∈ value, c ≠ SPACE ∧ c ≠ 0) (hi : s.i < CONFIG_BOOTARGS_MAX) :
    keyLoop valueArea (key.length + 1 + value.length + 1 + k) o s =
      keyLoop valueArea k (o + key.length + 1 + value.length + 1)
        ⟨Function.update (Function.update s.mem (valueArea + (o + key.length)) 0)
            (valueArea + (o + key.length + 1 + value.length)) 0,
          Function.update s.values s.i ⟨some (valueArea + s.last), .at (valueArea + (o + key.length + 1))⟩,
          s.i + 1, o + key.length + 1 + value.length + 1⟩ := by
  obtain ⟨hbytes, hrest⟩ := holdsBytes_append.1 h
  obtain ⟨heq, hrest⟩ := holdsBytes_cons.1 hrest
  obtain ⟨hbytes', hterm⟩ := holdsBytes_append.1 hrest
  have hc := (holdsBytes_cons.1 hterm).1
  rw [Nat.add_assoc valueArea] at heq
  rw [show key.length + 1 + value.length + 1 + k = key.length + (value.length + (k + 1) + 1) by omega,
    keyLoop_skip hbytes hkey, keyLoop_equals heq hi]
  -- the cut behind the key leaves the value
  have hafter : ∀ x, valueArea + o + key.length + 1 ≤ x →
      Function.update s.mem (valueArea + (o + key.length)) 0 x = s.mem x := fun x hx =>
    Function.update_of_ne (by omega) ..
  have hvalueBytes : HoldsBytes (Function.update s.mem (valueArea + (o + key.length)) 0)
      (valueArea + (o + key.length + 1)) value := by
    rw [show valueArea + (o + key.length + 1) = valueArea + o + key.length + 1 by omega]
    exact hbytes'.frame fun i _ => hafter _ (by omega)
  have hvalueEnd : Function.update s.mem (valueArea + (o + key.length)) 0
      (valueArea + (o + key.length + 1 + value.length)) = c := by
    rw [hafter _ (by omega), ← hc]
    congr 1
    omega
  rw [valueLoop_skip hvalueBytes hvalue, valueLoop_end hvalueEnd hend]
  simp only [Function.update_self, Function.update_idem]

/-- **A piece and its end** become an entry, and nothing else is written. -/
theorem keyLoop_piece (h : HoldsBytes s.mem (valueArea + o) (piece ++ [c])) (hend : c = SPACE ∨ c = 0)
    (hpiece : ∀ c ∈ piece, c ≠ SPACE ∧ c ≠ 0) (hlast : s.last = o) (hi : s.i < CONFIG_BOOTARGS_MAX) :
    ∃ mem' entry, keyLoop valueArea (piece.length + 1 + k) o s =
        keyLoop valueArea k (o + piece.length + 1)
          ⟨mem', Function.update s.values s.i entry, s.i + 1, o + piece.length + 1⟩ ∧
      (∀ mem'', (∀ x, valueArea + o ≤ x → x < valueArea + o + piece.length + 1 → mem'' x = mem' x) →
        Bootargs.Holds mem'' entry piece) ∧
      ∀ x, x < valueArea + o ∨ valueArea + o + piece.length + 1 ≤ x → mem' x = s.mem x := by
  rcases piece_cases piece with ⟨hno, hkey, hvalue⟩ | ⟨hno, hsplit⟩
  · refine ⟨_, _, keyLoop_plain h hend (plain_of_subset hpiece (List.Subset.refl _) hno) hi,
      fun mem'' hsame => ⟨⟨_, rfl, ?_⟩, hvalue⟩, fun x hx => Function.update_of_ne (by omega) ..⟩
    rw [hkey, hlast]
    exact ((holdsBytes_append.1 h).1.terminate fun h0 => (hpiece 0 h0).2 rfl).frame fun b h1 h2 => hsame b h1 (by omega)
  · generalize hkeq : keyOf piece = key at *
    generalize hveq : valueOf piece = value at *
    subst hsplit
    have hkey := plain_of_subset hpiece (List.subset_append_left _ _) hno
    have hvalue : ∀ c ∈ value, c ≠ SPACE ∧ c ≠ 0 := fun c hc =>
      hpiece c (List.mem_append_right _ (List.mem_cons_of_mem _ hc))
    rw [List.append_assoc, List.cons_append] at h
    have hlen : (key ++ EQUALS :: value).length = key.length + 1 + value.length := by
      rw [List.length_append, List.length_cons]
      omega
    have hrun := keyLoop_assignment (k := k) h hend hkey hvalue hi
    rw [show o + key.length + 1 + value.length = o + (key ++ EQUALS :: value).length by omega, ← hlen] at hrun
    obtain ⟨hbytes, hrest⟩ := holdsBytes_append.1 h
    obtain ⟨heq, hrest⟩ := holdsBytes_cons.1 hrest
    refine ⟨_, _, hrun, fun mem'' hsame => ⟨⟨_, rfl, ?_⟩, ?_⟩, fun x hx => ?_⟩
    · rw [hkeq, hlast]
      have hcut : Terminated (Function.update s.mem (valueArea + o + key.length) 0) (valueArea + o) key :=
        hbytes.terminate fun h0 => (hkey 0 h0).2.1 rfl
      refine hcut.frame fun b h1 h2 => ?_
      rw [hsame b h1 (by omega), Function.update_of_ne (by omega), Nat.add_assoc]
    · rw [hveq]
      have hafter : HoldsBytes (Function.update s.mem (valueArea + (o + key.length)) 0)
          (valueArea + (o + key.length + 1)) (value ++ [c]) := by
        rw [show valueArea + (o + key.length + 1) = valueArea + o + key.length + 1 by omega]
        exact hrest.frame fun i _ => Function.update_of_ne (by omega) ..
      have hcut := (holdsBytes_append.1 hafter).1.terminate fun h0 => (hvalue 0 h0).2 rfl
      rw [show valueArea + (o + key.length + 1) + value.length =
        valueArea + (o + (key ++ EQUALS :: value).length) by omega] at hcut
      exact hcut.frame fun b h1 h2 => hsame b (by omega) (by omega)
    · rw [Function.update_of_ne (by omega), Function.update_of_ne (by omega)]

/-- A piece that finds the table full. -/
theorem keyLoop_piece_full (h : HoldsBytes s.mem (valueArea + o) (piece ++ [c])) (hend : c = SPACE ∨ c = 0)
    (hpiece : ∀ c ∈ piece, c ≠ SPACE ∧ c ≠ 0) (hi : CONFIG_BOOTARGS_MAX ≤ s.i) :
    keyLoop valueArea (piece.length + 1 + k) o s = none := by
  rcases piece_cases piece with ⟨hno, -, -⟩ | ⟨hno, hsplit⟩
  · obtain ⟨hbytes, hterm⟩ := holdsBytes_append.1 h
    have hc := (holdsBytes_cons.1 hterm).1
    rw [Nat.add_assoc valueArea] at hc
    rw [Nat.add_assoc, keyLoop_skip hbytes (plain_of_subset hpiece (List.Subset.refl _) hno),
      Nat.add_comm 1 k, keyLoop_full hc (hend.imp_right Or.inl) hi]
  · generalize keyOf piece = key at *
    generalize valueOf piece = value at *
    subst hsplit
    rw [List.append_assoc, List.cons_append] at h
    obtain ⟨hbytes, hrest⟩ := holdsBytes_append.1 h
    have heq := (holdsBytes_cons.1 hrest).1
    rw [Nat.add_assoc valueArea] at heq
    have hkey := plain_of_subset hpiece (List.subset_append_left _ _) hno
    rw [show (key ++ EQUALS :: value).length + 1 + k = key.length + (value.length + 1 + k + 1) by
        rw [List.length_append, List.length_cons]; omega,
      keyLoop_skip hbytes hkey, keyLoop_full heq (Or.inr (Or.inr rfl)) hi]

end Piece

/-! ## The boot string -/

section Text

variable {valueArea o : ℕ} {s : Scan} {mem : Memory} {text piece rest : List UInt8}

/-- The next entries hold the pieces, and nothing outside of the `size` bytes from `start` on and of these
entries has changed. -/
structure Filled (s s' : Scan) (start size : ℕ) (ps : List (List UInt8)) : Prop where
  entries : ∀ n piece, ps[n]? = some piece → Bootargs.Holds s'.mem (s'.values (s.i + n)) piece
  others : ∀ j, j < s.i ∨ s.i + ps.length ≤ j → s'.values j = s.values j
  outside : ∀ x, x < start ∨ start + size ≤ x → s'.mem x = s.mem x

theorem pieces_single (h : SPACE ∉ text) : pieces text = [text] := List.splitOn_eq_singleton h

theorem pieces_cons (h : SPACE ∉ piece) : pieces (piece ++ SPACE :: rest) = piece :: pieces rest := by
  rw [pieces, List.splitOn_append_cons_self, ← pieces, ← pieces, pieces_single h]
  rfl

theorem pieces_length_pos (text : List UInt8) : 0 < (pieces text).length :=
  List.length_pos_iff.2 (List.splitOn_ne_nil SPACE text)

/-- One more piece in front. -/
theorem Filled.cons {mem' : Memory} {entry : BootArg} {s' : Scan} {start : ℕ} {ps : List (List UInt8)}
    (h : Filled ⟨mem', Function.update s.values s.i entry, s.i + 1, o⟩ s' (start + piece.length + 1) (rest.length + 1) ps)
    (hholds : ∀ mem'', (∀ x, start ≤ x → x < start + piece.length + 1 → mem'' x = mem' x) →
      Bootargs.Holds mem'' entry piece)
    (houtside : ∀ x, x < start ∨ start + piece.length + 1 ≤ x → mem' x = s.mem x) :
    Filled s s' start (piece.length + 1 + (rest.length + 1)) (piece :: ps) := by
  refine ⟨fun n p hp => ?_, fun j hj => ?_, fun x hx => ?_⟩
  · cases n with
    | zero =>
      cases hp
      have hentry : s'.values s.i = entry :=
        (h.others s.i (Or.inl (Nat.lt_succ_self _))).trans (Function.update_self ..)
      rw [Nat.add_zero, hentry]
      exact hholds _ fun x _ hx => h.outside x (Or.inl hx)
    | succ n =>
      have hn := h.entries n p hp
      rwa [Nat.add_assoc, Nat.add_comm 1 n] at hn
  · rw [List.length_cons] at hj
    exact (h.others j (by simp only; omega)).trans (Function.update_of_ne (by omega) ..)
  · exact (h.outside x (by omega)).trans (houtside x (by omega))

/-- **A boot string with room for its pieces** is cut into them; with any other one the loop writes
outside of the table. -/
theorem keyLoop_text (h : Terminated s.mem (valueArea + o) text) (hlast : s.last = o) :
    (s.i + (pieces text).length ≤ CONFIG_BOOTARGS_MAX →
      ∃ s', keyLoop valueArea (text.length + 1) o s = some s' ∧
        Filled s s' (valueArea + o) (text.length + 1) (pieces text)) ∧
    (CONFIG_BOOTARGS_MAX < s.i + (pieces text).length → keyLoop valueArea (text.length + 1) o s = none) := by
  induction hn : text.length using Nat.strong_induction_on generalizing text o s with
  | _ n ih =>
    subst hn
    by_cases hspace : SPACE ∈ text
    · obtain ⟨piece, rest, rfl, hpiece⟩ := List.eq_append_cons_of_mem hspace
      have hchars : ∀ c ∈ piece, c ≠ SPACE ∧ c ≠ 0 := fun c hc =>
        ⟨fun he => hpiece (he ▸ hc), fun he => h.nonzero (List.mem_append_left _ (he ▸ hc))⟩
      have hbytes := h.bytes
      rw [List.append_assoc, List.cons_append, ← List.singleton_append, ← List.append_assoc] at hbytes
      obtain ⟨hfirst, hrest⟩ := holdsBytes_append.1 hbytes
      rw [List.length_append, List.length_singleton, ← Nat.add_assoc] at hrest
      have hzero : 0 ∉ rest := fun h0 => h.nonzero (List.mem_append_right _ (List.mem_cons_of_mem _ h0))
      have hlen : (piece ++ SPACE :: rest).length + 1 = piece.length + 1 + (rest.length + 1) := by
        rw [List.length_append, List.length_cons]
        omega
      have hcount := pieces_length_pos rest
      rw [pieces_cons hpiece, List.length_cons, hlen]
      by_cases hi : s.i < CONFIG_BOOTARGS_MAX
      · obtain ⟨mem', entry, hrun, hholds, houtside⟩ :=
          keyLoop_piece (k := rest.length + 1) hfirst (Or.inl rfl) hchars hlast hi
        have hterm : Terminated mem' (valueArea + (o + piece.length + 1)) rest := by
          rw [show valueArea + (o + piece.length + 1) = valueArea + o + piece.length + 1 by omega]
          exact ⟨hrest.frame fun i _ => houtside _ (by omega), hzero⟩
        obtain ⟨hfits, hfull⟩ := ih rest.length (by omega) (o := o + piece.length + 1)
          (s := ⟨mem', Function.update s.values s.i entry, s.i + 1, o + piece.length + 1⟩) hterm rfl rfl
        rw [hrun]
        refine ⟨fun hroom => ?_, fun hover => hfull (by simp only; omega)⟩
        obtain ⟨s', hs', hfilled⟩ := hfits (by simp only; omega)
        rw [show valueArea + (o + piece.length + 1) = valueArea + o + piece.length + 1 by omega] at hfilled
        exact ⟨s', hs', hfilled.cons hholds houtside⟩
      · refine ⟨fun hroom => absurd hroom (by omega), fun _ => ?_⟩
        exact keyLoop_piece_full hfirst (Or.inl rfl) hchars (by omega)
    · have hpiece : ∀ c ∈ text, c ≠ SPACE ∧ c ≠ 0 := fun c hc =>
        ⟨fun he => hspace (he ▸ hc), fun he => h.nonzero (he ▸ hc)⟩
      rw [pieces_single hspace, List.length_singleton]
      refine ⟨fun hroom => ?_, fun hfull => keyLoop_piece_full (k := 0) h.bytes (Or.inr rfl) hpiece (by omega)⟩
      obtain ⟨mem', entry, hrun, hholds, houtside⟩ :=
        keyLoop_piece (k := 0) h.bytes (Or.inr rfl) hpiece hlast (by omega)
      refine ⟨_, by rw [← Nat.add_zero (text.length + 1), hrun, keyLoop], fun n piece hp => ?_, fun j hj => ?_,
        houtside⟩
      · cases n with
        | zero =>
          cases hp
          simp only [Nat.add_zero, Function.update_self]
          exact hholds _ fun x _ _ => rfl
        | succ n => cases hp
      · rw [List.length_singleton] at hj
        exact Function.update_of_ne (by omega) ..

end Text

/-! ## Looking an argument up -/

section Get

variable {mem : Memory} {values : ℕ → BootArg} {address p q o fuel : ℕ} {key xs ys : List UInt8}

theorem sameKey_eq (hp : Terminated mem (p + o) xs) (hq : Terminated mem (q + o) ys) (hfuel : ys.length < fuel) :
    sameKey mem p q fuel o = some (decide (xs = ys)) := by
  induction ys generalizing xs o fuel with
  | nil =>
    obtain ⟨fuel, rfl⟩ : ∃ n, fuel = n + 1 := ⟨fuel - 1, by simp at hfuel; omega⟩
    have hzero : mem (q + o) = 0 := hq.zero
    rw [sameKey, hzero]
    cases xs with
    | nil =>
      have hpz : mem (p + o) = 0 := hp.zero
      simp [hpz]
    | cons x xs =>
      have hpc : mem (p + o) ≠ 0 := hp.char (show 0 < (x :: xs).length by simp)
      simp [hpc]
  | cons y ys ih =>
    obtain ⟨fuel, rfl⟩ : ∃ n, fuel = n + 1 := ⟨fuel - 1, by simp at hfuel; omega⟩
    have hy : mem (q + o) = y := (holdsBytes_cons.1 hq.bytes).1
    have hy0 : y ≠ 0 := fun h0 => hq.nonzero (by simp [h0])
    rw [sameKey, hy, if_neg hy0]
    cases xs with
    | nil =>
      have hpz : mem (p + o) = 0 := hp.zero
      simp [hpz, hy0.symm]
    | cons x xs =>
      have hx : mem (p + o) = x := (holdsBytes_cons.1 hp.bytes).1
      rw [hx]
      by_cases hxy : x = y
      · rw [if_pos hxy, ih (by rw [← Nat.add_assoc]; exact hp.tail) (by rw [← Nat.add_assoc]; exact hq.tail)
          (by simpa using hfuel)]
        simp [hxy]
      · simp [hxy]

/-- `r` is the value of the first of the pieces with this key, or `NULL`. -/
def FirstOf (mem : Memory) (ps : List (List UInt8)) (key : List UInt8) (r : Option Value) : Prop :=
  match ps.find? (fun piece => decide (keyOf piece = key)) with
  | none => r = none
  | some piece => ∃ value, r = some value ∧ PointsTo mem value (valueOf piece)

/-- The entry is free, or holds the piece. -/
def HoldsPiece (mem : Memory) (entry : BootArg) : Option (List UInt8) → Prop
  | none => entry.key = none
  | some piece => Holds mem entry piece

theorem getLoop_first (hkey : Terminated mem address key) (hfuel : key.length < fuel) (k i : ℕ)
    {ps : List (List UInt8)} (h : ∀ n < k, HoldsPiece mem (values (i + n)) ps[n]?) :
    ∃ r, getLoop mem values address fuel k i = some r ∧ FirstOf mem (ps.take k) key r := by
  induction k generalizing i ps with
  | zero => exact ⟨none, rfl, rfl⟩
  | succ k ih =>
    cases ps with
    | nil =>
      have hfree : (values i).key = none := h 0 (Nat.zero_lt_succ k)
      refine ⟨none, ?_, rfl⟩
      rw [getLoop, hfree]
    | cons piece ps =>
      obtain ⟨⟨p, hp, hterm⟩, hvalue⟩ : Holds mem (values i) piece := h 0 (Nat.zero_lt_succ k)
      have hsame : sameKey mem p address fuel 0 = some (decide (keyOf piece = key)) := sameKey_eq hterm hkey hfuel
      rw [getLoop, hp]
      simp only [hsame]
      by_cases heq : keyOf piece = key
      · refine ⟨some (values i).value, by simp [heq], ?_⟩
        rw [FirstOf, List.take_succ_cons, List.find?_cons_of_pos (by simp [heq])]
        exact ⟨_, rfl, hvalue⟩
      · have hrest : ∀ n < k, HoldsPiece mem (values (i + 1 + n)) ps[n]? := fun n hn => by
          have hn := h (n + 1) (Nat.succ_lt_succ hn)
          rwa [← Nat.add_assoc, Nat.add_right_comm, List.getElem?_cons_succ] at hn
        obtain ⟨r, hr, hfirst⟩ := ih (i + 1) hrest
        refine ⟨r, by simpa [heq] using hr, ?_⟩
        rw [FirstOf, List.take_succ_cons, List.find?_cons_of_neg (by simp [heq])]
        exact hfirst

end Get

/-! ## Boot arguments -/

section Arguments

variable {mem : Memory} {values : ℕ → BootArg} {valueArea size : ℕ} {text : List UInt8} {s : Scan}

/-- The table holds the first pieces of the boot string and is free behind them. -/
def Stored (s : Scan) (text : List UInt8) : Prop :=
  ∀ i < CONFIG_BOOTARGS_MAX, HoldsPiece s.mem (s.values i) (pieces text)[i]?

/-- `bootargs_get` returns, for every key, the value of the first stored piece with this key. -/
def Answers (s : Scan) (text : List UInt8) : Prop :=
  ∀ address key fuel, Terminated s.mem address key → key.length < fuel →
    ∃ r, bootargsGet s.mem s.values address fuel = some r ∧
      FirstOf s.mem ((pieces text).take CONFIG_BOOTARGS_MAX) key r

/-- `bootargs_init` returns and writes no entry outside of the table, and the boot string is in the table. -/
def Right (mem : Memory) (values : ℕ → BootArg) (valueArea size : ℕ) (text : List UInt8) : Prop :=
  ∃ s, bootargsInit mem values valueArea size = some s ∧
    (∀ i, CONFIG_BOOTARGS_MAX ≤ i → s.values i = values i) ∧ Stored s text ∧ Answers s text

/-- **`bootargs_get`** on a table that holds the boot string. -/
theorem bootargsGet_first (h : Stored s text) : Answers s text := by
  intro address key fuel hkey hfuel
  refine getLoop_first hkey hfuel CONFIG_BOOTARGS_MAX 0 fun n hn => ?_
  rw [Nat.zero_add]
  exact h n hn

/-- The boot string before the loops. -/
theorem copy_terminated (h : Terminated mem BOOT_ARGUMENT_AREA text)
    (hd : Apart valueArea BOOT_ARGUMENT_AREA (text.length + 1)) :
    Terminated (bmemcopy (text.length + 1) valueArea BOOT_ARGUMENT_AREA mem) valueArea text :=
  ⟨(bmemcopy_copied hd).holds h.bytes (by simp), h.nonzero⟩

/-- **`bootargs_init`** with more pieces than entries. -/
theorem bootargsInit_overflow (h : Terminated mem BOOT_ARGUMENT_AREA text) (hsize : text.length < size)
    (hd : Apart valueArea BOOT_ARGUMENT_AREA (text.length + 1)) (hmany : CONFIG_BOOTARGS_MAX < (pieces text).length) :
    bootargsInit mem values valueArea size = none := by
  have hcopy := copy_terminated h hd
  rw [bootargsInit, h.strlen hsize]
  exact (keyLoop_text (o := 0) hcopy rfl).2 (by simpa using hmany)

/-- **Boot arguments** are read as they stand, and only then, when the boot string has at most as many
pieces as the table has entries. -/
theorem bootargs_exact (h : Terminated mem BOOT_ARGUMENT_AREA text) (hsize : text.length < size)
    (hd : Apart valueArea BOOT_ARGUMENT_AREA (text.length + 1)) :
    Right mem values valueArea size text ↔ (pieces text).length ≤ CONFIG_BOOTARGS_MAX := by
  constructor
  · rintro ⟨s, hs, -⟩
    by_contra hmany
    rw [bootargsInit_overflow h hsize hd (by omega)] at hs
    cases hs
  · intro hroom
    have hcopy := copy_terminated h hd
    obtain ⟨s, hs, hfilled⟩ := (keyLoop_text (o := 0)
      (s := ⟨bmemcopy (text.length + 1) valueArea BOOT_ARGUMENT_AREA mem,
        fun i => if i < CONFIG_BOOTARGS_MAX then { values i with key := none } else values i, 0, 0⟩) hcopy rfl).1
      (by simpa using hroom)
    have hstored : Stored s text := by
      intro i hi
      cases hp : (pieces text)[i]? with
      | none =>
        have hfree := hfilled.others i (Or.inr (by simpa using List.getElem?_eq_none_iff.1 hp))
        simp only [if_pos hi] at hfree
        rw [HoldsPiece, hfree]
      | some piece =>
        have hentry := hfilled.entries i piece hp
        rwa [Nat.zero_add] at hentry
    refine ⟨s, ?_, fun i hi => ?_, hstored, bootargsGet_first hstored⟩
    · rw [bootargsInit, h.strlen hsize]
      exact hs
    · exact (hfilled.others i (Or.inr (by simp only; omega))).trans (if_neg (Nat.not_lt.2 hi))

end Arguments

/-- A memory with a boot string. -/
def bootMemory (text : List UInt8) : Memory := storeBytes (fun _ => 0) BOOT_ARGUMENT_AREA (text ++ [0])

theorem bootMemory_terminated {text : List UInt8} (h0 : 0 ∉ text) :
    Terminated (bootMemory text) BOOT_ARGUMENT_AREA text :=
  ⟨holdsBytes_storeBytes _ _ _, h0⟩

/-- The boot string `a=b=c  d`. -/
theorem bootargs_exact_values :
    Right (bootMemory [97, 61, 98, 61, 99, 32, 32, 100]) (fun _ => ⟨none, .emptyString⟩) 0x80100000 64
      [97, 61, 98, 61, 99, 32, 32, 100] :=
  (bootargs_exact (bootMemory_terminated (by decide)) (by decide) (by unfold Apart; decide)).2 (by decide)

/-- **Too many arguments**: the boot string of 32 spaces has 33 pieces. -/
theorem bootargs_overflow :
    Terminated (bootMemory (List.replicate 32 SPACE)) BOOT_ARGUMENT_AREA (List.replicate 32 SPACE) ∧
      (List.replicate 32 SPACE).length < 64 ∧
      Apart 0x80100000 BOOT_ARGUMENT_AREA ((List.replicate 32 SPACE).length + 1) ∧
      ¬ Right (bootMemory (List.replicate 32 SPACE)) (fun _ => ⟨none, .emptyString⟩) 0x80100000 64
        (List.replicate 32 SPACE) := by
  have hterm : Terminated (bootMemory (List.replicate 32 SPACE)) BOOT_ARGUMENT_AREA (List.replicate 32 SPACE) :=
    bootMemory_terminated (by decide)
  have hd : Apart 0x80100000 BOOT_ARGUMENT_AREA ((List.replicate 32 SPACE).length + 1) := by
    unfold Apart
    decide
  refine ⟨hterm, by decide, hd, ?_⟩
  rintro ⟨s, hs, -⟩
  rw [bootargsInit_overflow hterm (by decide) hd (by decide)] at hs
  cases hs

end Buenos.Bootargs
