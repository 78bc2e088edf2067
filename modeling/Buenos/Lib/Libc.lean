import Buenos.Base.Bytes

/-!
# Memory and strings (`lib/libc.c`)

* `memcopy` — word by word when both addresses are multiples of four, byte by byte otherwise and for
  the rest.
* `stringcopy`, `strlen` — for strings with a terminator.
* `loadWord`, `storeWord` — a 32-bit word, highest byte first.
* `Copied` — the first `n` bytes from one address are those from another one, and nothing else has
  changed.
* `HoldsBytes`, `Terminated` — these bytes are at an address, and this string with its terminator.
* `Placed` — a buffer is at an address of the memory.

Principal results: `memcopy_copied` (areas that do not overlap are copied, whatever their alignment),
`memcopy_store` (copying into a placed buffer is `Buf.store`) and `stringcopy_copied` (a string that fits
is copied with its terminator, and nothing else is written).
-/

namespace Buenos

open Bytes

/-- Memory by byte address. -/
abbrev Memory := ℕ → UInt8

/-- The loops over `t[i] = s[i]` (`k` iterations from `i` on). -/
def copyBytes (t s : ℕ) : ℕ → ℕ → Memory → Memory
  | 0, _, mem => mem
  | k + 1, i, mem => copyBytes t s k (i + 1) (Function.update mem (t + i) (mem (s + i)))

/-- `*tgt = *src` on 32 bits. -/
def copyWord (mem : Memory) (tgt src : ℕ) : Memory := fun a =>
  if tgt ≤ a ∧ a < tgt + 4 then mem (src + (a - tgt)) else mem a

/-- The loop over words. -/
def copyWords : ℕ → ℕ → ℕ → Memory → Memory
  | 0, _, _, mem => mem
  | k + 1, tgt, src, mem => copyWords k (tgt + 4) (src + 4) (copyWord mem tgt src)

/-- `memcopy`. -/
def memcopy (mem : Memory) (buflen : ℤ) (target source : ℕ) : Memory :=
  if target % 4 ≠ 0 ∨ source % 4 ≠ 0 then copyBytes target source buflen.toNat 0 mem
  else
    let words := (buflen.tdiv 4).toNat
    copyBytes (target + 4 * words) (source + 4 * words) (buflen.tmod 4).toNat 0
      (copyWords words target source mem)

/-- The `n` bytes from `s` on have been copied to `t`. -/
structure Copied (mem mem' : Memory) (t s n : ℕ) : Prop where
  inside : ∀ i < n, mem' (t + i) = mem (s + i)
  outside : ∀ a, a < t ∨ t + n ≤ a → mem' a = mem a

/-- The two areas do not overlap. -/
def Apart (t s n : ℕ) : Prop := t + n ≤ s ∨ s + n ≤ t

/-- The 32-bit word at `a`. -/
def loadWord (mem : Memory) (a : ℕ) : ℕ :=
  2 ^ 24 * (mem a).toNat + 2 ^ 16 * (mem (a + 1)).toNat + 2 ^ 8 * (mem (a + 2)).toNat + (mem (a + 3)).toNat

/-- Write a list of bytes at `a`. -/
def storeBytes (mem : Memory) (a : ℕ) (bs : List UInt8) : Memory := fun x =>
  if a ≤ x ∧ x < a + bs.length then bs.getD (x - a) 0 else mem x

/-- `*(uint32_t *) a = v`. -/
def storeWord (mem : Memory) (a v : ℕ) : Memory := storeBytes mem a (be32 v)

/-! ## Strings -/

/-- The loop of `stringcopy` that pads: `target` stays where it is. -/
def padLoop (target : ℕ) : ℕ → Memory → Memory
  | 0, mem => mem
  | k + 1, mem => padLoop target k (Function.update mem target 0)

/-- The loop of `stringcopy` with `k` iterations to go. -/
def stringcopyLoop : ℕ → ℕ → ℕ → Memory → Memory
  | 0, target, _, mem => Function.update mem target 0
  | k + 1, target, source, mem =>
    let mem := Function.update mem target (mem source)
    if mem source = 0 then padLoop target (k + 1) mem
    else stringcopyLoop k (target + 1) (source + 1) mem

/-- `stringcopy`. -/
def stringcopy (mem : Memory) (target source : ℕ) (buflen : ℤ) : Memory :=
  stringcopyLoop (buflen - 1).toNat target source mem

/-- `strlen` of a string that lies in an area of `size` bytes; `none` when it runs out of the area. -/
def strlen (mem : Memory) (str size : ℕ) : Option ℕ :=
  (List.range size).find? fun l => mem (str + l) = 0

/-- The bytes `bs` are at `a`. -/
def HoldsBytes (mem : Memory) (a : ℕ) (bs : List UInt8) : Prop := ∀ i < bs.length, mem (a + i) = bs.getD i 0

/-- The `n` bytes at `a`. -/
def bytesAt (mem : Memory) (a n : ℕ) : List UInt8 := (List.range n).map fun i => mem (a + i)

/-- The string `str` with its terminator is at `a`. -/
structure Terminated (mem : Memory) (a : ℕ) (str : List UInt8) : Prop where
  bytes : HoldsBytes mem a (str ++ [0])
  nonzero : 0 ∉ str

section

variable {mem mem1 mem2 : Memory} {t s m n : ℕ}

theorem Copied.refl (mem : Memory) (t s : ℕ) : Copied mem mem t s 0 :=
  ⟨fun _ hi => absurd hi (Nat.not_lt_zero _), fun _ _ => rfl⟩

/-- Copying on behind what has been copied. -/
theorem Copied.trans (h1 : Copied mem mem1 t s m) (h2 : Copied mem1 mem2 (t + m) (s + m) n)
    (hd : Apart t s (m + n)) : Copied mem mem2 t s (m + n) := by
  unfold Apart at hd
  refine ⟨fun i hi => ?_, fun a ha => ?_⟩
  · by_cases him : i < m
    · rw [h2.outside _ (by omega), h1.inside i him]
    · have h := h2.inside (i - m) (by omega)
      rw [show t + m + (i - m) = t + i by omega, show s + m + (i - m) = s + i by omega] at h
      rw [h, h1.outside _ (by omega)]
  · rw [h2.outside a (by omega), h1.outside a (by omega)]

theorem copied_byte (mem : Memory) (t s : ℕ) :
    Copied mem (Function.update mem t (mem s)) t s 1 := by
  refine ⟨fun i hi => ?_, fun a ha => ?_⟩
  · rw [Nat.lt_one_iff.1 hi, Nat.add_zero, Nat.add_zero, Function.update_self]
  · exact Function.update_of_ne (by omega) ..

theorem copied_word (mem : Memory) (t s : ℕ) : Copied mem (copyWord mem t s) t s 4 := by
  refine ⟨fun i hi => ?_, fun a ha => if_neg (by omega)⟩
  rw [copyWord, if_pos (by omega), Nat.add_sub_cancel_left]

theorem copyBytes_copied : ∀ (k i : ℕ) (mem : Memory), Apart (t + i) (s + i) k →
    Copied mem (copyBytes t s k i mem) (t + i) (s + i) k
  | 0, i, mem, _ => Copied.refl mem _ _
  | k + 1, i, mem, hd => by
    have hrest : Apart (t + (i + 1)) (s + (i + 1)) k := by
      unfold Apart at hd ⊢
      omega
    rw [Nat.add_comm k 1] at hd
    have hall := (copied_byte mem (t + i) (s + i)).trans (copyBytes_copied k (i + 1) _ hrest) hd
    rwa [Nat.add_comm 1 k] at hall

theorem copyWords_copied : ∀ (k t s : ℕ) (mem : Memory), Apart t s (4 * k) →
    Copied mem (copyWords k t s mem) t s (4 * k)
  | 0, t, s, mem, _ => Copied.refl mem _ _
  | k + 1, t, s, mem, hd => by
    have hrest : Apart (t + 4) (s + 4) (4 * k) := by
      unfold Apart at hd ⊢
      omega
    have hk : 4 * (k + 1) = 4 + 4 * k := by omega
    rw [hk] at hd ⊢
    exact (copied_word mem t s).trans (copyWords_copied k (t + 4) (s + 4) _ hrest) hd

/-- **`memcopy`** of areas that do not overlap. -/
theorem memcopy_copied (mem : Memory) (hd : Apart t s n) : Copied mem (memcopy mem n t s) t s n := by
  unfold memcopy
  split
  · exact copyBytes_copied n 0 mem hd
  · have hw : ((n : ℤ).tdiv 4).toNat = n / 4 := by
      rw [Int.tdiv_eq_ediv_of_nonneg (by omega)]
      omega
    have hr : ((n : ℤ).tmod 4).toNat = n % 4 := by
      rw [Int.tmod_eq_emod_of_nonneg (by omega)]
      omega
    have hn : n = 4 * (n / 4) + n % 4 := by omega
    have hwords := copyWords_copied (n / 4) t s mem (by unfold Apart at hd ⊢; omega)
    have hrest := copyBytes_copied (t := t + 4 * (n / 4)) (s := s + 4 * (n / 4)) (n % 4) 0
      (copyWords (n / 4) t s mem) (by unfold Apart at hd ⊢; omega)
    simp only [hw, hr]
    have hall := hwords.trans hrest (by rwa [← hn])
    rwa [← hn] at hall

end

/-- The buffer is at address `a`. -/
def Placed {n : ℕ} (mem : Memory) (a : ℕ) (b : Buf n) : Prop := ∀ i < n, mem (a + i) = b.byte i

/-- **Copying into a buffer** is a store of the bytes that are copied. -/
theorem memcopy_store {n : ℕ} {mem : Memory} {a o src : ℕ} {b : Buf n} {bs : List UInt8}
    (hb : Placed mem a b) (hs : ∀ i < bs.length, mem (src + i) = bs.getD i 0)
    (hd : Apart (a + o) src bs.length) :
    Placed (memcopy mem bs.length (a + o) src) a (b.store o bs) := by
  have hc := memcopy_copied mem hd
  intro i hi
  rw [Buf.byte_store]
  by_cases hin : o ≤ i ∧ i < o + bs.length
  · rw [if_pos ⟨hin.1, hin.2, hi⟩, show a + i = a + o + (i - o) by omega,
      hc.inside (i - o) (by omega), hs (i - o) (by omega)]
  · rw [if_neg fun h => hin ⟨h.1, h.2.1⟩, hc.outside _ (by omega), hb i hi]

section Strings

variable {mem mem' : Memory} {a t s n : ℕ} {xs ys str : List UInt8}

theorem holdsBytes_append : HoldsBytes mem a (xs ++ ys) ↔ HoldsBytes mem a xs ∧ HoldsBytes mem (a + xs.length) ys := by
  unfold HoldsBytes
  rw [List.length_append]
  refine ⟨fun h => ⟨fun i hi => ?_, fun i hi => ?_⟩, fun ⟨hx, hy⟩ i hi => ?_⟩
  · rw [h i (by omega), List.getD_append _ _ _ _ hi]
  · rw [Nat.add_assoc, h _ (by omega), List.getD_append_right _ _ _ _ (by omega), Nat.add_sub_cancel_left]
  · by_cases hlt : i < xs.length
    · rw [hx i hlt, List.getD_append _ _ _ _ hlt]
    · have hy := hy (i - xs.length) (by omega)
      rw [show a + xs.length + (i - xs.length) = a + i by omega] at hy
      rw [hy, List.getD_append_right _ _ _ _ (by omega)]

/-- The first byte and the others. -/
theorem holdsBytes_cons {c : UInt8} : HoldsBytes mem a (c :: xs) ↔ mem a = c ∧ HoldsBytes mem (a + 1) xs := by
  rw [← List.singleton_append, holdsBytes_append, List.length_singleton]
  refine and_congr_left fun _ => ⟨fun h => h 0 (by simp), fun h i hi => ?_⟩
  rw [List.length_singleton, Nat.lt_one_iff] at hi
  rw [hi, Nat.add_zero, h]
  rfl

/-- Bytes that are not written stay. -/
theorem HoldsBytes.frame (h : HoldsBytes mem a xs) (hsame : ∀ i < xs.length, mem' (a + i) = mem (a + i)) :
    HoldsBytes mem' a xs := by
  intro i hi
  rw [hsame i hi, h i hi]

theorem HoldsBytes.bytesAt (h : HoldsBytes mem a xs) : bytesAt mem a xs.length = xs := by
  refine List.ext_getElem (by simp [Buenos.bytesAt]) fun i hi hi' => ?_
  simp only [Buenos.bytesAt, List.getElem_map, List.getElem_range, h i hi', List.getD_eq_getElem _ _ hi']

theorem Copied.holds (h : Copied mem mem' t s n) (hs : HoldsBytes mem s xs) (hn : xs.length ≤ n) :
    HoldsBytes mem' t xs := by
  intro i hi
  rw [h.inside i (by omega), hs i hi]

theorem holdsBytes_storeBytes (mem : Memory) (a : ℕ) (xs : List UInt8) : HoldsBytes (storeBytes mem a xs) a xs := by
  intro i hi
  rw [storeBytes, if_pos ⟨by omega, by omega⟩, Nat.add_sub_cancel_left]

theorem storeBytes_outside {x : ℕ} (h : x < a ∨ a + xs.length ≤ x) : storeBytes mem a xs x = mem x :=
  if_neg (by omega)

theorem HoldsBytes.loadWord {v : ℕ} (h : HoldsBytes mem a (be32 v)) : loadWord mem a = v % 2 ^ 32 := by
  have h0 := h 0 (by rw [be32_length]; omega)
  have h1 := h 1 (by rw [be32_length]; omega)
  have h2 := h 2 (by rw [be32_length]; omega)
  have h3 := h 3 (by rw [be32_length]; omega)
  rw [Nat.add_zero] at h0
  simp only [be32, List.getD_cons_zero, List.getD_cons_succ] at h0 h1 h2 h3
  rw [Buenos.loadWord, h0, h1, h2, h3]
  simp only [UInt8.toNat_ofNat']
  omega

theorem Placed.loadWord {n : ℕ} {b : Buf n} {o : ℕ} (h : Placed mem a b) (ho : o + 3 < n) :
    Buenos.loadWord mem (a + o) = b.word o := by
  unfold Buenos.loadWord Buf.word
  rw [h o (by omega), Nat.add_assoc a, Nat.add_assoc a, Nat.add_assoc a, h _ (by omega), h _ (by omega), h _ ho]

theorem Terminated.char (h : Terminated mem s str) {i : ℕ} (hi : i < str.length) : mem (s + i) ≠ 0 := by
  have hbyte := h.bytes i (by rw [List.length_append]; omega)
  rw [List.getD_append _ _ _ _ hi, List.getD_eq_getElem _ _ hi] at hbyte
  rw [hbyte]
  exact fun h0 => h.nonzero (h0 ▸ List.getElem_mem hi)

theorem Terminated.zero (h : Terminated mem s str) : mem (s + str.length) = 0 := by
  rw [h.bytes _ (by simp), List.getD_append_right _ _ _ _ (le_refl _), Nat.sub_self]
  rfl

theorem Terminated.strlen (h : Terminated mem s str) (hsize : str.length < n) :
    strlen mem s n = some str.length := by
  rw [Buenos.strlen, List.find?_range_eq_some]
  refine ⟨by simp [h.zero], List.mem_range.2 hsize, fun i hi => ?_⟩
  simp [h.char hi]

/-- A string that is not written stays. -/
theorem Terminated.frame (h : Terminated mem s str) (hsame : ∀ b, s ≤ b → b < s + str.length + 1 → mem' b = mem b) :
    Terminated mem' s str := by
  refine ⟨h.bytes.frame fun i hi => hsame _ (Nat.le_add_right s i) ?_, h.nonzero⟩
  rw [List.length_append, List.length_singleton] at hi
  omega

/-- A terminator behind bytes makes a string of them. -/
theorem HoldsBytes.terminate (h : HoldsBytes mem s str) (hstr : 0 ∉ str) :
    Terminated (Function.update mem (s + str.length) 0) s str := by
  refine ⟨holdsBytes_append.2 ⟨h.frame fun i hi => ?_, fun i hi => ?_⟩, hstr⟩
  · exact Function.update_of_ne (by omega) ..
  · rw [List.length_singleton, Nat.lt_one_iff] at hi
    rw [hi, Nat.add_zero, Function.update_self]
    rfl

/-- What lies in front of the first zero is a string. -/
theorem HoldsBytes.takeWhile (h : HoldsBytes mem a xs) (hzero : mem (a + xs.length) = 0) :
    Terminated mem a (xs.takeWhile (· ≠ 0)) := by
  induction xs generalizing a with
  | nil => exact ⟨fun i hi => by simpa [Nat.lt_one_iff.1 hi] using hzero, List.not_mem_nil⟩
  | cons c xs ih =>
    obtain ⟨hc, hxs⟩ := holdsBytes_cons.1 h
    by_cases hc0 : c = 0
    · rw [List.takeWhile_cons_of_neg (by simpa using hc0)]
      exact ⟨fun i hi => by simpa [Nat.lt_one_iff.1 hi] using hc.trans hc0, List.not_mem_nil⟩
    · rw [List.length_cons, Nat.add_comm xs.length, ← Nat.add_assoc] at hzero
      have hstr := ih hxs hzero
      rw [List.takeWhile_cons_of_pos (by simpa using hc0)]
      exact ⟨holdsBytes_cons.2 ⟨hc, hstr.bytes⟩, List.not_mem_cons_of_ne_of_not_mem (Ne.symm hc0) hstr.nonzero⟩

theorem padLoop_same (hzero : mem t = 0) (k : ℕ) : padLoop t k mem = mem := by
  induction k with
  | zero => rfl
  | succ k ih =>
    have hself : Function.update mem t 0 = mem := by
      rw [← hzero, Function.update_eq_self]
    rw [padLoop, hself, ih]

/-- A string with the first character taken off. -/
theorem Terminated.tail {c : UInt8} (h : Terminated mem s (c :: str)) : Terminated mem (s + 1) str :=
  ⟨(holdsBytes_append.1 (show HoldsBytes mem s ([c] ++ (str ++ [0])) from h.bytes)).2,
    (List.ne_and_not_mem_of_not_mem_cons h.nonzero).2⟩

theorem stringcopyLoop_copied {k : ℕ} (h : Terminated mem s str) (hk : str.length ≤ k)
    (hd : Apart t s (str.length + 1)) :
    Copied mem (stringcopyLoop k t s mem) t s (str.length + 1) := by
  induction str generalizing k t s mem with
  | nil =>
    have hzero : mem s = 0 := h.zero
    have hcopy := copied_byte mem t s
    cases k with
    | zero =>
      rw [stringcopyLoop, ← hzero]
      exact hcopy
    | succ k =>
      unfold Apart at hd
      have hsame : Function.update mem t (mem s) s = mem s := Function.update_of_ne (by simp at hd; omega) ..
      have hpad : padLoop t (k + 1) (Function.update mem t (mem s)) = Function.update mem t (mem s) := by
        rw [hzero]
        exact padLoop_same (Function.update_self ..) _
      simp only [stringcopyLoop]
      rw [if_pos (hsame.trans hzero), hpad]
      exact hcopy
  | cons c str ih =>
    obtain ⟨k, rfl⟩ : ∃ k', k = k' + 1 := ⟨k - 1, by simp only [List.length_cons] at hk; omega⟩
    rw [List.length_cons] at hd hk ⊢
    have hrest : Apart (t + 1) (s + 1) (str.length + 1) := by
      unfold Apart at hd ⊢
      omega
    have hcopy := copied_byte mem t s
    have hsame : Function.update mem t (mem s) s = mem s :=
      Function.update_of_ne (by unfold Apart at hd; omega) ..
    have htail : Terminated (Function.update mem t (mem s)) (s + 1) str := by
      refine ⟨h.tail.bytes.frame fun i hi => Function.update_of_ne ?_ .., h.tail.nonzero⟩
      rw [List.length_append, List.length_singleton] at hi
      unfold Apart at hd
      omega
    have hchar : mem s ≠ 0 := h.char (show 0 < (c :: str).length by simp)
    simp only [stringcopyLoop, hsame, if_neg hchar]
    rw [Nat.add_comm (str.length + 1) 1] at hd ⊢
    exact hcopy.trans (ih htail (by omega) hrest) hd

/-- **`stringcopy`** of a string that fits copies it with its terminator and writes nothing else. -/
theorem stringcopy_copied {buflen : ℤ} (h : Terminated mem s str) (hfits : str.length < buflen)
    (hd : Apart t s (str.length + 1)) :
    Copied mem (stringcopy mem t s buflen) t s (str.length + 1) :=
  stringcopyLoop_copied h (by omega) hd

end Strings

end Buenos
