import Buenos.Fs.Sfs.Paths

/-!
# The path grammar

* `ValidFilename n` — 1 to `n` filename characters.
* `PathGrammar` — the sequences of path elements that `sfs_is_valid_path` is to accept: folders of at
  most 14 characters and a slash, and perhaps a last file of at most 15 characters.
* `copyElem`, `iterateElems` — `sfs_next_path_elem` with its writes to the buffer
  `filename[SFS_FILENAME_MAX]` of the caller, and its iteration.

Principal result: `path_grammar` — the validator accepts exactly the grammar, and the other functions
that scan the path agree on its elements.
-/

namespace Buenos.Fs

open Bytes

/-! ## The grammar -/

/-- 1 to `n` filename characters. -/
structure ValidFilename (n : ℕ) (e : List UInt8) : Prop where
  ne_nil : e ≠ []
  length_le : e.length ≤ n
  chars : ∀ c ∈ e, sfsIsValidFilenameChar c = true

/-- The sequences of path elements. -/
inductive PathGrammar : List (List UInt8) → Prop
  | nil : PathGrammar []
  | last {e : List UInt8} (h : ValidFilename 15 e) : PathGrammar [e]
  | folder {e : List UInt8} {es : List (List UInt8)} (h : ValidFilename 14 e)
      (hs : PathGrammar es) : PathGrammar ((e ++ [SLASH]) :: es)

/-! ## The buffer of `sfs_next_path_elem` -/

/-- The loop of `sfs_next_path_elem` from `buffer[i]` on: the returned pointer (`none` for `NULL`) and
the buffer.  The result is `none` when a write would be outside the buffer. -/
def copyElem : ℕ → Buf 16 → List UInt8 → Option (Option (List UInt8) × Buf 16)
  | i, buffer, [] =>
    if i < SFS_FILENAME_MAX then
      some (if i = 0 then none else some [], buffer.store i [0])
    else none
  | i, buffer, c :: cs =>
    if i < SFS_FILENAME_MAX then
      let buffer := buffer.store i [c]
      if c = SLASH then
        if i + 1 < SFS_FILENAME_MAX then some (some cs, buffer.store (i + 1) [0]) else none
      else copyElem (i + 1) buffer cs
    else none

/-- The C string in the buffer. -/
def bufferString (buffer : Buf 16) : List UInt8 :=
  (buffer.slice 0 SFS_FILENAME_MAX).takeWhile (· ≠ 0)

/-- At most `k` calls of `sfs_next_path_elem`: what they yield, when the last one returns `NULL` and
all writes are inside the buffer. -/
def iterateElems : ℕ → Buf 16 → List UInt8 → Option (List (List UInt8))
  | 0, _, _ => none
  | k + 1, buffer, consumedPath =>
    match copyElem 0 buffer consumedPath with
    | none => none
    | some (none, _) => some []
    | some (some rest, buffer) =>
      (iterateElems k buffer rest).map (bufferString buffer :: ·)

section Names

variable {n : ℕ} {e : List UInt8}

theorem ValidFilename.noSlash (h : ValidFilename n e) : SLASH ∉ e := by
  intro hm
  have := h.chars _ hm
  rw [slash_not_valid] at this
  cases this

theorem ValidFilename.nonzero (h : ValidFilename n e) : (0 : UInt8) ∉ e := by
  intro hm
  exact absurd (h.chars 0 hm) (by decide)

end Names

/-! ## The validator -/

/-- The loop of `sfs_is_valid_path` runs over the characters of one element. -/
theorem validPathLoop_chars : ∀ (e : List UInt8) (prev : UInt8) (m : ℕ) (rest : List UInt8),
    e ≠ [] → (∀ c ∈ e, sfsIsValidFilenameChar c = true) → m + e.length ≤ 15 →
      ∃ prev', prev' ≠ SLASH ∧
        validPathLoop prev m (e ++ rest) = validPathLoop prev' (m + e.length) rest
  | [], _, _, _, h, _, _ => absurd rfl h
  | c :: cs, prev, m, rest, _, hc, hm => by
    have hcv := hc c (List.mem_cons_self ..)
    have hne : c ≠ SLASH := by
      rintro rfl
      rw [slash_not_valid] at hcv
      cases hcv
    rw [List.length_cons] at hm
    have hstep : validPathLoop prev m (c :: cs ++ rest) = validPathLoop c (m + 1) (cs ++ rest) := by
      rw [List.cons_append, validPathLoop, if_neg (by simp only [SFS_FILENAME_MAX]; omega),
        if_neg hne, if_pos hcv]
    by_cases hcs : cs = []
    · subst hcs
      exact ⟨c, hne, hstep⟩
    · obtain ⟨prev', hp, heq⟩ := validPathLoop_chars cs c (m + 1) rest hcs
        (fun d hd => hc d (List.mem_cons_of_mem _ hd)) (by omega)
      refine ⟨prev', hp, ?_⟩
      rw [hstep, heq, List.length_cons, Nat.add_right_comm, Nat.add_assoc]

/-- Every sequence of the grammar is accepted. -/
theorem PathGrammar.accepted {es : List (List UInt8)} (h : PathGrammar es) :
    validPathLoop SLASH 0 es.flatten = true := by
  induction h with
  | nil => rfl
  | last h =>
    rename_i e
    obtain ⟨prev', -, heq⟩ := validPathLoop_chars e SLASH 0 [] h.ne_nil h.chars
      (by have := h.length_le; omega)
    rw [List.append_nil] at heq
    rw [List.flatten_singleton, heq]
    rfl
  | folder h hs ih =>
    rename_i e es
    have hlen := h.length_le
    obtain ⟨prev', hp, heq⟩ := validPathLoop_chars e SLASH 0 (SLASH :: es.flatten) h.ne_nil h.chars
      (by omega)
    rw [List.flatten_cons, List.append_assoc, List.singleton_append, heq, validPathLoop,
      if_neg (by simp only [SFS_FILENAME_MAX]; omega), if_pos rfl, if_neg hp, ih]

/-- The part `e` of an element has been scanned: what is accepted behind it completes it to a sequence
of the grammar. -/
theorem grammar_of_accepted : ∀ (cs e : List UInt8) (prev : UInt8), (e ≠ [] → ValidFilename 15 e) →
    (prev = SLASH ↔ e = []) → validPathLoop prev e.length cs = true →
      ∃ es, PathGrammar es ∧ es.flatten = e ++ cs
  | [], e, _, he, _, _ => by
    by_cases h0 : e = []
    · subst h0
      exact ⟨[], .nil, rfl⟩
    · exact ⟨[e], .last (he h0), by simp⟩
  | c :: cs, e, prev, he, hprev, h => by
    rw [validPathLoop] at h
    split at h
    · cases h
    rename_i hlen
    simp only [SFS_FILENAME_MAX, ge_iff_le, Nat.not_le] at hlen
    split at h
    · rename_i hc
      split at h
      · cases h
      rename_i hp
      -- the slash ends a folder
      have h0 : e ≠ [] := fun h0 => hp (hprev.2 h0)
      have h14 : ValidFilename 14 e := ⟨h0, by omega, (he h0).chars⟩
      subst hc
      obtain ⟨es, hes, hfl⟩ := grammar_of_accepted cs [] SLASH (fun h => absurd rfl h) (by simp) h
      refine ⟨(e ++ [SLASH]) :: es, .folder h14 hes, ?_⟩
      rw [List.flatten_cons, hfl]
      simp
    · rename_i hc
      split at h
      · rename_i hv
        have hnext : ValidFilename 15 (e ++ [c]) := by
          refine ⟨by simp, by simp; omega, fun d hd => ?_⟩
          rcases List.mem_append.1 hd with hd | hd
          · exact (he (List.ne_nil_of_mem hd)).chars d hd
          · rw [List.mem_singleton.1 hd]
            exact hv
        obtain ⟨es, hes, hfl⟩ := grammar_of_accepted cs (e ++ [c]) c (fun _ => hnext)
          (by simp [hc]) (by rwa [List.length_append])
        exact ⟨es, hes, by rw [hfl]; simp⟩
      · cases h

/-! ## The elements -/

theorem pathElems_folder : ∀ (e rest : List UInt8), SLASH ∉ e →
    pathElems (e ++ SLASH :: rest) = (e ++ [SLASH]) :: pathElems rest
  | [], rest, _ => by rw [List.nil_append, pathElems, if_pos rfl]; rfl
  | c :: e, rest, h => by
    have hc : c ≠ SLASH := fun hc => h (by rw [hc]; exact List.mem_cons_self ..)
    rw [List.cons_append, pathElems, if_neg hc,
      pathElems_folder e rest fun hm => h (List.mem_cons_of_mem _ hm)]
    rfl

/-- Path resolution sees the elements of the grammar. -/
theorem PathGrammar.pathElems_eq {es : List (List UInt8)} (h : PathGrammar es) :
    pathElems es.flatten = es := by
  induction h with
  | nil => rfl
  | last h =>
    rw [List.flatten_singleton]
    exact pathElems_noSlash _ h.ne_nil h.noSlash
  | folder h hs ih =>
    rw [List.flatten_cons, List.append_assoc, List.singleton_append, pathElems_folder _ _ h.noSlash,
      ih]

/-- Characters before the slash are copied one after the other. -/
theorem copyElem_chars : ∀ (e : List UInt8) (i : ℕ) (buffer : Buf 16) (rest : List UInt8),
    SLASH ∉ e → i + e.length ≤ 15 →
      copyElem i buffer (e ++ rest) = copyElem (i + e.length) (buffer.store i e) rest
  | [], i, buffer, rest, _, _ => by rw [Buf.store_nil]; rfl
  | c :: e, i, buffer, rest, h, hi => by
    rw [List.length_cons] at hi
    have hc : c ≠ SLASH := fun hc => h (by rw [hc]; exact List.mem_cons_self ..)
    have hstore : (buffer.store i [c]).store (i + 1) e = buffer.store i (c :: e) :=
      Buf.store_append buffer i [c] e
    rw [List.cons_append, copyElem, if_pos (by simp only [SFS_FILENAME_MAX]; omega), if_neg hc,
      copyElem_chars e (i + 1) _ rest (fun hm => h (List.mem_cons_of_mem _ hm)) (by omega), hstore,
      List.length_cons, Nat.add_right_comm, Nat.add_assoc]

/-- **A folder is copied** with its slash and a terminator, at most to index 15. -/
theorem copyElem_folder {e : List UInt8} (h : ValidFilename 14 e) (buffer : Buf 16)
    (rest : List UInt8) :
    copyElem 0 buffer (e ++ SLASH :: rest) =
      some (some rest, buffer.store 0 (e ++ [SLASH] ++ [0])) := by
  have hlen := h.length_le
  have hstore : ((buffer.store 0 e).store (0 + e.length) [SLASH]).store (0 + e.length + 1) [0] =
      buffer.store 0 (e ++ [SLASH] ++ [0]) := by
    rw [Buf.store_append, ← Buf.store_append buffer 0 (e ++ [SLASH]), List.length_append]
    rfl
  rw [copyElem_chars e 0 buffer _ h.noSlash (by omega), copyElem,
    if_pos (by simp only [SFS_FILENAME_MAX]; omega), if_pos rfl,
    if_pos (by simp only [SFS_FILENAME_MAX]; omega), hstore]

/-- **The last element is copied** with its terminator. -/
theorem copyElem_last {e : List UInt8} (h : ValidFilename 15 e) (buffer : Buf 16) :
    copyElem 0 buffer e = some (some [], buffer.store 0 (e ++ [0])) := by
  have hlen := h.length_le
  have hpos := List.length_pos_iff.2 h.ne_nil
  have hcopy := copyElem_chars e 0 buffer [] h.noSlash (by omega)
  rw [List.append_nil] at hcopy
  rw [hcopy, copyElem, if_pos (by simp only [SFS_FILENAME_MAX]; omega), if_neg (by omega),
    Buf.store_append]

theorem bufferString_store {e : List UInt8} (h0 : (0 : UInt8) ∉ e) (hlen : e.length ≤ 15)
    (buffer : Buf 16) : bufferString (buffer.store 0 (e ++ [0])) = e :=
  Buf.takeWhile_store buffer h0 (by simp only [SFS_FILENAME_MAX]; omega) (by simp [SFS_FILENAME_MAX])

/-- **The iteration of `sfs_next_path_elem`** ends after the elements of the grammar. -/
theorem PathGrammar.iterate {es : List (List UInt8)} (h : PathGrammar es) :
    ∀ (buffer : Buf 16) (k : ℕ), es.length < k → iterateElems k buffer es.flatten = some es := by
  induction h with
  | nil =>
    intro buffer k hk
    obtain ⟨k, rfl⟩ := Nat.exists_eq_succ_of_ne_zero (Nat.ne_of_gt hk)
    rfl
  | last h =>
    intro buffer k hk
    rename_i e
    obtain ⟨k, rfl⟩ := Nat.exists_eq_add_of_le hk
    rw [List.flatten_singleton, List.length_singleton, Nat.add_comm, iterateElems, copyElem_last h]
    have hend : iterateElems (k + 1) (buffer.store 0 (e ++ [0])) [] = some [] := rfl
    simp only [hend, Option.map_some, bufferString_store h.nonzero h.length_le]
  | folder h hs ih =>
    intro buffer k hk
    rename_i e es
    have hlen := h.length_le
    obtain ⟨k, rfl⟩ := Nat.exists_eq_succ_of_ne_zero (Nat.ne_of_gt (Nat.zero_lt_of_lt hk))
    rw [List.length_cons] at hk
    have h0 : (0 : UInt8) ∉ e ++ [SLASH] := by
      simp only [List.mem_append, List.mem_singleton, not_or]
      exact ⟨h.nonzero, by decide⟩
    rw [List.flatten_cons, List.append_assoc, List.singleton_append, iterateElems,
      copyElem_folder h]
    simp only [ih _ k (by omega), Option.map_some,
      bufferString_store h0 (by rw [List.length_append, List.length_singleton]; omega)]

/-! ## The functions agree -/

/-- **The path grammar.**  `sfs_is_valid_path` accepts exactly the paths of the grammar.  For each of
them the iteration of `sfs_next_path_elem` ends inside its buffer after yielding the elements, path
resolution follows the same elements, `sfs_is_folder` looks at the last character, and
`sfs_get_actual_filename` is the last element, also after it has been stored in a directory. -/
theorem path_grammar (path : List UInt8) :
    (sfsIsValidPath path = true ↔ ∃ es, PathGrammar es ∧ path = SLASH :: es.flatten) ∧
    ∀ es, PathGrammar es → path = SLASH :: es.flatten →
      (∀ buffer, ∃ k, iterateElems k buffer path.tail = some es) ∧
      pathElems path.tail = es ∧
      (sfsIsFolder path = true ↔ ∃ p, path = p ++ [SLASH]) ∧
      ∀ init l, es = init ++ [l] → sfsGetActualFilename path = l ∧
        ∀ md index inode, index < 25 →
          direntName (setDirent md index (sfsGetActualFilename path) inode) index = l := by
  have hacc : ∀ es, PathGrammar es → sfsIsValidPath (SLASH :: es.flatten) = true := by
    intro es hes
    rw [sfsIsValidPath, if_neg (by simp), hes.accepted]
  refine ⟨⟨fun h => ?_, ?_⟩, ?_⟩
  · obtain ⟨cs, rfl, hv⟩ := validPath_cons h
    obtain ⟨es, hes, hfl⟩ := grammar_of_accepted cs [] SLASH (fun h => absurd rfl h) (by simp) hv
    exact ⟨es, hes, by rw [hfl]; rfl⟩
  · rintro ⟨es, hes, rfl⟩
    exact hacc es hes
  · rintro es hes rfl
    refine ⟨fun buffer => ⟨_, hes.iterate buffer _ (Nat.lt_succ_self _)⟩, hes.pathElems_eq, ?_, ?_⟩
    · rw [sfsIsFolder, decide_eq_true_iff, List.getLast?_eq_some_iff]
    · rintro init l rfl
      have hv := hacc _ hes
      have hlast := actualFilename_eq hv hes.pathElems_eq
      obtain ⟨-, hlen, h0⟩ := validPath_elems hv l (by
        rw [List.tail_cons, hes.pathElems_eq]
        simp)
      refine ⟨hlast, fun md index inode hi => ?_⟩
      rw [hlast, setDirent_name md hi hlen h0, if_pos rfl]

end Buenos.Fs
