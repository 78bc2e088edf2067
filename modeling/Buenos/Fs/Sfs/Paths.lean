import Buenos.Fs.Sfs.Blocks

/-!
# Paths and their resolution

* `pathElems_next` — `pathElems` is the iteration of `sfs_next_path_elem`.
* `pathElems_flatten` — the elements concatenate to the path.
* `validPath_elems` — the elements of a valid path are non-empty C strings of at most 15 characters.
* `actualFilename_eq` — `sfs_get_actual_filename` is the last element, so creation and resolution
  use the same name.
* `resolve_found`, `resolve_missing` — what a resolution tells about the directory tree.
-/

namespace Buenos.Fs

open Bytes

/-! ## Path elements -/

/-- `pathElems` is the iteration of `sfs_next_path_elem`. -/
theorem pathElems_next (p : List UInt8) :
    pathElems p = match sfsNextPathElem p with
      | none => []
      | some (e, rest) => e :: pathElems rest := by
  cases p with
  | nil => rfl
  | cons c cs =>
    simp only [sfsNextPathElem]
    induction cs generalizing c with
    | nil =>
      by_cases hc : c = SLASH
      · simp [pathElems, takeElem, hc]
      · simp [pathElems, takeElem, hc]
    | cons d ds ih =>
      by_cases hc : c = SLASH
      · simp [pathElems, takeElem, hc]
      · have ht : takeElem (c :: d :: ds) =
            (c :: (takeElem (d :: ds)).1, (takeElem (d :: ds)).2) := by
          rw [takeElem, if_neg hc]
        rw [pathElems, if_neg hc, ih d, ht]

theorem pathElems_flatten : ∀ p : List UInt8, (pathElems p).flatten = p
  | [] => rfl
  | c :: cs => by
    have ih := pathElems_flatten cs
    unfold pathElems
    split
    · simp [ih]
    · split
      · rename_i h
        rw [h] at ih
        simp at ih
        simp [← ih]
      · rename_i e es h
        rw [h] at ih
        simp at ih
        simp [ih]

theorem pathElems_ne_nil : ∀ (p : List UInt8), ∀ e ∈ pathElems p, e ≠ []
  | [], e, h => by cases h
  | c :: cs, e, h => by
    have ih := pathElems_ne_nil cs
    unfold pathElems at h
    split at h
    · rcases List.mem_cons.1 h with rfl | h
      · simp
      · exact ih e h
    · split at h
      · simp at h; simp [h]
      · rename_i e' es heq
        rcases List.mem_cons.1 h with rfl | h
        · simp
        · exact ih e (by rw [heq]; exact List.mem_cons_of_mem _ h)

/-- Every element but the last ends with a slash. -/
theorem pathElems_slash : ∀ (p : List UInt8) (l : List (List UInt8)) (e : List UInt8)
    (r : List (List UInt8)), pathElems p = l ++ e :: r → r ≠ [] → e.getLast? = some SLASH
  | [], l, e, r, h, _ => by simp [pathElems] at h
  | c :: cs, l, e, r, h, hr => by
    have ih := pathElems_slash cs
    unfold pathElems at h
    split at h
    · rename_i hc
      cases l with
      | nil =>
        simp only [List.nil_append, List.cons.injEq] at h
        rw [← h.1, hc]; rfl
      | cons a l =>
        simp only [List.cons_append, List.cons.injEq] at h
        exact ih l e r h.2 hr
    · split at h
      · cases l with
        | nil => simp at h; exact absurd h.2 hr
        | cons a l => simp at h
      · rename_i e' es heq
        cases l with
        | nil =>
          simp only [List.nil_append, List.cons.injEq] at h
          have := ih [] e' es heq (by rw [h.2]; exact hr)
          rw [← h.1, List.getLast?_cons]
          simp [this]
        | cons a l =>
          simp only [List.cons_append, List.cons.injEq] at h
          exact ih (e' :: l) e r (by rw [heq, h.2]; rfl) hr

theorem pathElems_noSlash : ∀ cs : List UInt8, cs ≠ [] → SLASH ∉ cs → pathElems cs = [cs]
  | [], h, _ => absurd rfl h
  | [c], _, h => by
    rw [pathElems, if_neg fun hc => h (by rw [hc]; exact List.mem_singleton_self _)]
    rfl
  | c :: d :: cs, _, h => by
    rw [pathElems, if_neg fun hc => h (by rw [hc]; exact List.mem_cons_self ..),
      pathElems_noSlash (d :: cs) (by simp) fun hm => h (List.mem_cons_of_mem _ hm)]

theorem slash_not_valid : sfsIsValidFilenameChar SLASH = false := by decide

/-- The elements of a string that passes the loop of `sfs_is_valid_path`. -/
theorem validPathLoop_elems : ∀ (cs : List UInt8) (prev : UInt8) (ec : ℕ),
    validPathLoop prev ec cs = true →
      (0 : UInt8) ∉ cs ∧ (∀ e ∈ pathElems cs, e.length ≤ 15) ∧
        ∀ e es, pathElems cs = e :: es → e.length + ec ≤ 15
  | [], _, _, _ => ⟨by simp, by simp [pathElems], by simp [pathElems]⟩
  | c :: cs, prev, ec, h => by
    unfold validPathLoop at h
    split at h
    · cases h
    rename_i hec
    simp only [SFS_FILENAME_MAX, ge_iff_le, Nat.not_le] at hec
    split at h
    · rename_i hc
      split at h
      · cases h
      obtain ⟨h1, h2, -⟩ := validPathLoop_elems cs c 0 h
      subst hc
      refine ⟨by simp [h1, SLASH], ?_, ?_⟩
      · intro e he
        simp only [pathElems, if_true, List.mem_cons] at he
        rcases he with rfl | he
        · simp
        · exact h2 e he
      · intro e es heq
        simp only [pathElems, if_true, List.cons.injEq] at heq
        rw [← heq.1]
        simp only [List.length_singleton]
        omega
    · rename_i hc
      split at h
      · rename_i hv
        obtain ⟨h1, h2, h3⟩ := validPathLoop_elems cs c (ec + 1) h
        have hc0 : (0 : UInt8) ≠ c := by
          rintro rfl
          exact absurd hv (by decide)
        refine ⟨by simp [h1, hc0], ?_⟩
        cases hp : pathElems cs with
        | nil =>
          simp only [pathElems, if_neg hc, hp, List.mem_singleton, List.cons.injEq]
          refine ⟨by rintro e rfl; simp, ?_⟩
          rintro e es ⟨rfl, -⟩
          simp only [List.length_singleton]
          omega
        | cons a as =>
          have ha := h3 a as hp
          simp only [pathElems, if_neg hc, hp, List.mem_cons, List.cons.injEq]
          refine ⟨?_, ?_⟩
          · rintro e (rfl | he)
            · simp only [List.length_cons]; omega
            · exact h2 e (by rw [hp]; exact List.mem_cons_of_mem _ he)
          · rintro e es ⟨rfl, -⟩
            simp only [List.length_cons]
            omega
      · cases h

theorem validPath_cons {path : List UInt8} (h : sfsIsValidPath path = true) :
    ∃ cs, path = SLASH :: cs ∧ validPathLoop SLASH 0 cs = true := by
  cases path with
  | nil => cases h
  | cons c cs =>
    rw [sfsIsValidPath] at h
    split at h
    · cases h
    · rename_i hc
      have hc' : c = SLASH := Decidable.not_not.1 hc
      exact ⟨cs, by rw [hc'], by rw [← hc']; exact h⟩

/-- The elements of a valid path are non-empty C strings of at most 15 characters. -/
theorem validPath_elems {path : List UInt8} (h : sfsIsValidPath path = true) :
    ∀ e ∈ pathElems path.tail, e ≠ [] ∧ e.length ≤ 15 ∧ (0 : UInt8) ∉ e := by
  obtain ⟨cs, rfl, hv⟩ := validPath_cons h
  obtain ⟨h1, h2, -⟩ := validPathLoop_elems cs SLASH 0 hv
  intro e he
  refine ⟨pathElems_ne_nil _ e he, h2 e he, fun h0 => h1 ?_⟩
  have : (0 : UInt8) ∈ (pathElems cs).flatten := List.mem_flatten.2 ⟨e, he, h0⟩
  rwa [pathElems_flatten] at this

theorem actualFilenameLoop_eq : ∀ (cs last : List UInt8) (init : List (List UInt8)) (l : List UInt8),
    pathElems cs = init ++ [l] → actualFilenameLoop cs last = if init = [] then last else l
  | [], last, init, l, h => by simp [pathElems] at h
  | c :: cs, last, init, l, h => by
    have ih := actualFilenameLoop_eq cs
    have hfl := pathElems_flatten cs
    unfold pathElems at h
    unfold actualFilenameLoop
    split at h
    · rename_i hc
      cases init with
      | nil =>
        simp only [List.nil_append, List.cons.injEq] at h
        rw [h.2] at hfl
        simp only [List.flatten_nil] at hfl
        subst hfl
        simp [actualFilenameLoop]
      | cons a init =>
        simp only [List.cons_append, List.cons.injEq] at h
        have hne : cs ≠ [] := by
          rintro rfl
          simp [pathElems] at h
        rw [if_pos ⟨hc, hne⟩, ih cs init l h.2]
        split
        · rename_i h0
          rw [h.2, h0] at hfl
          simpa using hfl.symm
        · simp
    · rename_i hc
      rw [if_neg (fun hh => hc hh.1)]
      split at h
      · rename_i h0
        rw [h0] at hfl
        simp only [List.flatten_nil] at hfl
        subst hfl
        cases init with
        | nil => simp [actualFilenameLoop]
        | cons a init => simp at h
      · rename_i e' es heq
        cases init with
        | nil =>
          simp only [List.nil_append, List.cons.injEq] at h
          rw [ih last [] e' (by rw [heq, h.2]; rfl), if_pos rfl, if_pos rfl]
        | cons a init =>
          simp only [List.cons_append, List.cons.injEq] at h
          rw [ih last (e' :: init) l (by rw [heq, h.2]; rfl)]
          simp

/-- `sfs_get_actual_filename` of a path with elements is the last element. -/
theorem actualFilename_eq {path : List UInt8} (h : sfsIsValidPath path = true)
    {init : List (List UInt8)} {l : List UInt8} (he : pathElems path.tail = init ++ [l]) :
    sfsGetActualFilename path = l := by
  obtain ⟨cs, rfl, -⟩ := validPath_cons h
  simp only [List.tail_cons] at he
  have hne : cs ≠ [] := by rintro rfl; simp [pathElems] at he
  rw [sfsGetActualFilename, actualFilenameLoop, if_pos ⟨rfl, hne⟩,
    actualFilenameLoop_eq cs cs init l he]
  split
  · rename_i h0
    have := pathElems_flatten cs
    rw [he, h0] at this
    simpa using this.symm
  · rfl

/-- A path is a folder exactly when its last element is. -/
theorem isFolder_last {path : List UInt8} (h : sfsIsValidPath path = true)
    {init : List (List UInt8)} {l : List UInt8} (he : pathElems path.tail = init ++ [l]) :
    sfsIsFolder path = sfsIsFolder l := by
  obtain ⟨cs, rfl, -⟩ := validPath_cons h
  simp only [List.tail_cons] at he
  have hl : l ≠ [] := pathElems_ne_nil cs l (by rw [he]; simp)
  have hfl := pathElems_flatten cs
  rw [he, List.flatten_append, List.flatten_singleton] at hfl
  unfold sfsIsFolder
  rw [← hfl, List.getLast?_cons, List.getLast?_append]
  cases hg : l.getLast? with
  | none => exact absurd (List.getLast?_eq_none_iff.1 hg) hl
  | some c => rfl

/-- Only the root path has no elements. -/
theorem elems_nil {path : List UInt8} (h : sfsIsValidPath path = true)
    (he : pathElems path.tail = []) : path = [SLASH] := by
  obtain ⟨cs, rfl, -⟩ := validPath_cons h
  have := pathElems_flatten cs
  rw [show pathElems cs = [] from he] at this
  simp only [List.flatten_nil] at this
  rw [← this]

/-! ## Resolution -/

/-- Following the entries named `es` from directory `p` leads to `f`. -/
def Walk (blocks : ℕ → Block) : ℕ → List (List UInt8) → ℕ → Prop
  | p, [], f => p = f
  | p, e :: es, f => ∃ i < 25, direntInode (blocks p) i ≠ 0 ∧ direntName (blocks p) i = e ∧
      Walk blocks (direntInode (blocks p) i) es f

/-- All elements but the last name folders. -/
def FolderElems (es : List (List UInt8)) : Prop :=
  ∀ l e r, es = l ++ e :: r → r ≠ [] → sfsIsFolder e = true

theorem FolderElems.tail {e : List UInt8} {es : List (List UInt8)} (h : FolderElems (e :: es)) :
    FolderElems es := fun l e' r heq hr => h (e :: l) e' r (by rw [heq]; rfl) hr

theorem pathElems_folders (p : List UInt8) : FolderElems (pathElems p) := by
  intro l e r h hr
  simpa [sfsIsFolder] using pathElems_slash p l e r h hr

/-- Live entries of one directory have different names. -/
def NamesUnique (blocks : ℕ → Block) : Prop :=
  ∀ p, ReachDir blocks p → ∀ i < 25, ∀ j < 25, direntInode (blocks p) i ≠ 0 →
    direntInode (blocks p) j ≠ 0 → direntName (blocks p) i = direntName (blocks p) j → i = j

section Resolve

variable {disk : Gbd}

/-- What path resolution relies on: transfers succeed, and block numbers in the tree are on the
device and fit an `int`. -/
structure Readable (disk : Gbd) : Prop where
  works : disk.Works
  dir_lt : ∀ p, ReachDir disk.blocks p → p < disk.totalBlocks
  node_lt : ∀ p i f k, Link disk.blocks p i f k → f < 2 ^ 31

theorem resolveLoop_found (hd : Readable disk) :
    ∀ (es : List (List UInt8)) (block : ℕ) (parent : ℤ), FolderElems es →
      ReachDir disk.blocks block → block < 2 ^ 31 →
      (resolveLoop disk es block parent).block ≠ VFS_ERROR →
      (es = [] ∧ (resolveLoop disk es block parent).block = block ∧
        (resolveLoop disk es block parent).parentInode = parent) ∨
      ∃ init l p i f, es = init ++ [l] ∧ Walk disk.blocks block init p ∧
        Link disk.blocks p i f (kindOf (sfsIsFolder l)) ∧ direntName (disk.blocks p) i = l ∧
        (resolveLoop disk es block parent).block = f ∧
        (resolveLoop disk es block parent).parentInode = p
  | [], block, parent, _, _, hlt, _ => by
    refine Or.inl ⟨rfl, ?_, rfl⟩
    simp [resolveLoop, sint_of_lt hlt]
  | e :: es, block, parent, hfe, hr, hlt, hne => by
    rw [resolveLoop, readVblock_works hd.works (hd.dir_lt _ hr)] at hne ⊢
    simp only at hne ⊢
    cases hf : findDirent (disk.blocks block) e SFS_MAX_FILES 0 with
    | none => rw [hf] at hne; exact absurd rfl hne
    | some i =>
      rw [hf] at hne
      simp only at hne ⊢
      obtain ⟨-, h2, h3, h4⟩ := findDirent_some hf
      have hi : i < 25 := by simpa [SFS_MAX_FILES] using h2
      have hl : Link disk.blocks block i (direntInode (disk.blocks block) i) (kindOf (sfsIsFolder e)) :=
        ⟨hr, hi, rfl, h3, by rw [direntKind, h4]⟩
      by_cases hes : es = []
      · subst hes
        refine Or.inr ⟨[], e, block, i, _, rfl, rfl, hl, h4, ?_, ?_⟩
        · simp [resolveLoop, sint_of_lt (hd.node_lt _ _ _ _ hl)]
        · simp [resolveLoop, sint_of_lt hlt]
      · have hfold : sfsIsFolder e = true := hfe [] e es rfl hes
        have hk : kindOf (sfsIsFolder e) = .dir := by rw [hfold]; rfl
        rcases resolveLoop_found hd es _ (sint block) hfe.tail
          (.sub hr hi h3 (hl.kind.trans hk)) (hd.node_lt _ _ _ _ hl) hne with
          ⟨h5, -⟩ | ⟨init, l, p, j, f, h5, h6, h7, h8, h9, h10⟩
        · exact absurd h5 hes
        · exact Or.inr ⟨e :: init, l, p, j, f, by rw [h5]; rfl, ⟨i, hi, h3, h4, h6⟩, h7, h8, h9, h10⟩

theorem resolveLoop_missing (hd : Readable disk) :
    ∀ (es : List (List UInt8)) (block : ℕ) (parent : ℤ), FolderElems es →
      ReachDir disk.blocks block → block < 2 ^ 31 →
      (resolveLoop disk es block parent).parentExists = true →
      ∃ init l p, es = init ++ [l] ∧ Walk disk.blocks block init p ∧ ReachDir disk.blocks p ∧
        p < 2 ^ 31 ∧ (∀ i < 25, direntInode (disk.blocks p) i ≠ 0 → direntName (disk.blocks p) i ≠ l) ∧
        resolveLoop disk es block parent = ⟨VFS_ERROR, p, true⟩
  | [], block, parent, _, _, _, h => by cases h
  | e :: es, block, parent, hfe, hr, hlt, h => by
    rw [resolveLoop, readVblock_works hd.works (hd.dir_lt _ hr)] at h ⊢
    simp only at h ⊢
    cases hf : findDirent (disk.blocks block) e SFS_MAX_FILES 0 with
    | none =>
      rw [hf] at h
      simp only [List.isEmpty_iff] at h
      subst h
      refine ⟨[], e, block, rfl, rfl, hr, hlt, fun i hi => ?_, ?_⟩
      · exact findDirent_none hf i (by omega) (by simpa [SFS_MAX_FILES] using hi)
      · simp [sint_of_lt hlt]
    | some i =>
      rw [hf] at h
      simp only at h ⊢
      obtain ⟨-, h2, h3, h4⟩ := findDirent_some hf
      have hi : i < 25 := by simpa [SFS_MAX_FILES] using h2
      have hl : Link disk.blocks block i (direntInode (disk.blocks block) i) (kindOf (sfsIsFolder e)) :=
        ⟨hr, hi, rfl, h3, by rw [direntKind, h4]⟩
      by_cases hes : es = []
      · subst hes; cases h
      · have hfold : sfsIsFolder e = true := hfe [] e es rfl hes
        have hk : kindOf (sfsIsFolder e) = .dir := by rw [hfold]; rfl
        obtain ⟨init, l, p, h5, h6, h7⟩ := resolveLoop_missing hd es _ (sint block) hfe.tail
          (.sub hr hi h3 (hl.kind.trans hk)) (hd.node_lt _ _ _ _ hl) h
        exact ⟨e :: init, l, p, by rw [h5]; rfl, ⟨i, hi, h3, h4, h6⟩, h7⟩

/-- **Resolution reads directories only**: it does not change while they stay as they are. -/
theorem resolveLoop_sameTree {disk' : Gbd} (ht : SameTree disk.blocks disk'.blocks)
    (hread : ∀ b, disk'.blocks b = disk.blocks b → readVblock disk' b = readVblock disk b) :
    ∀ (es : List (List UInt8)) (block : ℕ) (parent : ℤ), FolderElems es →
      (es ≠ [] → ReachDir disk.blocks block) →
      resolveLoop disk' es block parent = resolveLoop disk es block parent
  | [], _, _, _, _ => rfl
  | e :: es, block, parent, hfe, hr => by
    have hblock := hr (by simp)
    rw [resolveLoop, resolveLoop, hread block (ht block hblock)]
    cases hv : readVblock disk block with
    | none => rfl
    | some md =>
      have hmd : md = disk.blocks block := by
        unfold readVblock at hv
        split_ifs at hv
        cases hv
        rfl
      subst hmd
      simp only
      cases hf : findDirent (disk.blocks block) e SFS_MAX_FILES 0 with
      | none => rfl
      | some i =>
        apply resolveLoop_sameTree ht hread es _ _ hfe.tail
        intro hes
        obtain ⟨-, h2, h3, h4⟩ := findDirent_some hf
        have hfold : sfsIsFolder e = true := hfe [] e es rfl hes
        have hk : direntKind (disk.blocks block) i = .dir := by
          rw [direntKind, h4, hfold]
          rfl
        exact .sub hblock (by simpa [SFS_MAX_FILES] using h2) h3 hk

/-- A walk to a directory that has no entry of the last name is what resolution reports as
missing. -/
theorem resolveLoop_of_walk (hd : Readable disk) (hu : NamesUnique disk.blocks) {l : List UInt8}
    {p : ℕ} (hno : ∀ i < 25, direntInode (disk.blocks p) i ≠ 0 → direntName (disk.blocks p) i ≠ l) :
    ∀ (init : List (List UInt8)) (block : ℕ) (parent : ℤ), FolderElems (init ++ [l]) →
      ReachDir disk.blocks block → block < 2 ^ 31 → Walk disk.blocks block init p →
      resolveLoop disk (init ++ [l]) block parent = ⟨VFS_ERROR, p, true⟩
  | [], block, parent, _, hr, hlt, hw => by
    have hbp : block = p := hw
    subst hbp
    rw [List.nil_append, resolveLoop, readVblock_works hd.works (hd.dir_lt _ hr)]
    cases hf : findDirent (disk.blocks block) l SFS_MAX_FILES 0 with
    | none => simp [hf, sint_of_lt hlt]
    | some i =>
      obtain ⟨-, h2, h3, h4⟩ := findDirent_some hf
      exact absurd h4 (hno i (by simpa [SFS_MAX_FILES] using h2) h3)
  | e :: init, block, parent, hfe, hr, hlt, ⟨i, hi, h0, hn, hw⟩ => by
    rw [List.cons_append, resolveLoop, readVblock_works hd.works (hd.dir_lt _ hr)]
    simp only
    have hfold : sfsIsFolder e = true := hfe [] e (init ++ [l]) rfl (by simp)
    have hk : kindOf (sfsIsFolder e) = .dir := by rw [hfold]; rfl
    cases hf : findDirent (disk.blocks block) e SFS_MAX_FILES 0 with
    | none => exact absurd hn (findDirent_none hf i (by omega) (by simpa [SFS_MAX_FILES] using hi) h0)
    | some j =>
      obtain ⟨-, h2, h3, h4⟩ := findDirent_some hf
      have hj : j < 25 := by simpa [SFS_MAX_FILES] using h2
      have hij : i = j := hu block hr i hi j hj h0 h3 (by rw [hn, h4])
      subst hij
      have hl : Link disk.blocks block i (direntInode (disk.blocks block) i) .dir :=
        ⟨hr, hi, rfl, h0, by rw [direntKind, hn, hk]⟩
      exact resolveLoop_of_walk hd hu hno init _ _ (FolderElems.tail hfe)
        (.sub hr hi h0 hl.kind) (hd.node_lt _ _ _ _ hl) hw

end Resolve

/-- **A successful resolution** of a path other than the root names a live entry of a reachable
directory, of the kind that the path asks for. -/
theorem resolve_found {s : Sfs} {path : List UInt8} (hd : Readable s.disk)
    (h : (sfsResolveFileExt s path).block ≠ VFS_ERROR) :
    (path = [SLASH] ∧ (sfsResolveFileExt s path).block = 2 ∧
      (sfsResolveFileExt s path).parentInode = -1) ∨
    ∃ init l p i f, pathElems path.tail = init ++ [l] ∧ Walk s.disk.blocks 2 init p ∧
      Link s.disk.blocks p i f (kindOf (sfsIsFolder path)) ∧ direntName (s.disk.blocks p) i = l ∧
      (sfsResolveFileExt s path).block = f ∧ (sfsResolveFileExt s path).parentInode = p := by
  unfold sfsResolveFileExt at h ⊢
  split at h
  · rename_i hv
    rw [if_pos hv]
    rcases resolveLoop_found hd _ _ (-1) (pathElems_folders path.tail) .root (by decide) h with
      ⟨h1, h2, h3⟩ | ⟨init, l, p, i, f, h1, h2, h3, h4, h5, h6⟩
    · exact Or.inl ⟨elems_nil hv h1, h2, h3⟩
    · refine Or.inr ⟨init, l, p, i, f, h1, h2, ?_, h4, h5, h6⟩
      rwa [isFolder_last hv h1]
  · exact absurd rfl h

/-- **A resolution that only misses the last element** names a reachable directory without an
entry of that name. -/
theorem resolve_missing {s : Sfs} {path : List UInt8} (hd : Readable s.disk)
    (h : (sfsResolveFileExt s path).parentExists = true) :
    ∃ init p, sfsIsValidPath path = true ∧ pathElems path.tail = init ++ [sfsGetActualFilename path] ∧
      Walk s.disk.blocks 2 init p ∧ ReachDir s.disk.blocks p ∧ p < 2 ^ 31 ∧
      (∀ i < 25, direntInode (s.disk.blocks p) i ≠ 0 →
        direntName (s.disk.blocks p) i ≠ sfsGetActualFilename path) ∧
      sfsResolveFileExt s path = ⟨VFS_ERROR, p, true⟩ := by
  unfold sfsResolveFileExt at h ⊢
  split at h
  · rename_i hv
    rw [if_pos hv]
    obtain ⟨init, l, p, h1, h2, h3, h4, h5, h6⟩ :=
      resolveLoop_missing hd _ _ (-1) (pathElems_folders path.tail) .root (by decide) h
    rw [actualFilename_eq hv h1]
    exact ⟨init, p, hv, h1, h2, h3, h4, h5, h6⟩
  · cases h

end Buenos.Fs
