import Buenos.Fs.Sfs.Volume

/-!
# When `sfs_create` succeeds, and what it then writes

* `entryNamed`, `directoryAt` — the entry of a directory by its name, and the directory that a
  sequence of path elements leads to.
* `Creatable` — the condition: a valid path other than the root, its parent exists and has a free
  entry and none of the last name, the size is in range and the disk has room.
* `Creation` — what is on the disk afterwards, byte by byte.

Principal results: `sfs_create_exact` (success exactly under `Creatable`, with `Creation`, else
nothing changes) and `sfs_create_directory_tail`, a new directory block that is not all zeros.
-/

namespace Buenos.Fs

open Bytes Ownership

/-! ## Directories by name -/

/-- The first live entry of a directory block with the given name. -/
def entryNamed (md : Block) (name : List UInt8) : Option ℕ :=
  (List.range 25).find? fun i => direntInode md i ≠ 0 ∧ direntName md i = name

/-- The directory that the elements lead to from directory `p`. -/
def directoryAt (blocks : ℕ → Block) : ℕ → List (List UInt8) → Option ℕ
  | p, [] => some p
  | p, e :: es =>
    match entryNamed (blocks p) e with
    | none => none
    | some i => directoryAt blocks (direntInode (blocks p) i) es

theorem findDirent_eq (md : Block) (name : List UInt8) : ∀ k i : ℕ,
    findDirent md name k i =
      (List.range' i k).find? fun i => direntInode md i ≠ 0 ∧ direntName md i = name
  | 0, _ => rfl
  | k + 1, i => by
    rw [findDirent, List.range'_succ, List.find?_cons, findDirent_eq md name k (i + 1)]
    by_cases h : direntInode md i > 0 ∧ direntName md i = name
    · rw [if_pos h, decide_eq_true ⟨Nat.ne_of_gt h.1, h.2⟩]
    · rw [if_neg h, decide_eq_false fun hc => h ⟨Nat.pos_of_ne_zero hc.1, hc.2⟩]

/-- The loop of `sfs_resolve_file_ext` over a directory. -/
theorem findDirent_entryNamed (md : Block) (name : List UInt8) :
    findDirent md name SFS_MAX_FILES 0 = entryNamed md name := by
  rw [findDirent_eq, entryNamed, List.range_eq_range']
  rfl

theorem entryNamed_some {md : Block} {name : List UInt8} {i : ℕ} (h : entryNamed md name = some i) :
    i < 25 ∧ direntInode md i ≠ 0 ∧ direntName md i = name := by
  rw [← findDirent_entryNamed] at h
  obtain ⟨-, h1, h2, h3⟩ := findDirent_some h
  exact ⟨by simpa [SFS_MAX_FILES] using h1, h2, h3⟩

section Resolve

variable {disk : Gbd}

/-- **Resolution misses the last element only** exactly when the parent exists without an entry of
that name. -/
theorem resolveLoop_missing_iff (hd : Readable disk) (l : List UInt8) :
    ∀ (init : List (List UInt8)) (block : ℕ) (parent : ℤ), FolderElems (init ++ [l]) →
      ReachDir disk.blocks block → block < 2 ^ 31 → ∀ p : ℕ,
      (resolveLoop disk (init ++ [l]) block parent = ⟨VFS_ERROR, p, true⟩ ↔
        directoryAt disk.blocks block init = some p ∧ entryNamed (disk.blocks p) l = none)
  | [], block, parent, _, hr, hlt, p => by
    rw [List.nil_append, resolveLoop, readVblock_works hd.works (hd.dir_lt _ hr)]
    simp only [findDirent_entryNamed, directoryAt, Option.some.injEq]
    cases hn : entryNamed (disk.blocks block) l with
    | none =>
      simp only [List.isEmpty_nil, Resolved.mk.injEq, true_and, and_true, sint_of_lt hlt]
      constructor
      · intro h
        obtain rfl := Int.ofNat_inj.1 h
        exact ⟨rfl, hn⟩
      · rintro ⟨rfl, -⟩
        rfl
    | some i =>
      simp only [resolveLoop, Resolved.mk.injEq, Bool.false_eq_true, and_false, false_iff]
      rintro ⟨rfl, h⟩
      rw [hn] at h
      cases h
  | e :: init, block, parent, hfe, hr, hlt, p => by
    rw [List.cons_append, resolveLoop, readVblock_works hd.works (hd.dir_lt _ hr)]
    simp only [findDirent_entryNamed, directoryAt]
    have hfold : sfsIsFolder e = true := hfe [] e (init ++ [l]) rfl (by simp)
    cases hn : entryNamed (disk.blocks block) e with
    | none =>
      have hne : (init ++ [l]).isEmpty = false := by simp
      simp [hne]
    | some i =>
      obtain ⟨hi, h0, hname⟩ := entryNamed_some hn
      have hk : direntKind (disk.blocks block) i = .dir := by
        rw [direntKind, hname, hfold]
        rfl
      have hl : Link disk.blocks block i (direntInode (disk.blocks block) i) .dir :=
        ⟨hr, hi, rfl, h0, hk⟩
      exact resolveLoop_missing_iff hd l init _ _ (FolderElems.tail hfe) (.sub hr hi h0 hk)
        (hd.node_lt _ _ _ _ hl) p

end Resolve

/-! ## The condition -/

/-- The blocks that a creation takes: the inode or directory block, and `ceil(size / 512)` data blocks
for a file. -/
def blocksFor (path : List UInt8) (size : Int32) : ℕ :=
  if sfsIsFolder path then 1 else 1 + (size.toInt.toNat + 511) / 512

/-- **The path can be created**, as `l` in directory `p`. -/
structure Creatable (s : Sfs) (path : List UInt8) (size : Int32) (init : List (List UInt8))
    (l : List UInt8) (p : ℕ) : Prop where
  valid : sfsIsValidPath path = true
  elems : pathElems path.tail = init ++ [l]
  parent : directoryAt s.disk.blocks SFS_DIRECTORY_BLOCK init = some p
  missing : entryNamed (s.disk.blocks p) l = none
  range : sfsIsFolder path = false → 0 ≤ size.toInt ∧ size.toInt ≤ SFS_MAX_FILESIZE
  slot : ∃ i < 25, direntInode (s.disk.blocks p) i = 0
  room : blocksFor path size ≤ (freeBits (s.disk.blocks SFS_ALLOCATION_BLOCK) s.totalvblocks).card

theorem numVblocks_eq {n : ℕ} (h : n ≤ SFS_MAX_FILESIZE) : numVblocks n = (n + 511) / 512 := by
  simp only [SFS_MAX_FILESIZE] at h
  unfold numVblocks
  simp only [SFS_BLOCKS_PER_VBLOCK, Nat.div_one, Nat.mod_one, ne_eq, not_true_eq_false, if_false,
    Nat.add_zero, SFS_BLOCK_SIZE, Nat.cast_ofNat]
  have hsum : (((n : ℤ) + 512 - 1) % 2 ^ 32).toNat = n + 511 := by omega
  rw [hsum, sint_of_lt (by omega), Int.tdiv_eq_ediv_of_nonneg (by omega)]
  omega

section Condition

variable {s : Sfs} {pins : Pins} {path : List UInt8} {size : Int32}

/-- The size is in range exactly when the code's checks pass. -/
theorem size_range_iff : (sfsIsFolder path = true ∨ 0 ≤ size.toInt) ∧
      numVblocks (createSize path size) ≤ SFS_BLOCKS_MAX ↔
    (sfsIsFolder path = false → 0 ≤ size.toInt ∧ size.toInt ≤ SFS_MAX_FILESIZE) := by
  by_cases hf : sfsIsFolder path = true
  · have hzero : numVblocks 0 ≤ SFS_BLOCKS_MAX := by decide
    simp [hf, createSize, hzero]
  · have hlt := Int32.toInt_lt size
    simp only [hf, Bool.false_eq_true, false_or, createSize, if_false, true_imp_iff]
    constructor
    · rintro ⟨h0, hn⟩
      have h := @numVblocks_size size.toInt.toNat (by omega) (by omega) hn
      simp only [SFS_BLOCKS_MAX] at hn
      simp only [SFS_MAX_FILESIZE]
      omega
    · rintro ⟨h0, hn⟩
      refine ⟨h0, ?_⟩
      simp only [SFS_MAX_FILESIZE] at hn
      rw [numVblocks_eq (by simp only [SFS_MAX_FILESIZE]; omega), SFS_BLOCKS_MAX]
      omega

theorem blocksFor_eq
    (h : sfsIsFolder path = false → 0 ≤ size.toInt ∧ size.toInt ≤ SFS_MAX_FILESIZE) :
    neededBlocks (sfsIsFolder path) (numVblocks (createSize path size)) = blocksFor path size := by
  unfold neededBlocks blocksFor createSize
  by_cases hf : sfsIsFolder path = true
  · rw [if_pos hf, if_pos hf]
  · have := h (by simpa using hf)
    rw [if_neg hf, if_neg hf, if_neg hf, numVblocks_eq (by omega)]

/-- A creatable path passes the checks of `sfs_create`. -/
theorem Creatable.mayCreate {init : List (List UInt8)} {l : List UInt8} {p : ℕ}
    (h : Creatable s path size init l p) (hi : Inv s pins) : MayCreate s path size p := by
  obtain ⟨h1, h2⟩ := size_range_iff.2 h.range
  refine ⟨h.valid, h1, h2, ?_⟩
  have hfe := pathElems_folders path.tail
  rw [h.elems] at hfe
  rw [sfsResolveFileExt, if_pos h.valid, h.elems]
  have hiff := resolveLoop_missing_iff hi.readable l init SFS_DIRECTORY_BLOCK (-1) hfe .root
    (show 2 < 2 ^ 31 by omega) p
  exact hiff.2 ⟨h.parent, h.missing⟩

/-- What passes the checks can be created when there is a free entry and room on the disk. -/
theorem creatable_of_mayCreate {p : ℕ} (h : MayCreate s path size p) (hi : Inv s pins)
    (hslot : ∃ i < 25, direntInode (s.disk.blocks p) i = 0)
    (hroom : neededBlocks (sfsIsFolder path) (numVblocks (createSize path size)) ≤
      (freeBits (s.disk.blocks SFS_ALLOCATION_BLOCK) s.totalvblocks).card) :
    ∃ init l, Creatable s path size init l p := by
  obtain ⟨hv, h0, hnum, hr⟩ := h
  have hmissing : (sfsResolveFileExt s path).parentExists = true := by rw [hr]
  obtain ⟨init, q, -, helems, -⟩ := resolve_missing hi.readable hmissing
  have hfe := pathElems_folders path.tail
  rw [helems] at hfe
  rw [sfsResolveFileExt, if_pos hv, helems] at hr
  have hiff := resolveLoop_missing_iff hi.readable _ init SFS_DIRECTORY_BLOCK (-1) hfe .root
    (show 2 < 2 ^ 31 by omega) p
  obtain ⟨hparent, hmiss⟩ := hiff.1 hr
  have hsize := size_range_iff.1 ⟨h0, hnum⟩
  exact ⟨init, _, hv, helems, hparent, hmiss, hsize, hslot,
    (blocksFor_eq hsize).ge.trans hroom⟩

end Condition

/-! ## The disk after a creation -/

/-- **The volume after a successful creation**: entry `idx` of `p` refers to `f`, whose data blocks are
`data`. -/
structure Creation (s s' : Sfs) (path : List UInt8) (size : Int32) (l : List UInt8) (p idx f : ℕ)
    (data : List ℕ) : Prop where
  state : s' = { s with disk := s.disk.withBlocks s'.disk.blocks }
  idx_lt : idx < 25
  free : direntInode (s.disk.blocks p) idx = 0
  inode : direntInode (s'.disk.blocks p) idx = f
  name : direntName (s'.disk.blocks p) idx = l
  parent : ∀ i < 512, i < 20 * idx ∨ 20 * idx + 4 + l.length < i →
    (s'.disk.blocks p).byte i = (s.disk.blocks p).byte i
  nodup : (f :: data).Nodup
  fresh : ∀ b ∈ f :: data, b < s.totalvblocks ∧ bitmapGet (s.disk.blocks SFS_ALLOCATION_BLOCK) b = 0
  count : (f :: data).length = blocksFor path size
  bits : ∀ b, bitmapGet (s'.disk.blocks SFS_ALLOCATION_BLOCK) b =
    if b ∈ f :: data then 1 else bitmapGet (s.disk.blocks SFS_ALLOCATION_BLOCK) b
  file : sfsIsFolder path = false → inodeFilesize (s'.disk.blocks f) = size.toInt.toNat ∧
    ∀ j < 127, inodeBlock (s'.disk.blocks f) j = data.getD j 0
  zero : ∀ b ∈ data, s'.disk.blocks b = Buf.const 512 0
  folder : sfsIsFolder path = true → ∀ i < 512, (s'.disk.blocks f).byte i =
    if i < 20 * SFS_MAX_FILES then 0 else (s.disk.blocks p).byte i
  other : ∀ b, b ≠ SFS_ALLOCATION_BLOCK → b ≠ p → b ∉ f :: data →
    s'.disk.blocks b = s.disk.blocks b

/-- The bytes of a directory block that a new entry leaves alone. -/
theorem setDirent_byte (md : Block) {idx inode i : ℕ} {name : List UInt8} (hlen : name.length ≤ 15)
    (h : i < 20 * idx ∨ 20 * idx + 4 + name.length < i) :
    (setDirent md idx name inode).byte i = md.byte i := by
  have htake : name.take (SFS_FILENAME_MAX - 1) = name :=
    List.take_of_length_le (by simp only [SFS_FILENAME_MAX]; omega)
  rw [setDirent, htake, Buf.setWord]
  rcases h with h | h
  · rw [Buf.byte_store_of_lt _ _ h, Buf.byte_store_of_lt _ _ (by omega)]
  · rw [Buf.byte_store_of_ge _ (by rw [be32_length]; omega),
      Buf.byte_store_of_ge _ (by rw [List.length_append, List.length_singleton]; omega)]

section Created

variable {n : ℕ} {blocks blocks' : ℕ → Block} {p : ℕ} {name : List UInt8} {isFolder : Bool}
  {size num idx f : ℕ} {data : List ℕ}

theorem Created.length (hc : Created n blocks blocks' p name isFolder size num idx f data) :
    (f :: data).length = neededBlocks isFolder num := by
  rw [neededBlocks, List.length_cons]
  by_cases hf : isFolder = true
  · rw [if_pos hf, (hc.folder hf).1]
    rfl
  · rw [if_neg hf, (hc.file (by simpa using hf)).1, Nat.add_comm]

/-- A creation was possible because enough blocks were free. -/
theorem Created.room (hc : Created n blocks blocks' p name isFolder size num idx f data) :
    neededBlocks isFolder num ≤ (freeBits (blocks SFS_ALLOCATION_BLOCK) n).card := by
  rw [← hc.length, ← List.toFinset_card_of_nodup hc.nodup]
  apply Finset.card_le_card
  intro b hb
  exact mem_freeBits.2 (hc.fresh b (List.mem_toFinset.1 hb))

end Created

/-- The outcome of `sfs_create` in terms of bytes. -/
theorem CreateOk.creation {s s' : Sfs} {path : List UInt8} {size : Int32} {p idx f : ℕ}
    {data : List ℕ} (h : CreateOk s s' path p idx f data (createSize path size))
    (hsmall : s.totalvblocks ≤ 4096)
    (hsize : sfsIsFolder path = false → 0 ≤ size.toInt ∧ size.toInt ≤ SFS_MAX_FILESIZE)
    (hdir : sfsIsFolder path = true → s'.disk.blocks f =
      newDirectory (setDirent (s.disk.blocks p) idx (sfsGetActualFilename path) f)) :
    Creation s s' path size (sfsGetActualFilename path) p idx f data := by
  have hc := h.created
  have hf := (hc.fresh f (List.mem_cons_self ..)).1
  refine ⟨h.state, hc.idx_lt, hc.slot, ?_, ?_, fun i hi hout => ?_, hc.nodup, hc.fresh, ?_, hc.bits,
    fun hfo => ?_, hc.zero, fun hfo i hi => ?_, hc.other⟩
  · rw [hc.entry, setDirent_inode _ _ hc.idx_lt (by omega), if_pos rfl]
  · rw [hc.entry, setDirent_name _ hc.idx_lt h.length h.nonzero, if_pos rfl]
  · rw [hc.entry, setDirent_byte _ h.length hout]
  · rw [← blocksFor_eq hsize, hc.length]
  · obtain ⟨-, h1, h2⟩ := hc.file hfo
    refine ⟨?_, h2⟩
    rw [h1, createSize, hfo]
    rfl
  · have hlast : 500 ≤ i → (setDirent (s.disk.blocks p) idx (sfsGetActualFilename path) f).byte i =
        (s.disk.blocks p).byte i := by
      intro hi5
      have hlen := h.length
      have hidx := hc.idx_lt
      exact setDirent_byte _ hlen (Or.inr (by omega))
    rw [hdir hfo, newDirectory_byte _ hi, SFS_MAX_FILES]
    by_cases hi5 : i < 500
    · rw [if_pos hi5, if_pos (by omega)]
    · rw [if_neg hi5, if_neg (by omega), hlast (by omega)]

/-- **When `sfs_create` succeeds, and what it then writes.**  On every well-formed volume, after any
calls, it succeeds exactly for the creatable paths, and changes nothing when it fails. -/
theorem sfs_create_exact (disk : Gbd) (h : WellFormed disk) (hw : disk.Works) (calls : List Call)
    (s : Sfs) (hr : run (sfsInit disk) calls = some s) (path : List UInt8) (size : Int32) :
    ((sfsCreate s path size).1 = VFS_OK ↔ ∃ init l p, Creatable s path size init l p) ∧
    (∀ init l p, Creatable s path size init l p → ∃ s' idx f data,
      sfsCreate s path size = (VFS_OK, s') ∧ Creation s s' path size l p idx f data) ∧
    ((sfsCreate s path size).1 ≠ VFS_OK → sfsCreate s path size = (VFS_ERROR, s)) := by
  obtain ⟨s1, hr1, hq⟩ := run_inv calls (h.quiet hw)
  obtain rfl := Option.some.inj (hr1.symm.trans hr)
  have hinv := hq.inv
  have hok : ∀ init l p, Creatable s1 path size init l p → ∃ s' idx f data,
      sfsCreate s1 path size = (VFS_OK, s') ∧ Creation s1 s' path size l p idx f data := by
    intro init l p hc
    have hl := actualFilename_eq hc.valid hc.elems
    obtain ⟨hv, h0, hnum, hres⟩ := hc.mayCreate hinv
    rcases sfsCreate_missing hinv hv h0 hnum hres with ⟨s', idx, f, data, h1, h2, h3⟩ | ⟨-, h1 | h1⟩
    · rw [← hl]
      exact ⟨s', idx, f, data, h1, h2.creation hinv.small hc.range h3⟩
    · obtain ⟨i, hi, hfree⟩ := hc.slot
      exact absurd hfree (h1 i hi)
    · rw [blocksFor_eq hc.range] at h1
      exact absurd hc.room (by omega)
  -- what is not creatable is refused by the checks, or for lack of an entry or of blocks
  have hfail : (¬ ∃ init l p, Creatable s1 path size init l p) →
      sfsCreate s1 path size = (VFS_ERROR, s1) := by
    intro hno
    by_cases hmay : ∃ p, MayCreate s1 path size p
    · obtain ⟨p, hp⟩ := hmay
      obtain ⟨hv, h0, hnum, hres⟩ := hp
      rcases sfsCreate_missing hinv hv h0 hnum hres with ⟨s', idx, f, data, -, h2, -⟩ | ⟨h1, -⟩
      · refine absurd ?_ hno
        obtain ⟨init, l, hc⟩ := creatable_of_mayCreate ⟨hv, h0, hnum, hres⟩ hinv
          ⟨idx, h2.created.idx_lt, h2.created.slot⟩ h2.created.room
        exact ⟨init, l, p, hc⟩
      · exact h1
    · exact sfsCreate_refused hinv fun p hp => hmay ⟨p, hp⟩
  refine ⟨⟨fun hv => ?_, ?_⟩, hok, fun hne => ?_⟩
  · by_contra hno
    rw [hfail hno] at hv
    cases hv
  · rintro ⟨init, l, p, hc⟩
    obtain ⟨s', idx, f, data, h1, -⟩ := hok init l p hc
    rw [h1]
  · apply hfail
    rintro ⟨init, l, p, hc⟩
    obtain ⟨s', idx, f, data, h1, -⟩ := hok init l p hc
    rw [h1] at hne
    exact hne rfl

/-- In a directory made by the run before: a file of 600 bytes is created, one in a missing directory is
refused. -/
theorem sfs_create_exact_nested :
    ∃ s, run (sfsInit emptyVolume) [.create [47, 100, 47] 0] = some s ∧
      (∃ s' idx f data, sfsCreate s [47, 100, 47, 102] 600 = (VFS_OK, s') ∧
        Creation s s' [47, 100, 47, 102] 600 [102] 3 idx f data) ∧
      sfsCreate s [47, 101, 47, 102] 600 = (VFS_ERROR, s) := by
  have hall : (run (sfsInit emptyVolume) [.create [47, 100, 47] 0]).map (fun s =>
      (directoryAt s.disk.blocks SFS_DIRECTORY_BLOCK [[100, 47]],
        entryNamed (s.disk.blocks 3) [102], direntInode (s.disk.blocks 3) 0,
        (freeBits (s.disk.blocks SFS_ALLOCATION_BLOCK) s.totalvblocks).card,
        (sfsCreate s [47, 101, 47, 102] 600).1)) = some (some 3, none, 0, 8, VFS_ERROR) := by
    decide +kernel
  obtain ⟨s, hr, hall⟩ := Option.map_eq_some_iff.1 hall
  simp only [Prod.mk.injEq] at hall
  obtain ⟨hdir, hmissing, hslot, hroom, herror⟩ := hall
  obtain ⟨-, hok, hfail⟩ := sfs_create_exact emptyVolume emptyVolume_wellFormed emptyVolume_works _ s
    hr [47, 100, 47, 102] 600
  obtain ⟨-, -, hfail⟩ := sfs_create_exact emptyVolume emptyVolume_wellFormed emptyVolume_works _ s
    hr [47, 101, 47, 102] 600
  refine ⟨s, hr, hok [[100, 47]] [102] 3 ?_, hfail (by rw [herror]; decide)⟩
  exact ⟨by decide +kernel, by decide, hdir, hmissing, fun _ => by decide, ⟨0, by decide, hslot⟩,
    by rw [hroom]; decide⟩

/-- An empty volume with a byte behind the entries of the root directory. -/
def tailVolume : Gbd :=
  { emptyVolume with blocks := Function.update emptyVolume.blocks 2 ((Buf.const 512 0).store 500 [1]) }

/-- The block of a new directory is not all zeros: behind the entries it has the bytes of its parent. -/
theorem sfs_create_directory_tail :
    ∃ s', WellFormed tailVolume ∧ tailVolume.Works ∧
      sfsCreate (sfsInit tailVolume) [47, 100, 47] 0 = (VFS_OK, s') ∧
      direntInode (s'.disk.blocks 2) 24 = 3 ∧ direntName (s'.disk.blocks 2) 24 = [100, 47] ∧
      s'.disk.blocks 3 ≠ Buf.const 512 0 := by
  have hall : (sfsCreate (sfsInit tailVolume) [47, 100, 47] 0).1 = VFS_OK ∧
      direntInode ((sfsCreate (sfsInit tailVolume) [47, 100, 47] 0).2.disk.blocks 2) 24 = 3 ∧
      direntName ((sfsCreate (sfsInit tailVolume) [47, 100, 47] 0).2.disk.blocks 2) 24 = [100, 47] ∧
      ((sfsCreate (sfsInit tailVolume) [47, 100, 47] 0).2.disk.blocks 3).byte 500 = 1 := by
    decide +kernel
  generalize sfsCreate (sfsInit tailVolume) [47, 100, 47] 0 = r at hall ⊢
  obtain ⟨hok, hinode, hname, hbyte⟩ := hall
  refine ⟨r.2, emptyRoot_wellFormed (by decide +kernel) (by decide +kernel) (by decide +kernel),
    fun _ _ => rfl, Prod.ext hok rfl, hinode, hname, fun hzero => ?_⟩
  rw [hzero, Buf.byte_const, if_pos (by decide)] at hbyte
  cases hbyte

end Buenos.Fs
