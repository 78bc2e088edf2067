import Buenos.Fs.Sfs.FileSystem
import Buenos.Fs.Sfs.DelayedDelete

/-!
# Directory blocks as finite maps

* `direntMap` — the entries of a directory block, and what it becomes when an entry is written
  (`direntMap_setDirent`) or cleared (`direntMap_clearDirents`).
* `DirectoryOk` — the names of a directory block are distinct and have 1 to 15 characters.
* `resolveLoop_walk` — path resolution is the walk through these maps.
* `Directories.effect` — every call keeps the directories in order, open ones that were removed
  included.
-/

namespace Buenos.Fs

open Bytes BlockProgram Ownership

/-! ## One block -/

/-- The slots of a directory block that are in use. -/
def liveSlots (md : Block) : List ℕ := (List.range SFS_MAX_FILES).filter fun i => direntInode md i > 0

/-- The entries of a directory block. -/
def direntMap (md : Block) : Entries :=
  ((liveSlots md).map fun i => (⟨direntName md i, direntInode md i⟩ : Σ _ : List UInt8, ℕ)).toFinmap

/-- The names of a directory block are well formed and distinct. -/
structure DirectoryOk (md : Block) : Prop where
  named : WellNamed md
  unique : ∀ i < 25, ∀ j < 25, direntInode md i ≠ 0 → direntInode md j ≠ 0 →
    direntName md i = direntName md j → i = j

section Directory

variable {md : Block} {name : List UInt8} {i f : ℕ}

theorem mem_liveSlots : i ∈ liveSlots md ↔ i < 25 ∧ direntInode md i ≠ 0 := by
  simp [liveSlots, SFS_MAX_FILES, Nat.pos_iff_ne_zero]

theorem dlookup_map (l : List ℕ) (name : List UInt8) :
    (l.map fun i => (⟨direntName md i, direntInode md i⟩ : Σ _ : List UInt8, ℕ)).dlookup name =
      (l.find? fun i => direntName md i = name).map (direntInode md) := by
  induction l with
  | nil => rfl
  | cons i l ih =>
    rw [List.map_cons, List.find?_cons]
    by_cases h : direntName md i = name
    · subst h
      simp
    · rw [List.dlookup_cons_ne _ _ (Ne.symm h), ih, decide_eq_false h]

/-- A name is looked up at its first live entry. -/
theorem lookup_direntMap (md : Block) (name : List UInt8) :
    (direntMap md).lookup name = (entryNamed md name).map (direntInode md) := by
  rw [direntMap, Finmap.dlookup_list_toFinmap, dlookup_map, liveSlots, List.find?_filter, entryNamed]
  congr 2
  funext i
  simp [Nat.pos_iff_ne_zero]

theorem entryNamed_none : entryNamed md name = none ↔
    ∀ i < 25, direntInode md i ≠ 0 → direntName md i ≠ name := by
  simp [entryNamed]

theorem notMem_direntMap : name ∉ direntMap md ↔ entryNamed md name = none := by
  rw [← Finmap.lookup_eq_none, lookup_direntMap, Option.map_eq_none_iff]

theorem DirectoryOk.entryNamed_iff (h : DirectoryOk md) :
    entryNamed md name = some i ↔ i < 25 ∧ direntInode md i ≠ 0 ∧ direntName md i = name := by
  refine ⟨entryNamed_some, ?_⟩
  rintro ⟨h1, h2, h3⟩
  cases hn : entryNamed md name with
  | none => exact absurd h3 (entryNamed_none.1 hn i h1 h2)
  | some j =>
    obtain ⟨h4, h5, h6⟩ := entryNamed_some hn
    rw [h.unique i h1 j h4 h2 h5 (h3.trans h6.symm)]

/-- The entry in slot `i`. -/
theorem DirectoryOk.lookup (h : DirectoryOk md) (hi : i < 25) (h0 : direntInode md i ≠ 0) :
    (direntMap md).lookup (direntName md i) = some (direntInode md i) := by
  rw [lookup_direntMap, h.entryNamed_iff.2 ⟨hi, h0, rfl⟩, Option.map_some]

theorem keys_direntMap (md : Block) : (direntMap md).keys = (liveNames md).toFinset := by
  ext name
  simp [direntMap, Finmap.mem_keys, Finmap.mem_list_toFinmap, liveNames, liveSlots]

theorem DirectoryOk.liveNames_nodup (h : DirectoryOk md) : (liveNames md).Nodup := by
  apply List.Nodup.map_on
  · intro i hi j hj he
    obtain ⟨h1, h2⟩ := mem_liveSlots.1 hi
    obtain ⟨h3, h4⟩ := mem_liveSlots.1 hj
    exact h.unique i h1 j h3 h2 h4 he
  · exact List.nodup_range.filter _

/-- There is room for a name exactly when a slot is free. -/
theorem DirectoryOk.card_lt (h : DirectoryOk md) :
    (direntMap md).keys.card < SFS_MAX_FILES ↔ ∃ i < 25, direntInode md i = 0 := by
  rw [keys_direntMap, List.toFinset_card_of_nodup h.liveNames_nodup, liveNames, List.length_map]
  conv_lhs => rhs; rw [← List.length_range (n := SFS_MAX_FILES)]
  rw [List.length_filter_lt_length_iff_exists]
  simp [SFS_MAX_FILES]

theorem directoryOk_empty (h : ∀ i < 25, direntInode md i = 0) : DirectoryOk md where
  named := fun r hr h0 => absurd (h r hr) (by omega)
  unique := fun i hi _ _ h0 => absurd (h i hi) h0

theorem direntMap_empty (h : ∀ i < 25, direntInode md i = 0) : direntMap md = ∅ := by
  apply Finmap.ext_lookup
  intro name
  rw [lookup_direntMap, Finmap.lookup_empty, entryNamed_none.2 fun i hi h0 => absurd (h i hi) h0]
  rfl

/-- Slots that the change leaves alone name the same. -/
theorem entryNamed_congr {md' : Block}
    (h : ∀ i < 25, (direntInode md' i ≠ 0 ∧ direntName md' i = name) ↔
      (direntInode md i ≠ 0 ∧ direntName md i = name)) : entryNamed md' name = entryNamed md name := by
  unfold entryNamed
  rw [← List.head?_filter, ← List.head?_filter]
  congr 1
  apply List.filter_congr
  intro i hi
  simp only [h i (List.mem_range.1 hi)]

end Directory

/-! ## Writing and clearing an entry -/

section Change

variable {md : Block} {name : List UInt8} {idx f : ℕ}

/-- A name that may stand in an entry. -/
structure EntryName (name : List UInt8) : Prop where
  nonempty : 1 ≤ name.length
  short : name.length ≤ 15
  nonzero : (0 : UInt8) ∉ name

theorem DirectoryOk.setDirent (h : DirectoryOk md) (hn : EntryName name) (hi : idx < 25) (hf : f < 2 ^ 32)
    (hno : entryNamed md name = none) : DirectoryOk (setDirent md idx name f) := by
  have hinode := setDirent_inode md name hi hf
  have hname : ∀ j, direntName (Fs.setDirent md idx name f) j = if j = idx then name else direntName md j :=
    setDirent_name md hi hn.short hn.nonzero
  have hfresh := entryNamed_none.1 hno
  constructor
  · intro r hr h0
    rw [hname]
    rw [hinode] at h0
    split
    · exact ⟨hn.nonempty, hn.short⟩
    · rename_i hne
      rw [if_neg hne] at h0
      exact h.named r hr h0
  · intro i hi' j hj hi0 hj0 he
    rw [hinode] at hi0 hj0
    rw [hname, hname] at he
    split_ifs at hi0 hj0 he with h1 h2 h2
    · rw [h1, h2]
    · exact absurd he.symm (hfresh j hj hj0)
    · exact absurd he (hfresh i hi' hi0)
    · exact h.unique i hi' j hj hi0 hj0 he

/-- **Writing an entry** adds its name. -/
theorem direntMap_setDirent (h : DirectoryOk md) (hn : EntryName name) (hi : idx < 25) (hf : f < 2 ^ 32)
    (hf0 : f ≠ 0) (hslot : direntInode md idx = 0) (hno : entryNamed md name = none) :
    direntMap (setDirent md idx name f) = (direntMap md).insert name f := by
  have hinode := setDirent_inode md name hi hf
  have hname : ∀ j, direntName (Fs.setDirent md idx name f) j = if j = idx then name else direntName md j :=
    setDirent_name md hi hn.short hn.nonzero
  apply Finmap.ext_lookup
  intro other
  rw [lookup_direntMap]
  by_cases he : other = name
  · subst he
    rw [Finmap.lookup_insert, (h.setDirent hn hi hf hno).entryNamed_iff.2
      ⟨hi, by rw [hinode, if_pos rfl]; exact hf0, by rw [hname, if_pos rfl]⟩, Option.map_some, hinode,
      if_pos rfl]
  · rw [Finmap.lookup_insert_of_ne _ he, lookup_direntMap, entryNamed_congr fun i _ => ?_]
    · cases hent : entryNamed md other with
      | none => rfl
      | some i =>
        obtain ⟨-, h0, -⟩ := entryNamed_some hent
        rw [Option.map_some, Option.map_some, hinode, if_neg]
        rintro rfl
        exact h0 hslot
    · rw [hinode, hname]
      by_cases hi' : i = idx
      · simp [hi', hslot, Ne.symm he]
      · simp [hi']

theorem DirectoryOk.clear (h : DirectoryOk md) (f : ℤ) :
    DirectoryOk (clearDirents f SFS_MAX_FILES 0 md) := by
  rw [show SFS_MAX_FILES = 25 from rfl]
  have hkeep : ∀ j < 25, direntInode (clearDirents f 25 0 md) j ≠ 0 →
      direntInode md j ≠ 0 ∧ direntName (clearDirents f 25 0 md) j = direntName md j := by
    intro j hj h0
    rw [clearDirents_inode f 25 0 md (by decide)] at h0
    split at h0
    · exact absurd rfl h0
    · rename_i hne
      exact ⟨h0, clearDirents_name f 25 0 md (by decide) j fun hs => hne ⟨by omega, by omega, hs⟩⟩
  constructor
  · intro r hr h0
    obtain ⟨h1, h2⟩ := hkeep r hr (by omega)
    rw [h2]
    exact h.named r hr (by omega)
  · intro i hi j hj hi0 hj0 he
    obtain ⟨h1, h2⟩ := hkeep i hi hi0
    obtain ⟨h3, h4⟩ := hkeep j hj hj0
    exact h.unique i hi j hj h1 h3 (by rw [← h2, ← h4, he])

/-- **Clearing the entry of a node** takes its name away. -/
theorem direntMap_clearDirents (h : DirectoryOk md) (hi : idx < 25)
    (hf : ∀ j < 25, sint (direntInode md j) = f ↔ j = idx) (h0 : direntInode md idx ≠ 0) :
    direntMap (clearDirents f SFS_MAX_FILES 0 md) = (direntMap md).erase (direntName md idx) := by
  rw [show SFS_MAX_FILES = 25 from rfl]
  have hinode : ∀ j < 25, direntInode (clearDirents f 25 0 md) j =
      if j = idx then 0 else direntInode md j := by
    intro j hj
    rw [clearDirents_inode f 25 0 md (by decide)]
    simp only [hf j hj, Nat.zero_le, Nat.zero_add, hj, true_and]
  have hname : ∀ j < 25, j ≠ idx → direntName (clearDirents f 25 0 md) j = direntName md j :=
    fun j hj hne => clearDirents_name f 25 0 md (by decide) j fun hs => hne ((hf j hj).1 hs)
  apply Finmap.ext_lookup
  intro other
  rw [lookup_direntMap]
  by_cases he : other = direntName md idx
  · subst he
    rw [Finmap.lookup_erase, entryNamed_none.2, Option.map_none]
    intro j hj hj0
    rw [hinode j hj] at hj0
    split at hj0
    · exact absurd rfl hj0
    · rename_i hne
      rw [hname j hj hne]
      exact fun hs => hne (h.unique j hj idx hi hj0 h0 hs)
  · rw [Finmap.lookup_erase_ne he, lookup_direntMap, entryNamed_congr fun i hi' => ?_]
    · cases hent : entryNamed md other with
      | none => simp only [Option.map_none]
      | some i =>
        obtain ⟨h1, -, h2⟩ := entryNamed_some hent
        rw [Option.map_some, Option.map_some, hinode i h1, if_neg]
        rintro rfl
        exact he h2.symm
    · rw [hinode i hi']
      by_cases hne : i = idx
      · simp [hne, Ne.symm he]
      · rw [if_neg hne, hname i hi' hne]

theorem unlinkBlocks_directoryOk {blocks : ℕ → Block} {p d : ℕ} (h : DirectoryOk (blocks d)) :
    DirectoryOk (unlinkBlocks blocks p f d) := by
  by_cases hdp : d = p
  · subst hdp
    rw [unlinkBlocks, Function.update_self]
    exact h.clear _
  · rw [unlinkBlocks_of_ne hdp]
    exact h

end Change

/-! ## Path resolution -/

/-- The node that directory block `d` calls `name`. -/
def entryIn (blocks : ℕ → Block) (d : ℕ) (name : List UInt8) : Option ℕ := (direntMap (blocks d)).lookup name

/-- The answer of path resolution. -/
def foundBlock : Option ℕ → ℤ
  | some f => f
  | none => VFS_ERROR

/-- **Path resolution walks** through the entries. -/
theorem resolveLoop_walk {disk : Gbd} (hd : Readable disk) :
    ∀ (es : List (List UInt8)) (block : ℕ) (parent : ℤ), FolderElems es → ReachDir disk.blocks block →
      block < 2 ^ 31 →
      (resolveLoop disk es block parent).block = foundBlock (es.foldlM (entryIn disk.blocks) block)
  | [], block, parent, _, _, hlt => by simp [resolveLoop, sint_of_lt hlt, foundBlock]
  | e :: es, block, parent, hfe, hr, hlt => by
    rw [resolveLoop, readVblock_works hd.works (hd.dir_lt _ hr)]
    simp only [findDirent_entryNamed, List.foldlM_cons, entryIn, lookup_direntMap]
    cases hn : entryNamed (disk.blocks block) e with
    | none => rfl
    | some i =>
      obtain ⟨hi, h0, hname⟩ := entryNamed_some hn
      have hl : Link disk.blocks block i (direntInode (disk.blocks block) i) (kindOf (sfsIsFolder e)) :=
        ⟨hr, hi, rfl, h0, by rw [direntKind, hname]⟩
      have hlt' := hd.node_lt _ _ _ _ hl
      by_cases hes : es = []
      · subst hes
        simp [resolveLoop, sint_of_lt hlt', foundBlock]
      · have hfold : sfsIsFolder e = true := hfe [] e es rfl hes
        have hk : direntKind (disk.blocks block) i = .dir := by
          rw [hl.kind, hfold]
          rfl
        exact resolveLoop_walk hd es _ _ hfe.tail (.sub hr hi h0 hk) hlt'

/-- The node that a path names on a volume. -/
def nodeAt (blocks : ℕ → Block) (path : List UInt8) : Option ℕ :=
  if sfsIsValidPath path then (pathElems path.tail).foldlM (entryIn blocks) SFS_DIRECTORY_BLOCK else none

theorem resolve_nodeAt {s : Sfs} {pins : Pins} (h : Inv s pins) (path : List UInt8) :
    (sfsResolveFileExt s path).block = foundBlock (nodeAt s.disk.blocks path) := by
  unfold sfsResolveFileExt nodeAt
  split
  · exact resolveLoop_walk h.readable _ _ _ (pathElems_folders _) .root (by decide)
  · rfl

/-! ## Along runs -/

/-- The directories in use are in order, those that are only open included. -/
def Directories (s : Sfs) : Prop :=
  ∀ {d}, Live s.disk.blocks s.openFiles noPins (.node d .dir) → DirectoryOk (s.disk.blocks d)

/-- The last element of a valid path may stand in an entry. -/
theorem entryName_actual {path : List UInt8} (hv : sfsIsValidPath path = true)
    {init : List (List UInt8)} (he : pathElems path.tail = init ++ [sfsGetActualFilename path]) :
    EntryName (sfsGetActualFilename path) := by
  obtain ⟨h1, h2, h3⟩ := validPath_elems hv (sfsGetActualFilename path) (by rw [he]; simp)
  exact ⟨List.length_pos_iff.2 h1, h2, h3⟩

section Effects

variable {s s' : Sfs} {d : ℕ}

theorem CreateOk.entryName {path : List UInt8} {p idx f : ℕ} {data : List ℕ} {size : ℕ}
    (h : CreateOk s s' path p idx f data size) : EntryName (sfsGetActualFilename path) := by
  obtain ⟨init, h1, -⟩ := h.init
  exact entryName_actual h.valid h1

theorem CreateOk.entryNamed_none {path : List UInt8} {p idx f : ℕ} {data : List ℕ} {size : ℕ}
    (h : CreateOk s s' path p idx f data size) :
    entryNamed (s.disk.blocks p) (sfsGetActualFilename path) = none :=
  Fs.entryNamed_none.2 h.unused

/-- The block of a new node fits in an entry. -/
theorem CreateOk.node_bounds {path : List UInt8} {p idx f : ℕ} {data : List ℕ} {size : ℕ}
    (hinv : Inv s noPins) (h : CreateOk s s' path p idx f data size) : f < 2 ^ 32 ∧ f ≠ 0 := by
  have h1 := (h.created.fresh f (List.mem_cons_self ..)).1
  have h2 := h.created.system_ne hinv.vol (List.mem_cons_self ..)
  have h3 := hinv.small
  omega

/-- **The directories stay in order.** -/
theorem Directories.effect {c : Call} {r : Reply} (hq : Quiet s) (h : Directories s)
    (he : Effect s c r s') : Directories s' := by
  intro d hd
  rcases he.live hq hd with ⟨hl, -⟩ | ⟨path, size, p, idx, data, rfl, hk, hc⟩
  · cases he with
    | failed => exact h hl
    | read => exact h hl
    | opened => exact h hl
    | closed => exact h hl
    | released => exact h hl
    | @created path size s' p idx f data hc =>
      by_cases hdp : d = p
      · subst hdp
        rw [hc.created.entry]
        exact (h hl).setDirent hc.entryName hc.created.idx_lt (hc.node_bounds hq.inv).1 hc.entryNamed_none
      · rw [hc.created.same hq.inv.vol hl hdp]
        exact h hl
    | @written e f tid offset buf he hk =>
      obtain ⟨blocks, hdisk, hb⟩ := writeBody_frame s.disk f buf buf.length offset
      rw [hdisk, withBlocks_blocks, hb d (hq.inv.vol.node_untouched
        (Or.inr (Or.inl ⟨e, he, by rw [hk]; rfl⟩)) hl)]
      exact h hl
    | freed =>
      have := hq.inv.vol.two_le hl
      rw [setEntry_disk, freed_blocks, Function.update_of_ne (by simp only [SFS_ALLOCATION_BLOCK]; omega)]
      exact h hl
    | unlinked =>
      rw [setEntry_disk, unlinked_blocks]
      exact unlinkBlocks_directoryOk (h hl)
    | removed =>
      have := hq.inv.vol.two_le hl
      rw [freed_blocks, Function.update_of_ne (by simp only [SFS_ALLOCATION_BLOCK]; omega)]
      exact unlinkBlocks_directoryOk (h hl)
  · have hfo : sfsIsFolder path = true := kindOf_inj (b := true) hk.symm
    exact directoryOk_empty (hc.created.folder hfo).2

end Effects

end Buenos.Fs
