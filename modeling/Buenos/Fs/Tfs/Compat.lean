import Buenos.Fs.Tfs.Model
import Buenos.Fs.Sfs.Effects
import Mathlib.Data.Fintype.Card

/-!
# SFS is backward compatible with TFS

The same calls on the same flat volume, once through `fs/tfs.c` on plain names and once through
`fs/sfs.c` on the names with a slash in front.

* `FlatCall`, `FlatCall.onTfs`, `FlatCall.onSfs` — the calls and the two ways to run them.
* `FlatVolume` — well-formed volumes without directories; a free entry of a TFS directory has no
  inode and an empty name, as `tfs_remove` and `tfstool` leave it.
* `ProperRun` — the calls a client may make: names of the SFS alphabet, sizes that are not negative,
  handles that `open` has returned, removal of unopened files only, fewer than 32 open files.
* `Agree` — the relation between the two filesystems: the same device, and a table of open files that
  counts the handles.

Principal results: `Agree.step` (one call gives the same reply and keeps the relation),
`sfs_tfs_compatible` (replies and disk images agree over every run).
-/

namespace Buenos.Fs

open Bytes BlockProgram Ownership

/-- A call on a flat volume.  `datasize` of a write is the length of its buffer. -/
inductive FlatCall where
  | create (name : List UInt8) (size : Int32)
  | openFile (name : List UInt8)
  | close (fileid : ℤ)
  | read (fileid : ℤ) (bufsize : ℕ) (offset : ℤ)
  | write (tid fileid : ℤ) (buffer : List UInt8) (offset : ℤ)
  | remove (name : List UInt8)

/-- Run a call through `fs/tfs.c`. -/
def FlatCall.onTfs (t : Tfs) : FlatCall → Reply × Tfs
  | .create name size => (⟨(tfsCreate t name size).1, []⟩, (tfsCreate t name size).2)
  | .openFile name => (⟨tfsOpen t name, []⟩, t)
  | .close fileid => (⟨tfsClose fileid, []⟩, t)
  | .read fileid bufsize offset =>
    (⟨(tfsRead t fileid bufsize offset).1.1, (tfsRead t fileid bufsize offset).1.2⟩,
      (tfsRead t fileid bufsize offset).2)
  | .write _ fileid buffer offset =>
    (⟨(tfsWrite t fileid buffer buffer.length offset).1, []⟩,
      (tfsWrite t fileid buffer buffer.length offset).2)
  | .remove name => (⟨(tfsRemove t name).1, []⟩, (tfsRemove t name).2)

/-- The call of `fs/sfs.c` that stands for a call on a flat volume. -/
def FlatCall.toCall : FlatCall → Call
  | .create name size => .create (SLASH :: name) size
  | .openFile name => .openFile (SLASH :: name)
  | .close fileid => .closeFile fileid
  | .read fileid bufsize offset => .read fileid bufsize offset
  | .write tid fileid buffer offset => .write tid fileid buffer offset
  | .remove name => .remove (SLASH :: name)

/-- Run a call through `fs/sfs.c`; `none` when it would wait for ever. -/
def FlatCall.onSfs (s : Sfs) (c : FlatCall) : Option (Reply × Sfs) := c.toCall.exec s

/-- What a client sees of a run through `fs/tfs.c`: every reply and the disk after every call. -/
def tfsTrace (t : Tfs) : List FlatCall → List (Reply × Gbd)
  | [] => []
  | c :: cs => ((c.onTfs t).1, (c.onTfs t).2.disk) :: tfsTrace (c.onTfs t).2 cs

/-- What a client sees of a run through `fs/sfs.c`. -/
def sfsTrace (s : Sfs) : List FlatCall → Option (List (Reply × Gbd))
  | [] => some []
  | c :: cs =>
    match c.onSfs s with
    | none => none
    | some (r, s') => (sfsTrace s' cs).map ((r, s'.disk) :: ·)

/-! ## What a client may call -/

/-- A name for both filesystems: non-empty, at most 15 characters of the SFS alphabet. -/
structure ValidName (name : List UInt8) : Prop where
  ne_nil : name ≠ []
  length_le : name.length ≤ 15
  chars : ∀ c ∈ name, sfsIsValidFilenameChar c = true

instance (name : List UInt8) : Decidable (ValidName name) :=
  haveI : Decidable (∀ c ∈ name, sfsIsValidFilenameChar c = true) := List.decidableBAll _ _
  decidable_of_iff (name ≠ [] ∧ name.length ≤ 15 ∧ ∀ c ∈ name, sfsIsValidFilenameChar c = true)
    ⟨fun h => ⟨h.1, h.2.1, h.2.2⟩, fun h => ⟨h.ne_nil, h.length_le, h.chars⟩⟩

/-- The handles after a call: `open` adds the one it returns, `close` gives one back. -/
def nextHandles (handles : List ℤ) (value : ℤ) : FlatCall → List ℤ
  | .openFile _ => if 0 ≤ value then value :: handles else handles
  | .close fileid => handles.erase fileid
  | _ => handles

/-- The call is one that a client holding `handles` may make. -/
def Proper (t : Tfs) (handles : List ℤ) (c : FlatCall) : Bool :=
  (match c with
    | .create name size => ValidName name && 0 ≤ size.toInt
    | .openFile name => ValidName name
    | .close fileid => fileid ∈ handles
    | .read fileid _ _ => fileid ∈ handles
    | .write _ fileid _ _ => fileid ∈ handles
    | .remove name => ValidName name && tfsOpen t name ∉ handles) &&
  (nextHandles handles (c.onTfs t).1.value c).toFinset.card < SFS_MAX_OPEN_FILES

/-- Every call of the run is proper. -/
def ProperRun (t : Tfs) (handles : List ℤ) : List FlatCall → Bool
  | [] => true
  | c :: cs => Proper t handles c &&
      ProperRun (c.onTfs t).2 (nextHandles handles (c.onTfs t).1.value c) cs

/-- A directory block without directories whose free entries have empty names. -/
structure Flat (md : Block) : Prop where
  file : ∀ i < 25, direntInode md i ≠ 0 → direntKind md i = .file
  free : ∀ i < 25, direntInode md i = 0 → direntName md i = []

/-- **A well-formed flat volume.** -/
structure FlatVolume (disk : Gbd) : Prop where
  wellFormed : WellFormed disk
  flat : Flat (disk.blocks TFS_DIRECTORY_BLOCK)

/-! ## Plain names as paths -/

section Names

variable {name : List UInt8}

/-- The loop of `sfs_is_valid_path` accepts the characters of one element. -/
theorem validPathLoop_name : ∀ (cs : List UInt8) (prev : UInt8) (n : ℕ),
    (∀ c ∈ cs, sfsIsValidFilenameChar c = true) → n + cs.length ≤ 15 →
      validPathLoop prev n cs = true
  | [], _, _, _, _ => rfl
  | c :: cs, prev, n, hc, hn => by
    have hcv := hc c (List.mem_cons_self ..)
    have hne : c ≠ SLASH := by
      rintro rfl
      rw [slash_not_valid] at hcv
      cases hcv
    rw [List.length_cons] at hn
    rw [validPathLoop, if_neg (by simp only [SFS_FILENAME_MAX]; omega), if_neg hne, if_pos hcv]
    exact validPathLoop_name cs c (n + 1) (fun d hd => hc d (List.mem_cons_of_mem _ hd)) (by omega)

theorem validPath_name (h : ValidName name) : sfsIsValidPath (SLASH :: name) = true := by
  rw [sfsIsValidPath, if_neg (by simp)]
  exact validPathLoop_name name SLASH 0 h.chars (by have := h.length_le; omega)

theorem ValidName.noSlash (h : ValidName name) : SLASH ∉ name := by
  intro hm
  have := h.chars _ hm
  rw [slash_not_valid] at this
  cases this

theorem ValidName.nonzero (h : ValidName name) : (0 : UInt8) ∉ name := by
  intro hm
  exact absurd (h.chars 0 hm) (by decide)

theorem pathElems_name (h : ValidName name) : pathElems (SLASH :: name).tail = [name] :=
  pathElems_noSlash name h.ne_nil h.noSlash

theorem actualFilename_name (h : ValidName name) :
    sfsGetActualFilename (SLASH :: name) = name :=
  actualFilename_eq (validPath_name h) (show _ = [] ++ [name] from pathElems_name h)

theorem ValidName.notFolder (h : ValidName name) : sfsIsFolder name = false := by
  rw [sfsIsFolder, decide_eq_false_iff_not]
  exact fun hl => h.noSlash (List.mem_of_getLast? hl)

theorem isFolder_name (h : ValidName name) : sfsIsFolder (SLASH :: name) = false := by
  rw [isFolder_last (validPath_name h) (show _ = [] ++ [name] from pathElems_name h), h.notFolder]

/-- **A plain name resolves in the root directory.** -/
theorem resolve_name {s : Sfs} (h : ValidName name) {md : Block}
    (hr : readVblock s.disk SFS_DIRECTORY_BLOCK = some md) :
    sfsResolveFileExt s (SLASH :: name) =
      match findDirent md name SFS_MAX_FILES 0 with
      | some i => ⟨sint (direntInode md i), 2, false⟩
      | none => ⟨VFS_ERROR, 2, true⟩ := by
  rw [sfsResolveFileExt, if_pos (validPath_name h), pathElems_name h, resolveLoop, hr]
  simp only
  cases hd : findDirent md name SFS_MAX_FILES 0 with
  | some i => rfl
  | none => rfl

end Names

/-! ## The two searches of the directory block -/

section Search

variable {md : Block} {name : List UInt8}

/-- On a flat directory the search by name alone finds what the search for live entries finds. -/
theorem findName_eq (hf : Flat md) (hn : name ≠ []) :
    ∀ k i : ℕ, i + k ≤ 25 → findName md name k i = findDirent md name k i
  | 0, _, _ => rfl
  | k + 1, i, h => by
    rw [findName, findDirent, findName_eq hf hn k (i + 1) (by omega)]
    refine if_congr ⟨fun he => ⟨?_, he⟩, fun he => he.2⟩ rfl rfl
    by_contra h0
    exact hn (he.symm.trans (hf.free i (by omega) (by omega)))

/-- The loop of `tfs_create` is the search for the name followed by the search for a free slot. -/
theorem findSlot_eq (hf : Flat md) (hn : name ≠ []) :
    ∀ (k i : ℕ) (index : Option ℕ), i + k ≤ 25 →
      findSlot md name k i index =
        match findDirent md name k i with
        | some _ => none
        | none => some (findFreeDirent md k i index)
  | 0, _, _, _ => rfl
  | k + 1, i, index, h => by
    rw [findSlot, findDirent, findFreeDirent, findSlot_eq hf hn k (i + 1) _ (by omega)]
    by_cases he : direntName md i = name
    · have h0 : direntInode md i > 0 := by
        by_contra h0
        exact hn (he.symm.trans (hf.free i (by omega) (by omega)))
      rw [if_pos he, if_pos ⟨h0, he⟩]
    · have hno : ¬ (direntInode md i > 0 ∧ direntName md i = name) := fun hc => he hc.2
      rw [if_neg he, if_neg hno]

theorem clearDirents_none {fileid : ℤ} :
    ∀ (k i : ℕ) (md : Block), (∀ j, i ≤ j → j < i + k → sint (direntInode md j) ≠ fileid) →
      clearDirents fileid k i md = md
  | 0, _, _, _ => rfl
  | k + 1, i, md, h => by
    rw [clearDirents, if_neg (h i (Nat.le_refl _) (by omega))]
    exact clearDirents_none k (i + 1) md fun j h1 h2 => h j (by omega) (by omega)

/-- With one entry for the file, `_delete_from_dirtree` clears that entry as `tfs_remove` does. -/
theorem clearDirents_single {fileid : ℤ} {r : ℕ} :
    ∀ (k i : ℕ) (md : Block), i + k ≤ 25 → i ≤ r → r < i + k →
      (∀ j, i ≤ j → j < i + k → (sint (direntInode md j) = fileid ↔ j = r)) →
        clearDirents fileid k i md = clearDirent md r
  | 0, _, _, _, _, _, _ => by omega
  | k + 1, i, md, hk, hi, hr, h => by
    rw [clearDirents]
    by_cases he : i = r
    · subst he
      rw [if_pos ((h i (Nat.le_refl _) (by omega)).2 rfl)]
      refine clearDirents_none k (i + 1) _ fun j h1 h2 => ?_
      rw [clearDirent_inode md (by omega), if_neg (by omega)]
      intro hj
      have := (h j (by omega) (by omega)).1 hj
      omega
    · rw [if_neg fun hc => he ((h i (Nat.le_refl _) (by omega)).1 hc)]
      exact clearDirents_single k (i + 1) md (by omega) (by omega) (by omega)
        fun j h1 h2 => h j (by omega) (by omega)

/-- A new file in a free slot keeps the directory flat. -/
theorem Flat.setDirent (hf : Flat md) {idx f : ℕ} (hv : ValidName name) (hi : idx < 25)
    (hlt : f < 2 ^ 32) (hpos : f ≠ 0) :
    Flat (Fs.setDirent md idx name f) := by
  have hname : ∀ j, direntName (Fs.setDirent md idx name f) j =
      if j = idx then name else direntName md j := setDirent_name md hi hv.length_le hv.nonzero
  have hinode := setDirent_inode md name hi hlt
  constructor
  · intro i hi' hne
    rw [direntKind, hname]
    by_cases he : i = idx
    · rw [if_pos he, hv.notFolder]
      rfl
    · rw [if_neg he]
      rw [hinode, if_neg he] at hne
      exact hf.file i hi' hne
  · intro i hi' he0
    rw [hinode] at he0
    rw [hname]
    by_cases he : i = idx
    · rw [if_pos he] at he0
      exact absurd he0 hpos
    · rw [if_neg he] at he0 ⊢
      exact hf.free i hi' he0

/-- A freed entry has the empty name. -/
theorem clearDirent_name_self (md : Block) {r : ℕ} (hr : r < 25) :
    direntName (Fs.clearDirent md r) r = [] := by
  have h := direntName_store_self (md.setWord (20 * r) 0) hr (show ([] : List UInt8).length ≤ 15 by simp)
    (by simp)
  exact h

/-- Freeing an entry keeps the directory flat. -/
theorem Flat.clearDirent (hf : Flat md) {r : ℕ} (hr : r < 25) : Flat (Fs.clearDirent md r) := by
  have hinode : ∀ j, direntInode (Fs.clearDirent md r) j = if j = r then 0 else direntInode md j :=
    fun j => clearDirent_inode md hr
  have hname : ∀ j, j ≠ r → direntName (Fs.clearDirent md r) j = direntName md j :=
    fun j hj => clearDirent_name md hj
  constructor
  · intro i hi hne
    by_cases he : i = r
    · rw [hinode, if_pos he] at hne
      exact absurd rfl hne
    · rw [hinode, if_neg he] at hne
      rw [direntKind, hname i he]
      exact hf.file i hi hne
  · intro i hi he0
    by_cases he : i = r
    · subst he
      exact clearDirent_name_self md hi
    · rw [hinode, if_neg he] at he0
      rw [hname i he]
      exact hf.free i hi he0

end Search

/-! ## Flat volumes -/

section FlatVolumes

variable {blocks : ℕ → Block}

theorem Flat.reachDir (hf : Flat (blocks 2)) {p : ℕ} (h : ReachDir blocks p) : p = 2 := by
  induction h with
  | root => rfl
  | @sub q i _ hi h0 hk ih =>
    subst ih
    rw [hf.file i hi h0] at hk
    cases hk

/-- The links of a flat volume are the live entries of the root directory. -/
theorem Flat.link_iff (hf : Flat (blocks 2)) {p i f : ℕ} {k : Kind} :
    Link blocks p i f k ↔ p = 2 ∧ k = .file ∧ i < 25 ∧ direntInode (blocks 2) i = f ∧ f ≠ 0 := by
  constructor
  · rintro ⟨h1, h2, h3, h4, h5⟩
    have hp := hf.reachDir h1
    subst hp
    rw [hf.file i h2 (by rw [h3]; exact h4)] at h5
    exact ⟨rfl, h5.symm, h2, h3, h4⟩
  · rintro ⟨rfl, rfl, h2, h3, h4⟩
    exact ⟨.root, h2, h3, h4, hf.file i h2 (by rw [h3]; exact h4)⟩

end FlatVolumes

/-- A node has one entry, so unlinking it clears that entry as `tfs_remove` does. -/
theorem VolInv.clearDirents_link {n : ℕ} {blocks : ℕ → Block} {files : Slot → OpenFile} {pins : Pins}
    (h : VolInv n blocks files pins) (hn : n ≤ 4096) {p i f : ℕ} {k : Kind} (hl : Link blocks p i f k) :
    clearDirents f SFS_MAX_FILES 0 (blocks p) = clearDirent (blocks p) i := by
  have hsint : ∀ {j g k'}, Link blocks p j g k' → sint (direntInode (blocks p) j) = g := by
    intro j g k' hj
    have := h.lt (Or.inl hj.inTree)
    rw [hj.inode]
    exact sint_of_lt (by omega)
  refine clearDirents_single SFS_MAX_FILES 0 _ (by decide) (Nat.zero_le _)
    (by simpa [SFS_MAX_FILES] using hl.lt) fun j _ hj => ?_
  have hj : j < 25 := by simpa [SFS_MAX_FILES] using hj
  constructor
  · intro he
    by_cases hj0 : direntInode (blocks p) j = 0
    · have := hl.live
      rw [hj0, sint_of_lt (by omega)] at he
      omega
    · have hlj : Link blocks p j _ _ := ⟨hl.dir, hj, rfl, hj0, rfl⟩
      rw [hsint hlj] at he
      rw [Int.ofNat_inj.1 he] at hlj
      exact (h.link_inj hlj hl).2
  · rintro rfl
    exact hsint hl

/-! ## The relation between the two filesystems -/

/-- **The two filesystems agree**: the device is the same and flat, and the table of open files of
SFS counts the handles that the client holds. -/
structure Agree (s : Sfs) (t : Tfs) (handles : List ℤ) : Prop where
  quiet : Quiet s
  disk : t.disk = s.disk
  total : t.totalblocks = s.totalvblocks
  flat : Flat (s.disk.blocks 2)
  isFile : ∀ {e}, 0 ≤ (s.openFiles e).fileid → (s.openFiles e).isFolder = false
  isKept : ∀ {e}, 0 ≤ (s.openFiles e).fileid → (s.openFiles e).isDeleted = false
  count : ∀ {e}, 0 ≤ (s.openFiles e).fileid →
    (s.openFiles e).timesOpened = handles.count (s.openFiles e).fileid
  listed : ∀ f ∈ handles, ∃ e, (s.openFiles e).fileid = f ∧ 0 ≤ f

namespace Agree

variable {s : Sfs} {t : Tfs} {handles : List ℤ}

theorem tfs_eq (h : Agree s t handles) : t = ⟨s.totalvblocks, s.disk⟩ := by
  rw [← h.disk, ← h.total]

theorem two_lt (h : Agree s t handles) : 2 < s.disk.totalBlocks := by
  have := h.quiet.inv.two_lt
  have := h.quiet.inv.onDisk
  omega

theorem readRoot (h : Agree s t handles) :
    readVblock s.disk SFS_DIRECTORY_BLOCK = some (s.disk.blocks 2) :=
  readVblock_works h.quiet.inv.works h.two_lt

/-- What the root directory refers to. -/
theorem link (h : Agree s t handles) {i : ℕ} (hi : i < 25)
    (h0 : direntInode (s.disk.blocks 2) i ≠ 0) :
    Link s.disk.blocks 2 i (direntInode (s.disk.blocks 2) i) .file :=
  ⟨.root, hi, rfl, h0, h.flat.file i hi h0⟩

theorem linked_bounds (h : Agree s t handles) {i : ℕ} (hi : i < 25)
    (h0 : direntInode (s.disk.blocks 2) i ≠ 0) :
    2 < direntInode (s.disk.blocks 2) i ∧ direntInode (s.disk.blocks 2) i < s.totalvblocks := by
  have hl := h.link hi h0
  have hlive : Live s.disk.blocks s.openFiles noPins
      (.node (direntInode (s.disk.blocks 2) i) .file) := Or.inl hl.inTree
  have h2 := h.quiet.inv.vol.two_le hlive
  have hne := h.quiet.inv.vol.link_root hl
  exact ⟨by omega, h.quiet.inv.vol.lt hlive⟩

theorem sint_linked (h : Agree s t handles) {i : ℕ} (hi : i < 25)
    (h0 : direntInode (s.disk.blocks 2) i ≠ 0) :
    sint (direntInode (s.disk.blocks 2) i) = (direntInode (s.disk.blocks 2) i : ℕ) := by
  have := h.quiet.inv.small
  have := (h.linked_bounds hi h0).2
  exact sint_of_lt (by omega)

/-- An open file is one of the handles. -/
theorem mem_handles (h : Agree s t handles) {e : Slot} (h0 : 0 ≤ (s.openFiles e).fileid) :
    (s.openFiles e).fileid ∈ handles := by
  have hpos := (h.quiet.idle e).opened h0
  rw [h.count h0] at hpos
  exact List.count_pos_iff.1 (by omega)

/-- **There is room in the table**: the search for a file fails only with 32 files open. -/
theorem room (h : Agree s t handles) (fileid : ℤ)
    (hroom : handles.toFinset.card < SFS_MAX_OPEN_FILES) :
    findEntry s.openFiles fileid (List.finRange 32) none ≠ none := by
  intro hn
  have hused : ∀ e, 0 ≤ (s.openFiles e).fileid := by
    intro e
    by_contra hneg
    have := h.quiet.inv.vol.free (e := e) (by omega)
    exact findEntry_full hn e (List.mem_finRange e) (by rw [this]; rfl)
  have hinj : Function.Injective fun e => (s.openFiles e).fileid := fun e e' he =>
    h.quiet.inv.vol.distinct he (by have := hused e; omega)
  have hsub : Finset.univ.image (fun e => (s.openFiles e).fileid) ⊆ handles.toFinset := by
    intro f hf
    obtain ⟨e, -, rfl⟩ := Finset.mem_image.1 hf
    exact List.mem_toFinset.2 (h.mem_handles (hused e))
  have hcard := Finset.card_le_card hsub
  rw [Finset.card_image_of_injective _ hinj, Finset.card_univ, Fintype.card_fin] at hcard
  simp only [SFS_MAX_OPEN_FILES] at hroom
  omega

end Agree

/-! ## Creation -/

theorem tfsNumBlocks_eq (size : ℤ) : tfsNumBlocks size = numVblocks size := by
  simp only [tfsNumBlocks, numVblocks, SFS_BLOCKS_PER_VBLOCK, SFS_BLOCK_SIZE, TFS_BLOCK_SIZE,
    Nat.div_one, Nat.mod_one, ne_eq, not_true_eq_false, if_false, Nat.add_zero]

namespace Agree

variable {s : Sfs} {t : Tfs} {handles : List ℤ} {name : List UInt8}

/-- `sfs_create` of a new name and `tfs_create` after its search run the same code. -/
theorem createIn_eq (h : Agree s t handles) (hv : ValidName name) {size : Int32}
    (h0 : 0 ≤ size.toInt) (hnum : ¬ tfsNumBlocks size.toInt > TFS_BLOCKS_MAX)
    (hd : findDirent (s.disk.blocks 2) name SFS_MAX_FILES 0 = none) :
    tfsCreate t name size =
      ((sfsCreateIn s 2 (SLASH :: name) false size.toInt.toNat (numVblocks size.toInt)).1,
        { t with disk :=
          (sfsCreateIn s 2 (SLASH :: name) false size.toInt.toNat (numVblocks size.toInt)).2.disk }) := by
  have hsize : (size.toInt % 2 ^ 32).toNat = size.toInt.toNat := by
    have := Int32.toInt_lt size
    rw [Int.emod_eq_of_lt h0 (by omega)]
  have hslot := findSlot_eq h.flat hv.ne_nil SFS_MAX_FILES 0 none (by decide)
  rw [hd] at hslot
  have hroot : readVblock s.disk 2 = some (s.disk.blocks 2) := h.readRoot
  unfold tfsCreate sfsCreateIn
  simp only
  rw [if_neg hnum, h.tfs_eq, show readVblock s.disk TFS_DIRECTORY_BLOCK = _ from hroot, hroot,
    hsize, actualFilename_name hv, tfsNumBlocks_eq]
  have hfiles : TFS_MAX_FILES = SFS_MAX_FILES := rfl
  have halloc : TFS_ALLOCATION_BLOCK = SFS_ALLOCATION_BLOCK := rfl
  have hdirectory : TFS_DIRECTORY_BLOCK = 2 := rfl
  simp only [hfiles, halloc, hdirectory, hslot, Bool.false_eq_true, if_false]
  cases findFreeDirent (s.disk.blocks 2) SFS_MAX_FILES 0 none with
  | none => rfl
  | some index =>
    simp only
    cases readVblock s.disk SFS_ALLOCATION_BLOCK with
    | none => rfl
    | some bat =>
      simp only
      rcases bitmapFindnset bat s.totalvblocks with ⟨_ | fileInode, bat1⟩
      · rfl
      simp only
      cases allocBlocks s.totalvblocks (numVblocks size.toInt) 0 bat1
          ((Buf.const 512 0).setWord 0 size.toInt.toNat) with
      | none => rfl
      | some r =>
        obtain ⟨bat2, inode⟩ := r
        simp only
        rcases writeMeta s.disk bat2 2 (setDirent (s.disk.blocks 2) index name fileInode) with
          ⟨_ | _, disk⟩
        · rfl
        · rfl

theorem create_eq (h : Agree s t handles) (hv : ValidName name) {size : Int32}
    (h0 : 0 ≤ size.toInt) :
    tfsCreate t name size = ((sfsCreate s (SLASH :: name) size).1,
      { t with disk := (sfsCreate s (SLASH :: name) size).2.disk }) := by
  have hself : ({ t with disk := s.disk } : Tfs) = t := by rw [← h.disk]
  have hsfs : sfsCreate s (SLASH :: name) size =
      if numVblocks size.toInt > SFS_BLOCKS_MAX then (VFS_ERROR, s) else
      if (sfsResolveFileExt s (SLASH :: name)).block ≠ VFS_ERROR ∨
        (sfsResolveFileExt s (SLASH :: name)).parentInode < 0 ∨
        (sfsResolveFileExt s (SLASH :: name)).parentExists = false then (VFS_ERROR, s)
      else sfsCreateIn s (sfsResolveFileExt s (SLASH :: name)).parentInode.toNat (SLASH :: name) false
        size.toInt.toNat (numVblocks size.toInt) := by
    unfold sfsCreate
    rw [validPath_name hv, isFolder_name hv]
    simp only [Bool.true_eq_false, Bool.false_eq_true, if_false, if_neg (not_lt.2 h0)]
  rw [hsfs]
  by_cases hnum : numVblocks size.toInt > SFS_BLOCKS_MAX
  · rw [if_pos hnum, tfsCreate]
    simp only
    rw [tfsNumBlocks_eq, if_pos (show numVblocks size.toInt > TFS_BLOCKS_MAX from hnum), hself]
  rw [if_neg hnum, resolve_name hv h.readRoot]
  cases hd : findDirent (s.disk.blocks 2) name SFS_MAX_FILES 0 with
  | none =>
    simp only
    rw [if_neg (by simp), h.createIn_eq hv h0 (by rw [tfsNumBlocks_eq]; exact hnum) hd]
    rfl
  | some i =>
    obtain ⟨-, hi, hne, -⟩ := findDirent_some hd
    have hi : i < 25 := by simpa [SFS_MAX_FILES] using hi
    have hblock : sint (direntInode (s.disk.blocks 2) i) ≠ VFS_ERROR := by
      rw [h.sint_linked hi hne, VFS_ERROR]
      omega
    simp only
    rw [if_pos (Or.inl hblock), hself, tfsCreate]
    simp only
    rw [tfsNumBlocks_eq, if_neg (show ¬ numVblocks size.toInt > TFS_BLOCKS_MAX from hnum), h.disk,
      show readVblock s.disk TFS_DIRECTORY_BLOCK = _ from h.readRoot]
    simp only
    rw [findSlot_eq h.flat hv.ne_nil TFS_MAX_FILES 0 none (by decide),
      show findDirent (s.disk.blocks 2) name TFS_MAX_FILES 0 = some i from hd]

/-- **Creation keeps the relation.** -/
theorem create (h : Agree s t handles) (hv : ValidName name) {size : Int32} (h0 : 0 ≤ size.toInt) :
    Agree (sfsCreate s (SLASH :: name) size).2 (tfsCreate t name size).2 handles := by
  have hq := sfsCreate_quiet h.quiet (SLASH :: name) size
  rw [h.create_eq hv h0]
  rcases sfsCreate_spec h.quiet.inv (SLASH :: name) size with ⟨s', p, idx, f, data, he, hc⟩ | he
  · rw [he] at hq ⊢
    have hname := actualFilename_name hv
    obtain ⟨init, h1, h2⟩ := hc.init
    rw [pathElems_name hv, hname] at h1
    have hinit : init = [] := by
      have := congrArg List.length h1
      simp only [List.length_append, List.length_singleton] at this
      exact List.length_eq_zero_iff.1 (by omega)
    rw [hinit] at h2
    have hp : p = 2 := h2.symm
    subst hp
    obtain ⟨hfn, hf0⟩ := hc.created.fresh f (List.mem_cons_self ..)
    have hsmall := h.quiet.inv.small
    -- the new inode was clear in the bitmap, so it is not one of the system blocks
    have hfne : f ≠ 0 := by
      rintro rfl
      have := h.quiet.inv.vol.marked (o := .system) (b := 0) trivial (show 0 < 2 by omega)
      rw [Marked, hf0] at this
      cases this
    have hflat : Flat (s'.disk.blocks 2) := by
      rw [hc.created.entry, hname]
      exact h.flat.setDirent hv hc.created.idx_lt (by omega) hfne
    have hopen : s'.openFiles = s.openFiles := by rw [hc.state]
    have htotal : s'.totalvblocks = s.totalvblocks := by rw [hc.state]
    refine ⟨hq, rfl, h.total.trans htotal.symm, hflat, ?_, ?_, ?_, ?_⟩
    · rw [hopen]
      exact h.isFile
    · rw [hopen]
      exact h.isKept
    · rw [hopen]
      exact h.count
    · rw [hopen]
      exact h.listed
  · rw [he]
    exact ⟨h.quiet, rfl, h.total, h.flat, h.isFile, h.isKept, h.count, h.listed⟩

end Agree

/-! ## Opening and closing -/

/-- Entering for an opening operation fails only when the table is full. -/
theorem sfsEnterExt_none {s : Sfs} {fileid parentid : ℤ} {isFolder mark : Bool} (h0 : 0 ≤ fileid)
    (h : sfsEnterExt s fileid parentid true isFolder mark = (none, s)) :
    findEntry s.openFiles fileid (List.finRange 32) none = none := by
  unfold sfsEnterExt at h
  rw [if_neg (not_lt.2 h0)] at h
  cases hf : findEntry s.openFiles fileid (List.finRange 32) none with
  | none => rfl
  | some e =>
    rw [hf] at h
    cases mark with
    | true => simp at h
    | false => simp at h

namespace Agree

variable {s : Sfs} {t : Tfs} {handles : List ℤ} {name : List UInt8}

theorem tfsOpen_eq (h : Agree s t handles) (hv : ValidName name) :
    tfsOpen t name = match findDirent (s.disk.blocks 2) name SFS_MAX_FILES 0 with
      | some i => sint (direntInode (s.disk.blocks 2) i)
      | none => VFS_NOT_FOUND := by
  rw [tfsOpen, h.disk, show readVblock s.disk TFS_DIRECTORY_BLOCK = _ from h.readRoot]
  simp only
  rw [findName_eq h.flat hv.ne_nil TFS_MAX_FILES 0 (by decide)]
  rfl

/-- An entry that is free or of file `f` is not marked as deleted. -/
theorem notDeleted (h : Agree s t handles) {e : Slot} {f : ℕ}
    (he : (s.openFiles e).fileid = f ∨
      ((s.openFiles e).fileid = -1 ∧ ∀ j, (s.openFiles j).fileid ≠ f)) :
    (s.openFiles e).isDeleted = false := by
  rcases he with he | ⟨he, -⟩
  · exact h.isKept (by omega)
  · rw [h.quiet.inv.vol.free (e := e) (by omega)]
    rfl

/-- One more handle: the entry of the file (or a free one) is opened. -/
theorem opened (h : Agree s t handles) {e : Slot} {f : ℕ} {q : ℤ}
    (he : (s.openFiles e).fileid = f ∨
      ((s.openFiles e).fileid = -1 ∧ ∀ j, (s.openFiles j).fileid ≠ f))
    (hq : Quiet (s.setEntry e (openedEntry (s.openFiles e) f q false))) :
    Agree (s.setEntry e (openedEntry (s.openFiles e) f q false)) t ((f : ℤ) :: handles) := by
  have hid := opened_fileid (q := q) false he
  have hkind : (openedEntry (s.openFiles e) f q false).isFolder = false := by
    unfold openedEntry
    rcases he with he | ⟨he, -⟩
    · rw [if_neg (by omega)]
      exact h.isFile (by omega)
    · rw [if_pos he]
  have htimes : (openedEntry (s.openFiles e) f q false).timesOpened = handles.count (f : ℤ) + 1 := by
    rw [openedEntry_timesOpened]
    rcases he with he | ⟨he, hno⟩
    · rw [h.count (by omega), he]
    · have hnot : (f : ℤ) ∉ handles := fun hm => by
        obtain ⟨j, hj, -⟩ := h.listed _ hm
        exact hno j hj
      rw [h.quiet.inv.vol.free (e := e) (by omega), List.count_eq_zero_of_not_mem hnot]
      rfl
  -- the other entries belong to other files
  have hother : ∀ e', e' ≠ e → (s.openFiles e').fileid ≠ f := by
    intro e' hne hf
    rcases he with he | ⟨-, hno⟩
    · exact hne (h.quiet.inv.vol.distinct (hf.trans he.symm) (by omega))
    · exact hno e' hf
  refine ⟨hq, h.disk, h.total, h.flat, fun {e'} h0 => ?_, fun {e'} h0 => ?_, fun {e'} h0 => ?_, ?_⟩
  · rw [setEntry_openFiles] at h0 ⊢
    by_cases hee : e' = e
    · rw [hee, Function.update_self]
      exact hkind
    · rw [Function.update_of_ne hee] at h0 ⊢
      exact h.isFile h0
  · rw [setEntry_openFiles] at h0 ⊢
    by_cases hee : e' = e
    · rw [hee, Function.update_self, openedEntry_isDeleted]
      exact h.notDeleted he
    · rw [Function.update_of_ne hee] at h0 ⊢
      exact h.isKept h0
  · rw [setEntry_openFiles] at h0 ⊢
    by_cases hee : e' = e
    · rw [hee, Function.update_self, hid, List.count_cons_self, htimes]
      rfl
    · rw [Function.update_of_ne hee] at h0 ⊢
      rw [List.count_cons_of_ne (Ne.symm (hother e' hee))]
      exact h.count h0
  · intro g hg
    rw [setEntry_openFiles]
    rcases List.mem_cons.1 hg with rfl | hg
    · exact ⟨e, by rw [Function.update_self, hid], Int.natCast_nonneg f⟩
    · obtain ⟨j, hj, hg0⟩ := h.listed g hg
      by_cases hje : j = e
      · refine ⟨e, ?_, hg0⟩
        rw [Function.update_self, hid]
        rcases he with he | ⟨he, -⟩
        · rw [← hj, hje, he]
        · rw [hje, he] at hj
          omega
      · exact ⟨j, by rw [Function.update_of_ne hje, hj], hg0⟩

/-- **Opening** returns the same handle. -/
theorem openFile (h : Agree s t handles) (hv : ValidName name)
    (hroom : (nextHandles handles (tfsOpen t name) (.openFile name)).toFinset.card <
      SFS_MAX_OPEN_FILES) :
    (sfsOpen s (SLASH :: name)).1 = tfsOpen t name ∧
      Agree (sfsOpen s (SLASH :: name)).2 t
        (nextHandles handles (tfsOpen t name) (.openFile name)) := by
  have hq := sfsOpen_quiet h.quiet (SLASH :: name)
  rw [h.tfsOpen_eq hv] at hroom ⊢
  unfold sfsOpen at hq ⊢
  rw [isFolder_name hv] at hq ⊢
  cases hd : findDirent (s.disk.blocks 2) name SFS_MAX_FILES 0 with
  | none =>
    rw [resolve_name hv h.readRoot, hd]
    simp only [if_true, nextHandles, if_neg (not_le.2 VFS_NOT_FOUND_neg)]
    exact ⟨trivial, h⟩
  | some i =>
    obtain ⟨-, hi, hne, -⟩ := findDirent_some hd
    have hi : i < 25 := by simpa [SFS_MAX_FILES] using hi
    rw [hd] at hroom
    rw [resolve_name hv h.readRoot, hd] at hq ⊢
    simp only [h.sint_linked hi hne, nextHandles, if_pos (Int.natCast_nonneg _)] at hroom hq ⊢
    generalize direntInode (s.disk.blocks 2) i = f at hroom hq ⊢
    have herr : (f : ℤ) ≠ VFS_ERROR := by
      rw [VFS_ERROR]
      omega
    rw [if_neg herr] at hq ⊢
    have hsub : handles.toFinset ⊆ ((f : ℤ) :: handles).toFinset := by
      intro g hg
      rw [List.mem_toFinset] at hg ⊢
      exact List.mem_cons_of_mem _ hg
    have hcard := Finset.card_le_card hsub
    rcases sfsEnterExt_open s 2 false (Int.natCast_nonneg f) with he | ⟨e, he, h4⟩
    · exact absurd (sfsEnterExt_none (Int.natCast_nonneg f) he) (h.room f (by omega))
    rw [he] at hq ⊢
    have hkept : (openedEntry (s.openFiles e) f 2 false).isDeleted = false := by
      rw [openedEntry_isDeleted]
      exact h.notDeleted h4
    have hpos := ((h.quiet.idle e).opens h.quiet.inv.vol.free f 2 false).opened
      (by rw [opened_fileid _ h4]; omega)
    simp only [setEntry_openFiles, Function.update_self, hkept, Bool.false_eq_true, if_false] at hq ⊢
    rw [sfsExit_keep (by rw [setEntry_openFiles, Function.update_self]; exact hpos)] at hq ⊢
    exact ⟨trivial, h.opened h4 hq⟩

/-- One handle less. -/
theorem closed (h : Agree s t handles) {e : Slot} {f : ℕ} {x : OpenFile}
    (he : (s.openFiles e).fileid = f) (hq : Quiet (s.setEntry e x))
    (hx : (x = { s.openFiles e with timesOpened := (s.openFiles e).timesOpened - 1 } ∧
        1 < (s.openFiles e).timesOpened) ∨
      (x = sfsResetEntry ∧ (s.openFiles e).timesOpened = 1)) :
    Agree (s.setEntry e x) t (handles.erase f) := by
  have hcount := h.count (e := e) (by omega)
  rw [he] at hcount
  have hother : ∀ e', e' ≠ e → (s.openFiles e').fileid ≠ f := fun e' hne hf =>
    hne (h.quiet.inv.vol.distinct (hf.trans he.symm) (by omega))
  refine ⟨hq, h.disk, h.total, h.flat, fun {e'} h0 => ?_, fun {e'} h0 => ?_, fun {e'} h0 => ?_, ?_⟩
  · rw [setEntry_openFiles] at h0 ⊢
    by_cases hee : e' = e
    · rw [hee, Function.update_self]
      rcases hx with ⟨rfl, -⟩ | ⟨rfl, -⟩
      · exact h.isFile (by omega)
      · rfl
    · rw [Function.update_of_ne hee] at h0 ⊢
      exact h.isFile h0
  · rw [setEntry_openFiles] at h0 ⊢
    by_cases hee : e' = e
    · rw [hee, Function.update_self]
      rcases hx with ⟨rfl, -⟩ | ⟨rfl, -⟩
      · exact h.isKept (by omega)
      · rfl
    · rw [Function.update_of_ne hee] at h0 ⊢
      exact h.isKept h0
  · rw [setEntry_openFiles] at h0 ⊢
    by_cases hee : e' = e
    · rw [hee, Function.update_self] at h0 ⊢
      rcases hx with ⟨rfl, hlt⟩ | ⟨rfl, -⟩
      · simp only [he, List.count_erase_self]
        omega
      · exact absurd h0 (by decide)
    · rw [Function.update_of_ne hee] at h0 ⊢
      rw [List.count_erase_of_ne (hother e' hee)]
      exact h.count h0
  · intro g hg
    obtain ⟨j, hj, hg0⟩ := h.listed g (List.mem_of_mem_erase hg)
    refine ⟨j, ?_, hg0⟩
    rw [setEntry_openFiles]
    by_cases hje : j = e
    · subst hje
      rw [Function.update_self]
      rcases hx with ⟨rfl, -⟩ | ⟨rfl, h1⟩
      · exact hj
      -- the last handle is gone
      · have hgf : g = f := by rw [← hj, he]
        rw [hgf] at hg
        have hpos := List.count_pos_iff.2 hg
        rw [List.count_erase_self] at hpos
        omega
    · rw [Function.update_of_ne hje, hj]

/-- **Closing** a handle succeeds in both. -/
theorem close (h : Agree s t handles) {fileid : ℤ} (hm : fileid ∈ handles) :
    (sfsClose s fileid).1 = VFS_OK ∧
      Agree (sfsClose s fileid).2 t (handles.erase fileid) := by
  obtain ⟨j, hj, h0⟩ := h.listed fileid hm
  obtain ⟨f, rfl⟩ := Int.eq_ofNat_of_zero_le h0
  have hq := sfsClose_quiet h.quiet f
  have heff := sfsClose_effect h.quiet f
  generalize hs' : (sfsClose s f).2 = s' at hq heff ⊢
  generalize hr : (⟨(sfsClose s f).1, []⟩ : Reply) = r at heff
  generalize hc : Call.closeFile f = c at heff
  cases heff with
  | failed _ _ hno =>
    have := hno f j (by rw [← hc]; rfl) hj
    rw [h.isFile (e := j) (by omega)] at this
    cases this
  | @closed e g he ht =>
    cases hc
    exact ⟨congrArg Reply.value hr, h.closed he hq (Or.inl ⟨rfl, ht⟩)⟩
  | @released e g he ht _ =>
    cases hc
    exact ⟨congrArg Reply.value hr, h.closed he hq (Or.inr ⟨rfl, ht⟩)⟩
  | @freed e g _ he _ hd _ =>
    rw [h.isKept (e := e) (by omega)] at hd
    cases hd
  | _ => cases hc

end Agree

/-! ## Reading and writing -/

namespace Agree

variable {s : Sfs} {t : Tfs} {handles : List ℤ} {name : List UInt8}

/-- The entry of a handle. -/
theorem entry (h : Agree s t handles) {fileid : ℤ} (hm : fileid ∈ handles) :
    ∃ (e : Slot) (f : ℕ), fileid = f ∧ (s.openFiles e).fileid = f ∧
      (s.openFiles e).isFolder = false := by
  obtain ⟨e, he, h0⟩ := h.listed fileid hm
  obtain ⟨f, rfl⟩ := Int.eq_ofNat_of_zero_le h0
  exact ⟨e, f, rfl, he, h.isFile (by omega)⟩

/-- A handle passes the bounds check of TFS. -/
theorem good_fileid (h : Agree s t handles) {e : Slot} {f : ℕ} (he : (s.openFiles e).fileid = f) :
    tfsBadFileid t f = false := by
  have := h.quiet.inv.good_fileid he
  rwa [badFileid, ← h.total] at this

/-- `tfs_read` through a handle runs the transfers of `sfs_read`. -/
theorem tfsRead_eq (h : Agree s t handles) {e : Slot} {f : ℕ} (he : (s.openFiles e).fileid = f)
    (bufsize : ℕ) (offset : ℤ) : tfsRead t f bufsize offset =
      (((readBody f false bufsize offset).run gbdDevice s.disk).1, t) := by
  rw [tfsRead, h.good_fileid he, if_neg (by simp), h.disk, Int.toNat_natCast]
  simp only [(readBody_readOnly _ _ _ _).run, ← h.disk]

/-- **Reading** returns the same bytes. -/
theorem read (h : Agree s t handles) {fileid : ℤ} (hm : fileid ∈ handles) (bufsize : ℕ)
    (offset : ℤ) :
    sfsRead s fileid bufsize offset = some ((tfsRead t fileid bufsize offset).1, s) ∧
      (tfsRead t fileid bufsize offset).2 = t := by
  obtain ⟨e, f, rfl, he, hk⟩ := h.entry hm
  rw [h.tfsRead_eq he]
  refine ⟨?_, rfl⟩
  rcases sfsRead_spec h.quiet.idle f bufsize offset with ⟨-, hno⟩ | ⟨e', f', hf', he', heq⟩
  · exact absurd (h.quiet.inv.good_fileid he) (hno e f rfl he)
  · obtain rfl : f = f' := Int.ofNat_inj.1 hf'
    rw [heq, sfsExit_keep ((h.quiet.idle e').opened (by omega)), h.isFile (e := e') (by omega)]

/-- **Writing** changes the same blocks. -/
theorem write (h : Agree s t handles) {fileid : ℤ} (hm : fileid ∈ handles) (tid : ℤ)
    (buffer : List UInt8) (offset : ℤ) :
    ∃ s', sfsWrite s tid fileid buffer buffer.length offset =
        some ((tfsWrite t fileid buffer buffer.length offset).1, s') ∧
      Agree s' (tfsWrite t fileid buffer buffer.length offset).2 handles := by
  obtain ⟨e, f, rfl, he, hk⟩ := h.entry hm
  have hrun : tfsWrite t f buffer buffer.length offset =
      (((writeBody f buffer buffer.length offset).run gbdDevice s.disk).1,
        { t with disk := ((writeBody f buffer buffer.length offset).run gbdDevice s.disk).2 }) := by
    rw [tfsWrite, h.good_fileid he, if_neg (by simp), h.disk, Int.toNat_natCast]
  rw [hrun]
  obtain ⟨r, s', h1, hq⟩ := sfsWrite_quiet h.quiet tid f buffer buffer.length offset
  rcases sfsWrite_spec h.quiet.idle h.quiet.inv.vol.distinct tid f buffer buffer.length offset with
    ⟨-, hno⟩ | ⟨e', f', hf', he', hk', heq⟩
  · exact absurd (h.quiet.inv.good_fileid he) (hno e f rfl he hk)
  obtain rfl : f = f' := Int.ofNat_inj.1 hf'
  have hpos := (h.quiet.idle e').opened (by omega)
  have hkeep := sfsExit_keep (e := e')
    (s := { s with disk := ((writeBody f buffer buffer.length offset).run gbdDevice s.disk).2 }) hpos
  rw [hkeep] at heq
  rw [h1] at heq
  cases heq
  refine ⟨_, h1, hq, rfl, h.total, ?_, h.isFile, h.isKept, h.count, h.listed⟩
  -- the root directory is not a data block of the file
  have hlive : Live s.disk.blocks s.openFiles noPins (.node f .file) :=
    Or.inr (Or.inl ⟨e', he', by rw [hk']; rfl⟩)
  obtain ⟨blocks, hb, hsame⟩ := writeBody_frame s.disk f buffer buffer.length offset
  have hroot : ((writeBody f buffer buffer.length offset).run gbdDevice s.disk).2.blocks 2 =
      s.disk.blocks 2 := by
    rw [hb]
    exact hsame 2 (h.quiet.inv.vol.node_untouched hlive VolInv.root_live)
  simp only [hroot]
  exact h.flat

/-! ## Removal -/

/-- The bitmap that both removals write: the blocks of `f` are given back. -/
def removedBat (blocks : ℕ → Block) (f : ℕ) : Block :=
  freeBlocks (blocks f) SFS_BLOCKS_MAX 0 (bitmapSet (blocks SFS_ALLOCATION_BLOCK) f false)

/-- The volume after the removal of `f`, entry `i` of the root directory. -/
def removedBlocks (blocks : ℕ → Block) (f i : ℕ) : ℕ → Block :=
  metaBlocks blocks (removedBat blocks f) 2 (clearDirent (blocks 2) i)

/-- `tfs_remove` of entry `i`. -/
theorem tfsRemove_eq (h : Agree s t handles) (hv : ValidName name) {i : ℕ}
    (hd : findDirent (s.disk.blocks 2) name SFS_MAX_FILES 0 = some i) :
    tfsRemove t name = (VFS_OK,
      { t with disk := s.disk.withBlocks (removedBlocks s.disk.blocks
                (direntInode (s.disk.blocks 2) i) i) }) := by
  obtain ⟨-, hi, hne, -⟩ := findDirent_some hd
  have hi : i < 25 := by simpa [SFS_MAX_FILES] using hi
  have hlt := (h.linked_bounds hi hne).2
  have ho := h.quiet.inv.onDisk
  have h2 := h.two_lt
  have hw := h.quiet.inv.works
  rw [tfsRemove, h.disk, show readVblock s.disk TFS_DIRECTORY_BLOCK = _ from h.readRoot]
  simp only
  rw [findName_eq h.flat hv.ne_nil TFS_MAX_FILES 0 (by decide),
    show findDirent (s.disk.blocks 2) name TFS_MAX_FILES 0 = some i from hd]
  simp only
  rw [readVblock_works hw (show TFS_ALLOCATION_BLOCK < _ by simp only [TFS_ALLOCATION_BLOCK]; omega),
    readVblock_works hw (show direntInode (s.disk.blocks 2) i < _ by omega)]
  simp only
  rw [writeMeta_works hw (by omega) (show TFS_DIRECTORY_BLOCK < _ from h2)]
  rfl

/-- `_delete` of a file on a working device. -/
theorem deleteBlocks_file {s : Sfs} {f : ℕ} (hw : s.disk.Works) (h1 : 1 < s.disk.totalBlocks)
    (hf : f < s.disk.totalBlocks) :
    deleteBlocks s f false =
      { s with disk := s.disk.withBlocks (Function.update s.disk.blocks SFS_ALLOCATION_BLOCK
                (removedBat s.disk.blocks f)) } := by
  rw [deleteBlocks, readVblock_works hw (show SFS_ALLOCATION_BLOCK < _ from h1)]
  simp only [Bool.false_eq_true, if_false, Int.toNat_natCast]
  rw [readVblock_works hw hf]
  simp only
  rw [writeVblock_works hw (show SFS_ALLOCATION_BLOCK < _ from h1)]
  rfl

/-- `sfs_remove` of an unopened file at entry `i` of the root directory. -/
theorem sfsRemove_eq (h : Agree s t handles) (hv : ValidName name) {i : ℕ}
    (hd : findDirent (s.disk.blocks 2) name SFS_MAX_FILES 0 = some i)
    (hclosed : (direntInode (s.disk.blocks 2) i : ℤ) ∉ handles)
    (hroom : handles.toFinset.card < SFS_MAX_OPEN_FILES) :
    sfsRemove s (SLASH :: name) = (VFS_OK,
      { s with disk := s.disk.withBlocks (removedBlocks s.disk.blocks
                (direntInode (s.disk.blocks 2) i) i) }) := by
  obtain ⟨-, hi, hne, -⟩ := findDirent_some hd
  have hi : i < 25 := by simpa [SFS_MAX_FILES] using hi
  have hunlink := h.quiet.inv.vol.clearDirents_link h.quiet.inv.small (h.link hi hne)
  obtain ⟨hf2, hlt⟩ := h.linked_bounds hi hne
  have ho := h.quiet.inv.onDisk
  have h2 := h.two_lt
  have hw := h.quiet.inv.works
  have hslash : SLASH :: name ≠ [SLASH] := fun he => hv.ne_nil (List.cons.inj he).2
  unfold sfsRemove
  rw [resolve_name hv h.readRoot, hd, isFolder_name hv]
  simp only
  rw [h.sint_linked hi hne]
  generalize direntInode (s.disk.blocks 2) i = f at hclosed hunlink hf2 hlt ⊢
  have herr : (f : ℤ) ≠ VFS_ERROR := by
    rw [VFS_ERROR]
    omega
  rw [if_neg (not_or.2 ⟨herr, hslash⟩)]
  rcases sfsEnterExt_delete s 2 false (Int.natCast_nonneg f) with he | ⟨e, he, h4⟩
  · exact absurd (sfsEnterExt_none (Int.natCast_nonneg f) he) (h.room f hroom)
  -- no handle, so the entry was free
  have hno : ∀ j, (s.openFiles j).fileid ≠ f := fun j hj =>
    hclosed (hj ▸ h.mem_handles (by omega))
  have hfree : s.openFiles e = sfsResetEntry := by
    have := (h4.resolve_left (hno e)).1
    exact h.quiet.inv.vol.free (by omega)
  have hx : openedEntry sfsResetEntry f 2 false = ⟨1, 0, -1, f, 2, false, false⟩ := rfl
  rw [he, hfree, hx]
  have hdisk : unlinkFirst s.disk ⟨1, 0, -1, f, 2, false, false⟩ = s.disk.withBlocks
      (Function.update s.disk.blocks 2 (clearDirent (s.disk.blocks 2) i)) := by
    rw [unlinkFirst, if_neg (by simp), ← hunlink]
    exact deleteFromDirtree_works (p := 2) hw h2 (by omega)
  rw [hdisk]
  simp only [sfsExit, setEntry_openFiles, Function.update_self, if_true]
  rw [if_pos (by rfl), deleteBlocks_file]
  rotate_left
  · exact hw.withBlocks _
  · exact Nat.lt_of_succ_lt h2
  · exact Nat.lt_of_lt_of_le hlt ho
  -- the two blocks are written in the other order
  have hcomm : removedBlocks s.disk.blocks f i =
      Function.update (Function.update s.disk.blocks 2 (clearDirent (s.disk.blocks 2) i)) 1
        (removedBat s.disk.blocks f) := Function.update_comm (by decide) ..
  have hbat : removedBat (Function.update s.disk.blocks 2 (clearDirent (s.disk.blocks 2) i)) f =
      removedBat s.disk.blocks f := by
    rw [removedBat, Function.update_of_ne (show f ≠ 2 by omega),
      Function.update_of_ne (show SFS_ALLOCATION_BLOCK ≠ 2 by decide)]
    rfl
  have hfiles : Function.update s.openFiles e sfsResetEntry = s.openFiles := by
    rw [Function.update_eq_self_iff, hfree]
  rw [hcomm]
  simp only [Sfs.setEntry, Function.update_idem, hfiles, withBlocks_blocks, withBlocks_withBlocks, hbat]
  rfl

/-- **Removal** of an unopened file leaves the same disk. -/
theorem remove (h : Agree s t handles) (hv : ValidName name) (hclosed : tfsOpen t name ∉ handles)
    (hroom : handles.toFinset.card < SFS_MAX_OPEN_FILES) :
    (sfsRemove s (SLASH :: name)).1 = (tfsRemove t name).1 ∧
      Agree (sfsRemove s (SLASH :: name)).2 (tfsRemove t name).2 handles := by
  have hq := sfsRemove_quiet h.quiet (SLASH :: name)
  rw [h.tfsOpen_eq hv] at hclosed
  cases hd : findDirent (s.disk.blocks 2) name SFS_MAX_FILES 0 with
  | none =>
    have hs : sfsRemove s (SLASH :: name) = (VFS_NOT_FOUND, s) := by
      unfold sfsRemove
      rw [resolve_name hv h.readRoot, hd]
      simp only [true_or, if_true]
    have ht : tfsRemove t name = (VFS_NOT_FOUND, t) := by
      rw [tfsRemove, h.disk, show readVblock s.disk TFS_DIRECTORY_BLOCK = _ from h.readRoot]
      simp only
      rw [findName_eq h.flat hv.ne_nil TFS_MAX_FILES 0 (by decide),
        show findDirent (s.disk.blocks 2) name TFS_MAX_FILES 0 = none from hd]
    rw [hs, ht]
    exact ⟨rfl, h⟩
  | some i =>
    obtain ⟨-, hi, hne, -⟩ := findDirent_some hd
    have hi : i < 25 := by simpa [SFS_MAX_FILES] using hi
    rw [hd] at hclosed
    simp only [h.sint_linked hi hne] at hclosed
    rw [h.sfsRemove_eq hv hd hclosed hroom] at hq ⊢
    rw [h.tfsRemove_eq hv hd]
    refine ⟨rfl, hq, rfl, h.total, ?_, h.isFile, h.isKept, h.count, h.listed⟩
    simp only [withBlocks_blocks, removedBlocks, metaBlocks_parent]
    exact h.flat.clearDirent hi

end Agree

/-! ## Whole runs -/

/-- A removal leaves the handles as they are, so the table has room before it. -/
theorem Proper.room {t : Tfs} {handles : List ℤ} {name : List UInt8}
    (h : Proper t handles (.remove name) = true) : handles.toFinset.card < SFS_MAX_OPEN_FILES := by
  rw [Proper, Bool.and_eq_true, decide_eq_true_eq] at h
  exact h.2

/-- **One proper call** gives the same reply and keeps the relation. -/
theorem Agree.step {s : Sfs} {t : Tfs} {handles : List ℤ} (h : Agree s t handles) {c : FlatCall}
    (hc : Proper t handles c = true) :
    ∃ s', c.onSfs s = some ((c.onTfs t).1, s') ∧
      Agree s' (c.onTfs t).2 (nextHandles handles (c.onTfs t).1.value c) := by
  cases c with
  | create name size =>
    simp only [Proper, Bool.and_eq_true, decide_eq_true_eq] at hc
    refine ⟨_, ?_, h.create hc.1.1 hc.1.2⟩
    rw [FlatCall.onSfs, FlatCall.toCall, Call.exec, FlatCall.onTfs, h.create_eq hc.1.1 hc.1.2]
  | openFile name =>
    simp only [Proper, Bool.and_eq_true, decide_eq_true_eq] at hc
    obtain ⟨h1, h2⟩ := h.openFile hc.1 hc.2
    exact ⟨_, by rw [FlatCall.onSfs, FlatCall.toCall, Call.exec, h1]; rfl, h2⟩
  | close fileid =>
    simp only [Proper, Bool.and_eq_true, decide_eq_true_eq] at hc
    obtain ⟨h1, h2⟩ := h.close hc.1
    exact ⟨_, by rw [FlatCall.onSfs, FlatCall.toCall, Call.exec, h1]; rfl, h2⟩
  | read fileid bufsize offset =>
    simp only [Proper, Bool.and_eq_true, decide_eq_true_eq] at hc
    obtain ⟨h1, h2⟩ := h.read hc.1 bufsize offset
    refine ⟨s, by rw [FlatCall.onSfs, FlatCall.toCall, Call.exec, h1]; rfl, ?_⟩
    rw [FlatCall.onTfs, h2]
    exact h
  | write tid fileid buffer offset =>
    simp only [Proper, Bool.and_eq_true, decide_eq_true_eq] at hc
    obtain ⟨s', h1, h2⟩ := h.write hc.1 tid buffer offset
    exact ⟨s', by rw [FlatCall.onSfs, FlatCall.toCall, Call.exec, h1]; rfl, h2⟩
  | remove name =>
    have hroom := Proper.room hc
    simp only [Proper, Bool.and_eq_true, decide_eq_true_eq] at hc
    obtain ⟨h1, h2⟩ := h.remove hc.1.1 hc.1.2 hroom
    exact ⟨_, by rw [FlatCall.onSfs, FlatCall.toCall, Call.exec, h1]; rfl, h2⟩

/-- Related filesystems show the same trace over every proper run. -/
theorem Agree.trace : ∀ (cs : List FlatCall) {s : Sfs} {t : Tfs} {handles : List ℤ},
    Agree s t handles → ProperRun t handles cs = true → sfsTrace s cs = some (tfsTrace t cs)
  | [], _, _, _, _, _ => rfl
  | c :: cs, s, t, handles, h, hcs => by
    rw [ProperRun, Bool.and_eq_true] at hcs
    obtain ⟨s', h1, h2⟩ := h.step hcs.1
    rw [sfsTrace, h1]
    simp only
    rw [Agree.trace cs h2 hcs.2, Option.map_some, tfsTrace, h2.disk]

/-- A freshly mounted flat volume. -/
theorem FlatVolume.agree {disk : Gbd} (h : FlatVolume disk) (hw : disk.Works) :
    Agree (sfsInit disk) (tfsInit disk) [] where
  quiet := h.wellFormed.quiet hw
  disk := rfl
  total := by simp only [tfsInit, sfsInit, SFS_BLOCKS_PER_VBLOCK, Nat.div_one]; rfl
  flat := h.flat
  isFile := fun _ => rfl
  isKept := fun _ => rfl
  count := fun h0 => absurd (show (0 : ℤ) ≤ -1 from h0) (by decide)
  listed := fun f hf => by cases hf

/-- **SFS is backward compatible with TFS**: on a well-formed flat volume whose device works, every
proper run gives the same replies, the same bytes and the same disk image after every call. -/
theorem sfs_tfs_compatible (disk : Gbd) (hflat : FlatVolume disk) (hw : disk.Works)
    (cs : List FlatCall) (hcs : ProperRun (tfsInit disk) [] cs = true) :
    sfsTrace (sfsInit disk) cs = some (tfsTrace (tfsInit disk) cs) :=
  Agree.trace cs (hflat.agree hw) hcs

theorem direntName_const (i : ℕ) : direntName (Buf.const 512 0) i = [] := by
  have h0 : (Buf.const 512 0).byte (20 * i + 4 + 0) = 0 := by
    rw [Buf.byte_const]
    split <;> rfl
  rw [direntName, Buf.slice, SFS_FILENAME_MAX, List.range_succ_eq_map, List.map_cons, h0,
    List.takeWhile_cons_of_neg (by simp)]

theorem emptyVolume_flat : FlatVolume emptyVolume where
  wellFormed := emptyVolume_wellFormed
  flat := ⟨fun i _ hne => absurd (direntInode_const i) hne, fun i _ _ => direntName_const i⟩

/-- Two files with exact and odd sizes, a file opened twice, writes across a block boundary, and a
removal whose blocks and slot are used again. -/
theorem sfs_tfs_compatible_emptyVolume :
    let cs : List FlatCall :=
      [.create [97] 600, .create [98] 512, .openFile [97], .openFile [97],
        .write 0 3 [1, 2, 3, 4] 510, .read 3 8 508, .close 3, .remove [98], .create [99] 0,
        .read 3 2 600, .close 3, .remove [97], .remove [97]]
    sfsTrace (sfsInit emptyVolume) cs = some (tfsTrace (tfsInit emptyVolume) cs) :=
  sfs_tfs_compatible emptyVolume emptyVolume_flat emptyVolume_works _ (by decide +kernel)

end Buenos.Fs
