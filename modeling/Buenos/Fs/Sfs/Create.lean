import Buenos.Fs.Sfs.Paths
import Mathlib.Data.Finset.Card

/-!
# What `sfs_create` leaves on the volume

* `Created` — the blocks after a successful creation: fresh blocks are marked, the inode or the
  empty directory block is written, one entry of the parent is set, everything else stays.
* `freeBits` — the clear bits of the allocation block, the space that is left.

Principal result: `sfsCreateIn_spec` — on a working device the section of `sfs_create` under
`sfs->lock` either succeeds with `Created`, or changes nothing because the directory or the disk is
full.
-/

namespace Buenos.Fs

open Bytes

/-- The blocks below `n` that are clear in the allocation block. -/
def freeBits (bat : Block) (n : ℕ) : Finset ℕ := (Finset.range n).filter fun b => bitmapGet bat b = 0

theorem mem_freeBits {bat : Block} {n b : ℕ} : b ∈ freeBits bat n ↔ b < n ∧ bitmapGet bat b = 0 := by
  simp [freeBits]

/-- Taking a free block leaves one free block less. -/
theorem freeBits_set {bat : Block} {n p : ℕ} (hn : n ≤ 4096) (hp : p < n)
    (h0 : bitmapGet bat p = 0) :
    (freeBits (bitmapSet bat p true) n).card + 1 = (freeBits bat n).card := by
  have he : freeBits (bitmapSet bat p true) n = (freeBits bat n).erase p := by
    ext b
    rw [Finset.mem_erase, mem_freeBits, mem_freeBits, bitmapGet_bitmapSet bat b true (by omega)]
    by_cases hb : b = p
    · simp [hb]
    · simp [hb]
  rw [he]
  exact Finset.card_erase_add_one (mem_freeBits.2 ⟨hp, h0⟩)

theorem findnset_none_card {bat bat' : Block} {n : ℕ} (h : bitmapFindnset bat n = (none, bat')) :
    (freeBits bat n).card = 0 := by
  rw [Finset.card_eq_zero, Finset.eq_empty_iff_forall_notMem]
  intro b hb
  obtain ⟨h1, h2⟩ := mem_freeBits.1 hb
  have := (bitmapFindnset_none h).2 b h1
  omega

/-- The allocation loop fails only when fewer blocks are free than it needs. -/
theorem allocBlocks_none {n : ℕ} (hn : n ≤ 4096) :
    ∀ {k i : ℕ} {bat inode : Block}, allocBlocks n k i bat inode = none →
      (freeBits bat n).card < k
  | 0, _, _, _, h => by cases h
  | k + 1, i, bat, inode, h => by
    rw [allocBlocks] at h
    split at h
    · rename_i hf
      rw [findnset_none_card hf]
      omega
    · rename_i p bat1 hf
      obtain ⟨hp, hp0, -, rfl⟩ := bitmapFindnset_some hf
      have := allocBlocks_none hn h
      have := freeBits_set hn hp hp0
      omega

/-- The volume after a successful creation of `f` with the data blocks `data` in entry `idx` of
`parent`. -/
structure Created (n : ℕ) (blocks blocks' : ℕ → Block) (parent : ℕ) (name : List UInt8)
    (isFolder : Bool) (size num idx f : ℕ) (data : List ℕ) : Prop where
  idx_lt : idx < 25
  slot : direntInode (blocks parent) idx = 0
  nodup : (f :: data).Nodup
  fresh : ∀ b ∈ f :: data, b < n ∧ bitmapGet (blocks SFS_ALLOCATION_BLOCK) b = 0
  bits : ∀ b, bitmapGet (blocks' SFS_ALLOCATION_BLOCK) b =
    if b ∈ f :: data then 1 else bitmapGet (blocks SFS_ALLOCATION_BLOCK) b
  entry : blocks' parent = setDirent (blocks parent) idx name f
  file : isFolder = false → data.length = num ∧ inodeFilesize (blocks' f) = size ∧
    ∀ j < 127, inodeBlock (blocks' f) j = data.getD j 0
  folder : isFolder = true → data = [] ∧ ∀ i < 25, direntInode (blocks' f) i = 0
  zero : ∀ b ∈ data, blocks' b = Buf.const 512 0
  other : ∀ b, b ≠ SFS_ALLOCATION_BLOCK → b ≠ parent → b ∉ f :: data → blocks' b = blocks b

/-- The blocks after writing the allocation block and the parent directory block. -/
def metaBlocks (blocks : ℕ → Block) (bat : Block) (parent : ℕ) (md : Block) : ℕ → Block :=
  Function.update (Function.update blocks SFS_ALLOCATION_BLOCK bat) parent md

section

variable {blocks : ℕ → Block} {bat md : Block} {parent b : ℕ}

theorem metaBlocks_alloc (h : parent ≠ 1) :
    metaBlocks blocks bat parent md SFS_ALLOCATION_BLOCK = bat := by
  rw [metaBlocks, Function.update_of_ne (show SFS_ALLOCATION_BLOCK ≠ parent from Ne.symm h),
    Function.update_self]

theorem metaBlocks_parent : metaBlocks blocks bat parent md parent = md := Function.update_self ..

theorem metaBlocks_other (h1 : b ≠ SFS_ALLOCATION_BLOCK) (h2 : b ≠ parent) :
    metaBlocks blocks bat parent md b = blocks b := by
  rw [metaBlocks, Function.update_of_ne h2, Function.update_of_ne h1]

end

theorem writeMeta_works {disk : Gbd} {bat md : Block} {parent : ℕ} (hw : disk.Works)
    (h1 : 1 < disk.totalBlocks) (hp : parent < disk.totalBlocks) :
    writeMeta disk bat parent md =
      (true, disk.withBlocks (metaBlocks disk.blocks bat parent md)) := by
  rw [writeMeta, writeVblock_works hw (show SFS_ALLOCATION_BLOCK < disk.totalBlocks from h1)]
  simp only
  rw [writeVblock_withBlocks hw hp]
  rfl

/-- The block of a new directory: the parent's, with all entries zeroed. -/
def newDirectory (md : Block) : Block := md.store 0 (List.replicate (20 * SFS_MAX_FILES) 0)

theorem newDirectory_byte (md : Block) {i : ℕ} (hi : i < 512) :
    (newDirectory md).byte i = if i < 500 then 0 else md.byte i := by
  rw [newDirectory, Buf.byte_store, List.length_replicate, SFS_MAX_FILES]
  by_cases h : i < 500
  · rw [if_pos (by omega), if_pos h]
    exact List.getD_replicate _ (by omega)
  · rw [if_neg (by omega), if_neg h]

/-- Only the first `25 * 20` bytes of a new directory block matter: all its entries are free. -/
theorem newFolder_inode (md : Block) {i : ℕ} (hi : i < 25) : direntInode (newDirectory md) i = 0 := by
  have hb : ∀ k < 4, (newDirectory md).byte (20 * i + k) = 0 := by
    intro k hk
    rw [newDirectory_byte md (by omega), if_pos (by omega)]
  unfold direntInode Buf.word
  rw [hb 1 (by omega), hb 2 (by omega), hb 3 (by omega), show 20 * i = 20 * i + 0 by rfl,
    hb 0 (by omega)]
  rfl

section Spec

variable {s : Sfs} {parent : ℕ} {filename : List UInt8} {isFolder : Bool} {size num : ℕ}

/-- The blocks needed by `sfs_create`: the inode or directory block, and the data blocks. -/
def neededBlocks (isFolder : Bool) (num : ℕ) : ℕ := if isFolder then 1 else 1 + num

/-- The folder branch of `sfs_create` on a working device. -/
theorem sfsCreateIn_folder (filename : List UInt8) (size num : ℕ) {idx f : ℕ} {bat : Block} (hw : s.disk.Works)
    (hn : s.totalvblocks ≤ 4096) (hle : s.totalvblocks ≤ s.disk.totalBlocks)
    (hp1 : parent ≠ 1) (hone : 1 < s.totalvblocks)
    (hm1 : Marked s.disk.blocks 1) (hmp : Marked s.disk.blocks parent)
    (hidx : idx < 25) (hslot : direntInode (s.disk.blocks parent) idx = 0)
    (hf : bitmapFindnset (s.disk.blocks 1) s.totalvblocks = (some f, bat)) :
    ∃ blocks', writeNewFolder (s.disk.withBlocks (metaBlocks s.disk.blocks bat parent
            (setDirent (s.disk.blocks parent) idx (sfsGetActualFilename filename) f))) f
          (setDirent (s.disk.blocks parent) idx (sfsGetActualFilename filename) f) =
        (VFS_OK, s.disk.withBlocks blocks') ∧
      Created s.totalvblocks s.disk.blocks blocks' parent (sfsGetActualFilename filename) true size
        num idx f [] ∧
      blocks' f = newDirectory (setDirent (s.disk.blocks parent) idx (sfsGetActualFilename filename) f)
        := by
  obtain ⟨hfn, hf0, -, rfl⟩ := bitmapFindnset_some hf
  have hf1 : SFS_ALLOCATION_BLOCK ≠ f := by
    rintro rfl
    exact absurd (hf0.symm.trans hm1) (by decide)
  have hfp : parent ≠ f := by
    rintro rfl
    exact absurd (hf0.symm.trans hmp) (by decide)
  unfold writeNewFolder
  rw [writeVblock_withBlocks hw (show f < s.disk.totalBlocks by omega)]
  refine ⟨_, rfl, ⟨hidx, hslot, by simp, ?_, fun b => ?_, ?_, by simp,
    fun _ => ⟨rfl, fun i hi => ?_⟩, by simp, fun b h1 h2 h3 => ?_⟩, Function.update_self ..⟩
  · intro b hb
    rw [List.mem_singleton] at hb
    exact ⟨by omega, by rw [hb]; exact hf0⟩
  · rw [Function.update_of_ne hf1, metaBlocks_alloc hp1,
      bitmapGet_bitmapSet _ _ _ (by omega)]
    simp [SFS_ALLOCATION_BLOCK]
  · rw [Function.update_of_ne hfp, metaBlocks_parent]
  · rw [Function.update_self]
    exact newFolder_inode _ hi
  · rw [List.mem_singleton] at h3
    rw [Function.update_of_ne h3, metaBlocks_other h1 h2]

/-- The file branch of `sfs_create` on a working device. -/
theorem sfsCreateIn_file (filename : List UInt8) {idx f : ℕ} {bat bat' inode : Block} (hw : s.disk.Works)
    (hn : s.totalvblocks ≤ 4096) (hle : s.totalvblocks ≤ s.disk.totalBlocks)
    (hp1 : parent ≠ 1) (hone : 1 < s.totalvblocks)
    (hm1 : Marked s.disk.blocks 1) (hmp : Marked s.disk.blocks parent) (hnum : num ≤ 127)
    (hsize : size < 2 ^ 32)
    (hidx : idx < 25) (hslot : direntInode (s.disk.blocks parent) idx = 0)
    (hf : bitmapFindnset (s.disk.blocks 1) s.totalvblocks = (some f, bat))
    (ha : allocBlocks s.totalvblocks num 0 bat ((Buf.const 512 0).setWord 0 size) =
      some (bat', inode)) :
    ∃ blocks' data, writeNewFile (s.disk.withBlocks (metaBlocks s.disk.blocks bat' parent
            (setDirent (s.disk.blocks parent) idx (sfsGetActualFilename filename) f))) f
          (clearTail (SFS_BLOCKS_MAX - num) num inode) num =
        (VFS_OK, s.disk.withBlocks blocks') ∧
      Created s.totalvblocks s.disk.blocks blocks' parent (sfsGetActualFilename filename) false size
        num idx f data := by
  obtain ⟨hfn, hf0, -, rfl⟩ := bitmapFindnset_some hf
  obtain ⟨data, hlen, hnd, hfr, hbits, hsz, hblk⟩ := allocBlocks_spec hn (by omega) ha
  have hget : ∀ b, bitmapGet (bitmapSet (s.disk.blocks 1) f true) b =
      if b = f then 1 else bitmapGet (s.disk.blocks 1) b := by
    intro b
    rw [bitmapGet_bitmapSet _ _ _ (by omega)]
    rfl
  obtain ⟨htsz, htail⟩ := @clearTail_spec (SFS_BLOCKS_MAX - num) num inode
    (by simp only [SFS_BLOCKS_MAX]; omega)
  have hdata : ∀ j < 127, inodeBlock (clearTail (SFS_BLOCKS_MAX - num) num inode) j =
      data.getD j 0 := by
    intro j hj
    rw [htail, hblk]
    by_cases hjn : j < num
    · rw [if_neg (by omega), if_pos (by omega)]
      simp
    · rw [if_pos (by simp only [SFS_BLOCKS_MAX]; omega), List.getD_eq_default _ _ (by omega)]
  -- the new blocks are clear in the old bitmap, so they differ from block 1 and from the parent
  have hclear : ∀ b ∈ f :: data, b < s.totalvblocks ∧ bitmapGet (s.disk.blocks 1) b = 0 := by
    intro b hb
    rcases List.mem_cons.1 hb with rfl | hb
    · exact ⟨hfn, hf0⟩
    · refine ⟨(hfr b hb).1, ?_⟩
      have := (hfr b hb).2
      rw [hget] at this
      split at this
      · cases this
      · exact this
  have hne1 : SFS_ALLOCATION_BLOCK ∉ f :: data := fun hb =>
    absurd ((hclear _ hb).2.symm.trans hm1) (by decide)
  have hnep : parent ∉ f :: data := fun hb => absurd ((hclear _ hb).2.symm.trans hmp) (by decide)
  have hfd : f ∉ data := by
    intro hm
    have := (hfr f hm).2
    rw [hget, if_pos rfl] at this
    cases this
  have hmem : ∀ j, 0 ≤ j → j < 0 + num →
      inodeBlock (clearTail (SFS_BLOCKS_MAX - num) num inode) j ∈ data := by
    intro j _ hj
    rw [hdata j (by omega), List.getD_eq_getElem data 0 (by omega)]
    exact List.getElem_mem _
  have hall : ∀ b ∈ data, ∃ j, 0 ≤ j ∧ j < 0 + num ∧
      inodeBlock (clearTail (SFS_BLOCKS_MAX - num) num inode) j = b := by
    intro b hb
    obtain ⟨j, hj, rfl⟩ := List.getElem_of_mem hb
    exact ⟨j, Nat.zero_le _, by omega, by rw [hdata j (by omega), List.getD_eq_getElem data 0 hj]⟩
  unfold writeNewFile
  rw [writeVblock_withBlocks hw (show f < s.disk.totalBlocks by omega)]
  obtain ⟨blocks', hz, hz1, hz2⟩ := @zeroBlocks_works
    (clearTail (SFS_BLOCKS_MAX - num) num inode) num 0
    (s.disk.withBlocks (Function.update (metaBlocks s.disk.blocks bat' parent
      (setDirent (s.disk.blocks parent) idx (sfsGetActualFilename filename) f)) f
      (clearTail (SFS_BLOCKS_MAX - num) num inode))) (hw.withBlocks _)
    (fun j h1 h2 => by
      have := (hfr _ (hmem j h1 h2)).1
      show _ < s.disk.totalBlocks
      omega)
  simp only
  rw [hz]
  have hkeep : ∀ b, b ∉ data → blocks' b = Function.update (metaBlocks s.disk.blocks bat' parent
      (setDirent (s.disk.blocks parent) idx (sfsGetActualFilename filename) f)) f
      (clearTail (SFS_BLOCKS_MAX - num) num inode) b :=
    fun b hb => hz2 b fun j h1 h2 he => hb (he ▸ hmem j h1 h2)
  refine ⟨blocks', data, rfl, hidx, hslot, List.nodup_cons.2 ⟨hfd, hnd⟩, hclear, fun b => ?_, ?_,
    fun _ => ⟨hlen, ?_, fun j hj => ?_⟩, by simp, fun b hb => ?_, fun b h1 h2 h3 => ?_⟩
  · rw [hkeep _ (List.not_mem_of_not_mem_cons hne1),
      Function.update_of_ne (List.ne_of_not_mem_cons hne1), metaBlocks_alloc hp1, hbits, hget]
    by_cases hbf : b = f
    · simp [hbf]
    · simp [hbf, SFS_ALLOCATION_BLOCK]
  · rw [hkeep _ (List.not_mem_of_not_mem_cons hnep),
      Function.update_of_ne (List.ne_of_not_mem_cons hnep), metaBlocks_parent]
  · rw [hkeep f hfd, Function.update_self, htsz, hsz]
    exact (Buf.word_setWord_self _ _ (by omega)).trans (Nat.mod_eq_of_lt hsize)
  · rw [hkeep f hfd, Function.update_self, hdata j hj]
  · obtain ⟨j, h1, h2, rfl⟩ := hall b hb
    exact hz1 j h1 h2
  · rw [hkeep b (List.not_mem_of_not_mem_cons h3),
      Function.update_of_ne (List.ne_of_not_mem_cons h3), metaBlocks_other h1 h2]

/-- **The section of `sfs_create` under `sfs->lock`** on a working device succeeds with `Created`,
or changes nothing because the directory or the disk is full. -/
theorem sfsCreateIn_spec (filename : List UInt8) (isFolder : Bool) (size num : ℕ)
    (hw : s.disk.Works) (hn : s.totalvblocks ≤ 4096) (hle : s.totalvblocks ≤ s.disk.totalBlocks)
    (hp : parent < s.totalvblocks) (hp1 : parent ≠ 1)
    (hone : 1 < s.totalvblocks) (hm1 : Marked s.disk.blocks 1) (hmp : Marked s.disk.blocks parent)
    (hnum : num ≤ 127) (hsize : size < 2 ^ 32) :
    (∃ blocks' idx f data, sfsCreateIn s parent filename isFolder size num =
        (VFS_OK, { s with disk := s.disk.withBlocks blocks' }) ∧
      Created s.totalvblocks s.disk.blocks blocks' parent (sfsGetActualFilename filename) isFolder
        size num idx f data ∧
      (isFolder = true → blocks' f =
        newDirectory (setDirent (s.disk.blocks parent) idx (sfsGetActualFilename filename) f))) ∨
    (sfsCreateIn s parent filename isFolder size num = (VFS_ERROR, s) ∧
      ((∀ i < 25, direntInode (s.disk.blocks parent) i ≠ 0) ∨
        (freeBits (s.disk.blocks SFS_ALLOCATION_BLOCK) s.totalvblocks).card <
          neededBlocks isFolder num)) := by
  unfold sfsCreateIn
  rw [readVblock_works hw (show parent < s.disk.totalBlocks by omega),
    readVblock_works hw (show SFS_ALLOCATION_BLOCK < s.disk.totalBlocks by
      simp only [SFS_ALLOCATION_BLOCK]; omega)]
  simp only
  cases hd : findFreeDirent (s.disk.blocks parent) SFS_MAX_FILES 0 none with
  | none =>
    refine Or.inr ⟨rfl, Or.inl fun i hi => ?_⟩
    exact (findFreeDirent_none _ _ _ _ hd).2 i (Nat.zero_le _) (by simpa [SFS_MAX_FILES] using hi)
  | some idx =>
    rcases findFreeDirent_spec _ _ _ _ _ hd with h | ⟨-, hidx, hslot⟩
    · cases h
    have hidx : idx < 25 := by simpa [SFS_MAX_FILES] using hidx
    simp only
    rcases hf : bitmapFindnset (s.disk.blocks SFS_ALLOCATION_BLOCK) s.totalvblocks with ⟨_ | f, bat⟩
    · refine Or.inr ⟨rfl, Or.inr ?_⟩
      rw [findnset_none_card hf, neededBlocks]
      split <;> omega
    simp only
    cases isFolder with
    | true =>
      left
      rw [if_pos rfl, writeMeta_works hw (by omega) (by omega)]
      obtain ⟨blocks', h1, h2, h3⟩ := sfsCreateIn_folder filename size num hw hn hle hp1 hone hm1
        hmp hidx hslot hf
      simp only [h1]
      exact ⟨blocks', idx, f, [], rfl, h2, fun _ => h3⟩
    | false =>
      rw [if_neg (by simp)]
      cases ha : allocBlocks s.totalvblocks num 0 bat ((Buf.const 512 0).setWord 0 size) with
      | none =>
        refine Or.inr ⟨rfl, Or.inr ?_⟩
        obtain ⟨hfn, hf0, -, rfl⟩ := bitmapFindnset_some hf
        have h1 := allocBlocks_none hn ha
        have h2 := freeBits_set hn hfn hf0
        simp only [neededBlocks, Bool.false_eq_true, if_false]
        omega
      | some r =>
        obtain ⟨bat', inode⟩ := r
        left
        obtain ⟨blocks', data, h1, h2⟩ := sfsCreateIn_file filename hw hn hle hp1
          hone hm1 hmp hnum hsize hidx hslot hf ha
        simp only [writeMeta_works hw (show 1 < s.disk.totalBlocks by omega)
          (show parent < s.disk.totalBlocks by omega), h1]
        exact ⟨blocks', idx, f, data, rfl, h2, fun h => by cases h⟩

end Spec

end Buenos.Fs
