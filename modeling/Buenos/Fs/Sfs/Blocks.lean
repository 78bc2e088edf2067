import Buenos.Fs.Sfs.Tree

/-!
# What the loops over directory, inode and allocation blocks compute

One specification lemma per loop of `fs/sfs.c`:

* `clearDirents_inode` / `clearDirents_name` — unlinking clears exactly the entries of a file.
* `bitmapGet_freeBlocks` — `_delete` clears the bits of the leading non-zero blocks of an inode.
* `findFreeDirent_spec`, `setDirent_inode`, `setDirent_name` — the new entry of `sfs_create`.
* `allocBlocks_spec` — the allocation loop takes distinct clear bits and records them in the inode.
* `findDirent_some` / `findDirent_none` — lookup by name.
-/

namespace Buenos.Fs

open Bytes

/-! ## Transfers on a working device -/

section Transfer

variable {disk : Gbd} {b : ℕ}

/-- The device with other contents. -/
def Gbd.withBlocks (disk : Gbd) (blocks : ℕ → Block) : Gbd := { disk with blocks := blocks }

@[simp] theorem withBlocks_blocks (blocks : ℕ → Block) : (disk.withBlocks blocks).blocks = blocks := rfl

@[simp] theorem withBlocks_totalBlocks (blocks : ℕ → Block) :
    (disk.withBlocks blocks).totalBlocks = disk.totalBlocks := rfl

@[simp] theorem withBlocks_withBlocks (a b : ℕ → Block) :
    (disk.withBlocks a).withBlocks b = disk.withBlocks b := rfl

theorem Gbd.Works.withBlocks (h : disk.Works) (blocks : ℕ → Block) :
    (disk.withBlocks blocks).Works := h

theorem readVblock_works (h : disk.Works) (hb : b < disk.totalBlocks) :
    readVblock disk b = some (disk.blocks b) := by
  rw [readVblock, if_pos ⟨hb, h b hb⟩]

theorem writeVblock_works (h : disk.Works) (hb : b < disk.totalBlocks) (buf : Block) :
    writeVblock disk b buf = some (disk.withBlocks (Function.update disk.blocks b buf)) := by
  rw [writeVblock, if_pos ⟨hb, h b hb⟩]
  rfl

theorem writeVblock_withBlocks (h : disk.Works) (hb : b < disk.totalBlocks) (blocks : ℕ → Block)
    (buf : Block) : writeVblock (disk.withBlocks blocks) b buf =
      some (disk.withBlocks (Function.update blocks b buf)) :=
  writeVblock_works (h.withBlocks blocks) hb buf

end Transfer

/-! ## Directory entries -/

theorem direntInode_setWord (md : Block) {i j v : ℕ} (hi : i < 25) (hv : v < 2 ^ 32) :
    direntInode (md.setWord (20 * i) v) j = if j = i then v else direntInode md j := by
  unfold direntInode
  split
  · rename_i h
    rw [h, Buf.word_setWord_self _ _ (by omega), Nat.mod_eq_of_lt hv]
  · exact Buf.word_setWord_disjoint _ (by omega)

theorem take_name_length (name : List UInt8) :
    (name.take (SFS_FILENAME_MAX - 1) ++ [0]).length ≤ 16 := by
  simp only [SFS_FILENAME_MAX, List.length_append, List.length_take, List.length_singleton]
  omega

theorem direntInode_store (md : Block) {i j : ℕ} {bs : List UInt8} (h : bs.length ≤ 16) :
    direntInode (md.store (20 * i + 4) bs) j = direntInode md j := by
  unfold direntInode
  exact Buf.word_store_disjoint _ (by omega)

theorem direntName_congr {a b : Block} {i : ℕ}
    (h : ∀ o, 20 * i + 4 ≤ o → o < 20 * i + 20 → a.byte o = b.byte o) :
    direntName a i = direntName b i := by
  unfold direntName
  rw [Buf.slice_congr fun k hk => h _ (by omega) (by simp [SFS_FILENAME_MAX] at hk; omega)]

theorem direntName_setWord (md : Block) {i j v : ℕ} :
    direntName (md.setWord (20 * i) v) j = direntName md j := by
  apply direntName_congr
  intro o h1 h2
  by_cases hlt : o < 20 * i
  · exact Buf.byte_store_of_lt _ _ hlt
  · exact Buf.byte_store_of_ge _ (by simp; omega)

theorem direntName_store_ne (md : Block) {i j : ℕ} {bs : List UInt8} (h : bs.length ≤ 16)
    (hne : j ≠ i) : direntName (md.store (20 * i + 4) bs) j = direntName md j := by
  apply direntName_congr
  intro o h1 h2
  by_cases hlt : o < 20 * i + 4
  · exact Buf.byte_store_of_lt _ _ hlt
  · exact Buf.byte_store_of_ge _ (by omega)

/-- A C string copied into the name field is read back. -/
theorem direntName_store_self (md : Block) {i : ℕ} {name : List UInt8} (hi : i < 25)
    (hlen : name.length ≤ 15) (h0 : (0 : UInt8) ∉ name) :
    direntName (md.store (20 * i + 4) (name ++ [0])) i = name :=
  Buf.takeWhile_store md h0 (by simp only [SFS_FILENAME_MAX]; omega)
    (by simp only [SFS_FILENAME_MAX]; omega)

theorem clearDirent_inode (md : Block) {i j : ℕ} (hi : i < 25) :
    direntInode ((md.setWord (20 * i) 0).store (20 * i + 4) [0]) j =
      if j = i then 0 else direntInode md j := by
  rw [direntInode_store _ (by simp), direntInode_setWord _ hi (by omega)]

theorem clearDirent_name (md : Block) {i j : ℕ} (hne : j ≠ i) :
    direntName ((md.setWord (20 * i) 0).store (20 * i + 4) [0]) j = direntName md j := by
  rw [direntName_store_ne _ (by simp) hne, direntName_setWord]

/-- **Unlinking clears exactly the entries of the file.** -/
theorem clearDirents_inode (fileid : ℤ) :
    ∀ (k i : ℕ) (md : Block), i + k ≤ 25 → ∀ j,
      direntInode (clearDirents fileid k i md) j =
        if i ≤ j ∧ j < i + k ∧ sint (direntInode md j) = fileid then 0 else direntInode md j
  | 0, i, md, _, j => by
    rw [clearDirents, if_neg (by omega)]
  | k + 1, i, md, h, j => by
    rw [clearDirents]
    by_cases he : sint (direntInode md i) = fileid
    · rw [if_pos he, clearDirents_inode fileid k (i + 1) _ (by omega) j]
      simp only [clearDirent_inode md (show i < 25 by omega)]
      by_cases hj : j = i
      · subst hj
        rw [if_neg (by omega), if_pos rfl, if_pos ⟨by omega, by omega, he⟩]
      · simp only [if_neg hj]
        exact if_congr (by omega) rfl rfl
    · rw [if_neg he, clearDirents_inode fileid k (i + 1) md (by omega) j]
      by_cases hj : j = i
      · subst hj
        rw [if_neg (by omega), if_neg fun hc => he hc.2.2]
      · exact if_congr (by omega) rfl rfl

/-- Entries that stay live keep their names. -/
theorem clearDirents_name (fileid : ℤ) :
    ∀ (k i : ℕ) (md : Block), i + k ≤ 25 → ∀ j, sint (direntInode md j) ≠ fileid →
      direntName (clearDirents fileid k i md) j = direntName md j
  | 0, _, _, _, _, _ => rfl
  | k + 1, i, md, h, j, hne => by
    rw [clearDirents]
    by_cases he : sint (direntInode md i) = fileid
    · have hj : j ≠ i := by rintro rfl; exact hne he
      have hne' : sint (direntInode ((md.setWord (20 * i) 0).store (20 * i + 4) [0]) j) ≠ fileid := by
        rw [clearDirent_inode md (by omega), if_neg hj]
        exact hne
      rw [if_pos he, clearDirents_name fileid k (i + 1) _ (by omega) j hne', clearDirent_name md hj]
    · rw [if_neg he]
      exact clearDirents_name fileid k (i + 1) md (by omega) j hne

/-- The new entry of `sfs_create` … -/
theorem setDirent_inode (md : Block) {index inode : ℕ} (name : List UInt8) (hi : index < 25)
    (hv : inode < 2 ^ 32) (j : ℕ) :
    direntInode (setDirent md index name inode) j = if j = index then inode else direntInode md j := by
  unfold setDirent
  rw [direntInode_setWord _ hi hv, direntInode_store _ (take_name_length name)]

/-- … and its name. -/
theorem setDirent_name (md : Block) {index inode : ℕ} {name : List UInt8} (hi : index < 25)
    (hlen : name.length ≤ 15) (h0 : (0 : UInt8) ∉ name) (j : ℕ) :
    direntName (setDirent md index name inode) j = if j = index then name else direntName md j := by
  unfold setDirent
  rw [direntName_setWord]
  split
  · rename_i hj
    rw [hj, show name.take (SFS_FILENAME_MAX - 1) = name from
      List.take_of_length_le (by simp [SFS_FILENAME_MAX]; omega), direntName_store_self md hi hlen h0]
  · rename_i hj
    exact direntName_store_ne _ (take_name_length name) hj

theorem findFreeDirent_spec (md : Block) :
    ∀ (k i : ℕ) (index : Option ℕ) (r : ℕ), findFreeDirent md k i index = some r →
      index = some r ∨ (i ≤ r ∧ r < i + k ∧ direntInode md r = 0)
  | 0, _, _, _, h => Or.inl h
  | k + 1, i, index, r, h => by
    rw [findFreeDirent] at h
    rcases findFreeDirent_spec md k (i + 1) _ r h with h1 | ⟨h1, h2, h3⟩
    · split at h1
      · rename_i h0
        cases h1
        exact Or.inr ⟨Nat.le_refl _, by omega, h0⟩
      · exact Or.inl h1
    · exact Or.inr ⟨by omega, by omega, h3⟩

/-- A directory with a free entry has one that the loop finds. -/
theorem findFreeDirent_none (md : Block) :
    ∀ (k i : ℕ) (index : Option ℕ), findFreeDirent md k i index = none →
      index = none ∧ ∀ j, i ≤ j → j < i + k → direntInode md j ≠ 0
  | 0, i, index, h => ⟨h, fun j h1 h2 => by omega⟩
  | k + 1, i, index, h => by
    rw [findFreeDirent] at h
    obtain ⟨h1, h2⟩ := findFreeDirent_none md k (i + 1) _ h
    split at h1
    · cases h1
    · rename_i h0
      refine ⟨h1, fun j hj hlt => ?_⟩
      by_cases e : j = i
      · rw [e]; exact h0
      · exact h2 j (by omega) (by omega)

theorem findDirent_some {md : Block} {filename : List UInt8} :
    ∀ {k i r : ℕ}, findDirent md filename k i = some r →
      i ≤ r ∧ r < i + k ∧ direntInode md r ≠ 0 ∧ direntName md r = filename
  | 0, _, _, h => by cases h
  | k + 1, i, r, h => by
    rw [findDirent] at h
    split at h
    · rename_i hc
      cases h
      exact ⟨Nat.le_refl _, by omega, by omega, hc.2⟩
    · obtain ⟨h1, h2, h3, h4⟩ := findDirent_some h
      exact ⟨by omega, by omega, h3, h4⟩

theorem findDirent_none {md : Block} {filename : List UInt8} :
    ∀ {k i : ℕ}, findDirent md filename k i = none →
      ∀ j, i ≤ j → j < i + k → direntInode md j ≠ 0 → direntName md j ≠ filename
  | 0, _, _, j, h1, h2 => by omega
  | k + 1, i, h, j, h1, h2 => by
    rw [findDirent] at h
    split at h
    · cases h
    · rename_i hc
      intro h0 hn
      by_cases e : j = i
      · subst e
        exact hc ⟨Nat.pos_of_ne_zero h0, hn⟩
      · exact findDirent_none h j (by omega) (by omega) h0 hn

/-! ## The allocation block -/

/-- The blocks that the `while` loop of `_delete` meets from index `i` on. -/
def Freed (inode : Block) (i k b : ℕ) : Prop :=
  ∃ j, i ≤ j ∧ j < i + k ∧ inodeBlock inode j = b ∧ ∀ j', i ≤ j' → j' ≤ j → inodeBlock inode j' ≠ 0

/-- **`_delete` clears exactly the bits of the leading non-zero blocks.** -/
theorem bitmapGet_freeBlocks {inode : Block} :
    ∀ {k i : ℕ} {bat : Block} (b : ℕ), (∀ j, i ≤ j → j < i + k → inodeBlock inode j < 4096) →
      (Freed inode i k b → bitmapGet (freeBlocks inode k i bat) b = 0) ∧
      (¬ Freed inode i k b → bitmapGet (freeBlocks inode k i bat) b = bitmapGet bat b)
  | 0, i, bat, b, _ => by
    refine ⟨?_, fun _ => rfl⟩
    rintro ⟨j, h1, h2, -⟩
    omega
  | k + 1, i, bat, b, hlt => by
    rw [freeBlocks]
    have hi := hlt i (Nat.le_refl _) (by omega)
    split
    · rename_i h0
      obtain ⟨ih1, ih2⟩ := @bitmapGet_freeBlocks inode k (i + 1)
        (bitmapSet bat (inodeBlock inode i) false) b
        (fun j h1 h2 => hlt j (by omega) (by omega))
      have hset := bitmapGet_bitmapSet bat (p := inodeBlock inode i) b false (by omega)
      by_cases hf : Freed inode (i + 1) k b
      · refine ⟨fun _ => ih1 hf, fun hn => absurd ?_ hn⟩
        obtain ⟨j, h1, h2, h3, h4⟩ := hf
        refine ⟨j, by omega, by omega, h3, fun j' h5 h6 => ?_⟩
        by_cases e : j' = i
        · rw [e]; exact h0
        · exact h4 j' (by omega) h6
      · rw [ih2 hf, hset]
        by_cases hb : b = inodeBlock inode i
        · rw [if_pos hb]
          refine ⟨fun _ => rfl, fun hn => absurd ?_ hn⟩
          refine ⟨i, Nat.le_refl _, by omega, hb.symm, fun j' h5 h6 => ?_⟩
          rw [show j' = i by omega]
          exact h0
        · rw [if_neg hb]
          refine ⟨?_, fun _ => rfl⟩
          rintro ⟨j, h1, h2, h3, h4⟩
          by_cases e : j = i
          · subst e; exact absurd h3.symm hb
          · exact absurd ⟨j, by omega, by omega, h3, fun j' h5 h6 => h4 j' (by omega) h6⟩ hf
    · rename_i h0
      refine ⟨?_, fun _ => rfl⟩
      rintro ⟨j, h1, h2, h3, h4⟩
      exact absurd (h4 i (Nat.le_refl _) h1) h0

theorem inodeBlock_setWord (inode : Block) {i v : ℕ} (hi : i < 127) (hv : v < 2 ^ 32) (j : ℕ) :
    inodeBlock (inode.setWord (4 * (i + 1)) v) j = if j = i then v else inodeBlock inode j := by
  unfold inodeBlock
  split
  · rename_i h
    rw [h, Buf.word_setWord_self _ _ (by omega), Nat.mod_eq_of_lt hv]
  · exact Buf.word_setWord_disjoint _ (by omega)

theorem inodeFilesize_setWord (inode : Block) (i v : ℕ) :
    inodeFilesize (inode.setWord (4 * (i + 1)) v) = inodeFilesize inode :=
  Buf.word_setWord_disjoint _ (by omega)

/-- The allocation loop takes distinct clear bits below `total`, sets exactly them and records
them in the inode. -/
theorem allocBlocks_spec {total : ℕ} (ht : total ≤ 4096) :
    ∀ {k i : ℕ} {bat inode bat' inode' : Block}, i + k ≤ 127 →
      allocBlocks total k i bat inode = some (bat', inode') →
      ∃ ps : List ℕ, ps.length = k ∧ ps.Nodup ∧ (∀ b ∈ ps, b < total ∧ bitmapGet bat b = 0) ∧
        (∀ b, bitmapGet bat' b = if b ∈ ps then 1 else bitmapGet bat b) ∧
        inodeFilesize inode' = inodeFilesize inode ∧
        ∀ j, inodeBlock inode' j =
          if i ≤ j ∧ j < i + k then ps.getD (j - i) 0 else inodeBlock inode j
  | 0, i, bat, inode, bat', inode', _, h => by
    cases h
    refine ⟨[], rfl, List.nodup_nil, by simp, by simp, rfl, fun j => ?_⟩
    rw [if_neg (by omega)]
  | k + 1, i, bat, inode, bat', inode', hik, h => by
    rw [allocBlocks] at h
    split at h
    · cases h
    · rename_i p bat1 hf
      obtain ⟨hp, hp0, -, rfl⟩ := bitmapFindnset_some hf
      obtain ⟨ps, h1, h2, h3, h4, h5, h6⟩ := allocBlocks_spec ht (by omega) h
      have hget : ∀ b, bitmapGet (bitmapSet bat p true) b = if b = p then 1 else bitmapGet bat b :=
        fun b => by simpa using bitmapGet_bitmapSet bat (p := p) b true (by omega)
      have hpn : p ∉ ps := by
        intro hm
        have := (h3 p hm).2
        rw [hget, if_pos rfl] at this
        cases this
      refine ⟨p :: ps, by simp [h1], List.nodup_cons.2 ⟨hpn, h2⟩, ?_, ?_, ?_, fun j => ?_⟩
      · intro b hb
        rcases List.mem_cons.1 hb with rfl | hb
        · exact ⟨hp, hp0⟩
        · refine ⟨(h3 b hb).1, ?_⟩
          have := (h3 b hb).2
          rw [hget] at this
          split at this
          · cases this
          · exact this
      · intro b
        rw [h4, hget]
        by_cases hb : b = p
        · simp [hb]
        · simp [hb]
      · rw [h5, inodeFilesize_setWord]
      · rw [h6, inodeBlock_setWord _ (by omega) (by omega)]
        by_cases hj : j = i
        · subst hj
          rw [if_neg (by omega), if_pos rfl, if_pos (by omega)]
          simp
        · by_cases hr : i + 1 ≤ j ∧ j < i + 1 + k
          · rw [if_pos hr, if_pos (by omega), show j - i = (j - (i + 1)) + 1 by omega,
              List.getD_cons_succ]
          · rw [if_neg hr, if_neg hj, if_neg (by omega)]

theorem clearTail_spec :
    ∀ {k i : ℕ} {inode : Block}, i + k ≤ 127 →
      inodeFilesize (clearTail k i inode) = inodeFilesize inode ∧
      ∀ j, inodeBlock (clearTail k i inode) j =
        if i ≤ j ∧ j < i + k then 0 else inodeBlock inode j
  | 0, i, inode, _ => ⟨rfl, fun j => by rw [clearTail, if_neg (by omega)]⟩
  | k + 1, i, inode, h => by
    rw [clearTail]
    obtain ⟨h1, h2⟩ := @clearTail_spec k (i + 1) (inode.setWord (4 * (i + 1)) 0)
      (by omega)
    refine ⟨by rw [h1, inodeFilesize_setWord], fun j => ?_⟩
    rw [h2, inodeBlock_setWord _ (by omega) (by omega)]
    by_cases hj : j = i
    · subst hj
      rw [if_neg (by omega), if_pos rfl, if_pos (by omega)]
    · by_cases hr : i + 1 ≤ j ∧ j < i + 1 + k
      · rw [if_pos hr, if_pos (by omega)]
      · rw [if_neg hr, if_neg hj, if_neg (by omega)]

/-- Zeroing the reserved blocks on a working device touches only them. -/
theorem zeroBlocks_works {inode : Block} :
    ∀ {k i : ℕ} {disk : Gbd}, disk.Works →
      (∀ j, i ≤ j → j < i + k → inodeBlock inode j < disk.totalBlocks) →
      ∃ blocks, zeroBlocks inode k i disk = (true, disk.withBlocks blocks) ∧
        (∀ j, i ≤ j → j < i + k → blocks (inodeBlock inode j) = Buf.const 512 0) ∧
        ∀ b, (∀ j, i ≤ j → j < i + k → inodeBlock inode j ≠ b) → blocks b = disk.blocks b
  | 0, i, disk, _, _ => ⟨disk.blocks, rfl, fun j h1 h2 => by omega, fun _ _ => rfl⟩
  | k + 1, i, disk, hw, hlt => by
    have hi := hlt i (Nat.le_refl _) (by omega)
    obtain ⟨blocks, h1, h2, h3⟩ := @zeroBlocks_works inode k (i + 1)
      (disk.withBlocks (Function.update disk.blocks (inodeBlock inode i) (Buf.const 512 0)))
      (hw.withBlocks _) (fun j h1 h2 => hlt j (by omega) (by omega))
    refine ⟨blocks, ?_, fun j hj1 hj2 => ?_, fun b hb => ?_⟩
    · rw [zeroBlocks, writeVblock_works hw hi]
      exact h1
    · by_cases hc : ∃ j', i + 1 ≤ j' ∧ j' < i + 1 + k ∧ inodeBlock inode j' = inodeBlock inode j
      · obtain ⟨j', h5, h6, h7⟩ := hc
        rw [← h7]
        exact h2 j' h5 h6
      · have hji : j = i := by
          by_contra hne
          exact hc ⟨j, by omega, by omega, rfl⟩
        rw [h3 _ fun j' h5 h6 h7 => hc ⟨j', h5, h6, h7⟩, hji]
        exact Function.update_self _ _ _
    · rw [h3 b fun j h5 h6 => hb j (by omega) (by omega)]
      exact Function.update_of_ne (Ne.symm (hb i (Nat.le_refl _) (by omega))) _ _

end Buenos.Fs
