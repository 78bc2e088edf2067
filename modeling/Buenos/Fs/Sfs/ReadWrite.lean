import Buenos.Fs.Sfs.CreateWrite
import Mathlib.Data.List.TakeWhile

/-!
# Reading and writing refine a byte sequence

The abstract file is a list of bytes of fixed length, with `readAt` and `writeAt`.  The block
programs `readBody` and `writeBody` refine it on a well-formed inode: every block that the size
needs is on the device, non-zero and used once (`FileOk`).

* `writeBody_frame` — whatever its arguments, `sfs_write` changes data blocks of its file only.
* `readBody_readOnly` — `sfs_read` changes nothing.
* `goodBytes` — how far a transfer comes before a block fails; `readBody_run` and `writeBody_run`
  say what is transferred.
* `readBody_spec` — `sfs_read` returns what `readAt` returns on the contents.
* `writeBody_spec` — `sfs_write` changes the contents as `writeAt` does, and nothing else.
-/

namespace Buenos.Fs

open Bytes BlockProgram

/-! ## The abstract file -/

/-- Read `n` bytes at `offset`: return value and bytes. -/
def readAt (contents : List UInt8) (n : ℕ) (offset : ℤ) : ℤ × List UInt8 :=
  if offset < 0 ∨ offset > contents.length then (VFS_ERROR, [])
  else (((contents.drop offset.toNat).take n).length, (contents.drop offset.toNat).take n)

/-- Overwrite the bytes of `contents` from `o` on by `buf`. -/
def overwrite (contents : List UInt8) (o : ℕ) (buf : List UInt8) : List UInt8 :=
  contents.take o ++ buf ++ contents.drop (o + buf.length)

theorem overwrite_getElem? {contents buf : List UInt8} {o x : ℕ}
    (h : o + buf.length ≤ contents.length) :
    (overwrite contents o buf)[x]? =
      if o ≤ x ∧ x < o + buf.length then buf[x - o]? else contents[x]? := by
  have hlen : (contents.take o).length = o := by simp; omega
  unfold overwrite
  by_cases h1 : x < o
  · rw [if_neg (by omega), List.append_assoc, List.getElem?_append_left (by omega),
      List.getElem?_take, if_pos h1]
  · by_cases h2 : x < o + buf.length
    · rw [if_pos ⟨by omega, h2⟩, List.append_assoc, List.getElem?_append_right (by omega), hlen,
        List.getElem?_append_left (by omega)]
    · rw [if_neg (by omega), List.getElem?_append_right (by simp; omega), List.getElem?_drop]
      congr 1
      rw [List.length_append, hlen]
      omega

/-- Write `buf` at `offset`, as much of it as fits: return value and new contents. -/
def writeAt (contents : List UInt8) (buf : List UInt8) (offset : ℤ) : ℤ × List UInt8 :=
  if offset < 0 ∨ offset > contents.length then (VFS_ERROR, contents)
  else ((buf.take (contents.length - offset.toNat)).length,
    overwrite contents offset.toNat (buf.take (contents.length - offset.toNat)))

/-! ## The contents of a file -/

/-- Byte `x` of the file `f`. -/
def fileByte (blocks : ℕ → Block) (f x : ℕ) : UInt8 :=
  (blocks (inodeBlock (blocks f) (x / 512))).byte (x % 512)

/-- The contents of the file `f`. -/
def fileBytes (blocks : ℕ → Block) (f : ℕ) : List UInt8 :=
  (List.range (inodeFilesize (blocks f))).map (fileByte blocks f)

@[simp] theorem fileBytes_length (blocks : ℕ → Block) (f : ℕ) :
    (fileBytes blocks f).length = inodeFilesize (blocks f) := by
  simp [fileBytes]

theorem fileBytes_getElem? (blocks : ℕ → Block) (f x : ℕ) :
    (fileBytes blocks f)[x]? =
      if x < inodeFilesize (blocks f) then some (fileByte blocks f x) else none := by
  unfold fileBytes
  split
  · simp [*]
  · exact List.getElem?_eq_none (by simp; omega)

/-- The inode of `f` describes a file on `disk`: every block that the size needs is on the device,
non-zero, not the inode, and used once. -/
structure FileOk (disk : Gbd) (f : ℕ) : Prop where
  works : disk.Works
  inode_lt : f < disk.totalBlocks
  inode_ne : f ≠ 0
  size : inodeFilesize (disk.blocks f) ≤ SFS_MAX_FILESIZE
  lt : ∀ j < 127, inodeBlock (disk.blocks f) j < disk.totalBlocks
  ne : ∀ j < 127, inodeBlock (disk.blocks f) j ≠ f
  pos : ∀ j, 512 * j < inodeFilesize (disk.blocks f) → inodeBlock (disk.blocks f) j ≠ 0
  inj : ∀ j < 127, ∀ j' < 127, inodeBlock (disk.blocks f) j ≠ 0 →
    inodeBlock (disk.blocks f) j = inodeBlock (disk.blocks f) j' → j = j'

/-- The blocks that the size of `f` needs: on the device, not the inode, and used once. -/
structure FileLayout (disk : Gbd) (f : ℕ) : Prop where
  inode_lt : f < disk.totalBlocks
  size : inodeFilesize (disk.blocks f) ≤ SFS_MAX_FILESIZE
  lt : ∀ {j}, 512 * j < inodeFilesize (disk.blocks f) →
    inodeBlock (disk.blocks f) j < disk.totalBlocks
  ne : ∀ {j}, 512 * j < inodeFilesize (disk.blocks f) → inodeBlock (disk.blocks f) j ≠ f
  inj : ∀ {j j'}, 512 * j < inodeFilesize (disk.blocks f) →
    512 * j' < inodeFilesize (disk.blocks f) →
    inodeBlock (disk.blocks f) j = inodeBlock (disk.blocks f) j' → j = j'

/-- The size is an `int`. -/
theorem FileLayout.sint_size {disk : Gbd} {f : ℕ} (h : FileLayout disk f) :
    sint (inodeFilesize (disk.blocks f)) = inodeFilesize (disk.blocks f) := by
  have hsz := h.size
  simp only [SFS_MAX_FILESIZE] at hsz
  exact sint_of_lt (by omega)

/-- The blocks of `f` are in order, on a disk without errors. -/
structure FileShape (disk : Gbd) (f : ℕ) : Prop extends FileLayout disk f where
  works : disk.Works

theorem FileOk.shape {disk : Gbd} {f : ℕ} (h : FileOk disk f) : FileShape disk f := by
  have hsz := h.size
  simp only [SFS_MAX_FILESIZE] at hsz
  refine ⟨⟨h.inode_lt, h.size, fun hj => h.lt _ (by omega), fun hj => h.ne _ (by omega),
    fun hj hj' he => h.inj _ (by omega) _ (by omega) (h.pos _ hj) he⟩, h.works⟩

/-! ## Frame: which blocks `sfs_write` may change -/

/-- The inode has 127 block numbers; the model reads 0 after them. -/
theorem inodeBlock_of_ge (inode : Block) {j : ℕ} (h : 127 ≤ j) : inodeBlock inode j = 0 := by
  unfold inodeBlock Buf.word
  rw [inode.byte_of_ge (by omega), inode.byte_of_ge (by omega), inode.byte_of_ge (by omega),
    inode.byte_of_ge (by omega)]
  rfl

theorem Untouched.ne {inode : Block} {b : ℕ} (h : Untouched inode b) (j : ℕ) :
    b ≠ inodeBlock inode j := by
  by_cases hj : j < 127
  · exact Ne.symm (h.2 j hj)
  · rw [inodeBlock_of_ge inode (by omega)]
    exact h.1

/-- `disk'` is `disk` up to the blocks listed in `inode`. -/
def SameBut (inode : Block) (disk disk' : Gbd) : Prop :=
  ∃ blocks, disk' = disk.withBlocks blocks ∧ ∀ b, Untouched inode b → blocks b = disk.blocks b

theorem SameBut.refl (inode : Block) (disk : Gbd) : SameBut inode disk disk :=
  ⟨disk.blocks, rfl, fun _ _ => rfl⟩

theorem SameBut.write {inode buf : Block} {disk disk' disk'' : Gbd} {j : ℕ}
    (hw : writeVblock disk (inodeBlock inode j) buf = some disk') (h : SameBut inode disk' disk'') :
    SameBut inode disk disk'' := by
  unfold writeVblock at hw
  split at hw
  · cases hw
    obtain ⟨blocks, rfl, hb⟩ := h
    refine ⟨blocks, rfl, fun b hu => ?_⟩
    rw [hb b hu]
    exact Function.update_of_ne (hu.ne j) ..
  · cases hw

/-- A block of the file is written, and what follows keeps to the file. -/
theorem SameBut.put {inode buf : Block} {disk : Gbd} {j : ℕ} {next : Bool → Prog Block ℤ}
    (hfalse : next false = .ret VFS_ERROR)
    (htrue : ∀ disk', SameBut inode disk' ((next true).run gbdDevice disk').2) :
    SameBut inode disk ((Prog.write (inodeBlock inode j) buf next).run gbdDevice disk).2 := by
  simp only [Prog.run, gbdDevice]
  split
  · rename_i disk' hw
    exact SameBut.write hw (htrue disk')
  · rw [hfalse]
    exact SameBut.refl inode disk

theorem writeLoop_frame {inode : Block} {datasize : ℤ} :
    ∀ (k b1 : ℕ) (written : ℤ) (buffer : List UInt8) (bat : Block) (disk : Gbd),
      SameBut inode disk
        ((writeLoop inode datasize k b1 written buffer bat).run gbdDevice disk).2
  | 0, _, _, _, _, disk => SameBut.refl inode disk
  | k + 1, b1, written, buffer, bat, disk => by
    rw [writeLoop]
    split
    · simp only
      split
      · simp only [Prog.run]
        split
        · exact SameBut.refl inode disk
        · exact SameBut.put rfl (writeLoop_frame k (b1 + 1) _ _ _)
      · exact SameBut.put rfl (writeLoop_frame k (b1 + 1) _ _ _)
    · exact SameBut.put rfl (writeLoop_frame k (b1 + 1) _ _ _)

/-- **Whatever its arguments, `sfs_write` changes data blocks of its file only.** -/
theorem writeBody_frame (disk : Gbd) (f : ℕ) (buffer : List UInt8) (datasize offset : ℤ) :
    SameBut (disk.blocks f) disk ((writeBody f buffer datasize offset).run gbdDevice disk).2 := by
  rw [writeBody]
  simp only [Prog.run, gbdDevice]
  unfold readVblock
  split
  · exact SameBut.refl _ disk
  · rename_i inode hr
    split at hr
    · cases hr
      split
      · exact SameBut.refl _ disk
      · split
        · exact SameBut.refl _ disk
        · split
          · simp only [Prog.run]
            split
            · exact SameBut.refl _ disk
            · exact SameBut.put rfl (writeLoop_frame _ _ _ _ _)
          · exact SameBut.put rfl (writeLoop_frame _ _ _ _ _)
    · cases hr

theorem readLoop_readOnly {inode : Block} {bufsize : ℤ} :
    ∀ (k b1 : ℕ) (read : ℤ) (out : List UInt8), (readLoop inode bufsize k b1 read out).ReadOnly
  | 0, _, _, _ => .ret _
  | k + 1, b1, read, out => by
    rw [readLoop]
    refine .read _ fun r => ?_
    split
    · exact .ret _
    · split
      · exact readLoop_readOnly k _ _ _
      · exact readLoop_readOnly k _ _ _

/-- **`sfs_read` never writes.** -/
theorem readBody_readOnly (f : ℕ) (isFolder : Bool) (bufsize offset : ℤ) :
    (readBody f isFolder bufsize offset).ReadOnly := by
  unfold readBody
  split
  · split
    · exact .ret _
    · refine .read _ fun r => ?_
      split
      · exact .ret _
      · exact .ret _
  · refine .read _ fun r => ?_
    split
    · exact .ret _
    · split
      · exact .ret _
      · simp only
        split
        · exact .ret _
        · refine .read _ fun r => ?_
          split
          · exact .ret _
          · exact readLoop_readOnly _ _ _ _

/-! ## Blocks that fail -/

/-- How many of the `n` bytes from `x` on stand before the first block of the file on which the disk
reports an error. -/
def goodBytes (disk : Gbd) (inode : Block) (x n : ℕ) : ℕ :=
  ((List.range n).takeWhile fun k => !disk.error (inodeBlock inode ((x + k) / 512))).length

section GoodBytes

variable {disk : Gbd} {inode : Block} {x m n : ℕ}

theorem goodBytes_le : goodBytes disk inode x n ≤ n := by
  have hlen := (List.takeWhile_sublist (l := List.range n)
    fun k => !disk.error (inodeBlock inode ((x + k) / 512))).length_le
  rwa [List.length_range] at hlen

theorem goodBytes_zero : goodBytes disk inode x 0 = 0 := rfl

@[simp] theorem goodBytes_withBlocks {blocks : ℕ → Block} :
    goodBytes (disk.withBlocks blocks) inode x n = goodBytes disk inode x n := rfl

/-- A part of one block is transferred or not. -/
theorem goodBytes_block (hin : x % 512 + n ≤ 512) :
    goodBytes disk inode x n = if disk.error (inodeBlock inode (x / 512)) then 0 else n := by
  have hsame : ∀ k ∈ List.range n, (x + k) / 512 = x / 512 := fun k hk => by
    have := List.mem_range.1 hk
    omega
  cases he : disk.error (inodeBlock inode (x / 512)) with
  | false =>
    have hall : (List.range n).takeWhile (fun k => !disk.error (inodeBlock inode ((x + k) / 512))) =
        List.range n :=
      List.takeWhile_eq_self_iff.2 fun k hk => by rw [hsame k hk, he]; rfl
    rw [goodBytes, hall, List.length_range]
    rfl
  | true =>
    cases n with
    | zero => rfl
    | succ n =>
      rw [goodBytes, List.range_succ_eq_map, List.takeWhile_cons_of_neg (by rw [Nat.add_zero, he]; decide)]
      rfl

/-- **Two transfers one behind the other**: the second is made if the first is complete. -/
theorem goodBytes_add : goodBytes disk inode x (m + n) =
    if goodBytes disk inode x m = m then m + goodBytes disk inode (x + m) n
    else goodBytes disk inode x m := by
  have hshift : ((List.range n).map (m + ·)).takeWhile
      (fun k => !disk.error (inodeBlock inode ((x + k) / 512))) =
      ((List.range n).takeWhile fun k => !disk.error (inodeBlock inode ((x + m + k) / 512))).map
        (m + ·) := by
    rw [List.takeWhile_map]
    congr 2
    funext k
    rw [Function.comp_apply, Nat.add_assoc]
  unfold goodBytes
  rw [List.range_add, List.takeWhile_append, List.length_range, hshift]
  split
  · rw [List.length_append, List.length_range, List.length_map]
  · rfl

/-- The first block of a transfer, and the rest. -/
theorem goodBytes_step (hm : 0 < m) (hin : x % 512 + m ≤ 512) : goodBytes disk inode x (m + n) =
    if disk.error (inodeBlock inode (x / 512)) then 0 else m + goodBytes disk inode (x + m) n := by
  rw [goodBytes_add, goodBytes_block hin]
  split
  · rw [if_neg (by omega)]
  · rw [if_pos rfl]

end GoodBytes

/-- On a disk without errors a transfer inside the file is complete. -/
theorem FileShape.goodBytes {disk : Gbd} {f x n : ℕ} (hok : FileShape disk f)
    (hin : x + n ≤ inodeFilesize (disk.blocks f)) : goodBytes disk (disk.blocks f) x n = n := by
  have hall : (List.range n).takeWhile
      (fun k => !disk.error (inodeBlock (disk.blocks f) ((x + k) / 512))) = List.range n :=
    List.takeWhile_eq_self_iff.2 fun k hk => by
      have hk := List.mem_range.1 hk
      rw [hok.works _ (hok.lt (show 512 * ((x + k) / 512) < _ by omega))]
      rfl
  rw [Fs.goodBytes, hall, List.length_range]

/-- Reading a block of the device. -/
theorem readVblock_lt {disk : Gbd} {b : ℕ} (h : b < disk.totalBlocks) :
    readVblock disk b = if disk.error b then none else some (disk.blocks b) := by
  unfold readVblock
  cases disk.error b with
  | false => rw [if_pos ⟨h, rfl⟩]; rfl
  | true => exact if_neg fun hc => Bool.noConfusion hc.2

/-- Writing a block of the device. -/
theorem writeVblock_lt {disk : Gbd} {b : ℕ} {buf : Block} (h : b < disk.totalBlocks) :
    writeVblock disk b buf =
      if disk.error b then none else some (disk.withBlocks (Function.update disk.blocks b buf)) := by
  unfold writeVblock
  cases disk.error b with
  | false => rw [if_pos ⟨h, rfl⟩]; rfl
  | true => exact if_neg fun hc => Bool.noConfusion hc.2

/-! ## Reading -/

/-- The `n` bytes of the file `f` from `x` on. -/
def fileSlice (blocks : ℕ → Block) (f x n : ℕ) : List UInt8 :=
  (List.range n).map fun k => fileByte blocks f (x + k)

theorem fileSlice_add (blocks : ℕ → Block) (f x m n : ℕ) :
    fileSlice blocks f x (m + n) = fileSlice blocks f x m ++ fileSlice blocks f (x + m) n := by
  simp only [fileSlice, List.range_add, List.map_append, List.map_map]
  congr 1
  apply List.map_congr_left
  intro k _
  simp only [Function.comp_apply]
  congr 1
  omega

theorem fileSlice_eq (blocks : ℕ → Block) (f x n : ℕ) (h : x + n ≤ inodeFilesize (blocks f)) :
    fileSlice blocks f x n = ((fileBytes blocks f).drop x).take n := by
  apply List.ext_getElem
  · simp [fileSlice]
    omega
  · intro k h1 h2
    simp [fileSlice, fileBytes]

/-- Part of one block is part of the file. -/
theorem slice_eq_fileSlice (blocks : ℕ → Block) (f j o n : ℕ) (h : o + n ≤ 512) :
    (blocks (inodeBlock (blocks f) j)).slice o n = fileSlice blocks f (512 * j + o) n := by
  unfold Buf.slice fileSlice
  apply List.map_congr_left
  intro k hk
  have hk := List.mem_range.1 hk
  rw [fileByte, show (512 * j + o + k) / 512 = j by omega,
    show (512 * j + o + k) % 512 = o + k by omega]

/-- The read loop copies the blocks from `b1` on, up to the first one that fails: `r` of `N` bytes are
done. -/
theorem readLoop_run {disk : Gbd} {f N : ℕ} :
    ∀ (k b1 r : ℕ) (out : List UInt8), r ≤ N → N - r ≤ 512 * k →
      (k ≠ 0 → 512 * (k - 1) < N - r) →
      (∀ j, b1 ≤ j → j < b1 + k → inodeBlock (disk.blocks f) j < disk.totalBlocks) →
      let g := goodBytes disk (disk.blocks f) (512 * b1) (N - r)
      (readLoop (disk.blocks f) N k b1 r out).run gbdDevice disk =
        ((if g = N - r then (N : ℤ) else VFS_ERROR, out ++ fileSlice disk.blocks f (512 * b1) g), disk)
  | 0, b1, r, out, hr, hle, _, _ => by
    have hrN : r = N := by omega
    rw [hrN, Nat.sub_self, goodBytes_zero]
    simp [readLoop, Prog.run, fileSlice]
  | k + 1, b1, r, out, hr, hle, hk, hlt => by
    have hk := hk (by omega)
    simp only [Nat.add_sub_cancel] at hk
    have hblk := readVblock_lt (hlt b1 (Nat.le_refl _) (by omega))
    have hsplit : N - r = min 512 (N - r) + (N - r - 512) := by omega
    have hg := @goodBytes_step disk (disk.blocks f) (512 * b1) (min 512 (N - r)) (N - r - 512) (by omega)
      (by omega)
    rw [← hsplit, show 512 * b1 / 512 = b1 by omega] at hg
    rw [readLoop]
    simp only [Prog.run, gbdDevice, hblk, hg]
    cases he : disk.error (inodeBlock (disk.blocks f) b1) with
    | true =>
      simp only [if_true]
      rw [if_neg (by omega)]
      simp [fileSlice, Prog.run]
    | false =>
      simp only [Bool.false_eq_true, if_false]
      split
      · rename_i h0
        subst h0
        have hone : N - r ≤ 512 := by omega
        simp only [Nat.sub_eq_zero_of_le hone, goodBytes_zero, Nat.min_eq_right hone, Nat.add_zero, if_true]
        rw [show (r : ℤ) + ((N : ℤ) - r) = N by omega, readLoop, Prog.run,
          show ((N : ℤ) - r).toNat = N - r by omega, slice_eq_fileSlice _ _ _ _ _ (by omega)]
        rfl
      · rename_i h0
        have hrec := readLoop_run (N := N) k (b1 + 1) (r + 512)
          (out ++ (disk.blocks (inodeBlock (disk.blocks f) b1)).slice 0 512) (by omega) (by omega)
          (fun _ => by omega) (fun j h1 h2 => hlt j (by omega) (by omega))
        rw [show (r : ℤ) + (SFS_VBLOCK_SIZE : ℕ) = ((r + 512 : ℕ) : ℤ) by simp [SFS_VBLOCK_SIZE]]
        refine hrec.trans ?_
        rw [Nat.min_eq_left (show 512 ≤ N - r by omega), show 512 * b1 + 512 = 512 * (b1 + 1) by omega,
          show N - (r + 512) = N - r - 512 by omega]
        generalize goodBytes disk (disk.blocks f) (512 * (b1 + 1)) (N - r - 512) = g
        rw [slice_eq_fileSlice _ _ _ _ _ (by omega), List.append_assoc, Nat.add_zero,
          show 512 * (b1 + 1) = 512 * b1 + 512 by omega, ← fileSlice_add,
          if_congr (show g = N - r - 512 ↔ 512 + g = N - r by omega) rfl rfl]

/-! The positions with which a transfer of `N` bytes from the offset `o` on starts. -/

section Positions

variable {o N : ℕ}

theorem firstBlock_eq : ((o : ℤ).tdiv (SFS_VBLOCK_SIZE : ℕ)).toNat = o / 512 := by
  rw [Int.tdiv_eq_ediv_of_nonneg (by omega)]
  simp only [SFS_VBLOCK_SIZE]
  omega

theorem firstOffset_eq : (o : ℤ).tmod (SFS_VBLOCK_SIZE : ℕ) = (o % 512 : ℕ) := by
  rw [Int.tmod_eq_emod_of_nonneg (by omega)]
  simp only [SFS_VBLOCK_SIZE]
  omega

theorem lastBlock_eq (hpos : 0 < N) : ((o : ℤ) + N - 1).tdiv (SFS_VBLOCK_SIZE : ℕ) = ((o + N - 1) / 512 : ℕ) := by
  rw [Int.tdiv_eq_ediv_of_nonneg (by omega)]
  simp only [SFS_VBLOCK_SIZE]
  omega

theorem firstBytes_eq :
    min ((SFS_VBLOCK_SIZE : ℕ) - ((o % 512 : ℕ) : ℤ)) (N : ℤ) = (min (512 - o % 512) N : ℕ) := by
  simp only [SFS_VBLOCK_SIZE]
  omega

theorem rounds_eq : ((((o + N - 1) / 512 : ℕ) : ℤ) - ((o / 512 : ℕ) : ℤ)).toNat = (o + N - 1) / 512 - o / 512 := by
  omega

end Positions

section ReadBody

variable {disk : Gbd} {f : ℕ}

/-- `sfs_read` when the inode cannot be read. -/
theorem readBody_failed (hlt : f < disk.totalBlocks) (he : disk.error f = true) (n offset : ℤ) :
    (readBody f false n offset).run gbdDevice disk = ((VFS_ERROR, []), disk) := by
  unfold readBody
  simp only [Bool.false_eq_true, if_false, Prog.run, gbdDevice, readVblock_lt hlt, he, if_true]

/-- `sfs_read` at an offset outside the file. -/
theorem readBody_outside (hok : FileLayout disk f) (n : ℤ) {offset : ℤ}
    (h : offset < 0 ∨ offset > inodeFilesize (disk.blocks f)) :
    (readBody f false n offset).run gbdDevice disk = ((VFS_ERROR, []), disk) := by
  have hsint := hok.sint_size
  unfold readBody
  simp only [Bool.false_eq_true, if_false, Prog.run, gbdDevice, readVblock_lt hok.inode_lt]
  cases he : disk.error f with
  | true => rfl
  | false =>
    simp only [Bool.false_eq_true, if_false, hsint]
    rw [if_pos h]
    rfl

/-- **What `sfs_read` transfers** from an offset inside the file: the bytes before the first block that
fails. -/
theorem readBody_run (hok : FileLayout disk f) (he : disk.error f = false) {n o N : ℕ}
    (ho : o ≤ inodeFilesize (disk.blocks f)) (hN : min n (inodeFilesize (disk.blocks f) - o) = N) :
    let g := goodBytes disk (disk.blocks f) o N
    (readBody f false n o).run gbdDevice disk =
      ((if g = N then (N : ℤ) else VFS_ERROR, fileSlice disk.blocks f o g), disk) := by
  have hsint := hok.sint_size
  have hNc : min (n : ℤ) ((inodeFilesize (disk.blocks f) : ℤ) - o) = N := by omega
  unfold readBody
  simp only [Bool.false_eq_true, if_false, Prog.run, gbdDevice, readVblock_lt hok.inode_lt, he, hsint]
  rw [if_neg (by omega)]
  simp only [hNc]
  by_cases h0 : N = 0
  · subst h0
    rfl
  have hsplit : N = min (512 - o % 512) N + (N - min (512 - o % 512) N) := by omega
  have hg := @goodBytes_step disk (disk.blocks f) o (min (512 - o % 512) N)
    (N - min (512 - o % 512) N) (by omega) (by omega)
  rw [← hsplit] at hg
  rw [if_neg (by omega)]
  simp only [firstBlock_eq, firstOffset_eq, lastBlock_eq (Nat.pos_of_ne_zero h0), firstBytes_eq, rounds_eq, Prog.run,
    readVblock_lt (hok.lt (show 512 * (o / 512) < _ by omega)), Int.toNat_natCast, hg]
  cases hb : disk.error (inodeBlock (disk.blocks f) (o / 512)) with
  | true =>
    simp only [if_true]
    rw [if_neg (by omega)]
    simp [fileSlice, Prog.run]
  | false =>
    simp only [Bool.false_eq_true, if_false]
    have hloop := readLoop_run (N := N) ((o + N - 1) / 512 - o / 512) (o / 512 + 1)
      (min (512 - o % 512) N)
      ((disk.blocks (inodeBlock (disk.blocks f) (o / 512))).slice (o % 512) (min (512 - o % 512) N))
      (by omega) (by omega) (by omega) (fun j h1 h2 => hok.lt (by omega))
    refine hloop.trans ?_
    rw [slice_eq_fileSlice _ _ _ _ _ (by omega), show 512 * (o / 512) + o % 512 = o by omega]
    by_cases hone : N ≤ 512 - o % 512
    · rw [show min (512 - o % 512) N = N by omega, Nat.sub_self, goodBytes_zero, goodBytes_zero]
      simp [fileSlice]
    · rw [show 512 * (o / 512 + 1) = o + min (512 - o % 512) N by omega, ← fileSlice_add]
      generalize goodBytes disk (disk.blocks f) (o + min (512 - o % 512) N) (N - min (512 - o % 512) N) = g
      rw [if_congr (show g = N - min (512 - o % 512) N ↔ min (512 - o % 512) N + g = N by omega) rfl rfl]

/-- The bytes of a file from `o` on. -/
theorem take_drop_fileBytes {o n : ℕ} : ((fileBytes disk.blocks f).drop o).take n =
    fileSlice disk.blocks f o (min n (inodeFilesize (disk.blocks f) - o)) := by
  by_cases ho : o ≤ inodeFilesize (disk.blocks f)
  · rw [fileSlice_eq _ _ _ _ (by omega), List.take_eq_take_iff, List.length_drop, fileBytes_length]
    omega
  · rw [show min n (inodeFilesize (disk.blocks f) - o) = 0 by omega,
      List.drop_eq_nil_of_le (by rw [fileBytes_length]; omega), List.take_nil]
    rfl

/-- **`sfs_read` of a file** returns what `readAt` returns on its contents. -/
theorem readBody_spec (hok : FileShape disk f) (n : ℕ) (offset : ℤ) :
    (readBody f false n offset).run gbdDevice disk =
      (readAt (fileBytes disk.blocks f) n offset, disk) := by
  unfold readAt
  rw [fileBytes_length]
  by_cases hbad : offset < 0 ∨ offset > inodeFilesize (disk.blocks f)
  · rw [if_pos hbad, readBody_outside hok.toFileLayout n hbad]
  rw [if_neg hbad]
  obtain ⟨o, rfl⟩ := Int.eq_ofNat_of_zero_le (show 0 ≤ offset by omega)
  rw [readBody_run hok.toFileLayout (hok.works f hok.inode_lt) (show o ≤ _ by omega) rfl,
    hok.goodBytes (by omega), if_pos rfl, Int.toNat_natCast, take_drop_fileBytes]
  simp [fileSlice]

end ReadBody

/-! ## Writing -/

theorem byte_store_take (bat : Block) (buffer : List UInt8) {o n i : ℕ} (hn : n ≤ buffer.length)
    (hi : i < 512) : (bat.store o (buffer.take n)).byte i =
      if o ≤ i ∧ i < o + n then buffer.getD (i - o) 0 else bat.byte i := by
  rw [Buf.byte_store, List.length_take, Nat.min_eq_left hn]
  by_cases h : o ≤ i ∧ i < o + n
  · rw [if_pos ⟨h.1, h.2, hi⟩, if_pos h, List.getD_eq_getElem?_getD, List.getD_eq_getElem?_getD,
      List.getElem?_take, if_pos (by omega)]
  · rw [if_neg fun hc => h ⟨hc.1, hc.2.1⟩, if_neg h]

/-- The blocks `b1 … b1 + k - 1` of an inode hold `buffer`, up to `n` bytes of it. -/
structure Holds (inode : Block) (blocks blocks' : ℕ → Block) (b1 k n : ℕ) (buffer : List UInt8) :
    Prop where
  other : ∀ b, (∀ j, b1 ≤ j → j < b1 + k → inodeBlock inode j ≠ b) → blocks' b = blocks b
  byte : ∀ j, b1 ≤ j → j < b1 + k → ∀ i < 512, (blocks' (inodeBlock inode j)).byte i =
    if 512 * (j - b1) + i < n then buffer.getD (512 * (j - b1) + i) 0
    else (blocks (inodeBlock inode j)).byte i

/-- Writing block `b1` and then the blocks after it. -/
theorem Holds.cons {inode : Block} {blocks blocks' : ℕ → Block} {b1 k n : ℕ} {buffer : List UInt8}
    {bat : Block}
    (hinj : ∀ j, b1 ≤ j → j < b1 + (k + 1) → ∀ j', b1 ≤ j' → j' < b1 + (k + 1) →
      inodeBlock inode j = inodeBlock inode j' → j = j')
    (hbat : ∀ i < 512, bat.byte i = if i < n then buffer.getD i 0
      else (blocks (inodeBlock inode b1)).byte i)
    (h : Holds inode (Function.update blocks (inodeBlock inode b1) bat) blocks' (b1 + 1) k (n - 512)
      (buffer.drop 512)) : Holds inode blocks blocks' b1 (k + 1) n buffer := by
  refine ⟨fun b hb => ?_, fun j h1 h2 i hi => ?_⟩
  · rw [h.other b fun j h3 h4 => hb j (by omega) (by omega)]
    exact Function.update_of_ne (Ne.symm (hb b1 (Nat.le_refl _) (by omega))) ..
  · by_cases hj : j = b1
    · subst hj
      rw [h.other _ fun j' h3 h4 he => by
        have := hinj j' (by omega) (by omega) j h1 h2 he
        omega]
      rw [Function.update_self, hbat i hi, Nat.sub_self, Nat.mul_zero, Nat.zero_add]
    · rw [h.byte j (by omega) (by omega) i hi, Function.update_of_ne fun he => hj
        (hinj j h1 h2 b1 (Nat.le_refl _) (by omega) he)]
      by_cases hx : 512 * (j - b1) + i < n
      · rw [if_pos (by omega), if_pos hx, List.getD_eq_getElem?_getD, List.getD_eq_getElem?_getD,
          List.getElem?_drop]
        congr 2
        omega
      · rw [if_neg (by omega), if_neg hx]

/-- Nothing is written. -/
theorem Holds.nothing {inode : Block} {blocks : ℕ → Block} {b1 k : ℕ} {buffer : List UInt8} :
    Holds inode blocks blocks b1 k 0 buffer :=
  ⟨fun _ _ => rfl, fun _ _ _ _ _ => (if_neg (Nat.not_lt_zero _)).symm⟩

/-- The write loop fills the blocks from `b1` on, up to the first one that fails: `w` of `N` bytes are
done. -/
theorem writeLoop_run {inode : Block} {N : ℕ} :
    ∀ (k b1 w : ℕ) (buffer : List UInt8) (bat : Block) (disk : Gbd),
      w ≤ N → N - w ≤ 512 * k → (k ≠ 0 → 512 * (k - 1) < N - w) → N - w ≤ buffer.length →
      (∀ j, b1 ≤ j → j < b1 + k → inodeBlock inode j < disk.totalBlocks) →
      (∀ j, b1 ≤ j → j < b1 + k → ∀ j', b1 ≤ j' → j' < b1 + k →
        inodeBlock inode j = inodeBlock inode j' → j = j') →
      let g := goodBytes disk inode (512 * b1) (N - w)
      ∃ blocks', (writeLoop inode N k b1 w buffer bat).run gbdDevice disk =
          (if g = N - w then (N : ℤ) else VFS_ERROR, disk.withBlocks blocks') ∧
        Holds inode disk.blocks blocks' b1 k g buffer
  | 0, b1, w, buffer, bat, disk, hw, hle, _, _, _, _ => by
    refine ⟨disk.blocks, ?_, fun _ _ => rfl, fun j h1 h2 => by omega⟩
    rw [show w = N by omega, Nat.sub_self, goodBytes_zero]
    rfl
  | k + 1, b1, w, buffer, bat, disk, hw, hle, hk, hbuf, hlt, hinj => by
    have hk := hk (by omega)
    simp only [Nat.add_sub_cancel] at hk
    have hb1 : inodeBlock inode b1 < disk.totalBlocks := hlt b1 (Nat.le_refl _) (by omega)
    have hsplit : N - w = min 512 (N - w) + (N - w - 512) := by omega
    have hg := @goodBytes_step disk inode (512 * b1) (min 512 (N - w)) (N - w - 512) (by omega) (by omega)
    rw [← hsplit, show 512 * b1 / 512 = b1 by omega] at hg
    have hread := readVblock_lt hb1
    have hwrite := fun buf => @writeVblock_lt disk _ buf hb1
    rw [hg]
    cases he : disk.error (inodeBlock inode b1) with
    | true =>
      refine ⟨disk.blocks, ?_, Holds.nothing⟩
      simp only [he, if_true] at hread hwrite
      rw [if_pos rfl, if_neg (by omega), writeLoop]
      split
      · simp only
        split
        · rw [Prog.run, show gbdDevice.read disk (inodeBlock inode b1) = _ from hread]
          rfl
        · rw [Prog.run, show gbdDevice.write disk (inodeBlock inode b1) _ = _ from hwrite _]
          rfl
      · rw [Prog.run, show gbdDevice.write disk (inodeBlock inode b1) _ = _ from hwrite _]
        rfl
    | false =>
    simp only [he, Bool.false_eq_true, if_false] at hread hwrite ⊢
    have hrest := @goodBytes_le disk inode (512 * b1 + min 512 (N - w)) (N - w - 512)
    -- one write, then the loop on the remaining blocks
    have hput : ∀ (w' : ℕ) (buffer' : List UInt8) (bat' : Block) {next : Bool → Prog Block ℤ},
        next true = writeLoop inode N k (b1 + 1) w' buffer' bat' → w' ≤ N → N - w' ≤ 512 * k →
        (k ≠ 0 → 512 * (k - 1) < N - w') → N - w' ≤ buffer'.length → N - w' = N - w - 512 →
        (k ≠ 0 → buffer' = buffer.drop 512) →
        (∀ i < 512, bat'.byte i = if i < N - w then buffer.getD i 0
          else (disk.blocks (inodeBlock inode b1)).byte i) →
        ∃ blocks', (Prog.write (inodeBlock inode b1) bat' next).run gbdDevice disk =
              (if min 512 (N - w) + goodBytes disk inode (512 * b1 + min 512 (N - w)) (N - w - 512) = N - w
                then (N : ℤ) else VFS_ERROR, disk.withBlocks blocks') ∧
          Holds inode disk.blocks blocks' b1 (k + 1)
            (min 512 (N - w) + goodBytes disk inode (512 * b1 + min 512 (N - w)) (N - w - 512)) buffer := by
      intro w' buffer' bat' next hnext h1 h2 h3 h4 h5 h6 h7
      simp only [Prog.run, gbdDevice, hwrite, hnext]
      obtain ⟨blocks', hr, hh⟩ := writeLoop_run k (b1 + 1) w' buffer' bat'
        (disk.withBlocks (Function.update disk.blocks (inodeBlock inode b1) bat'))
        h1 h2 h3 h4 (fun j h8 h9 => hlt j (by omega) (by omega))
        (fun j h8 h9 j' h10 h11 => hinj j (by omega) (by omega) j' (by omega) (by omega))
      have hnext : goodBytes disk inode (512 * (b1 + 1)) (N - w') =
          goodBytes disk inode (512 * b1 + min 512 (N - w)) (N - w - 512) := by
        rw [h5]
        by_cases hlast : N - w - 512 = 0
        · rw [hlast, goodBytes_zero, goodBytes_zero]
        · rw [show 512 * (b1 + 1) = 512 * b1 + min 512 (N - w) by omega]
      rw [goodBytes_withBlocks, hnext] at hr hh
      generalize goodBytes disk inode (512 * b1 + min 512 (N - w)) (N - w - 512) = g at hr hh hrest ⊢
      refine ⟨blocks', hr.trans ?_, @Holds.cons inode disk.blocks blocks' b1 k _ buffer bat' hinj (fun i hi => ?_) ?_⟩
      · rw [if_congr (show g = N - w' ↔ min 512 (N - w) + g = N - w by omega) rfl rfl]
        rfl
      · rw [h7 i hi]
        exact if_congr (by omega) rfl rfl
      · rw [show min 512 (N - w) + g - 512 = g by omega]
        by_cases hk0 : k = 0
        · subst hk0
          exact ⟨hh.other, fun j h8 h9 => by omega⟩
        · rw [← h6 hk0]
          exact hh
    rw [writeLoop]
    split
    · rename_i hk0
      subst hk0
      have hlast : ∀ bt : Block, (N - w < 512 → bt = disk.blocks (inodeBlock inode b1)) →
          ∀ i < 512, (bt.store 0 (buffer.take ((N : ℤ) - w).toNat)).byte i =
            if i < N - w then buffer.getD i 0 else (disk.blocks (inodeBlock inode b1)).byte i := by
        intro bt hbt i hi
        rw [show ((N : ℤ) - w).toNat = N - w by omega, byte_store_take _ _ (by omega) hi]
        by_cases hlt' : i < N - w
        · rw [if_pos (by omega), if_pos hlt', Nat.sub_zero]
        · rw [if_neg (by omega), if_neg hlt', hbt (by omega)]
      simp only
      split
      · rename_i hpart
        rw [Prog.run, show gbdDevice.read disk (inodeBlock inode b1) = _ from hread]
        exact hput N buffer _ rfl (Nat.le_refl _) (by omega) (by omega) (by omega) (by omega) (by omega)
          (hlast _ fun _ => rfl)
      · rename_i hpart
        simp only [SFS_VBLOCK_SIZE] at hpart
        exact hput N buffer _ rfl (Nat.le_refl _) (by omega) (by omega) (by omega) (by omega) (by omega)
          (hlast _ fun h => by omega)
    · rename_i hk0
      have hfull : ∀ i < 512, (bat.store 0 (buffer.take SFS_VBLOCK_SIZE)).byte i =
          if i < N - w then buffer.getD i 0 else (disk.blocks (inodeBlock inode b1)).byte i := by
        intro i hi
        rw [byte_store_take _ _ (by simp only [SFS_VBLOCK_SIZE]; omega) hi,
          if_pos ⟨Nat.zero_le _, by simp only [SFS_VBLOCK_SIZE]; omega⟩, if_pos (by omega),
          Nat.sub_zero]
      rw [show (w : ℤ) + (SFS_VBLOCK_SIZE : ℕ) = ((w + 512 : ℕ) : ℤ) by simp [SFS_VBLOCK_SIZE]]
      exact hput (w + 512) (buffer.drop SFS_VBLOCK_SIZE) _ rfl (by omega) (by omega) (by omega)
        (by simp only [List.length_drop, SFS_VBLOCK_SIZE]; omega) (by omega) (fun _ => rfl) hfull

/-- The bytes `o … o + N - 1` of the file `f` become the first `N` of `buf`, block by block, and
nothing else changes. -/
structure Written (blocks blocks' : ℕ → Block) (f o N : ℕ) (buf : List UInt8) : Prop where
  other : ∀ b, (∀ j, o / 512 ≤ j → j ≤ (o + N - 1) / 512 → inodeBlock (blocks f) j ≠ b) →
    blocks' b = blocks b
  byte : ∀ j, o / 512 ≤ j → j ≤ (o + N - 1) / 512 → ∀ i < 512,
    (blocks' (inodeBlock (blocks f) j)).byte i =
      if o ≤ 512 * j + i ∧ 512 * j + i < o + N then buf.getD (512 * j + i - o) 0
      else (blocks (inodeBlock (blocks f) j)).byte i

/-- Every other byte stays. -/
theorem Written.outside {blocks blocks' : ℕ → Block} {f o N b i : ℕ} {buf : List UInt8}
    (h : Written blocks blocks' f o N buf) (hi : i < 512)
    (hout : ∀ k < N, ¬ (b = inodeBlock (blocks f) ((o + k) / 512) ∧ i = (o + k) % 512)) :
    (blocks' b).byte i = (blocks b).byte i := by
  -- a block that the write touches keeps its bytes outside the range
  by_cases hb : ∃ j, o / 512 ≤ j ∧ j ≤ (o + N - 1) / 512 ∧ inodeBlock (blocks f) j = b
  · obtain ⟨j, h1, h2, rfl⟩ := hb
    rw [h.byte j h1 h2 i hi, if_neg]
    rintro ⟨h3, h4⟩
    refine hout (512 * j + i - o) (by omega) ⟨?_, by omega⟩
    rw [show (o + (512 * j + i - o)) / 512 = j by omega]
  · rw [h.other b fun j h1 h2 he => hb ⟨j, h1, h2, he⟩]

section Written

variable {disk : Gbd} {f o N : ℕ} {blocks' : ℕ → Block} {buf : List UInt8}

theorem Written.inode (h : Written disk.blocks blocks' f o N buf) (hok : FileLayout disk f)
    (hN : N ≠ 0) (ho : o + N ≤ inodeFilesize (disk.blocks f)) : blocks' f = disk.blocks f :=
  h.other f fun j _ _ => hok.ne (by omega)

/-- The bytes of the file after the write. -/
theorem Written.fileByte (h : Written disk.blocks blocks' f o N buf) (hok : FileLayout disk f)
    (hN : N ≠ 0) (ho : o + N ≤ inodeFilesize (disk.blocks f)) {x : ℕ}
    (hx : x < inodeFilesize (disk.blocks f)) :
    fileByte blocks' f x =
      if o ≤ x ∧ x < o + N then buf.getD (x - o) 0 else Fs.fileByte disk.blocks f x := by
  unfold Fs.fileByte
  rw [h.inode hok hN ho]
  by_cases hj : o / 512 ≤ x / 512 ∧ x / 512 ≤ (o + N - 1) / 512
  · rw [h.byte _ hj.1 hj.2 _ (by omega), show 512 * (x / 512) + x % 512 = x by omega]
  · rw [if_neg (by omega), h.other]
    intro j h1 h2 he
    have := hok.inj (show 512 * (x / 512) < _ by omega) (show 512 * j < _ by omega) he.symm
    omega

/-- The contents of the file after the write. -/
theorem Written.fileBytes (h : Written disk.blocks blocks' f o N buf) (hok : FileLayout disk f)
    (hN : N ≠ 0) (ho : o + N ≤ inodeFilesize (disk.blocks f)) (hbuf : N ≤ buf.length) :
    fileBytes blocks' f = overwrite (Fs.fileBytes disk.blocks f) o (buf.take N) := by
  have hinode := h.inode hok hN ho
  have hlen : (buf.take N).length = N := by simp; omega
  apply List.ext_getElem?
  intro x
  rw [overwrite_getElem? (by rw [hlen, fileBytes_length]; exact ho), hlen, fileBytes_getElem?,
    fileBytes_getElem?, hinode]
  by_cases hx : x < inodeFilesize (disk.blocks f)
  · rw [if_pos hx, if_pos hx, h.fileByte hok hN ho hx]
    by_cases hin : o ≤ x ∧ x < o + N
    · rw [if_pos hin, if_pos hin, List.getElem?_take, if_pos (by omega),
        List.getD_eq_getElem _ _ (show x - o < buf.length by omega),
        List.getElem?_eq_getElem (show x - o < buf.length by omega)]
    · rw [if_neg hin, if_neg hin]
  · rw [if_neg hx, if_neg hx, if_neg (by omega)]

/-- `sfs_write` when the inode cannot be read. -/
theorem writeBody_failed (hlt : f < disk.totalBlocks) (he : disk.error f = true) (buf : List UInt8)
    (datasize offset : ℤ) : (writeBody f buf datasize offset).run gbdDevice disk = (VFS_ERROR, disk) := by
  unfold writeBody
  simp only [Prog.run, gbdDevice, readVblock_lt hlt, he, if_true]

/-- `sfs_write` at an offset outside the file. -/
theorem writeBody_outside (hok : FileLayout disk f) (buf : List UInt8) (datasize : ℤ) {offset : ℤ}
    (h : offset < 0 ∨ offset > inodeFilesize (disk.blocks f)) :
    (writeBody f buf datasize offset).run gbdDevice disk = (VFS_ERROR, disk) := by
  have hsint := hok.sint_size
  unfold writeBody
  simp only [Prog.run, gbdDevice, readVblock_lt hok.inode_lt]
  cases he : disk.error f with
  | true => rfl
  | false =>
    simp only [Bool.false_eq_true, if_false, hsint]
    rw [if_pos h]
    rfl

/-- **What `sfs_write` does to the disk** when its offset is inside the file: it writes the bytes before the
first block that fails. -/
theorem writeBody_run (hok : FileLayout disk f) (he : disk.error f = false) {n : ℕ} (hn : n ≤ buf.length)
    (ho : o ≤ inodeFilesize (disk.blocks f)) (hN : min n (inodeFilesize (disk.blocks f) - o) = N) :
    let g := goodBytes disk (disk.blocks f) o N
    ∃ blocks', (writeBody f buf n o).run gbdDevice disk =
        (if g = N then (N : ℤ) else VFS_ERROR, disk.withBlocks blocks') ∧
      (if g = 0 then blocks' = disk.blocks else Written disk.blocks blocks' f o g buf) := by
  have hNbuf : N ≤ buf.length := by omega
  have hNsize : o + N ≤ inodeFilesize (disk.blocks f) := by omega
  have hsint := hok.sint_size
  have hNc : min (n : ℤ) ((inodeFilesize (disk.blocks f) : ℤ) - o) = N := by omega
  unfold writeBody
  simp only [Prog.run, gbdDevice, readVblock_lt hok.inode_lt, he, Bool.false_eq_true, if_false, hsint]
  rw [if_neg (by omega)]
  simp only [hNc]
  by_cases h0 : N = 0
  · subst h0
    exact ⟨disk.blocks, rfl, rfl⟩
  rw [if_neg (by omega)]
  simp only [firstBlock_eq, firstOffset_eq, lastBlock_eq (Nat.pos_of_ne_zero h0), firstBytes_eq, rounds_eq,
    Int.toNat_natCast]
  obtain ⟨w, hw, hw1, hw2, hw3⟩ : ∃ w, min (512 - o % 512) N = w ∧ w ≤ 512 - o % 512 ∧ w ≤ N ∧
      (w < N → w = 512 - o % 512) := ⟨_, rfl, by omega, by omega, by omega⟩
  have hpos : 0 < w := by omega
  rw [hw]
  clear hw hN hNc hsint
  have hblk : inodeBlock (disk.blocks f) (o / 512) < disk.totalBlocks := hok.lt (by omega)
  have hinj : ∀ j, o / 512 ≤ j → j ≤ (o + N - 1) / 512 → ∀ j', o / 512 ≤ j' →
      j' ≤ (o + N - 1) / 512 → inodeBlock (disk.blocks f) j = inodeBlock (disk.blocks f) j' →
      j = j' := by
    intro j h1 h2 j' h3 h4 he
    exact hok.inj (by omega) (by omega) he
  have hg := @goodBytes_step disk (disk.blocks f) o w (N - w) hpos (by omega)
  rw [Nat.add_sub_cancel' hw2] at hg
  have hread := readVblock_lt hblk
  have hwrite := fun buf => @writeVblock_lt disk _ buf hblk
  rw [hg]
  cases hb : disk.error (inodeBlock (disk.blocks f) (o / 512)) with
  | true =>
    simp only [hb, if_true] at hread hwrite ⊢
    refine ⟨disk.blocks, ?_, rfl⟩
    rw [if_neg (show ¬ 0 = N by omega)]
    split
    · simp only [Prog.run, hread]
      rfl
    · simp only [Prog.run, hwrite]
      rfl
  | false =>
  simp only [hb, Bool.false_eq_true, if_false] at hread hwrite ⊢
  have hsome : ¬ w + goodBytes disk (disk.blocks f) (o + w) (N - w) = 0 := by omega
  simp only [hsome, if_false]
  have hrest := @goodBytes_le disk (disk.blocks f) (o + w) (N - w)
  -- the first block, then the loop
  have hfirst : ∀ (bat : Block) {next : Bool → Prog Block ℤ},
      next true = writeLoop (disk.blocks f) N ((o + N - 1) / 512 - o / 512) (o / 512 + 1) w
        (buf.drop w) (bat.store (o % 512) (buf.take w)) →
      (w < 512 → bat = disk.blocks (inodeBlock (disk.blocks f) (o / 512))) →
      ∃ blocks', (Prog.write (inodeBlock (disk.blocks f) (o / 512)) (bat.store (o % 512) (buf.take w))
          next).run gbdDevice disk =
            (if w + goodBytes disk (disk.blocks f) (o + w) (N - w) = N then (N : ℤ) else VFS_ERROR,
              disk.withBlocks blocks') ∧
        Written disk.blocks blocks' f o (w + goodBytes disk (disk.blocks f) (o + w) (N - w)) buf := by
    intro bat next hnext hbat
    simp only [Prog.run, gbdDevice, hwrite, hnext]
    obtain ⟨blocks', hrun, hh⟩ := @writeLoop_run (disk.blocks f) N
      ((o + N - 1) / 512 - o / 512) (o / 512 + 1) w (buf.drop w) (bat.store (o % 512) (buf.take w))
      (disk.withBlocks (Function.update disk.blocks (inodeBlock (disk.blocks f) (o / 512))
        (bat.store (o % 512) (buf.take w)))) (by omega) (by omega) (by omega)
      (by simp only [List.length_drop]; omega) (fun j h1 h2 => hok.lt (by omega))
      (fun j h1 h2 j' h3 h4 => hinj j (by omega) (by omega) j' (by omega) (by omega))
    have hloop : goodBytes disk (disk.blocks f) (512 * (o / 512 + 1)) (N - w) =
        goodBytes disk (disk.blocks f) (o + w) (N - w) := by
      by_cases hlast : N - w = 0
      · rw [hlast, goodBytes_zero, goodBytes_zero]
      · rw [show 512 * (o / 512 + 1) = o + w by omega]
    rw [goodBytes_withBlocks, hloop] at hrun hh
    generalize goodBytes disk (disk.blocks f) (o + w) (N - w) = g at hrun hh hrest ⊢
    refine ⟨blocks', hrun.trans ?_, ?_, ?_⟩
    · rw [if_congr (show g = N - w ↔ w + g = N by omega) rfl rfl]
      rfl
    · intro b hb
      by_cases hin : ∃ j, o / 512 + 1 ≤ j ∧ j ≤ (o + N - 1) / 512 ∧ inodeBlock (disk.blocks f) j = b
      · -- a block behind the one that fails
        obtain ⟨j, h1, h2, rfl⟩ := hin
        have hj : (o + (w + g) - 1) / 512 < j := by
          by_contra hc
          exact hb j (by omega) (by omega) rfl
        refine Buf.ext_byte fun i hi => ?_
        rw [hh.byte j h1 (by omega) i hi, if_neg (by omega), withBlocks_blocks,
          Function.update_of_ne fun he => absurd (hinj j (by omega) h2 _ (Nat.le_refl _) (by omega) he) (by omega)]
      · rw [hh.other b fun j h1 h2 he => hin ⟨j, h1, by omega, he⟩]
        exact Function.update_of_ne (Ne.symm (hb _ (Nat.le_refl _) (by omega))) ..
    · intro j h1 h2 i hi
      by_cases hj : j = o / 512
      · subst hj
        rw [hh.other _ fun j' h3 h4 he => by
          have := hinj j' (by omega) (by omega) (o / 512) h1 (by omega) he
          omega]
        simp only [withBlocks_blocks, Function.update_self]
        rw [byte_store_take _ _ (by omega) hi]
        by_cases hin : o % 512 ≤ i ∧ i < o % 512 + w
        · rw [if_pos hin, if_pos (by omega)]
          congr 1
          omega
        · rw [if_neg hin, if_neg (by omega), hbat (by omega)]
      · rw [hh.byte j (by omega) (by omega) i hi, withBlocks_blocks,
          Function.update_of_ne fun he => hj (hinj j h1 (by omega) _ (Nat.le_refl _) (by omega) he)]
        by_cases hx : 512 * (j - (o / 512 + 1)) + i < g
        · rw [if_pos hx, if_pos (by omega), List.getD_eq_getElem?_getD, List.getD_eq_getElem?_getD,
            List.getElem?_drop]
          congr 2
          omega
        · rw [if_neg hx, if_neg (by omega)]
  split
  · rename_i hpart
    rw [Prog.run]
    simp only [hread]
    exact hfirst _ rfl fun _ => rfl
  · rename_i hpart
    exact hfirst _ rfl fun h => absurd (by simp only [SFS_VBLOCK_SIZE]; omega) hpart

/-- **What `sfs_write` does to a disk without errors.** -/
theorem writeBody_written (hok : FileShape disk f) {n : ℕ} (hn : n ≤ buf.length)
    (ho : o ≤ inodeFilesize (disk.blocks f)) (hN : min n (inodeFilesize (disk.blocks f) - o) = N) :
    ∃ blocks', (writeBody f buf n o).run gbdDevice disk = ((N : ℤ), disk.withBlocks blocks') ∧
      (if N = 0 then blocks' = disk.blocks else Written disk.blocks blocks' f o N buf) := by
  obtain ⟨blocks', hrun, hw⟩ := writeBody_run hok.toFileLayout (hok.works f hok.inode_lt) hn ho hN
  rw [hok.goodBytes (by omega)] at hrun hw
  rw [if_pos rfl] at hrun
  exact ⟨blocks', hrun, hw⟩

end Written

/-- **`sfs_write` of a file** changes its contents as `writeAt` does, and nothing else. -/
theorem writeBody_spec {disk : Gbd} {f : ℕ} (hok : FileShape disk f) (buf : List UInt8)
    (offset : ℤ) :
    ∃ blocks', (writeBody f buf buf.length offset).run gbdDevice disk =
        ((writeAt (fileBytes disk.blocks f) buf offset).1, disk.withBlocks blocks') ∧
      fileBytes blocks' f = (writeAt (fileBytes disk.blocks f) buf offset).2 := by
  unfold writeAt
  rw [fileBytes_length]
  by_cases hbad : offset < 0 ∨ offset > inodeFilesize (disk.blocks f)
  · rw [if_pos hbad]
    exact ⟨disk.blocks, writeBody_outside hok.toFileLayout buf buf.length hbad, rfl⟩
  rw [if_neg hbad]
  obtain ⟨o, rfl⟩ := Int.eq_ofNat_of_zero_le (show 0 ≤ offset by omega)
  obtain ⟨blocks', hrun, hw⟩ := writeBody_written hok (Nat.le_refl buf.length)
    (show o ≤ inodeFilesize (disk.blocks f) by omega) rfl
  have htake : buf.take (inodeFilesize (disk.blocks f) - o) =
      buf.take (min buf.length (inodeFilesize (disk.blocks f) - o)) := by
    rw [List.take_eq_take_iff]
    omega
  rw [Int.toNat_natCast, htake, List.length_take, Nat.min_assoc]
  refine ⟨blocks', by rw [hrun]; congr 2; omega, ?_⟩
  by_cases h0 : min buf.length (inodeFilesize (disk.blocks f) - o) = 0
  · rw [if_pos h0] at hw
    rw [hw, h0]
    simp [overwrite]
  · rw [if_neg h0] at hw
    exact hw.fileBytes hok.toFileLayout h0 (by omega) (by omega)

end Buenos.Fs
