import Buenos.Fs.Sfs.Sequential
import Buenos.Lib.Libc

/-!
# Files are byte arrays of fixed size

`sfs_read` and `sfs_write` on one open regular file, for every offset and every count.  Where the code
calls `memcopy` on a block buffer the model stores a list of bytes, which is the same (`memcopy_store`).

* `OpenRegular` — the entry of an open regular file that nobody else is reading or writing.
* `OpenRegular.read`, `OpenRegular.write` — the calls run their block programs and leave the table.

Principal result: `sfs_file_array`.
-/

namespace Buenos.Fs

open Bytes BlockProgram

/-- `e` is the entry of the open regular file `f`; no other call is reading or writing the file. -/
structure OpenRegular (s : Sfs) (e : Slot) (f : ℕ) : Prop where
  fileid : (s.openFiles e).fileid = f
  only : ∀ e', (s.openFiles e').fileid = f → e' = e
  regular : (s.openFiles e).isFolder = false
  opened : (s.openFiles e).timesOpened ≠ 0
  readernum : (s.openFiles e).readernum = 0
  writerTid : (s.openFiles e).writerTid = -1
  inode : badFileid s f = false

section Calls

variable {s : Sfs} {e : Slot} {f : ℕ}

theorem OpenRegular.enter (h : OpenRegular s e f) : sfsEnter s f = (some e, s) := by
  rcases sfsEnter_spec s (Int.natCast_nonneg f) with ⟨-, hno⟩ | ⟨e', he, hid⟩
  · exact absurd h.fileid (hno e)
  · rw [he, h.only e' hid]

/-- The entry with what is known of it. -/
theorem OpenRegular.entry_eq (h : OpenRegular s e f) :
    (⟨(s.openFiles e).timesOpened, 0, -1, (s.openFiles e).fileid, (s.openFiles e).parentid, false,
      (s.openFiles e).isDeleted⟩ : OpenFile) = s.openFiles e := by
  rw [← h.readernum, ← h.writerTid, ← h.regular]

/-- Leaving an entry that stays open changes nothing. -/
theorem sfsExit_open {e : Slot} (h : (s.openFiles e).timesOpened ≠ 0) : sfsExit s e false = s := by
  have hsame : s.setEntry e (s.openFiles e) = s := by
    rw [Sfs.setEntry, Function.update_eq_self]
  simp only [sfsExit, Bool.false_eq_true, if_false, hsame, h]

/-- **`sfs_read` through an entry that nobody is using** runs its block program. -/
theorem sfsRead_entered {bufsize offset : ℤ} (henter : sfsEnter s f = (some e, s))
    (hopened : (s.openFiles e).timesOpened ≠ 0) (hreader : (s.openFiles e).readernum = 0)
    (hwriter : (s.openFiles e).writerTid = -1) (hinode : badFileid s f = false) :
    sfsRead s f bufsize offset =
      some (((readBody f (s.openFiles e).isFolder bufsize offset).run gbdDevice s.disk).1, s) := by
  have hentry : (⟨(s.openFiles e).timesOpened, 0, -1, (s.openFiles e).fileid, (s.openFiles e).parentid,
      (s.openFiles e).isFolder, (s.openFiles e).isDeleted⟩ : OpenFile) = s.openFiles e := by
    rw [← hreader, ← hwriter]
  unfold sfsRead
  rw [if_neg (by rw [hinode]; simp), henter]
  simp only [readEntry, hwriter, ne_eq, not_true_eq_false, if_false, Int.toNat_natCast,
    (readBody_readOnly _ _ _ _).run, Sfs.setEntry, Function.update_self, Function.update_idem, readExit,
    hreader, Int.add_sub_cancel, hentry, Function.update_eq_self]
  rw [sfsExit_open hopened]

/-- **`sfs_read` of an open regular file** runs its block program. -/
theorem OpenRegular.read (h : OpenRegular s e f) (bufsize offset : ℤ) :
    sfsRead s f bufsize offset =
      some (((readBody f false bufsize offset).run gbdDevice s.disk).1, s) := by
  rw [sfsRead_entered h.enter h.opened h.readernum h.writerTid h.inode, h.regular]

/-- **`sfs_write` of an open regular file** runs its block program. -/
theorem OpenRegular.write (h : OpenRegular s e f) (tid : ℤ) (buffer : List UInt8)
    (datasize offset : ℤ) :
    sfsWrite s tid f buffer datasize offset =
      some (((writeBody f buffer datasize offset).run gbdDevice s.disk).1,
        { s with disk := ((writeBody f buffer datasize offset).run gbdDevice s.disk).2 }) := by
  unfold sfsWrite
  rw [if_neg (by rw [h.inode]; simp), h.enter]
  simp only [h.regular, Bool.false_eq_true, if_false, writeReserve, h.writerTid, ne_eq,
    not_true_eq_false, h.readernum, gt_iff_lt, Int.lt_irrefl, Int.toNat_natCast, Sfs.setEntry,
    Function.update_self, Function.update_idem, writeExit, h.entry_eq, Function.update_eq_self]
  exact congrArg some (Prod.ext rfl (sfsExit_open h.opened))

end Calls

/-- **Files behave as byte arrays of fixed size.**  Inside the file both calls transfer as many bytes
as there are up to its end, and a write changes exactly these bytes of the disk; outside both fail and
change nothing. -/
theorem sfs_file_array {s : Sfs} {e : Slot} {f : ℕ} (h : OpenRegular s e f)
    (hf : FileShape s.disk f) (count : ℕ) (offset : ℤ) :
    (∀ o : ℕ, offset = o → o ≤ inodeFilesize (s.disk.blocks f) →
      let n := min count (inodeFilesize (s.disk.blocks f) - o)
      sfsRead s f count offset =
        some (((n : ℤ), (List.range n).map fun k => fileByte s.disk.blocks f (o + k)), s) ∧
      ∀ tid buffer, count ≤ buffer.length → ∃ blocks',
        sfsWrite s tid f buffer count offset =
          some ((n : ℤ), { s with disk := s.disk.withBlocks blocks' }) ∧
        (∀ k < n, fileByte blocks' f (o + k) = buffer.getD k 0) ∧
        ∀ b i, i < 512 → (∀ k < n, ¬ (b = inodeBlock (s.disk.blocks f) ((o + k) / 512) ∧
          i = (o + k) % 512)) → (blocks' b).byte i = (s.disk.blocks b).byte i) ∧
    (offset < 0 ∨ offset > inodeFilesize (s.disk.blocks f) →
      sfsRead s f count offset = some ((VFS_ERROR, []), s) ∧
      ∀ tid buffer, sfsWrite s tid f buffer count offset = some (VFS_ERROR, s)) := by
  constructor
  · rintro o rfl ho
    intro n
    refine ⟨?_, fun tid buffer hb => ?_⟩
    · rw [h.read, readBody_run hf.toFileLayout (hf.works f hf.inode_lt) ho rfl, hf.goodBytes (by omega), if_pos rfl]
      rfl
    · obtain ⟨blocks', hrun, hw⟩ := writeBody_written hf hb ho rfl
      refine ⟨blocks', by rw [h.write, hrun], ?_⟩
      by_cases h0 : n = 0
      · rw [if_pos h0] at hw
        exact ⟨fun k hk => by omega, fun b i _ _ => by rw [hw]⟩
      rw [if_neg h0] at hw
      have hsize : o + n ≤ inodeFilesize (s.disk.blocks f) := by omega
      refine ⟨fun k hk => ?_, fun b i hi hout => ?_⟩
      · rw [hw.fileByte hf.toFileLayout h0 hsize (by omega), if_pos (by omega), Nat.add_sub_cancel_left]
      · exact hw.outside hi hout
  · intro hout
    refine ⟨?_, fun tid buffer => ?_⟩
    · rw [h.read, readBody_outside hf.toFileLayout count hout]
    · rw [h.write, writeBody_outside hf.toFileLayout buffer count hout]

/-- A file of 600 bytes in the blocks 5 and 4, opened once. -/
def twoBlockFile : Sfs :=
  let inode := (((Buf.const 512 0).setWord 0 600).setWord 4 5).setWord 8 4
  let disk : Gbd := ⟨8, fun b => if b = 3 then inode else Buf.const 512 (UInt8.ofNat b), fun _ => false⟩
  (sfsInit disk).setEntry 0 ⟨1, 0, -1, 3, 2, false, false⟩

theorem twoBlockFile_shape : OpenRegular twoBlockFile 0 3 ∧ FileShape twoBlockFile.disk 3 ∧
    inodeFilesize (twoBlockFile.disk.blocks 3) = 600 := by
  have hopen : OpenRegular twoBlockFile 0 3 :=
    ⟨by decide, by decide, by decide, by decide, by decide, by decide, by decide +kernel⟩
  have hsize : inodeFilesize (twoBlockFile.disk.blocks 3) = 600 := by decide +kernel
  have hblock : ∀ j < 2, inodeBlock (twoBlockFile.disk.blocks 3) j = 5 - j := by decide +kernel
  refine ⟨hopen, ⟨⟨by decide, by rw [hsize]; decide, ?_, ?_, ?_⟩, fun b _ => rfl⟩, hsize⟩
  · intro j hj
    rw [hblock j (by omega)]
    show _ < 8
    omega
  · intro j hj
    rw [hblock j (by omega)]
    omega
  · intro j j' hj hj' he
    rw [hblock j (by omega), hblock j' (by omega)] at he
    omega

/-- 200 bytes at offset 500 of it: the first 100 fit, across the boundary of the blocks. -/
theorem sfs_file_array_twoBlocks : ∃ blocks',
    sfsWrite twoBlockFile 7 3 (List.replicate 200 9) 200 500 =
      some (100, { twoBlockFile with disk := twoBlockFile.disk.withBlocks blocks' }) ∧
    ∀ k < 100, fileByte blocks' 3 (500 + k) = 9 := by
  obtain ⟨hopen, hshape, hsize⟩ := twoBlockFile_shape
  obtain ⟨-, hwrite⟩ := (sfs_file_array hopen hshape 200 500).1 500 rfl (by rw [hsize]; decide)
  obtain ⟨blocks', hrun, hbytes, -⟩ := hwrite 7 (List.replicate 200 9)
    (by rw [List.length_replicate])
  rw [hsize] at hrun hbytes
  refine ⟨blocks', hrun, fun k hk => ?_⟩
  rw [hbytes k hk]
  exact List.getD_replicate _ (by omega)

end Buenos.Fs
