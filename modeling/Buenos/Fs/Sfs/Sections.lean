import Buenos.Fs.Sfs.Create

/-!
# The sections under `openfile_lock`

What `sfs_enter_ext` and `sfs_exit`, with the nested `_delete_from_dirtree` and `_delete`, do to the
table of open files and to a working device.

* `findEntry_spec` — the search finds the entry of the file, else a free one.
* `sfsEnterExt_open` — entering for `sfs_open` or `sfs_remove`.
* `sfsEnter_spec` — entering for `sfs_close`, `sfs_read` and `sfs_write`.
* `deleteFromDirtree_works`, `deleteBlocks_works` — the two phases of a deletion.
* `sfsExit_cases` — leaving: the entry stays, is released, or is released with its blocks.
-/

namespace Buenos.Fs

open Bytes

/-! ## Searching the table -/

theorem findEntry_some {files : Slot → OpenFile} {fileid : ℤ} (hf : fileid ≠ -1) :
    ∀ {l : List Slot} {f : Option Slot} {i : Slot}, findEntry files fileid l f = some i →
      (files i).fileid = fileid ∨
        ((f = some i ∨ (files i).fileid = -1) ∧ ∀ j ∈ l, (files j).fileid ≠ fileid)
  | [], f, i, h => Or.inr ⟨Or.inl h, by simp⟩
  | j :: l, f, i, h => by
    rw [findEntry] at h
    split at h
    · cases h
      exact Or.inl ‹_›
    · rename_i hj
      split at h
      · rename_i hc
        rcases findEntry_some hf h with h1 | ⟨h1, h2⟩
        · exact Or.inl h1
        · refine Or.inr ⟨Or.inr ?_, by simpa using ⟨hj, h2⟩⟩
          rcases h1 with h1 | h1
          · cases h1; exact hc.1
          · exact h1
      · rcases findEntry_some hf h with h1 | ⟨h1, h2⟩
        · exact Or.inl h1
        · exact Or.inr ⟨h1, by simpa using ⟨hj, h2⟩⟩

theorem findEntry_none {files : Slot → OpenFile} {fileid : ℤ} :
    ∀ {l : List Slot} {f : Option Slot}, findEntry files fileid l f = none →
      ∀ j ∈ l, (files j).fileid ≠ fileid
  | [], _, _, j, hj => by cases hj
  | i :: l, f, h, j, hj => by
    rw [findEntry] at h
    split at h
    · cases h
    · rename_i hi
      have ih : ∀ j ∈ l, (files j).fileid ≠ fileid := by
        split at h
        · exact findEntry_none h
        · exact findEntry_none h
      rcases List.mem_cons.1 hj with rfl | hj
      · exact hi
      · exact ih j hj

/-- **The search of `sfs_enter_ext`** finds the entry of the file, else a free entry. -/
theorem findEntry_spec {files : Slot → OpenFile} {fileid : ℤ} {i : Slot} (hf : fileid ≠ -1)
    (h : findEntry files fileid (List.finRange 32) none = some i) :
    (files i).fileid = fileid ∨ ((files i).fileid = -1 ∧ ∀ j, (files j).fileid ≠ fileid) := by
  rcases findEntry_some hf h with h1 | ⟨h1, h2⟩
  · exact Or.inl h1
  · refine Or.inr ⟨?_, fun j => h2 j (List.mem_finRange j)⟩
    rcases h1 with h1 | h1
    · cases h1
    · exact h1

/-- With the entry of the file in the table, the search returns it. -/
theorem findEntry_of_mem {files : Slot → OpenFile} {fileid : ℤ} {e : Slot} (hf : fileid ≠ -1)
    (he : (files e).fileid = fileid) :
    ∃ i, findEntry files fileid (List.finRange 32) none = some i ∧ (files i).fileid = fileid := by
  cases h : findEntry files fileid (List.finRange 32) none with
  | none => exact absurd he (findEntry_none h e (List.mem_finRange e))
  | some i =>
    rcases findEntry_spec hf h with h1 | ⟨-, h2⟩
    · exact ⟨i, rfl, h1⟩
    · exact absurd he (h2 e)

/-- Once a free entry is seen, the search succeeds. -/
theorem findEntry_keeps {files : Slot → OpenFile} {fileid : ℤ} :
    ∀ (l : List Slot) (i : Slot), findEntry files fileid l (some i) ≠ none
  | [], i => by simp [findEntry]
  | j :: l, i => by
    have hno : ¬ ((files j).fileid = -1 ∧ some i = none) := fun hc => by cases hc.2
    rw [findEntry, if_neg hno]
    split
    · simp
    · exact findEntry_keeps l i

/-- A full table holds 32 files, none of which is the one looked for. -/
theorem findEntry_full {files : Slot → OpenFile} {fileid : ℤ} :
    ∀ {l : List Slot} {f : Option Slot}, findEntry files fileid l f = none →
      ∀ j ∈ l, (files j).fileid ≠ -1
  | [], _, _, j, hj => by cases hj
  | i :: l, f, h, j, hj => by
    rw [findEntry] at h
    by_cases hi : (files i).fileid = fileid
    · rw [if_pos hi] at h
      cases h
    rw [if_neg hi] at h
    by_cases hc : (files i).fileid = -1 ∧ f = none
    · rw [if_pos hc] at h
      exact absurd h (findEntry_keeps l i)
    rw [if_neg hc] at h
    rcases List.mem_cons.1 hj with rfl | hj
    · intro h1
      cases f with
      | none => exact hc ⟨h1, rfl⟩
      | some k => exact findEntry_keeps l k h
    · exact findEntry_full h j hj

/-! ## Entering -/

/-- The entry after `sfs_enter_ext` for an opening operation. -/
def openedEntry (f : OpenFile) (fileid parentid : ℤ) (isFolder : Bool) : OpenFile :=
  if f.fileid = -1 then
    { f with fileid := fileid, parentid := parentid, isFolder := isFolder
             timesOpened := f.timesOpened + 1 }
  else { f with timesOpened := f.timesOpened + 1 }

section Opened

variable {f : OpenFile} {fileid parentid : ℤ} {isFolder : Bool}

theorem openedEntry_eq : openedEntry f fileid parentid isFolder =
    { f with fileid := if f.fileid = -1 then fileid else f.fileid
             parentid := if f.fileid = -1 then parentid else f.parentid
             isFolder := if f.fileid = -1 then isFolder else f.isFolder
             timesOpened := f.timesOpened + 1 } := by
  unfold openedEntry
  split
  · rfl
  · rfl

@[simp] theorem openedEntry_timesOpened :
    (openedEntry f fileid parentid isFolder).timesOpened = f.timesOpened + 1 := by rw [openedEntry_eq]

@[simp] theorem openedEntry_isDeleted :
    (openedEntry f fileid parentid isFolder).isDeleted = f.isDeleted := by rw [openedEntry_eq]

@[simp] theorem openedEntry_readernum :
    (openedEntry f fileid parentid isFolder).readernum = f.readernum := by rw [openedEntry_eq]

@[simp] theorem openedEntry_writerTid :
    (openedEntry f fileid parentid isFolder).writerTid = f.writerTid := by rw [openedEntry_eq]

end Opened

section Enter

variable {s : Sfs} {fileid parentid : ℤ} {isFolder : Bool}

@[simp] theorem setEntry_openFiles (e : Slot) (f : OpenFile) :
    (s.setEntry e f).openFiles = Function.update s.openFiles e f := rfl

@[simp] theorem setEntry_disk (e : Slot) (f : OpenFile) : (s.setEntry e f).disk = s.disk := rfl

@[simp] theorem setEntry_totalvblocks (e : Slot) (f : OpenFile) :
    (s.setEntry e f).totalvblocks = s.totalvblocks := rfl

/-- **Entering to open**: the table is full, or the entry of the file (or a free one) is opened. -/
theorem sfsEnterExt_open (s : Sfs) {fileid : ℤ} (parentid : ℤ) (isFolder : Bool) (h0 : 0 ≤ fileid) :
    sfsEnterExt s fileid parentid true isFolder false = (none, s) ∨
    ∃ e, sfsEnterExt s fileid parentid true isFolder false =
        (some e, s.setEntry e (openedEntry (s.openFiles e) fileid parentid isFolder)) ∧
      ((s.openFiles e).fileid = fileid ∨
        ((s.openFiles e).fileid = -1 ∧ ∀ j, (s.openFiles j).fileid ≠ fileid)) := by
  unfold sfsEnterExt
  rw [if_neg (by omega)]
  cases hf : findEntry s.openFiles fileid (List.finRange 32) none with
  | none => exact Or.inl rfl
  | some e =>
    refine Or.inr ⟨e, ?_, findEntry_spec (by omega) hf⟩
    simp only [Bool.true_eq_false, and_false, if_false, if_true, Bool.false_eq_true, openedEntry]
    split <;> rfl

/-- The device after marking the entry `f` as deleted. -/
def unlinkFirst (disk : Gbd) (f : OpenFile) : Gbd :=
  if f.isDeleted then disk else deleteFromDirtree disk f.fileid f.parentid

/-- **Entering to delete**: as for opening, and the file is unlinked unless it was before. -/
theorem sfsEnterExt_delete (s : Sfs) {fileid : ℤ} (parentid : ℤ) (isFolder : Bool) (h0 : 0 ≤ fileid) :
    sfsEnterExt s fileid parentid true isFolder true = (none, s) ∨
    ∃ e, sfsEnterExt s fileid parentid true isFolder true =
        (some e, Sfs.setEntry
          { s with disk := unlinkFirst s.disk (openedEntry (s.openFiles e) fileid parentid isFolder) } e
          { openedEntry (s.openFiles e) fileid parentid isFolder with isDeleted := true }) ∧
      ((s.openFiles e).fileid = fileid ∨
        ((s.openFiles e).fileid = -1 ∧ ∀ j, (s.openFiles j).fileid ≠ fileid)) := by
  unfold sfsEnterExt
  rw [if_neg (by omega)]
  cases hf : findEntry s.openFiles fileid (List.finRange 32) none with
  | none => exact Or.inl rfl
  | some e =>
    refine Or.inr ⟨e, ?_, findEntry_spec (by omega) hf⟩
    simp only [Bool.true_eq_false, and_false, if_false, if_true, openedEntry, unlinkFirst]
    by_cases h1 : (s.openFiles e).fileid = -1
    · simp only [h1, if_true]
    · simp only [h1, if_false]

/-- **Entering an open file**: nothing changes; the entry of the file is returned if there is
one. -/
theorem sfsEnter_spec (s : Sfs) {fileid : ℤ} (h0 : 0 ≤ fileid) :
    (sfsEnter s fileid = (none, s) ∧ ∀ j, (s.openFiles j).fileid ≠ fileid) ∨
    ∃ e, sfsEnter s fileid = (some e, s) ∧ (s.openFiles e).fileid = fileid := by
  unfold sfsEnter sfsEnterExt
  rw [if_neg (by omega)]
  cases hf : findEntry s.openFiles fileid (List.finRange 32) none with
  | none => exact Or.inl ⟨rfl, fun j => findEntry_none hf j (List.mem_finRange j)⟩
  | some e =>
    rcases findEntry_spec (by omega) hf with h1 | ⟨h1, h2⟩
    · right
      refine ⟨e, ?_, h1⟩
      have hne : (s.openFiles e).fileid ≠ -1 := by omega
      simp only [hne, false_and, if_false, Bool.false_eq_true]
      simp [Sfs.setEntry]
    · left
      refine ⟨?_, h2⟩
      simp only [h1, true_and, if_true]

theorem sfsEnter_neg (h0 : fileid < 0) : sfsEnter s fileid = (none, s) := by
  unfold sfsEnter sfsEnterExt
  rw [if_pos h0]

end Enter

/-! ## The two phases of a deletion -/

/-- **`_delete_from_dirtree`** on a working device rewrites the parent block. -/
theorem deleteFromDirtree_works {disk : Gbd} {fileid : ℤ} {p : ℕ} (hw : disk.Works)
    (hp : p < disk.totalBlocks) (h0 : 0 < p) :
    deleteFromDirtree disk fileid p = disk.withBlocks
      (Function.update disk.blocks p (clearDirents fileid SFS_MAX_FILES 0 (disk.blocks p))) := by
  unfold deleteFromDirtree
  rw [if_pos (by omega), Int.toNat_natCast, readVblock_works hw hp]
  simp only
  rw [writeVblock_works hw hp]

/-- The blocks that `_delete` gives back. -/
def DeletedBlock (blocks : ℕ → Block) (f : ℕ) (isFolder : Bool) (b : ℕ) : Prop :=
  b = f ∨ (isFolder = false ∧ Freed (blocks f) 0 127 b)

/-- The table after `_delete` of a folder. -/
def orphanEntries (files : Slot → OpenFile) (f : ℕ) (isFolder : Bool) : Slot → OpenFile :=
  if isFolder then fun i =>
    if (files i).parentid = f then { files i with parentid := -1 } else files i
  else files

/-- **`_delete`** on a working device clears exactly the bits of the file. -/
theorem deleteBlocks_works {s : Sfs} {f : ℕ} (isFolder : Bool) (hw : s.disk.Works)
    (h1 : 1 < s.disk.totalBlocks) (hf : f < s.disk.totalBlocks) (hlt : f < 4096)
    (hdata : isFolder = false → ∀ j < 127, inodeBlock (s.disk.blocks f) j < 4096) :
    ∃ bat, deleteBlocks s f isFolder =
        { s with disk := s.disk.withBlocks (Function.update s.disk.blocks SFS_ALLOCATION_BLOCK bat)
                 openFiles := orphanEntries s.openFiles f isFolder } ∧
      ∀ b, (DeletedBlock s.disk.blocks f isFolder b → bitmapGet bat b = 0) ∧
        (¬ DeletedBlock s.disk.blocks f isFolder b →
          bitmapGet bat b = bitmapGet (s.disk.blocks SFS_ALLOCATION_BLOCK) b) := by
  have h1' : SFS_ALLOCATION_BLOCK < s.disk.totalBlocks := h1
  have hset : ∀ b, bitmapGet (bitmapSet (s.disk.blocks SFS_ALLOCATION_BLOCK) f false) b =
      if b = f then 0 else bitmapGet (s.disk.blocks SFS_ALLOCATION_BLOCK) b := by
    intro b
    rw [bitmapGet_bitmapSet _ _ _ (by omega)]
    rfl
  unfold deleteBlocks
  rw [readVblock_works hw h1', Int.toNat_natCast, readVblock_works hw hf]
  cases isFolder with
  | true =>
    refine ⟨bitmapSet (s.disk.blocks SFS_ALLOCATION_BLOCK) f false, ?_, fun b => ⟨?_, ?_⟩⟩
    · simp only [if_true]
      rw [writeVblock_works hw h1']
      rfl
    · rintro (hb | ⟨hb, -⟩)
      · rw [hset, if_pos hb]
      · cases hb
    · intro hb
      rw [hset, if_neg fun h => hb (Or.inl h)]
  | false =>
    refine ⟨freeBlocks (s.disk.blocks f) SFS_BLOCKS_MAX 0
      (bitmapSet (s.disk.blocks SFS_ALLOCATION_BLOCK) f false), ?_, fun b => ?_⟩
    · simp only [Bool.false_eq_true, if_false]
      rw [writeVblock_works hw h1']
      rfl
    · obtain ⟨ih1, ih2⟩ := @bitmapGet_freeBlocks (s.disk.blocks f) SFS_BLOCKS_MAX
        0 (bitmapSet (s.disk.blocks SFS_ALLOCATION_BLOCK) f false) b
        (fun j _ hj => hdata rfl j (by simpa [SFS_BLOCKS_MAX] using hj))
      by_cases hfr : Freed (s.disk.blocks f) 0 SFS_BLOCKS_MAX b
      · exact ⟨fun _ => ih1 hfr, fun hn => absurd (Or.inr ⟨rfl, hfr⟩) hn⟩
      · rw [ih2 hfr, hset]
        constructor
        · rintro (hb | ⟨-, hb⟩)
          · rw [if_pos hb]
          · exact absurd hb hfr
        · intro hb
          rw [if_neg fun h => hb (Or.inl h)]

/-! ## Leaving -/

/-- The opening count after `sfs_exit`. -/
def exitCount (f : OpenFile) (isCloseOp : Bool) : ℤ :=
  if isCloseOp then f.timesOpened - 1 else f.timesOpened

/-- **`sfs_exit`**: the entry stays open, or is released, or is released with its blocks. -/
theorem sfsExit_cases (s : Sfs) (e : Slot) (isCloseOp : Bool) :
    (exitCount (s.openFiles e) isCloseOp ≠ 0 ∧ sfsExit s e isCloseOp =
      s.setEntry e { s.openFiles e with timesOpened := exitCount (s.openFiles e) isCloseOp }) ∨
    (exitCount (s.openFiles e) isCloseOp = 0 ∧ (s.openFiles e).isDeleted = false ∧
      sfsExit s e isCloseOp = s.setEntry e sfsResetEntry) ∨
    (exitCount (s.openFiles e) isCloseOp = 0 ∧ (s.openFiles e).isDeleted = true ∧
      sfsExit s e isCloseOp = (deleteBlocks (s.setEntry e { s.openFiles e with timesOpened := 0 })
        (s.openFiles e).fileid (s.openFiles e).isFolder).setEntry e sfsResetEntry) := by
  have hf : (if isCloseOp = true then { s.openFiles e with timesOpened := (s.openFiles e).timesOpened - 1 }
      else s.openFiles e) =
      { s.openFiles e with timesOpened := exitCount (s.openFiles e) isCloseOp } := by
    unfold exitCount
    cases isCloseOp <;> rfl
  unfold sfsExit
  simp only [hf]
  by_cases h0 : exitCount (s.openFiles e) isCloseOp = 0
  · right
    rw [if_pos h0]
    cases hd : (s.openFiles e).isDeleted with
    | true => exact Or.inr ⟨h0, rfl, by rw [if_pos rfl, h0]⟩
    | false =>
      refine Or.inl ⟨h0, rfl, ?_⟩
      simp [Sfs.setEntry]
  · exact Or.inl ⟨h0, by rw [if_neg h0]⟩

end Buenos.Fs
