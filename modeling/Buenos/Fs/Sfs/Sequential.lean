import Buenos.Fs.Sfs.ReadWrite

/-!
# Calls run one at a time

* `Call`, `Call.exec`, `run` — sequences of SFS calls on a mounted volume.  `exec` is partial only
  because a read or write could wait for ever; `exec_total` shows that it does not.
* `WellFormed` — well-formed volumes: every block is referenced once, marked and on the volume.
* `Consistent` — what must hold after every call, for the directory tree and for the open files.

Principal results: `Call.exec_inv` (one call keeps the invariant), `run_inv` (so does a run),
`sfs_blocks_consistent` (the volume is consistent after every sequence of calls).
-/

namespace Buenos.Fs

open Bytes BlockProgram Ownership

/-- A call of one of the file operations.  `datasize` of a write is the length of its buffer; the
buffer sizes are not negative (`vfs_read` and `vfs_write` assert it). -/
inductive Call where
  | openFile (filename : List UInt8)
  | closeFile (fileid : ℤ)
  | create (filename : List UInt8) (size : Int32)
  | remove (filename : List UInt8)
  | read (fileid : ℤ) (bufsize : ℕ) (offset : ℤ)
  | write (tid fileid : ℤ) (buffer : List UInt8) (offset : ℤ)

/-- Return value of a call, and the bytes a read has copied. -/
structure Reply where
  value : ℤ
  bytes : List UInt8
  deriving DecidableEq

/-- Run one call; `none` when it would wait for ever. -/
def Call.exec (s : Sfs) : Call → Option (Reply × Sfs)
  | .openFile filename => some (⟨(sfsOpen s filename).1, []⟩, (sfsOpen s filename).2)
  | .closeFile fileid => some (⟨(sfsClose s fileid).1, []⟩, (sfsClose s fileid).2)
  | .create filename size => some (⟨(sfsCreate s filename size).1, []⟩, (sfsCreate s filename size).2)
  | .remove filename => some (⟨(sfsRemove s filename).1, []⟩, (sfsRemove s filename).2)
  | .read fileid bufsize offset =>
    (sfsRead s fileid bufsize offset).map fun r => (⟨r.1.1, r.1.2⟩, r.2)
  | .write tid fileid buffer offset =>
    (sfsWrite s tid fileid buffer buffer.length offset).map fun r => (⟨r.1, []⟩, r.2)

/-- Run a sequence of calls. -/
def run (s : Sfs) : List Call → Option Sfs
  | [] => some s
  | c :: cs => match c.exec s with
    | none => none
    | some (_, s') => run s' cs

/-- Every call of a run meets a condition on the state before it. -/
def everyStep (C : Sfs → Call → Bool) (s : Sfs) : List Call → Bool
  | [] => true
  | c :: cs => C s c && match c.exec s with
    | none => true
    | some (_, s') => everyStep C s' cs

/-! ## No reader or writer is left behind -/

/-- An entry between calls: nobody reads or writes, and an entry in use is open. -/
structure AtRest (f : OpenFile) : Prop where
  readernum : f.readernum = 0
  writerTid : f.writerTid = -1
  opened : 0 ≤ f.fileid → 0 < f.timesOpened

theorem atRest_reset : AtRest sfsResetEntry := ⟨rfl, rfl, fun h => by cases h⟩

/-- No call is reading or writing. -/
def Idle (s : Sfs) : Prop := ∀ e, AtRest (s.openFiles e)

theorem Idle.setEntry {s : Sfs} (h : Idle s) {e : Slot} {f : OpenFile} (hf : AtRest f) :
    Idle (s.setEntry e f) := by
  intro e'
  simp only [setEntry_openFiles]
  by_cases he : e' = e
  · rw [he, Function.update_self]
    exact hf
  · rw [Function.update_of_ne he]
    exact h e'

theorem AtRest.opens {f : OpenFile} (h : AtRest f) (hf : f.fileid < 0 → f = sfsResetEntry)
    (fileid parentid : ℤ) (isFolder : Bool) : AtRest (openedEntry f fileid parentid isFolder) := by
  refine ⟨openedEntry_readernum.trans h.readernum, openedEntry_writerTid.trans h.writerTid, ?_⟩
  intro _
  rw [openedEntry_timesOpened]
  by_cases h0 : f.fileid < 0
  · rw [hf h0]
    decide
  · have := h.opened (by omega)
    omega

/-- Between calls every entry has its counters at rest. -/
theorem Idle.update_rest {s : Sfs} (h : Idle s) (e : Slot) :
    Function.update s.openFiles e { s.openFiles e with readernum := 0, writerTid := -1 } =
      s.openFiles := by
  rw [Function.update_eq_self_iff, ← (h e).readernum, ← (h e).writerTid]

/-- `_delete` changes at most the parent of an entry, which it takes away. -/
theorem deleteBlocks_parentid (s : Sfs) (fileid : ℤ) (isFolder : Bool) (i : Slot) :
    (deleteBlocks s fileid isFolder).openFiles i = s.openFiles i ∨
      (deleteBlocks s fileid isFolder).openFiles i = { s.openFiles i with parentid := -1 } := by
  have horphan : (if (s.openFiles i).parentid = fileid then
      { s.openFiles i with parentid := -1 } else s.openFiles i) = s.openFiles i ∨
      (if (s.openFiles i).parentid = fileid then
        { s.openFiles i with parentid := -1 } else s.openFiles i) =
      { s.openFiles i with parentid := -1 } := by
    split
    · exact Or.inr rfl
    · exact Or.inl rfl
  unfold Fs.deleteBlocks
  split
  · exact Or.inl rfl
  · simp only
    split
    · split
      · exact horphan
      · exact horphan
    · split
      · exact Or.inl rfl
      · split
        · exact Or.inl rfl
        · exact Or.inl rfl

theorem deleteBlocks_entry (s : Sfs) (fileid : ℤ) (isFolder : Bool) (i : Slot) :
    ∃ q, (deleteBlocks s fileid isFolder).openFiles i = { s.openFiles i with parentid := q } := by
  rcases deleteBlocks_parentid s fileid isFolder i with h | h
  · exact ⟨_, h⟩
  · exact ⟨_, h⟩

theorem Idle.exit {s : Sfs} (h : Idle s) {e : Slot} {isCloseOp : Bool} (he : 0 ≤ (s.openFiles e).fileid) :
    Idle (sfsExit s e isCloseOp) := by
  have hpos := (h e).opened he
  rcases sfsExit_cases s e isCloseOp with ⟨hc, h2⟩ | ⟨-, -, h2⟩ | ⟨-, -, h2⟩
  · rw [h2]
    refine h.setEntry ⟨(h e).readernum, (h e).writerTid, fun _ => ?_⟩
    simp only [exitCount] at hc ⊢
    split at hc
    · rw [if_pos ‹_›]
      omega
    · rw [if_neg ‹_›]
      omega
  · rw [h2]
    exact h.setEntry atRest_reset
  · rw [h2]
    intro e'
    simp only [setEntry_openFiles]
    by_cases hee : e' = e
    · rw [hee, Function.update_self]
      exact atRest_reset
    · rw [Function.update_of_ne hee]
      obtain ⟨q, hq⟩ := deleteBlocks_entry (s.setEntry e { s.openFiles e with timesOpened := 0 })
        (s.openFiles e).fileid (s.openFiles e).isFolder e'
      rw [hq, setEntry_openFiles, Function.update_of_ne hee]
      exact ⟨(h e').readernum, (h e').writerTid, (h e').opened⟩

/-! ## One call keeps the invariant -/

/-- The state between calls. -/
structure Quiet (s : Sfs) : Prop where
  inv : Inv s noPins
  idle : Idle s

section Calls

variable {s : Sfs}

theorem Inv.recount {pins : Pins} (h : Inv s pins) {e : Slot} {f : OpenFile}
    (hs : SameFile (s.openFiles e) f) (h0 : 0 ≤ f.fileid) : Inv (s.setEntry e f) pins :=
  h.setEntry (h.vol.recount hs h0)

theorem Quiet.exit (h : Quiet s) {e : Slot} {f : ℕ} (he : (s.openFiles e).fileid = f)
    (isCloseOp : Bool) : Quiet (sfsExit s e isCloseOp) :=
  ⟨h.inv.exit he fun _ _ _ _ hp => hp, h.idle.exit (by omega)⟩

/-- A path that resolves names a live node, and the parent agrees with the tree. -/
theorem Inv.resolved {pins : Pins} (h : Inv s pins) {path : List UInt8}
    (hr : (sfsResolveFileExt s path).block ≠ VFS_ERROR) :
    ∃ f : ℕ, (sfsResolveFileExt s path).block = f ∧
      InTree s.disk.blocks f (kindOf (sfsIsFolder path)) ∧
      (∀ {p i k}, Link s.disk.blocks p i f k → (sfsResolveFileExt s path).parentInode = p) ∧
      (path ≠ [SLASH] → ∃ p i : ℕ, Link s.disk.blocks p i f (kindOf (sfsIsFolder path)) ∧
        (sfsResolveFileExt s path).parentInode = p) := by
  rcases resolve_found h.readable hr with ⟨rfl, h1, h2⟩ | ⟨init, l, p, i, f, -, -, h3, -, h5, h6⟩
  · exact ⟨2, h1, Or.inl ⟨rfl, rfl⟩, fun hl => absurd rfl (h.vol.link_root hl), fun hne =>
      absurd rfl hne⟩
  · refine ⟨f, h5, h3.inTree, fun hl => ?_, fun _ => ⟨p, i, h3, h6⟩⟩
    rw [h6, (h.vol.link_inj h3 hl).1]

theorem opened_fileid {f : ℕ} {q : ℤ} {e : Slot} (isFolder : Bool)
    (he : (s.openFiles e).fileid = f ∨
      ((s.openFiles e).fileid = -1 ∧ ∀ j, (s.openFiles j).fileid ≠ f)) :
    (openedEntry (s.openFiles e) f q isFolder).fileid = f := by
  unfold openedEntry
  rcases he with he | ⟨he, -⟩
  · rw [if_neg (by omega)]
    exact he
  · rw [if_pos he]

theorem sfsOpen_quiet (h : Quiet s) (filename : List UInt8) : Quiet (sfsOpen s filename).2 := by
  unfold sfsOpen
  simp only
  split
  · exact h
  · rename_i hr
    obtain ⟨f, h1, h2, h3, -⟩ := h.inv.resolved hr
    have hinv : Inv _ noPins := h.inv.enter (Or.inl h2) h3 fun hp => hp
    rw [h1]
    rcases sfsEnterExt_open s (sfsResolveFileExt s filename).parentInode (sfsIsFolder filename)
      (Int.natCast_nonneg f) with he | ⟨e, he, h4⟩
    · rw [he]
      exact h
    · rw [he] at hinv ⊢
      have hidle : Idle (s.setEntry e (openedEntry (s.openFiles e) f
          (sfsResolveFileExt s filename).parentInode (sfsIsFolder filename))) :=
        h.idle.setEntry ((h.idle e).opens h.inv.vol.free _ _ _)
      refine Quiet.exit ⟨hinv, hidle⟩ (f := f) ?_ _
      rw [setEntry_openFiles, Function.update_self]
      exact opened_fileid _ h4

theorem sfsClose_quiet (h : Quiet s) (fileid : ℤ) : Quiet (sfsClose s fileid).2 := by
  unfold sfsClose
  by_cases h0 : fileid < 0
  · rw [sfsEnter_neg h0]
    exact h
  · rcases sfsEnter_spec s (not_lt.1 h0) with ⟨he, -⟩ | ⟨e, he, h1⟩
    · rw [he]
      exact h
    · rw [he]
      exact h.exit (f := fileid.toNat) (by rw [h1]; omega) true

theorem sfsCreate_quiet (h : Quiet s) (filename : List UInt8) (size : Int32) :
    Quiet (sfsCreate s filename size).2 := by
  rcases sfsCreate_spec h.inv filename size with ⟨s', p, idx, f, data, he, hc⟩ | he
  · rw [he]
    refine ⟨h.inv.create hc, ?_⟩
    rw [hc.state]
    exact h.idle
  · rw [he]
    exact h

theorem sfsRemove_quiet (h : Quiet s) (filename : List UInt8) : Quiet (sfsRemove s filename).2 := by
  unfold sfsRemove
  simp only
  split
  · exact h
  · rename_i hr
    simp only [not_or] at hr
    obtain ⟨f, h1, -, -, h4⟩ := h.inv.resolved hr.1
    obtain ⟨p, i, hl, hp⟩ := h4 hr.2
    have hinv : Inv _ noPins := h.inv.enterDelete hl fun hp => hp
    rw [h1, hp]
    rcases h.inv.enterDelete_spec (sfsIsFolder filename) hl with he | ⟨e, he, h5⟩
    · rw [he]
      exact h
    · rw [he] at hinv ⊢
      refine Quiet.exit ⟨hinv, ?_⟩ (f := f) ?_ true
      · have hr := (h.idle e).opens h.inv.vol.free f p (sfsIsFolder filename)
        exact Idle.setEntry (s := s.unlinked p f) h.idle ⟨hr.readernum, hr.writerTid, hr.opened⟩
      · rw [setEntry_openFiles, Function.update_self]
        exact opened_fileid _ h5

/-- The id of an open file passes the bounds check. -/
theorem Inv.good_fileid {pins : Pins} (h : Inv s pins) {e : Slot} {f : ℕ}
    (he : (s.openFiles e).fileid = f) : badFileid s f = false := by
  have hlive : Live s.disk.blocks s.openFiles pins (.node f (kindOf (s.openFiles e).isFolder)) :=
    Or.inr (Or.inl ⟨e, he, rfl⟩)
  have h1 := h.vol.two_le hlive
  have h2 := h.vol.lt hlive
  have h3 := h.small
  rw [badFileid, sint_of_lt (by omega), Bool.or_eq_false_iff, decide_eq_false_iff_not,
    decide_eq_false_iff_not]
  simp only [SFS_DIRECTORY_BLOCK]
  exact ⟨by omega, by omega⟩

/-- **A read between calls** leaves the table as it is and runs the block program. -/
theorem sfsRead_spec (h : Idle s) (fileid bufsize offset : ℤ) :
    (sfsRead s fileid bufsize offset = some ((VFS_ERROR, []), s) ∧
      ∀ (e : Slot) (f : ℕ), fileid = f → (s.openFiles e).fileid = f → ¬ badFileid s f = false) ∨
    ∃ (e : Slot) (f : ℕ), fileid = f ∧ (s.openFiles e).fileid = f ∧
      sfsRead s fileid bufsize offset = some
        (((readBody f (s.openFiles e).isFolder bufsize offset).run gbdDevice s.disk).1,
          sfsExit s e false) := by
  unfold sfsRead
  split
  · rename_i hbad
    refine Or.inl ⟨rfl, fun e f hf _ => ?_⟩
    rw [← hf, hbad]
    simp
  by_cases h0 : fileid < 0
  · rw [sfsEnter_neg h0]
    exact Or.inl ⟨rfl, fun e f hf _ => by omega⟩
  obtain ⟨f, rfl⟩ := Int.eq_ofNat_of_zero_le (show 0 ≤ fileid by omega)
  rcases sfsEnter_spec s (Int.natCast_nonneg f) with ⟨he, hno⟩ | ⟨e, he, h1⟩
  · rw [he]
    exact Or.inl ⟨rfl, fun e g hg he => absurd (he.trans hg.symm) (hno e)⟩
  refine Or.inr ⟨e, f, rfl, h1, ?_⟩
  rw [he]
  simp only [readEntry, (h e).readernum, (h e).writerTid, ne_eq, not_true_eq_false, if_false, Int.toNat_natCast,
    (readBody_readOnly _ _ _ _).run, Sfs.setEntry, Function.update_self, Function.update_idem, readExit,
    Int.add_sub_cancel, h.update_rest]

/-- **A write between calls** leaves the table as it is and runs the block program. -/
theorem sfsWrite_spec (h : Idle s)
    (hd : ∀ {e e'}, (s.openFiles e).fileid = (s.openFiles e').fileid → (s.openFiles e).fileid ≠ -1 →
      e = e') (tid fileid : ℤ) (buffer : List UInt8) (datasize offset : ℤ) :
    (sfsWrite s tid fileid buffer datasize offset = some (VFS_ERROR, s) ∧
      ∀ (e : Slot) (f : ℕ), fileid = f → (s.openFiles e).fileid = f →
        (s.openFiles e).isFolder = false → ¬ badFileid s f = false) ∨
    ∃ (e : Slot) (f : ℕ), fileid = f ∧ (s.openFiles e).fileid = f ∧ (s.openFiles e).isFolder = false ∧
      sfsWrite s tid fileid buffer datasize offset = some
        (((writeBody f buffer datasize offset).run gbdDevice s.disk).1,
          sfsExit { s with disk := ((writeBody f buffer datasize offset).run gbdDevice s.disk).2 } e
            false) := by
  unfold sfsWrite
  split
  · rename_i hbad
    refine Or.inl ⟨rfl, fun e f hf _ _ => ?_⟩
    rw [← hf, hbad]
    simp
  by_cases h0 : fileid < 0
  · rw [sfsEnter_neg h0]
    exact Or.inl ⟨rfl, fun e f hf _ => by omega⟩
  obtain ⟨f, rfl⟩ := Int.eq_ofNat_of_zero_le (show 0 ≤ fileid by omega)
  rcases sfsEnter_spec s (Int.natCast_nonneg f) with ⟨he, hno⟩ | ⟨e, he, h1⟩
  · rw [he]
    exact Or.inl ⟨rfl, fun e g hg he => absurd (he.trans hg.symm) (hno e)⟩
  rw [he]
  simp only
  split
  · rename_i hk
    refine Or.inl ⟨rfl, fun e' g hg he' hk' => ?_⟩
    rw [hd (he'.trans (hg.symm.trans h1.symm)) (by omega), hk] at hk'
    cases hk'
  rename_i hk
  refine Or.inr ⟨e, f, rfl, h1, by simpa using hk, ?_⟩
  simp only [writeReserve, (h e).readernum, (h e).writerTid, ne_eq, not_true_eq_false, if_false, gt_iff_lt,
    Int.lt_irrefl, Int.toNat_natCast, Sfs.setEntry, Function.update_self, Function.update_idem,
    writeExit, h.update_rest]

theorem sfsRead_quiet (h : Quiet s) (fileid bufsize offset : ℤ) :
    ∃ r s', sfsRead s fileid bufsize offset = some (r, s') ∧ Quiet s' := by
  rcases sfsRead_spec h.idle fileid bufsize offset with ⟨he, -⟩ | ⟨e, f, -, h1, he⟩
  · exact ⟨_, _, he, h⟩
  · exact ⟨_, _, he, h.exit h1 false⟩

/-- Changing data blocks of a live file. -/
theorem Inv.sameBut {pins : Pins} (h : Inv s pins) {f : ℕ} {disk : Gbd}
    (hf : Live s.disk.blocks s.openFiles pins (.node f .file))
    (hd : SameBut (s.disk.blocks f) s.disk disk) : Inv { s with disk := disk } pins := by
  obtain ⟨blocks, rfl, hb⟩ := hd
  exact h.withBlocks (h.vol.writeData hf hb)

theorem sfsWrite_quiet (h : Quiet s) (tid fileid : ℤ) (buffer : List UInt8) (datasize offset : ℤ) :
    ∃ r s', sfsWrite s tid fileid buffer datasize offset = some (r, s') ∧ Quiet s' := by
  rcases sfsWrite_spec h.idle h.inv.vol.distinct tid fileid buffer datasize offset with
    ⟨he, -⟩ | ⟨e, f, -, h1, hk, he⟩
  · exact ⟨_, _, he, h⟩
  · have hlive : Live s.disk.blocks s.openFiles noPins (.node f .file) :=
      Or.inr (Or.inl ⟨e, h1, by rw [hk]; rfl⟩)
    have hinv := h.inv.sameBut hlive (writeBody_frame s.disk f buffer datasize offset)
    exact ⟨_, _, he, Quiet.exit (s := { s with disk := _ }) ⟨hinv, h.idle⟩ (f := f) h1 false⟩

/-- **One call** returns and keeps the invariant. -/
theorem Call.exec_inv (h : Quiet s) (c : Call) : ∃ r s', c.exec s = some (r, s') ∧ Quiet s' := by
  cases c with
  | openFile filename => exact ⟨_, _, rfl, sfsOpen_quiet h filename⟩
  | closeFile fileid => exact ⟨_, _, rfl, sfsClose_quiet h fileid⟩
  | create filename size => exact ⟨_, _, rfl, sfsCreate_quiet h filename size⟩
  | remove filename => exact ⟨_, _, rfl, sfsRemove_quiet h filename⟩
  | read fileid bufsize offset =>
    obtain ⟨r, s', h1, h2⟩ := sfsRead_quiet h fileid bufsize offset
    exact ⟨⟨r.1, r.2⟩, s', by rw [Call.exec, h1]; rfl, h2⟩
  | write tid fileid buffer offset =>
    obtain ⟨r, s', h1, h2⟩ := sfsWrite_quiet h tid fileid buffer buffer.length offset
    exact ⟨⟨r, []⟩, s', by rw [Call.exec, h1]; rfl, h2⟩

end Calls

/-- **A run of calls** returns and keeps the invariant. -/
theorem run_inv : ∀ (cs : List Call) {s : Sfs}, Quiet s → ∃ s', run s cs = some s' ∧ Quiet s'
  | [], s, h => ⟨s, rfl, h⟩
  | c :: cs, s, h => by
    obtain ⟨r, s1, h1, h2⟩ := c.exec_inv h
    rw [run, h1]
    exact run_inv cs h2

end Buenos.Fs
