import Buenos.Fs.Sfs.Volume

/-!
# What one call can do

`Effect` lists everything a call can do between two quiet states; `Call.exec_effect` shows that
nothing else happens.  Later invariants are proved by cases on `Effect` and do not unfold the
operations again.

* `Call.exec_effect` — the inversion of `Call.exec`.
* `run_induction` — an invariant that every effect keeps holds after every run.
-/

namespace Buenos.Fs

open Bytes BlockProgram Ownership

/-- The call works on the open file `f`. -/
def Call.onFile (f : ℕ) : Call → Prop
  | .closeFile fileid => fileid = f
  | .read fileid _ _ => fileid = f
  | .write _ fileid _ _ => fileid = f
  | _ => False

/-- **The effects of a call** between two quiet states.  A call on an open file fails only if it is
a folder. -/
inductive Effect (s : Sfs) : Call → Reply → Sfs → Prop
  | failed (c : Call) {v : ℤ} (hv : v < 0)
      (hno : ∀ (f : ℕ) (e : Slot), c.onFile f → (s.openFiles e).fileid = f →
        (s.openFiles e).isFolder = true) : Effect s c ⟨v, []⟩ s
  | opened {path : List UInt8} {f : ℕ} {e : Slot}
      (hf : InTree s.disk.blocks f (kindOf (sfsIsFolder path)))
      (hq : ∀ {p i k}, Link s.disk.blocks p i f k → (sfsResolveFileExt s path).parentInode = p)
      (he : (s.openFiles e).fileid = f ∨
        ((s.openFiles e).fileid = -1 ∧ ∀ j, (s.openFiles j).fileid ≠ f)) :
      Effect s (.openFile path) ⟨f, []⟩ (s.setEntry e
        (openedEntry (s.openFiles e) f (sfsResolveFileExt s path).parentInode (sfsIsFolder path)))
  | created {path : List UInt8} {size : Int32} {s' : Sfs} {p idx f : ℕ} {data : List ℕ}
      (h : CreateOk s s' path p idx f data (createSize path size)) :
      Effect s (.create path size) ⟨VFS_OK, []⟩ s'
  | read {e : Slot} {f n : ℕ} {offset : ℤ} (he : (s.openFiles e).fileid = f) :
      Effect s (.read f n offset)
        ⟨((readBody f (s.openFiles e).isFolder n offset).run gbdDevice s.disk).1.1,
          ((readBody f (s.openFiles e).isFolder n offset).run gbdDevice s.disk).1.2⟩ s
  | written {e : Slot} {f : ℕ} {tid offset : ℤ} {buf : List UInt8}
      (he : (s.openFiles e).fileid = f) (hk : (s.openFiles e).isFolder = false) :
      Effect s (.write tid f buf offset)
        ⟨((writeBody f buf buf.length offset).run gbdDevice s.disk).1, []⟩
        { s with disk := ((writeBody f buf buf.length offset).run gbdDevice s.disk).2 }
  | closed {e : Slot} {f : ℕ} (he : (s.openFiles e).fileid = f)
      (ht : 1 < (s.openFiles e).timesOpened) :
      Effect s (.closeFile f) ⟨VFS_OK, []⟩
        (s.setEntry e { s.openFiles e with timesOpened := (s.openFiles e).timesOpened - 1 })
  | released {e : Slot} {f : ℕ} (he : (s.openFiles e).fileid = f)
      (ht : (s.openFiles e).timesOpened = 1) (hd : (s.openFiles e).isDeleted = false) :
      Effect s (.closeFile f) ⟨VFS_OK, []⟩ (s.setEntry e sfsResetEntry)
  | freed {e : Slot} {f : ℕ} {bat : Block} (he : (s.openFiles e).fileid = f)
      (ht : (s.openFiles e).timesOpened = 1) (hd : (s.openFiles e).isDeleted = true)
      (hb : Freeing s.disk.blocks f (s.openFiles e).isFolder bat) :
      Effect s (.closeFile f) ⟨VFS_OK, []⟩
        ((s.freed f (s.openFiles e).isFolder bat).setEntry e sfsResetEntry)
  | unlinked {path : List UInt8} {p i f : ℕ} {e : Slot}
      (hl : Link s.disk.blocks p i f (kindOf (sfsIsFolder path)))
      (hr : (sfsResolveFileExt s path).block = f) (he : (s.openFiles e).fileid = f) :
      Effect s (.remove path) ⟨VFS_OK, []⟩
        ((s.unlinked p f).setEntry e { s.openFiles e with isDeleted := true })
  | removed {path : List UInt8} {p i f : ℕ} {bat : Block}
      (hl : Link s.disk.blocks p i f (kindOf (sfsIsFolder path)))
      (hr : (sfsResolveFileExt s path).block = f) (hno : ∀ j, (s.openFiles j).fileid ≠ f)
      (hb : Freeing (unlinkBlocks s.disk.blocks p f) f (sfsIsFolder path) bat) :
      Effect s (.remove path) ⟨VFS_OK, []⟩ ((s.unlinked p f).freed f (sfsIsFolder path) bat)

section Cases

variable {s : Sfs}

/-- Leaving an open entry without closing it changes nothing. -/
theorem sfsExit_keep {e : Slot} (h : 0 < (s.openFiles e).timesOpened) : sfsExit s e false = s := by
  have hc : exitCount (s.openFiles e) false = (s.openFiles e).timesOpened := rfl
  rcases sfsExit_cases s e false with ⟨-, h2⟩ | ⟨h1, -⟩ | ⟨h1, -⟩
  · rw [h2, hc]
    simp [Sfs.setEntry]
  · omega
  · omega

theorem sfsOpen_effect (h : Quiet s) (path : List UInt8) :
    Effect s (.openFile path) ⟨(sfsOpen s path).1, []⟩ (sfsOpen s path).2 := by
  unfold sfsOpen
  simp only
  split
  · exact .failed _ VFS_NOT_FOUND_neg fun _ _ hc => absurd hc id
  rename_i hr
  obtain ⟨f, h1, h2, h3, -⟩ := h.inv.resolved hr
  rw [h1]
  rcases sfsEnterExt_open s (sfsResolveFileExt s path).parentInode (sfsIsFolder path)
    (Int.natCast_nonneg f) with he | ⟨e, he, h4⟩
  · rw [he]
    exact .failed _ VFS_ERROR_neg fun _ _ hc => absurd hc id
  rw [he]
  -- a linked file is not deleted, so the entry stays open
  have hd : (s.openFiles e).isDeleted = false := by
    rcases h4 with h4 | ⟨h4, -⟩
    · by_contra hd
      exact h.inv.vol.deleted (by simpa using hd) h4 h2
    · rw [h.inv.vol.free (e := e) (by omega)]
      rfl
  have hpos := ((h.idle e).opens h.inv.vol.free f (sfsResolveFileExt s path).parentInode
    (sfsIsFolder path)).opened (by rw [opened_fileid _ h4]; omega)
  simp only [setEntry_openFiles, Function.update_self, openedEntry_isDeleted, hd, Bool.false_eq_true,
    if_false]
  rw [sfsExit_keep (by rw [setEntry_openFiles, Function.update_self]; exact hpos)]
  exact .opened h2 h3 h4

theorem sfsClose_effect (h : Quiet s) (fileid : ℤ) :
    Effect s (.closeFile fileid) ⟨(sfsClose s fileid).1, []⟩ (sfsClose s fileid).2 := by
  unfold sfsClose
  by_cases h0 : fileid < 0
  · rw [sfsEnter_neg h0]
    refine .failed _ VFS_ERROR_neg fun f e hc => ?_
    simp only [Call.onFile] at hc
    omega
  obtain ⟨f, rfl⟩ := Int.eq_ofNat_of_zero_le (show 0 ≤ fileid by omega)
  rcases sfsEnter_spec s (Int.natCast_nonneg f) with ⟨he, hno⟩ | ⟨e, he, h1⟩
  · rw [he]
    exact .failed _ VFS_ERROR_neg fun g e hc hg => absurd (hg.trans hc.symm) (hno e)
  rw [he]
  have hpos := (h.idle e).opened (by omega)
  have hcount : exitCount (s.openFiles e) true = (s.openFiles e).timesOpened - 1 := rfl
  simp only
  rcases sfsExit_cases s e true with ⟨hc, h2⟩ | ⟨hc, hd, h2⟩ | ⟨hc, hd, h2⟩
  · rw [h2, hcount]
    exact .closed h1 (by omega)
  · rw [h2]
    exact .released h1 (by omega) hd
  · obtain ⟨bat, hb1, hb2⟩ := h.inv.freeing
      (s := s.setEntry e { s.openFiles e with timesOpened := 0 }) (f := f)
      (s.openFiles e).isFolder (Or.inr (Or.inl ⟨e, h1, rfl⟩)) rfl
    rw [h2, h1, hb1, Inv.setEntry_freed]
    exact .freed h1 (by omega) hd hb2

theorem sfsRemove_effect (h : Quiet s) (path : List UInt8) :
    Effect s (.remove path) ⟨(sfsRemove s path).1, []⟩ (sfsRemove s path).2 := by
  unfold sfsRemove
  simp only
  split
  · exact .failed _ VFS_NOT_FOUND_neg fun _ _ hc => absurd hc id
  rename_i hr
  simp only [not_or] at hr
  obtain ⟨f, h1, -, -, h4⟩ := h.inv.resolved hr.1
  obtain ⟨p, i, hl, hp⟩ := h4 hr.2
  have hinv : Inv _ noPins := h.inv.enterDelete hl fun hp => hp
  rw [h1, hp]
  rcases h.inv.enterDelete_spec (sfsIsFolder path) hl with he | ⟨e, he, h5⟩
  · rw [he]
    exact .failed _ VFS_ERROR_neg fun _ _ hc => absurd hc id
  rw [he] at hinv ⊢
  simp only at hinv ⊢
  generalize hx : ({ openedEntry (s.openFiles e) f p (sfsIsFolder path) with isDeleted := true } :
    OpenFile) = x at hinv ⊢
  have hxc : exitCount x true = (s.openFiles e).timesOpened := by
    rw [← hx]
    simp [exitCount]
  have hxid : x.fileid = f := by
    rw [← hx]
    exact opened_fileid _ h5
  have hxd : x.isDeleted = true := by rw [← hx]
  have hsx : ((s.unlinked p f).setEntry e x).openFiles e = x := by
    rw [setEntry_openFiles, Function.update_self]
  rcases h5 with h5 | ⟨h5, hno⟩
  · have hpos := (h.idle e).opened (by omega)
    rcases sfsExit_cases ((s.unlinked p f).setEntry e x) e true with
      ⟨-, h2⟩ | ⟨hc, -⟩ | ⟨hc, -⟩
    · rw [h2, hsx, hxc]
      have hs : ∀ y : OpenFile, ((s.unlinked p f).setEntry e x).setEntry e y =
          (s.unlinked p f).setEntry e y := by
        intro y
        simp [Sfs.setEntry]
      have hy : ({ x with timesOpened := (s.openFiles e).timesOpened } : OpenFile) =
          { s.openFiles e with isDeleted := true } := by
        rw [← hx, openedEntry, if_neg (by omega)]
      rw [hs, hy]
      exact .unlinked hl h1 h5
    · rw [hsx, hxc] at hc
      omega
    · rw [hsx, hxc] at hc
      omega
  · have hfree := h.inv.vol.free (e := e) (by omega)
    have hxf : x.isFolder = sfsIsFolder path := by
      rw [← hx, openedEntry, if_pos h5]
    rcases sfsExit_cases ((s.unlinked p f).setEntry e x) e true with
      ⟨hc, -⟩ | ⟨-, hd, -⟩ | ⟨-, -, h2⟩
    · rw [hsx, hxc, hfree] at hc
      exact absurd rfl hc
    · rw [hsx, hxd] at hd
      cases hd
    · rw [hsx, hxid, hxf] at h2
      obtain ⟨bat, hb1, hb2⟩ := hinv.freeing (f := f)
        (s := ((s.unlinked p f).setEntry e x).setEntry e { x with timesOpened := 0 })
        (sfsIsFolder path) (Or.inr (Or.inl ⟨e, by rw [hsx]; exact hxid, by rw [hsx, hxf]⟩)) rfl
      rw [h2, hb1, Inv.setEntry_freed, Inv.setEntry_freed]
      have hs : ((s.unlinked p f).freed f (sfsIsFolder path) bat).setEntry e sfsResetEntry =
          (s.unlinked p f).freed f (sfsIsFolder path) bat := by
        simp only [Sfs.freed, Sfs.setEntry, Sfs.unlinked]
        congr 1
        rw [Function.update_eq_self_iff]
        rcases orphanEntries_spec s.openFiles f (sfsIsFolder path) e with ho | ⟨-, ho, -⟩
        · rw [ho, hfree]
        · rw [hfree] at ho
          cases ho
      rw [hs]
      exact .removed hl h1 hno hb2

/-- **The inversion of a call**: it returns, what it does is one of the effects, and the state is
quiet again. -/
theorem Call.exec_effect (h : Quiet s) (c : Call) :
    ∃ r s', c.exec s = some (r, s') ∧ Effect s c r s' ∧ Quiet s' := by
  cases c with
  | openFile filename => exact ⟨_, _, rfl, sfsOpen_effect h filename, sfsOpen_quiet h filename⟩
  | closeFile fileid => exact ⟨_, _, rfl, sfsClose_effect h fileid, sfsClose_quiet h fileid⟩
  | create filename size =>
    refine ⟨_, _, rfl, ?_, sfsCreate_quiet h filename size⟩
    rcases sfsCreate_spec h.inv filename size with ⟨s', p, idx, f, data, he, hc⟩ | he
    · rw [he]
      exact .created hc
    · rw [he]
      exact .failed _ VFS_ERROR_neg fun _ _ hc => absurd hc id
  | remove filename => exact ⟨_, _, rfl, sfsRemove_effect h filename, sfsRemove_quiet h filename⟩
  | read fileid bufsize offset =>
    rcases sfsRead_spec h.idle fileid bufsize offset with ⟨he, hno⟩ | ⟨e, f, rfl, h1, he⟩
    · refine ⟨⟨VFS_ERROR, []⟩, s, by rw [Call.exec, he]; rfl, .failed _ VFS_ERROR_neg ?_, h⟩
      intro f e hc hf
      exact absurd (h.inv.good_fileid hf) (hno e f hc hf)
    · have hpos := (h.idle e).opened (by omega)
      rw [sfsExit_keep hpos] at he
      exact ⟨_, s, by rw [Call.exec, he]; rfl, .read h1, h⟩
  | write tid fileid buffer offset =>
    obtain ⟨r, s', h2, h3⟩ := sfsWrite_quiet h tid fileid buffer buffer.length offset
    refine ⟨⟨r, []⟩, s', by rw [Call.exec, h2]; rfl, ?_, h3⟩
    rcases sfsWrite_spec h.idle h.inv.vol.distinct tid fileid buffer buffer.length offset with
      ⟨he, hno⟩ | ⟨e, f, rfl, h1, hk, he⟩
    · rw [he] at h2
      cases h2
      refine .failed _ VFS_ERROR_neg fun f e hc hf => ?_
      by_contra hk
      exact hno e f hc hf (by simpa using hk) (h.inv.good_fileid hf)
    · have hpos := (h.idle e).opened (by omega)
      have hkeep := sfsExit_keep (e := e)
        (s := { s with disk := ((writeBody f buffer buffer.length offset).run gbdDevice s.disk).2 })
        hpos
      rw [hkeep] at he
      rw [he] at h2
      cases h2
      exact .written h1 hk

end Cases

/-- **Induction over runs** whose calls meet a condition: what every effect keeps holds after every
run. -/
theorem run_induction {P : Sfs → Prop} {C : Sfs → Call → Bool}
    (hstep : ∀ {s c r s'}, Quiet s → P s → C s c = true → Effect s c r s' → Quiet s' → P s') :
    ∀ (cs : List Call) {s : Sfs}, Quiet s → P s → everyStep C s cs = true →
      ∃ s', run s cs = some s' ∧ P s' ∧ Quiet s'
  | [], s, hq, hp, _ => ⟨s, rfl, hp, hq⟩
  | c :: cs, s, hq, hp, hc => by
    obtain ⟨r, s1, h1, h2, h3⟩ := c.exec_effect hq
    rw [everyStep, h1, Bool.and_eq_true] at hc
    rw [run, h1]
    exact run_induction hstep cs h3 (hstep hq hp hc.1 h2 h3) hc.2

theorem everyStep_true : ∀ (cs : List Call) (s : Sfs), everyStep (fun _ _ => true) s cs = true
  | [], _ => rfl
  | c :: cs, s => by
    rw [everyStep, Bool.true_and]
    split
    · rfl
    · exact everyStep_true cs _

/-- The size of the volume never changes. -/
theorem Effect.totals {s s' : Sfs} {c : Call} {r : Reply} (h : Effect s c r s') :
    s'.totalblocks = s.totalblocks ∧ s'.totalvblocks = s.totalvblocks := by
  cases h with
  | created hc =>
    rw [hc.state]
    exact ⟨rfl, rfl⟩
  | _ => exact ⟨rfl, rfl⟩

end Buenos.Fs
