import Buenos.Fs.Sfs.Pending

/-!
# Deleting a file that is open

* `unlinked_resolve` — after the removal of a file its name is free again in the same directory.
* `Pending.run` — later calls keep the file until it is closed as often as it was open.
* `unmountLoop_spec` — what `sfs_unmount` gives back.

Principal result: `delayed_delete`.
-/

namespace Buenos.Fs

open Bytes BlockProgram Ownership

/-! ## The name is free again -/

section Name

variable {n : ℕ} {blocks : ℕ → Block} {files : Slot → OpenFile} {pins : Pins} {p i f : ℕ}

/-- Unlinking a file leaves every walk through directories. -/
theorem VolInv.unlink_walk (h : VolInv n blocks files pins) (hn : n ≤ 4096)
    (hl : Link blocks p i f .file) {r : ℕ} :
    ∀ {init : List (List UInt8)} {q : ℕ}, ReachDir blocks q →
      (∀ e ∈ init, sfsIsFolder e = true) → Walk blocks q init r →
      Walk (unlinkBlocks blocks p f) q init r
  | [], _, _, _, hw => hw
  | e :: init, q, hq, hf, ⟨j, hj, h0, hname, hw⟩ => by
    have hk : direntKind (blocks q) j = .dir := by
      rw [direntKind, hname, hf e (List.mem_cons_self ..)]
      rfl
    have hlq : Link blocks q j (direntInode (blocks q) j) .dir := ⟨hq, hj, rfl, h0, hk⟩
    have hne : direntInode (blocks q) j ≠ f := by
      intro he
      rw [he] at hlq
      cases h.kind_eq (Or.inl hl.inTree) (Or.inl hlq.inTree)
    obtain ⟨h1, h2⟩ := h.unlink_entry (p := p) hn hlq hne
    refine ⟨j, hj, by rw [h1]; exact h0, by rw [h2]; exact hname, ?_⟩
    rw [h1]
    exact unlink_walk h hn hl (.sub hq hj h0 hk) (fun e he => hf e (List.mem_cons_of_mem _ he)) hw

/-- After unlinking, no entry of the directory has the name of the file. -/
theorem VolInv.unlink_unused (h : VolInv n blocks files pins) (hn : n ≤ 4096)
    (hu : NamesUnique blocks) {k : Kind} (hl : Link blocks p i f k) {j : ℕ} (hj : j < 25)
    (h0 : direntInode (unlinkBlocks blocks p f p) j ≠ 0) :
    direntName (unlinkBlocks blocks p f p) j ≠ direntName (blocks p) i := by
  intro hname
  have hlt := h.lt (Or.inl hl.inTree)
  rw [unlinkBlocks_inode hj] at h0
  split at h0
  · exact h0 rfl
  · rename_i hs
    rw [unlinkBlocks_name hs] at hname
    have := hu p hl.dir j hj i hl.lt h0 (by rw [hl.inode]; exact hl.live) hname
    rw [this, hl.inode, sint_of_lt (by omega)] at hs
    exact hs rfl

end Name

/-- **After removing a file its name is missing from the same directory.** -/
theorem unlinked_resolve {s s1 : Sfs} {path : List UInt8} {f : ℕ} (hq : Quiet s) (hq1 : Quiet s1)
    (hu : NamesUnique s.disk.blocks) (hfile : sfsIsFolder path = false)
    (hr : (sfsResolveFileExt s path).block = f) :
    ∃ p i, Link s.disk.blocks p i f .file ∧ sfsIsValidPath path = true ∧
      (s1.disk.blocks = unlinkBlocks s.disk.blocks p f →
        sfsResolveFileExt s1 path = ⟨VFS_ERROR, p, true⟩) := by
  have hne : (sfsResolveFileExt s path).block ≠ VFS_ERROR := by
    have := VFS_ERROR_neg
    omega
  have hv : sfsIsValidPath path = true := by
    by_contra hv
    rw [sfsResolveFileExt, if_neg hv] at hne
    exact hne rfl
  rcases resolve_found hq.inv.readable hne with ⟨rfl, -⟩ | ⟨init, l, p, i, g, h1, h2, h3, h4, h5, -⟩
  · cases hfile
  · have hgf : g = f := Int.ofNat_inj.1 (h5.symm.trans hr)
    subst hgf
    rw [hfile] at h3
    refine ⟨p, i, h3, hv, fun hs1 => ?_⟩
    have hfold : FolderElems (init ++ [l]) := h1 ▸ pathElems_folders path.tail
    have hinit : ∀ e ∈ init, sfsIsFolder e = true := by
      intro e he
      obtain ⟨a, b, rfl⟩ := List.append_of_mem he
      exact hfold a e (b ++ [l]) (by simp) (by simp)
    rw [sfsResolveFileExt, if_pos hv, h1]
    refine resolveLoop_of_walk hq1.inv.readable ?_ ?_ init 2 (-1) hfold .root (by decide) ?_
    · rw [hs1]
      exact hu.unlink p g
    · rw [hs1, ← h4]
      exact fun j hj h0 => hq.inv.vol.unlink_unused hq.inv.small hu h3 hj h0
    · rw [hs1]
      exact hq.inv.vol.unlink_walk hq.inv.small h3 .root hinit h2

/-! ## Later calls -/

/-- How often a sequence of calls closes `f`. -/
def closesOf (f : ℕ) (cs : List Call) : ℕ := cs.countP (isClose f)

/-- **Later calls** keep a removed file until it is closed as often as it was open. -/
theorem Pending.run {e : Slot} {f : ℕ} {inode : Block} :
    ∀ (cs : List Call) {s s2 : Sfs} {k : ℕ} {contents : List UInt8}, Quiet s → Inodes Covers s →
      Pending s e f k contents inode → Fs.run s cs = some s2 → closesOf f cs < k →
      Pending s2 e f (k - closesOf f cs) (cs.foldl (writesTo f) contents) inode
  | [], s, s2, k, contents, _, _, hp, hr, _ => by
    cases hr
    exact hp
  | c :: cs, s, s2, k, contents, hq, hcov, hp, hr, hk => by
    obtain ⟨r, s1, h1, h2, h3⟩ := c.exec_effect hq
    have hcov1 : Inodes Covers s1 := Inodes.effect NewInode.covers hq hcov h2
    rw [Fs.run, h1] at hr
    have hcount : closesOf f (c :: cs) = closesOf f cs + if isClose f c then 1 else 0 :=
      List.countP_cons
    rw [hcount] at hk ⊢
    rw [List.foldl_cons]
    rcases hp.effect hq hcov h2 with ⟨hc, hp1⟩ | ⟨hc, -, hp1⟩ | ⟨hc, hk1, -⟩
    · rw [hc] at hk ⊢
      exact run cs h3 hcov1 hp1 hr (by simpa using hk)
    · rw [hc, if_pos rfl] at hk ⊢
      rw [show k - (closesOf f cs + 1) = k - 1 - closesOf f cs by omega]
      exact run cs h3 hcov1 hp1 hr (by omega)
    · rw [hc, if_pos rfl] at hk
      omega

/-! ## Unmounting -/

/-- `s'` is `s` up to the allocation block and the parents in the table. -/
structure Unmounting (s s' : Sfs) (bat : Block) : Prop where
  disk : s'.disk = s.disk.withBlocks (Function.update s.disk.blocks SFS_ALLOCATION_BLOCK bat)
  entry : ∀ i, ∃ q, s'.openFiles i = { s.openFiles i with parentid := q }

/-- Entry `i` is a removed node whose blocks include `b`. -/
def Dropped (s : Sfs) (i : Slot) (b : ℕ) : Prop :=
  ∃ f : ℕ, 0 < f ∧ (s.openFiles i).fileid = f ∧ (s.openFiles i).isDeleted = true ∧
    DeletedBlock s.disk.blocks f (s.openFiles i).isFolder b

section Unmount

variable {s s' : Sfs} {bat : Block}

/-- `_delete` of one entry during `sfs_unmount`. -/
theorem Unmounting.delete (h : Inv s noPins) (hu : Unmounting s s' bat) {i : Slot} {f : ℕ}
    (he : (s.openFiles i).fileid = f) :
    ∃ bat', Unmounting s (deleteBlocks s' f (s.openFiles i).isFolder) bat' ∧
      ∀ b, (DeletedBlock s.disk.blocks f (s.openFiles i).isFolder b → bitmapGet bat' b = 0) ∧
        (¬ DeletedBlock s.disk.blocks f (s.openFiles i).isFolder b →
          bitmapGet bat' b = bitmapGet bat b) := by
  have hlive : Live s.disk.blocks s.openFiles noPins (.node f (kindOf (s.openFiles i).isFolder)) :=
    Or.inr (Or.inl ⟨i, he, rfl⟩)
  have h2 := h.vol.two_le hlive
  have hlt := h.vol.lt hlive
  have hs := h.small
  have ho := h.onDisk
  have hinode : s'.disk.blocks f = s.disk.blocks f := by
    rw [hu.disk, withBlocks_blocks]
    exact Function.update_of_ne (by simp only [SFS_ALLOCATION_BLOCK]; omega) ..
  have hbat : s'.disk.blocks SFS_ALLOCATION_BLOCK = bat := by
    rw [hu.disk, withBlocks_blocks, Function.update_self]
  have hdel : ∀ b, DeletedBlock s'.disk.blocks f (s.openFiles i).isFolder b ↔
      DeletedBlock s.disk.blocks f (s.openFiles i).isFolder b := by
    intro b
    unfold DeletedBlock
    rw [hinode]
  obtain ⟨bat', h3, h4⟩ := deleteBlocks_works (s := s') (f := f)
    (s.openFiles i).isFolder (by rw [hu.disk]; exact h.works.withBlocks _)
    (by rw [hu.disk, withBlocks_totalBlocks]; omega) (by rw [hu.disk, withBlocks_totalBlocks]; omega)
    (by omega) (fun hk j hj => by
      rw [hinode]
      by_cases hz : inodeBlock (s.disk.blocks f) j = 0
      · omega
      · have := h.vol.inside hlive (Or.inr ⟨by rw [hk]; rfl, hz, j, hj, rfl⟩)
        omega)
  refine ⟨bat', ⟨?_, fun j => ?_⟩, fun b => ?_⟩
  · rw [h3]
    simp only [hu.disk, withBlocks_blocks, Function.update_idem, withBlocks_withBlocks]
  · obtain ⟨q, hq⟩ := deleteBlocks_entry s' f (s.openFiles i).isFolder j
    obtain ⟨q', hq'⟩ := hu.entry j
    exact ⟨q, by rw [hq, hq']⟩
  · rw [← hdel b, ← hbat]
    exact h4 b

/-- **The loop of `sfs_unmount`** clears exactly the bits of the removed nodes it meets. -/
theorem unmountLoop_spec (h : Inv s noPins) :
    ∀ (l : List Slot) {s' : Sfs} {bat : Block}, Unmounting s s' bat →
      ∃ bat', Unmounting s (unmountLoop s' l) bat' ∧
        ∀ b, ((∃ i ∈ l, Dropped s i b) → bitmapGet bat' b = 0) ∧
          ((∀ i ∈ l, ¬ Dropped s i b) → bitmapGet bat' b = bitmapGet bat b)
  | [], s', bat, hu => ⟨bat, hu, fun b => ⟨by simp, fun _ => rfl⟩⟩
  | i :: l, s', bat, hu => by
    obtain ⟨q, hq⟩ := hu.entry i
    have hfid : (s'.openFiles i).fileid = (s.openFiles i).fileid := by rw [hq]
    have hdel : (s'.openFiles i).isDeleted = (s.openFiles i).isDeleted := by rw [hq]
    have hfol : (s'.openFiles i).isFolder = (s.openFiles i).isFolder := by rw [hq]
    rw [unmountLoop]
    simp only [hfid, hdel, hfol]
    split
    · rename_i hc
      obtain ⟨f, hf⟩ := Int.eq_ofNat_of_zero_le (show 0 ≤ (s.openFiles i).fileid by omega)
      have hdropped : ∀ b, Dropped s i b ↔
          DeletedBlock s.disk.blocks f (s.openFiles i).isFolder b := by
        intro b
        constructor
        · rintro ⟨g, -, h2, -, h4⟩
          rwa [← Int.ofNat_inj.1 (h2.symm.trans hf)]
        · exact fun hb => ⟨f, by omega, hf, hc.2, hb⟩
      rw [hf]
      obtain ⟨bat1, hu1, hb1⟩ := hu.delete h hf
      obtain ⟨bat2, hu2, hb2⟩ := unmountLoop_spec h l hu1
      refine ⟨bat2, hu2, fun b => ⟨fun ⟨j, hj, hd⟩ => ?_, fun hno => ?_⟩⟩
      · by_cases hl : ∃ i ∈ l, Dropped s i b
        · exact (hb2 b).1 hl
        · rw [(hb2 b).2 fun j' hj' hd' => hl ⟨j', hj', hd'⟩]
          rcases List.mem_cons.1 hj with rfl | hj
          · exact (hb1 b).1 ((hdropped b).1 hd)
          · exact absurd ⟨j, hj, hd⟩ hl
      · rw [(hb2 b).2 fun j' hj' => hno j' (List.mem_cons_of_mem _ hj')]
        exact (hb1 b).2 fun hd => hno i (List.mem_cons_self ..) ((hdropped b).2 hd)
    · rename_i hc
      obtain ⟨bat2, hu2, hb2⟩ := unmountLoop_spec h l hu
      have hnd : ∀ b, ¬ Dropped s i b := by
        rintro b ⟨f, h1, h2, h3, -⟩
        exact hc ⟨by omega, h3⟩
      refine ⟨bat2, hu2, fun b => ⟨fun ⟨j, hj, hd⟩ => ?_, fun hno => ?_⟩⟩
      · rcases List.mem_cons.1 hj with rfl | hj
        · exact absurd hd (hnd b)
        · exact (hb2 b).1 ⟨j, hj, hd⟩
      · exact (hb2 b).2 fun j' hj' => hno j' (List.mem_cons_of_mem _ hj')

end Unmount

/-! ## The removal -/

/-- A well-formed volume whose directories have distinct names and whose inodes list their data
blocks from the front, as many as the size needs. -/
structure SoundVolume (disk : Gbd) : Prop extends WellFormed disk where
  names : NamesUnique disk.blocks
  gapless : ∀ {p i f}, Link disk.blocks p i f .file → Gapless (disk.blocks f)
  covers : ∀ {p i f}, Link disk.blocks p i f .file → Covers (disk.blocks f)

/-- What every run from a sound volume keeps. -/
structure Sound (s : Sfs) : Prop where
  names : NamesUnique s.disk.blocks
  gapless : Inodes Gapless s
  covers : Inodes Covers s

theorem SoundVolume.sound {disk : Gbd} (h : SoundVolume disk) : Sound (sfsInit disk) where
  names := h.names
  gapless := fun hf => by
    obtain ⟨p, i, hl⟩ := h.linked hf
    exact h.gapless hl
  covers := fun hf => by
    obtain ⟨p, i, hl⟩ := h.linked hf
    exact h.covers hl

theorem Sound.effect {s s' : Sfs} {c : Call} {r : Reply} (hq : Quiet s) (h : Sound s)
    (he : Effect s c r s') : Sound s' where
  names := h.names.effect hq he
  gapless := Inodes.effect NewInode.gapless hq h.gapless he
  covers := Inodes.effect NewInode.covers hq h.covers he

/-- **A run from a sound volume**: the state is sound, and the table counts the handles of `f`. -/
theorem Sound.run {f : ℕ} :
    ∀ (cs : List Call) {s s' : Sfs} {h : ℕ}, Quiet s → Sound s → Counts s f h →
      Fs.run s cs = some s' → Quiet s' ∧ Sound s' ∧ Counts s' f (handles f s cs h)
  | [], s, s', h, hq, hs, hc, hr => by
    cases hr
    exact ⟨hq, hs, hc⟩
  | c :: cs, s, s', h, hq, hs, hc, hr => by
    obtain ⟨r, s1, h1, h2, h3⟩ := c.exec_effect hq
    rw [Fs.run, h1] at hr
    rw [handles, h1]
    exact run cs h3 (hs.effect hq h2) (hc.effect hq h2) hr

/-- Removing an open file unlinks it and marks its entry. -/
theorem sfsRemove_open {s : Sfs} (hq : Quiet s) {path : List UInt8} {f : ℕ} {e : Slot}
    (hfile : sfsIsFolder path = false) (hr : (sfsResolveFileExt s path).block = f)
    (he : (s.openFiles e).fileid = f) :
    ∃ p i, Link s.disk.blocks p i f .file ∧ sfsRemove s path = (VFS_OK,
      (s.unlinked p f).setEntry e { s.openFiles e with isDeleted := true }) := by
  have hneg := VFS_ERROR_neg
  have hslash : path ≠ [SLASH] := by
    rintro rfl
    cases hfile
  have hfound : ∀ q, (sfsEnterExt s f q true false true).1 ≠ none := by
    intro q
    obtain ⟨e', h1, h2⟩ := findEntry_of_mem (show (f : ℤ) ≠ -1 by omega) he
    rw [sfsEnterExt, if_neg (by omega), h1]
    simp [h2]
  have hok : (sfsRemove s path).1 = VFS_OK := by
    unfold sfsRemove
    simp only [hr, hfile]
    rw [if_neg (not_or.2 ⟨by omega, hslash⟩)]
    have := hfound (sfsResolveFileExt s path).parentInode
    split
    · rename_i heq
      rw [heq] at this
      exact absurd rfl this
    · rfl
  have heff := sfsRemove_effect hq path
  rw [hok] at heff
  generalize hs' : (sfsRemove s path).2 = s' at heff
  have hpair : sfsRemove s path = (VFS_OK, s') := by rw [← hok, ← hs']
  cases heff with
  | failed _ hv => exact absurd hv (by decide)
  | @unlinked _ p i g e' hl hr' he' =>
    have hgf : g = f := Int.ofNat_inj.1 (hr'.symm.trans hr)
    subst hgf
    have hee : e' = e := hq.inv.vol.distinct (he'.trans he.symm) (by omega)
    subst hee
    rw [hfile] at hl
    exact ⟨p, i, hl, hpair⟩
  | @removed _ p i g bat hl hr' hno hb =>
    have hgf : g = f := Int.ofNat_inj.1 (hr'.symm.trans hr)
    subst hgf
    exact absurd he (hno e)


/-- The name `path` of the removed file `f` is free again in its directory. -/
structure NameFree (s s1 : Sfs) (path : List UInt8) (f p : ℕ) : Prop where
  parent : ∃ i, Link s.disk.blocks p i f .file
  resolve : sfsResolveFileExt s1 path = ⟨VFS_ERROR, p, true⟩
  openFails : sfsOpen s1 path = (VFS_NOT_FOUND, s1)
  create : ∀ size : Int32, 0 ≤ size.toInt → numVblocks (createSize path size) ≤ SFS_BLOCKS_MAX →
    neededBlocks false (numVblocks (createSize path size)) ≤
      (freeBits (s1.disk.blocks SFS_ALLOCATION_BLOCK) s1.totalvblocks).card →
    ∃ s' idx g data, sfsCreate s1 path size = (VFS_OK, s') ∧
      CreateOk s1 s' path p idx g data (createSize path size)

/-- **The name is free at once**: it no longer resolves, and a file of any size that fits on the disk
can be created under it in the same directory. -/
theorem sfsRemove_nameFree {s s1 : Sfs} (hq : Quiet s) (hq1 : Quiet s1)
    (hu : NamesUnique s.disk.blocks) {path : List UInt8} {f p i : ℕ}
    (hfile : sfsIsFolder path = false) (hr : (sfsResolveFileExt s path).block = f)
    (hl : Link s.disk.blocks p i f .file) (hs1 : s1.disk.blocks = unlinkBlocks s.disk.blocks p f) :
    NameFree s s1 path f p := by
  obtain ⟨p', i', hl', hv, hres⟩ := unlinked_resolve hq hq1 hu hfile hr
  obtain ⟨rfl, rfl⟩ := hq.inv.vol.link_inj hl hl'
  have hres := hres hs1
  refine ⟨⟨i, hl⟩, hres, ?_, fun size h0 hnum hroom => ?_⟩
  · simp [sfsOpen, hres]
  · rcases sfsCreate_missing hq1.inv hv (Or.inr h0) hnum hres with
      ⟨s', idx, g, data, h1, h2, -⟩ | ⟨-, h1 | h1⟩
    · exact ⟨s', idx, g, data, h1, h2⟩
    · -- the entry of `f` has been cleared
      have hlt := hq.inv.vol.lt (Or.inl hl.inTree)
      have hsmall := hq.inv.small
      have hz := h1 i hl.lt
      rw [hs1, unlinkBlocks_inode hl.lt, hl.inode, sint_of_lt (by omega), if_pos rfl] at hz
      exact absurd rfl hz
    · rw [hfile] at h1
      omega

/-! ## Giving the blocks back -/

/-- The step clears the bits of the blocks of `f` and leaves every other bit. -/
def ClearsExactly (s s' : Sfs) (f : ℕ) : Prop :=
  ∀ b, (owns s.disk.blocks (.node f .file) b → Marked s.disk.blocks b ∧ ¬ Marked s'.disk.blocks b) ∧
    (¬ owns s.disk.blocks (.node f .file) b → (Marked s'.disk.blocks b ↔ Marked s.disk.blocks b))

/-- `sfs_unmount` reaches the file in one iteration, which clears exactly its bits; they are set
before that iteration and clear at the end. -/
def UnmountFrees (s : Sfs) (f : ℕ) : Prop :=
  ∃ pre e post, List.finRange 32 = pre ++ e :: post ∧
    ClearsExactly (unmountLoop s pre) (unmountLoop s (pre ++ [e])) f ∧
    ∀ b, owns s.disk.blocks (.node f .file) b → ¬ Marked (sfsUnmount s).2.disk.blocks b

/-- **A removed file that is open `k` times.** -/
structure StillThere (s : Sfs) (f k : ℕ) (contents : List UInt8) (inode : Block) : Prop where
  inode : s.disk.blocks f = inode
  unnamed : ∀ kind, ¬ InTree s.disk.blocks f kind
  reads : ∀ (n : ℕ) (offset : ℤ), sfsRead s f n offset = some (readAt contents n offset, s)
  marked : ∀ b, owns s.disk.blocks (.node f .file) b → Marked s.disk.blocks b
  exclusive : ∀ {o b}, Referenced s o → owns s.disk.blocks o b → owns s.disk.blocks (.node f .file) b →
    o = .node f .file
  close : 1 < k → ∃ s', sfsClose s f = (VFS_OK, s') ∧ s'.disk = s.disk
  lastClose : k = 1 → ∃ s', sfsClose s f = (VFS_OK, s') ∧ ClearsExactly s s' f ∧
    ∀ e, (s'.openFiles e).fileid ≠ f
  unmount : UnmountFrees s f

section StillThere

variable {s : Sfs} {e : Slot} {f k : ℕ} {contents : List UInt8} {inode : Block}

/-- **Closing a removed file**: the count goes down, or the blocks are given back. -/
theorem Pending.close (hq : Quiet s) (hp : Pending s e f k contents inode) :
    (1 < k ∧ sfsClose s f = (VFS_OK, s.setEntry e
      { s.openFiles e with timesOpened := (s.openFiles e).timesOpened - 1 })) ∨
    (k = 1 ∧ ∃ bat, Freeing s.disk.blocks f false bat ∧
      sfsClose s f = (VFS_OK, (s.freed f false bat).setEntry e sfsResetEntry)) := by
  have heff := sfsClose_effect hq f
  have hk := hp.count
  have hentry : ∀ {e' : Slot} {g : ℕ}, (s.openFiles e').fileid = g → g = f → e' = e := by
    rintro e' g he' rfl
    exact hq.inv.vol.distinct (he'.trans hp.fileid.symm) (by omega)
  generalize hc : sfsClose s f = c at heff
  obtain ⟨v, s'⟩ := c
  simp only at heff
  generalize hcall : Call.closeFile (f : ℤ) = call, hrep : Reply.mk v [] = r at heff
  cases heff with
  | failed c hv hno =>
    have := hno f e (by rw [← hcall]; exact rfl) hp.fileid
    rw [hp.isFolder] at this
    cases this
  | @closed e' g he' ht =>
    cases hrep
    cases hentry he' (Int.ofNat_inj.1 (Call.closeFile.inj hcall).symm)
    exact Or.inl ⟨by omega, rfl⟩
  | @released e' g he' ht hd =>
    cases hentry he' (Int.ofNat_inj.1 (Call.closeFile.inj hcall).symm)
    rw [hp.isDeleted] at hd
    cases hd
  | @freed e' g bat he' ht hd hb =>
    have hgf : g = f := Int.ofNat_inj.1 (Call.closeFile.inj hcall).symm
    cases hrep
    cases hentry he' hgf
    subst hgf
    rw [hp.isFolder] at hb ⊢
    exact Or.inr ⟨by omega, bat, hb, rfl⟩
  | _ => cases hcall

theorem Pending.marked (hq : Quiet s) (hp : Pending s e f k contents inode) {b : ℕ}
    (hb : owns s.disk.blocks (.node f .file) b) : Marked s.disk.blocks b :=
  hq.inv.vol.marked hp.live hb

/-- An allocation block without exactly the blocks of `f`. -/
theorem clearsExactly_of_bits {s' : Sfs} (hg : Gapless (s.disk.blocks f))
    (hm : ∀ b, owns s.disk.blocks (.node f .file) b → Marked s.disk.blocks b)
    (hb : Freeing s.disk.blocks f false (s'.disk.blocks SFS_ALLOCATION_BLOCK)) :
    ClearsExactly s s' f := by
  intro b
  refine ⟨fun ho => ⟨hm b ho, ?_⟩, fun ho => ?_⟩
  · rw [Marked, (hb b).1 (hg.deletedBlock ho)]
    decide
  · rw [Marked, Marked, (hb b).2 fun hd => ho hd.owns]

/-- Reading through the old handle. -/
theorem Pending.read (hq : Quiet s) (hcov : Inodes Covers s) (hp : Pending s e f k contents inode)
    (n : ℕ) (offset : ℤ) : sfsRead s f n offset = some (readAt contents n offset, s) := by
  rcases sfsRead_spec hq.idle f n offset with ⟨-, h1⟩ | ⟨e', g, hg, h1, h2⟩
  · exact absurd (hq.inv.good_fileid hp.fileid) (h1 e f rfl hp.fileid)
  · have hgf : g = f := (Int.ofNat_inj.1 hg).symm
    subst hgf
    have hee : e' = e := hq.inv.vol.distinct (h1.trans hp.fileid.symm) (by omega)
    subst hee
    rw [h2, hp.isFolder, readBody_spec (hq.fileOk hcov hp.live).shape, hp.bytes,
      sfsExit_keep ((hq.idle e').opened (by omega))]

theorem unmountLoop_append (s : Sfs) :
    ∀ l l' : List Slot, unmountLoop s (l ++ l') = unmountLoop (unmountLoop s l) l'
  | [], _ => rfl
  | i :: l, l' => by
    rw [List.cons_append, unmountLoop, unmountLoop]
    exact unmountLoop_append _ l l'

/-- Only the entry of a removed file drops its blocks. -/
theorem Pending.dropped (hq : Quiet s) (hp : Pending s e f k contents inode) {i : Slot} {b : ℕ}
    (hb : owns s.disk.blocks (.node f .file) b) (hd : Dropped s i b) : i = e := by
  obtain ⟨g, -, h1, -, h2⟩ := hd
  have hlive : Live s.disk.blocks s.openFiles noPins (.node g (kindOf (s.openFiles i).isFolder)) :=
    Or.inr (Or.inl ⟨i, h1, rfl⟩)
  have := hq.inv.vol.own.unique hlive hp.live h2.owns hb
  injection this with h3
  subst h3
  exact hq.inv.vol.distinct (h1.trans hp.fileid.symm) (by omega)

/-- **`sfs_unmount` gives the blocks back** in the iteration of the entry. -/
theorem Pending.unmount (hq : Quiet s) (hg : Inodes Gapless s)
    (hp : Pending s e f k contents inode) : UnmountFrees s f := by
  obtain ⟨pre, post, hsplit⟩ := List.append_of_mem (List.mem_finRange e)
  have hnot : ∀ i ∈ pre, i ≠ e := by
    have hnd := List.nodup_finRange 32
    rw [hsplit, List.nodup_append] at hnd
    exact fun i hi => hnd.2.2 i hi e (List.mem_cons_self ..)
  have hdrop : ∀ b, Dropped s e b ↔ DeletedBlock s.disk.blocks f false b := by
    intro b
    constructor
    · rintro ⟨g, -, h1, -, h2⟩
      rw [hp.isFolder] at h2
      rwa [← Int.ofNat_inj.1 (h1.symm.trans hp.fileid)]
    · intro h2
      have := hq.inv.vol.two_le hp.live
      exact ⟨f, by omega, hp.fileid, hp.isDeleted, by rw [hp.isFolder]; exact h2⟩
  have hstart : Unmounting s s (s.disk.blocks SFS_ALLOCATION_BLOCK) := by
    refine ⟨?_, fun i => ⟨_, rfl⟩⟩
    rw [Function.update_eq_self]
    rfl
  obtain ⟨bat1, hu1, hb1⟩ := unmountLoop_spec hq.inv pre hstart
  obtain ⟨bat2, hu2, hb2⟩ := unmountLoop_spec hq.inv [e] hu1
  obtain ⟨bat3, hu3, hb3⟩ := unmountLoop_spec hq.inv (List.finRange 32) hstart
  have hbat : ∀ {s' bat}, Unmounting s s' bat → s'.disk.blocks SFS_ALLOCATION_BLOCK = bat := by
    intro s' bat hu
    rw [hu.disk, withBlocks_blocks, Function.update_self]
  have hinode : (unmountLoop s pre).disk.blocks f = s.disk.blocks f := by
    rw [hu1.disk, withBlocks_blocks]
    exact Function.update_of_ne (hp.ne_alloc hq (Or.inl rfl)) ..
  have hown : ∀ b, owns (unmountLoop s pre).disk.blocks (.node f .file) b ↔
      owns s.disk.blocks (.node f .file) b := by
    intro b
    simp only [owns, hinode]
  refine ⟨pre, e, post, hsplit, ?_, fun b hb => ?_⟩
  · refine clearsExactly_of_bits (by rw [hinode]; exact hg hp.live) (fun b hb => ?_) fun b => ?_
    · rw [Marked, hbat hu1, (hb1 b).2 fun i hi hd => hnot i hi (hp.dropped hq ((hown b).1 hb) hd)]
      exact hp.marked hq ((hown b).1 hb)
    · have hdel : DeletedBlock (unmountLoop s pre).disk.blocks f false b ↔ Dropped s e b := by
        rw [hdrop]
        unfold DeletedBlock
        rw [hinode]
      rw [unmountLoop_append, hbat hu2, hbat hu1, hdel]
      exact ⟨fun hd => (hb2 b).1 ⟨e, List.mem_singleton.2 rfl, hd⟩, fun hd =>
        (hb2 b).2 fun i hi => by rw [List.mem_singleton.1 hi]; exact hd⟩
  · rw [Marked, sfsUnmount, hbat hu3,
      (hb3 b).1 ⟨e, List.mem_finRange e, (hdrop b).2 ((hg hp.live).deletedBlock hb)⟩]
    decide

/-- **What holds of a removed open file.** -/
theorem Pending.stillThere (hq : Quiet s) (hs : Sound s) (hp : Pending s e f k contents inode) :
    StillThere s f k contents inode where
  inode := hp.inode
  unnamed := fun _ => hq.inv.vol.deleted hp.isDeleted hp.fileid
  reads := hp.read hq hs.covers
  marked := fun _ => hp.marked hq
  exclusive := fun ho hb hb' => hq.inv.vol.own.unique ho.live hp.live hb hb'
  close := fun hk => by
    rcases hp.close hq with ⟨-, h1⟩ | ⟨h1, -⟩
    · exact ⟨_, h1, rfl⟩
    · omega
  lastClose := fun hk => by
    rcases hp.close hq with ⟨h1, -⟩ | ⟨-, bat, h1, h2⟩
    · omega
    · refine ⟨_, h2, clearsExactly_of_bits (hs.gapless hp.live) (fun _ => hp.marked hq) ?_, ?_⟩
      · rw [setEntry_disk, freed_blocks, Function.update_self]
        exact h1
      · exact reset_none hq (fun e' => (orphanEntries_same _ _ _ e').1) hp.fileid
  unmount := hp.unmount hq hs.gapless

end StillThere

/-- **Removing an open file**: a file `f` that is open `k ≥ 1` times after a run is removed.  Its name
is free at once.  After every later run with fewer than `k` closes of `f`, its blocks belong to it
alone, reads through the old handle see the writes through it, and the last close or `sfs_unmount`
clears exactly its bits. -/
theorem delayed_delete (disk : Gbd) (hv : SoundVolume disk) (hw : disk.Works) (cs0 : List Call)
    (s : Sfs) (hrun : run (sfsInit disk) cs0 = some s) (path : List UInt8) (f : ℕ)
    (hfile : sfsIsFolder path = false) (hr : (sfsResolveFileExt s path).block = f) (k : ℕ)
    (hk : 1 ≤ k) (hopen : handles f (sfsInit disk) cs0 0 = k) :
    ∃ s1 p, sfsRemove s path = (VFS_OK, s1) ∧ NameFree s s1 path f p ∧
      ∀ cs s2, run s1 cs = some s2 → closesOf f cs < k →
        StillThere s2 f (k - closesOf f cs)
          (cs.foldl (writesTo f) (fileBytes s.disk.blocks f)) (s.disk.blocks f) := by
  have hc0 : Counts (sfsInit disk) f 0 := Counts.of_none fun e => by
    simp only [sfsInit, sfsResetEntry]
    omega
  obtain ⟨hq, hs, hcount⟩ := hv.sound.run cs0 (hv.quiet hw) hc0 hrun
  rw [hopen] at hcount
  obtain ⟨e, he⟩ := hcount.entry hk
  obtain ⟨p, i, hl, hrem⟩ := sfsRemove_open hq hfile hr he
  have heff := sfsRemove_effect hq path
  have hq1 := sfsRemove_quiet hq path
  rw [hrem] at heff hq1
  have hs1 := hs.effect hq heff
  refine ⟨_, p, hrem, sfsRemove_nameFree hq hq1 hs.names hfile hr hl rfl, fun cs s2 hcs hclose => ?_⟩
  have hlive : Live s.disk.blocks s.openFiles noPins (.node f .file) := Or.inl hl.inTree
  have hkind : (s.openFiles e).isFolder = false :=
    kindOf_inj (hq.inv.vol.kind_eq (Or.inr (Or.inl ⟨e, he, rfl⟩)) hlive)
  have hp : Pending ((s.unlinked p f).setEntry e { s.openFiles e with isDeleted := true }) e f k
      (fileBytes s.disk.blocks f) (s.disk.blocks f) := by
    have hblock : ∀ b, owns s.disk.blocks (.node f .file) b →
        unlinkBlocks s.disk.blocks p f b = s.disk.blocks b := by
      intro b hb
      refine unlinkBlocks_of_ne ?_
      rintro rfl
      cases hq.inv.vol.own.unique hlive (VolInv.dir_live hl.dir) hb (Or.inl rfl)
    refine ⟨?_, ?_, ?_, ?_, ?_, hblock f (Or.inl rfl)⟩
    · rw [setEntry_openFiles, Function.update_self]
      exact he
    · rw [setEntry_openFiles, Function.update_self]
      exact hkind
    · rw [setEntry_openFiles, Function.update_self]
    · rw [setEntry_openFiles, Function.update_self]
      exact hcount.count he
    · exact fileBytes_congr (hs.covers hlive) (hq.inv.vol.size hlive) hblock
  have hc1 : Counts ((s.unlinked p f).setEntry e { s.openFiles e with isDeleted := true }) f k :=
    hcount.effect hq heff
  obtain ⟨hq2, hs2, -⟩ := hs1.run cs hq1 hc1 hcs
  exact (Pending.run cs hq1 hs1.covers hp hcs hclose).stillThere hq2 hs2

theorem emptyVolume_sound : SoundVolume emptyVolume where
  toWellFormed := emptyVolume_wellFormed
  names := fun p hp i hi _ _ h0 _ _ => by
    refine absurd ?_ (emptyVolume_link (p := p) (i := i) (f := direntInode (emptyVolume.blocks p) i)
      (k := direntKind (emptyVolume.blocks p) i))
    exact ⟨hp, hi, rfl, h0, rfl⟩
  gapless := fun h => absurd h emptyVolume_link
  covers := fun h => absurd h emptyVolume_link

/-- Make a file and open it. -/
def openCalls : List Call := [.create [47, 102] 600, .openFile [47, 102]]

/-- The state after `openCalls`. -/
def openState : Sfs := (run (sfsInit emptyVolume) openCalls).getD (sfsInit emptyVolume)

theorem run_openCalls : run (sfsInit emptyVolume) openCalls = some openState := by
  obtain ⟨s, h, -⟩ := run_inv openCalls (emptyVolume_wellFormed.quiet emptyVolume_works)
  rw [openState, h]
  rfl

set_option maxRecDepth 100000 in
/-- The file is removed while it is open once. -/
theorem delayed_delete_emptyVolume :
    ∃ s1 p, sfsRemove openState [47, 102] = (VFS_OK, s1) ∧ NameFree openState s1 [47, 102] 3 p ∧
      ∀ cs s2, run s1 cs = some s2 → closesOf 3 cs < 1 →
        StillThere s2 3 (1 - closesOf 3 cs)
          (cs.foldl (writesTo 3) (fileBytes openState.disk.blocks 3)) (openState.disk.blocks 3) :=
  delayed_delete emptyVolume emptyVolume_sound emptyVolume_works openCalls openState run_openCalls
    [47, 102] 3 (by decide) (by decide +kernel) 1 (by decide) (by decide +kernel)

end Buenos.Fs
