import Buenos.Fs.Sfs.Inodes
import Mathlib.Data.Set.Card

/-!
# Which runs leak blocks

`sfs_remove` frees the block of a directory but not what the directory contains, so removing a
directory that is not empty leaks its children (`sfs_leak_emptyVolume`).  No other call leaks:

* `Accounted` — every marked block is owned by a live node, and a file that is not deleted is linked.
* `Accounted.effect` — every call keeps this, if directories are empty when they are removed.

Principal result: `sfs_no_leak` — after every run that removes only empty directories and leaves no
file open, the marked blocks are the reachable ones, and `sfs_getfree` counts the others.
-/

namespace Buenos.Fs

open Bytes Ownership

/-! ## Statement -/

/-- Block `b` is a system block or reachable from the root directory. -/
def ReachableBlock (blocks : ℕ → Block) (b : ℕ) : Prop :=
  b < 3 ∨ ∃ f k, InTree blocks f k ∧ owns blocks (.node f k) b

/-- A bit is set only for reachable blocks. -/
def NoLeak (s : Sfs) : Prop :=
  ∀ b < s.totalvblocks, Marked s.disk.blocks b → ReachableBlock s.disk.blocks b

/-- No file is open. -/
def NoneOpen (s : Sfs) : Prop := ∀ e, (s.openFiles e).timesOpened = 0

/-- The blocks of the volume that cannot be reached. -/
def unreachableBlocks (s : Sfs) : Set ℕ :=
  { b | b < s.totalvblocks ∧ ¬ ReachableBlock s.disk.blocks b }

/-- A well-formed volume in which exactly the reachable blocks are marked and the block numbers of
an inode are used from the front. -/
structure TightVolume (disk : Gbd) : Prop extends WellFormed disk where
  complete : ∀ b < volumeBlocks disk, Marked disk.blocks b → ReachableBlock disk.blocks b
  gapless : ∀ {p i f}, Link disk.blocks p i f .file → Gapless (disk.blocks f)

/-- No entry of the directory block is live. -/
def emptyDir (md : Block) : Bool := (List.range SFS_MAX_FILES).all fun i => direntInode md i = 0

/-- The call does not remove a directory, or the directory is empty. -/
def removesEmpty (s : Sfs) : Call → Bool
  | .remove path => !sfsIsFolder path || path = [SLASH] ||
      (sfsResolveFileExt s path).block = VFS_ERROR ||
      emptyDir (s.disk.blocks (sfsResolveFileExt s path).block.toNat)
  | _ => true

/-! ## Unlinking a node without children -/

theorem emptyDir_iff {md : Block} : emptyDir md = true ↔ ∀ i < 25, direntInode md i = 0 := by
  simp [emptyDir, SFS_MAX_FILES]

/-- A directory has no entries. -/
def Childless (blocks : ℕ → Block) (f : ℕ) (k : Kind) : Prop :=
  k = .dir → ∀ i < 25, direntInode (blocks f) i = 0

section Unlink

variable {n : ℕ} {blocks : ℕ → Block} {files : Slot → OpenFile} {pins : Pins} {p i f : ℕ} {k : Kind}

/-- Nothing is below a node without children. -/
theorem VolInv.not_below (h : VolInv n blocks files pins) (hl : Link blocks p i f k)
    (hc : Childless blocks f k) {q j g : ℕ} {k' : Kind} (hq : Link blocks q j g k') : q ≠ f := by
  rintro rfl
  have hk := h.kind_eq (Or.inl hl.inTree) (VolInv.dir_live hq.dir)
  exact hq.live (hq.inode ▸ hc hk j hq.lt)

/-- Unlinking leaves the entries of other files. -/
theorem VolInv.unlink_entry (h : VolInv n blocks files pins) (hn : n ≤ 4096) {q j g : ℕ} {k' : Kind}
    (hq : Link blocks q j g k') (hne : g ≠ f) :
    direntInode (unlinkBlocks blocks p f q) j = g ∧
      direntName (unlinkBlocks blocks p f q) j = direntName (blocks q) j := by
  have hlt := h.lt (Or.inl hq.inTree)
  by_cases hqp : q = p
  · subst hqp
    have hs : sint (direntInode (blocks q) j) ≠ f := by
      rw [hq.inode, sint_of_lt (by omega)]
      omega
    rw [unlinkBlocks_inode hq.lt, if_neg hs, unlinkBlocks_name hs]
    exact ⟨hq.inode, rfl⟩
  · rw [unlinkBlocks_of_ne hqp]
    exact ⟨hq.inode, rfl⟩

/-- **Unlinking a node without children removes its link only.** -/
theorem VolInv.unlink_link (h : VolInv n blocks files pins) (hn : n ≤ 4096)
    (hl : Link blocks p i f k) (hc : Childless blocks f k) {q j g : ℕ} {k' : Kind}
    (hq : Link blocks q j g k') (hne : g ≠ f) : Link (unlinkBlocks blocks p f) q j g k' := by
  have hreach : ∀ q, ReachDir blocks q → q ≠ f → ReachDir (unlinkBlocks blocks p f) q := by
    intro q hq
    induction hq with
    | root => exact fun _ => .root
    | @sub q j hq hj h0 hk ih =>
      intro hne
      have hlq : Link blocks q j (direntInode (blocks q) j) .dir := ⟨hq, hj, rfl, h0, hk⟩
      obtain ⟨h1, h2⟩ := h.unlink_entry (p := p) hn hlq hne
      have := ReachDir.sub (ih (h.not_below hl hc hlq)) hj (by rw [h1]; exact h0)
        (by rw [direntKind, h2]; exact hk)
      rwa [h1] at this
  obtain ⟨h1, h2⟩ := h.unlink_entry (p := p) hn hq hne
  exact ⟨hreach q hq.dir (h.not_below hl hc hq), hq.lt, h1, hq.live, by
    rw [direntKind, h2]
    exact hq.kind⟩

theorem VolInv.unlink_inTree (h : VolInv n blocks files pins) (hn : n ≤ 4096)
    (hl : Link blocks p i f k) (hc : Childless blocks f k) {g : ℕ} {k' : Kind}
    (hg : InTree blocks g k') (hne : g ≠ f) : InTree (unlinkBlocks blocks p f) g k' := by
  rcases hg with hg | ⟨q, j, hq⟩
  · exact Or.inl hg
  · exact (h.unlink_link hn hl hc hq hne).inTree

/-- Unlinking rewrites a directory, so live files keep their inodes. -/
theorem VolInv.unlink_inode (h : VolInv n blocks files pins) (hl : Link blocks p i f k) {g : ℕ}
    (hg : Live blocks files pins (.node g .file)) : unlinkBlocks blocks p f g = blocks g := by
  refine unlinkBlocks_of_ne ?_
  rintro rfl
  cases h.kind_eq (VolInv.dir_live hl.dir) hg

theorem VolInv.unlink_complete (h : VolInv n blocks files pins) (hl : Link blocks p i f k)
    (hc : Complete (Live blocks files pins) (owns blocks) fun b => b < n ∧ Marked blocks b) :
    Complete (Live blocks files pins) (owns (unlinkBlocks blocks p f))
      fun b => b < n ∧ Marked (unlinkBlocks blocks p f) b := by
  have hp2 := h.two_le (VolInv.dir_live hl.dir)
  intro b hb
  rw [Marked, unlinkBlocks_of_ne (by simp only [SFS_ALLOCATION_BLOCK]; omega)] at hb
  obtain ⟨o, ho, hob⟩ := hc b hb
  refine ⟨o, ho, ?_⟩
  cases o with
  | system => exact hob
  | node g k' =>
    rcases hob with hob | ⟨rfl, hob⟩
    · exact Or.inl hob
    · right
      rw [h.unlink_inode hl ho]
      exact ⟨rfl, hob⟩

end Unlink

/-- The condition on a removal means that the removed node has no children. -/
theorem childless_of_removesEmpty {s : Sfs} {pins : Pins} (h : Inv s pins) {path : List UInt8}
    {p i f : ℕ} (hl : Link s.disk.blocks p i f (kindOf (sfsIsFolder path)))
    (hr : (sfsResolveFileExt s path).block = f) (hc : removesEmpty s (.remove path) = true) :
    Childless s.disk.blocks f (kindOf (sfsIsFolder path)) := by
  intro hk
  simp only [removesEmpty, Bool.or_eq_true, Bool.not_eq_true', decide_eq_true_eq, hr,
    Int.toNat_natCast] at hc
  rcases hc with ((hc | rfl) | hc) | hc
  · rw [hc] at hk
    cases hk
  · have hroot : (sfsResolveFileExt s [SLASH]).block = 2 := rfl
    exact absurd (Int.ofNat_inj.1 (hr.symm.trans hroot)) (h.vol.link_root hl)
  · have := VFS_ERROR_neg
    omega
  · exact emptyDir_iff.1 hc

/-! ## The invariant -/

/-- The marked blocks of the volume. -/
def usedBlocks (s : Sfs) (b : ℕ) : Prop := b < s.totalvblocks ∧ Marked s.disk.blocks b

/-- **Nothing is lost**: marked blocks have a live owner, and files that are not deleted are
linked. -/
structure Accounted (s : Sfs) : Prop where
  complete : Complete (Live s.disk.blocks s.openFiles noPins) (owns s.disk.blocks) (usedBlocks s)
  gapless : Inodes Gapless s
  linked : ∀ {e f}, (s.openFiles e).fileid = (f : ℕ) → (s.openFiles e).isDeleted = false →
    InTree s.disk.blocks f (kindOf (s.openFiles e).isFolder)

section Keep

variable {s s' : Sfs}

/-- An entry replaced by one that keeps its file open. -/
theorem isOpen_update {files : Slot → OpenFile} {e : Slot} {f : OpenFile} {g : ℕ} {k : Kind}
    (h : IsOpen files g k) (hf : (files e).fileid = g → f.fileid = g ∧ f.isFolder = (files e).isFolder) :
    IsOpen (Function.update files e f) g k := by
  obtain ⟨e', h1, h2⟩ := h
  refine ⟨e', ?_⟩
  by_cases he : e' = e
  · subst he
    rw [Function.update_self, (hf h1).1, (hf h1).2]
    exact ⟨rfl, h2⟩
  · rw [Function.update_of_ne he]
    exact ⟨h1, h2⟩

/-- Replacing one entry keeps the account if its file stays live and linked. -/
theorem Accounted.setEntry (ha : Accounted s) {e : Slot} {x : OpenFile}
    (hgap : Inodes Gapless (s.setEntry e x))
    (hlive : ∀ {g : ℕ}, (s.openFiles e).fileid = g →
      InTree s.disk.blocks g (kindOf (s.openFiles e).isFolder) ∨
        (x.fileid = g ∧ x.isFolder = (s.openFiles e).isFolder))
    (hlinked : ∀ {g : ℕ}, x.fileid = g → x.isDeleted = false →
      InTree s.disk.blocks g (kindOf x.isFolder)) : Accounted (s.setEntry e x) := by
  refine ⟨fun b hb => ?_, hgap, fun {e' g} h1 h2 => ?_⟩
  · obtain ⟨o, ho, hob⟩ := ha.complete b hb
    refine ⟨o, ?_, hob⟩
    cases o with
    | system => trivial
    | node g k =>
      rcases ho with ho | ⟨e', h1, h2⟩ | ⟨q, hp⟩
      · exact Or.inl ho
      · by_cases hee : e' = e
        · subst hee
          rcases hlive h1 with hl | ⟨h3, h4⟩
          · rw [h2] at hl
            exact Or.inl hl
          · refine Or.inr (Or.inl ⟨e', ?_⟩)
            rw [setEntry_openFiles, Function.update_self, h4]
            exact ⟨h3, h2⟩
        · refine Or.inr (Or.inl ⟨e', ?_⟩)
          rw [setEntry_openFiles, Function.update_of_ne hee]
          exact ⟨h1, h2⟩
      · exact absurd hp id
  · simp only [setEntry_openFiles] at h1 h2 ⊢
    by_cases hee : e' = e
    · subst hee
      rw [Function.update_self] at h1 h2 ⊢
      exact hlinked h1 h2
    · rw [Function.update_of_ne hee] at h1 h2 ⊢
      exact ha.linked h1 h2

theorem Accounted.created (hq : Quiet s) (ha : Accounted s) {path : List UInt8} {p idx f : ℕ}
    {data : List ℕ} {size : ℕ} (hgap : Inodes Gapless s')
    (hcr : CreateOk s s' path p idx f data size) : Accounted s' := by
  have hvol := hq.inv.vol
  have hgi := (hcr.grows hq.inv).inTree_iff
  refine ⟨?_, hgap, fun {e' g} h1 h2 => ?_⟩
  · refine ha.complete.acquire (x := .node f (kindOf (sfsIsFolder path))) ?_ ?_ ?_ ?_
    · intro o ho
      cases o with
      | system => trivial
      | node g k =>
        rw [hcr.openFiles]
        exact ho.imp_left fun ho => (hgi g k).2 (Or.inl ho)
    · exact Or.inl ((hgi _ _).2 (Or.inr ⟨rfl, rfl⟩))
    · intro o b ho hb
      cases o with
      | system => exact hb
      | node g k =>
        rcases hb with hb | ⟨rfl, hb⟩
        · exact Or.inl hb
        · right
          rw [hcr.created.same hvol ho (by
            rintro rfl
            cases hvol.kind_eq (VolInv.dir_live hcr.reach) ho)]
          exact ⟨rfl, hb⟩
    · intro b hb
      rw [usedBlocks, Marked, hcr.created.bits, hcr.state] at hb
      rw [hcr.created.owns_iff hvol hcr.num]
      by_cases hm : b ∈ f :: data
      · exact Or.inr hm
      · rw [if_neg hm] at hb
        exact Or.inl hb
  · rw [hcr.openFiles] at h1 h2 ⊢
    exact (hgi _ _).2 (Or.inl (ha.linked h1 h2))

theorem Accounted.written (hq : Quiet s) (ha : Accounted s) {f : ℕ} {blocks : ℕ → Block}
    (hf : Live s.disk.blocks s.openFiles noPins (.node f .file))
    (hb : ∀ b, Untouched (s.disk.blocks f) b → blocks b = s.disk.blocks b)
    (hgap : Inodes Gapless { s with disk := s.disk.withBlocks blocks }) :
    Accounted { s with disk := s.disk.withBlocks blocks } := by
  have hvol := hq.inv.vol
  have htree : SameTree s.disk.blocks blocks := fun p hp =>
    hb p (hvol.node_untouched hf (VolInv.dir_live hp))
  have h1 : blocks SFS_ALLOCATION_BLOCK = s.disk.blocks SFS_ALLOCATION_BLOCK :=
    hb _ (hvol.untouched hf (o := .system) trivial (show 1 < 2 by omega) (by decide) (by simp))
  refine ⟨fun b hbu => ?_, hgap, fun {e' g} h1 h2 => (htree.inTree_iff _ _).2 (ha.linked h1 h2)⟩
  simp only [usedBlocks, Marked, withBlocks_blocks, h1] at hbu
  obtain ⟨o, ho, hob⟩ := ha.complete b hbu
  refine ⟨o, ?_, ?_⟩
  · cases o with
    | system => trivial
    | node g k => exact ho.imp_left (htree.inTree_iff g k).2
  · cases o with
    | system => exact hob
    | node g k =>
      simp only [owns, withBlocks_blocks, hb g (hvol.node_untouched hf ho)]
      exact hob

/-- Unlinking a node without children keeps the account as long as the node is open. -/
theorem Accounted.unlinked (hq : Quiet s) (ha : Accounted s) {p i f : ℕ} {k : Kind} {e : Slot}
    (hl : Link s.disk.blocks p i f k) (hch : Childless s.disk.blocks f k)
    (he : (s.openFiles e).fileid = f)
    (hgap : Inodes Gapless ((s.unlinked p f).setEntry e { s.openFiles e with isDeleted := true })) :
    Accounted ((s.unlinked p f).setEntry e { s.openFiles e with isDeleted := true }) := by
  have hvol := hq.inv.vol
  have hkind : kindOf (s.openFiles e).isFolder = k :=
    hvol.kind_eq (Or.inr (Or.inl ⟨e, he, rfl⟩)) (Or.inl hl.inTree)
  refine ⟨fun b hbu => ?_, hgap, fun {e' g} h1 h2 => ?_⟩
  · obtain ⟨o, ho, hob⟩ := hvol.unlink_complete hl ha.complete b hbu
    refine ⟨o, ?_, hob⟩
    cases o with
    | system => trivial
    | node g k' =>
      rcases ho with ho | ho | ⟨q, hp⟩
      · by_cases hgf : g = f
        · subst hgf
          refine Or.inr (Or.inl ⟨e, ?_⟩)
          rw [setEntry_openFiles, Function.update_self]
          exact ⟨he, hkind.trans (hvol.kind_eq (Or.inl hl.inTree) (Or.inl ho))⟩
        · exact Or.inl (hvol.unlink_inTree hq.inv.small hl hch ho hgf)
      · exact Or.inr (Or.inl (isOpen_update ho fun hfid => ⟨hfid, rfl⟩))
      · exact absurd hp id
  · simp only [setEntry_openFiles] at h1 h2 ⊢
    by_cases hee : e' = e
    · subst hee
      rw [Function.update_self] at h2
      cases h2
    · rw [Function.update_of_ne hee, unlinked_openFiles] at h1 h2 ⊢
      refine hvol.unlink_inTree hq.inv.small hl hch (ha.linked h1 h2) ?_
      rintro rfl
      exact hee (hvol.distinct (h1.trans he.symm) (by omega))

/-- Given back, the blocks of a node are no longer used. -/
theorem Freeing.used {blocks : ℕ → Block} {f : ℕ} {isFolder : Bool} {bat : Block}
    (hb : Freeing blocks f isFolder bat) (hg : isFolder = false → Gapless (blocks f)) {b : ℕ}
    (hm : bitmapGet bat b = 1) :
    Marked blocks b ∧ ¬ owns blocks (.node f (kindOf isFolder)) b := by
  have hnd : ¬ DeletedBlock blocks f isFolder b := fun hd => by
    rw [(hb b).1 hd] at hm
    cases hm
  refine ⟨((hb b).2 hnd).symm.trans hm, fun ho => hnd ?_⟩
  cases isFolder with
  | true =>
    rcases ho with ho | ⟨hk, -⟩
    · exact Or.inl ho
    · cases hk
  | false => exact (hg rfl).deletedBlock ho

theorem owns_alloc {blocks : ℕ → Block} {bat : Block} {o : Owner} {b : ℕ}
    (h2 : ∀ f k, o = .node f k → 2 ≤ f) :
    owns (Function.update blocks SFS_ALLOCATION_BLOCK bat) o b ↔ owns blocks o b := by
  cases o with
  | system => exact Iff.rfl
  | node f k =>
    have := h2 f k rfl
    simp only [owns]
    rw [Function.update_of_ne (by simp only [SFS_ALLOCATION_BLOCK]; omega)]

/-- Giving back a node that nothing names any more keeps the account: `hlive` says which nodes stay
live in the new state `s'`. -/
theorem Accounted.givenBack {blocks : ℕ → Block} {f : ℕ} {isFolder : Bool} {bat : Block}
    (hq' : Quiet s')
    (hc : Complete (Live s.disk.blocks s.openFiles noPins) (owns blocks)
      fun b => b < s'.totalvblocks ∧ Marked blocks b)
    (hblocks : s'.disk.blocks = Function.update blocks SFS_ALLOCATION_BLOCK bat)
    (hb : Freeing blocks f isFolder bat) (hgf : isFolder = false → Gapless (blocks f))
    (hlive : ∀ {g k}, Live s.disk.blocks s.openFiles noPins (.node g k) →
      Owner.node g k = .node f (kindOf isFolder) ∨ Live s'.disk.blocks s'.openFiles noPins (.node g k))
    (hgap : Inodes Gapless s')
    (hlinked : ∀ {e f}, (s'.openFiles e).fileid = (f : ℕ) → (s'.openFiles e).isDeleted = false →
      InTree s'.disk.blocks f (kindOf (s'.openFiles e).isFolder)) : Accounted s' := by
  refine ⟨fun b hbu => ?_, hgap, hlinked⟩
  have hrel : Complete (Live s'.disk.blocks s'.openFiles noPins) _ (usedBlocks s') :=
    hc.release (x := .node f (kindOf isFolder)) (fun o ho => ?_) (fun b hbu => ?_)
  · obtain ⟨o, ho, hob⟩ := hrel b hbu
    refine ⟨o, ho, ?_⟩
    rw [hblocks]
    refine (owns_alloc fun g k hgk => ?_).2 hob
    subst hgk
    exact hq'.inv.vol.two_le ho
  · cases o with
    | system => exact Or.inr trivial
    | node g k => exact hlive ho
  · have hm := hbu.2
    rw [Marked, hblocks, Function.update_self] at hm
    obtain ⟨h1, h2⟩ := hb.used hgf hm
    exact ⟨⟨hbu.1, h1⟩, h2⟩

end Keep

/-- **Every call keeps the account**, if directories are empty when they are removed. -/
theorem Accounted.effect {s s' : Sfs} {c : Call} {r : Reply} (hq : Quiet s) (ha : Accounted s)
    (hc : removesEmpty s c = true) (h : Effect s c r s') (hq' : Quiet s') : Accounted s' := by
  have hvol := hq.inv.vol
  have hgap : Inodes Gapless s' := Inodes.effect NewInode.gapless hq ha.gapless h
  cases h with
  | failed => exact ha
  | read => exact ha
  | @opened path f e hf hqp he =>
    refine ha.setEntry hgap (fun {g} hg => Or.inr ?_) fun {g} h1 h2 => ?_
    · unfold openedEntry
      rw [if_neg (by omega)]
      exact ⟨hg, rfl⟩
    · rw [openedEntry_isDeleted] at h2
      unfold openedEntry at h1 ⊢
      rcases he with he | ⟨he, -⟩
      · rw [if_neg (by omega)] at h1 ⊢
        exact ha.linked h1 h2
      · rw [if_pos he] at h1 ⊢
        rw [← Int.ofNat_inj.1 h1]
        exact hf
  | created hcr => exact ha.created hq hgap hcr
  | @written e f tid offset buf he hk =>
    obtain ⟨blocks, hd, hb⟩ := writeBody_frame s.disk f buf buf.length offset
    rw [hd] at hgap ⊢
    exact ha.written hq (Or.inr (Or.inl ⟨e, he, by rw [hk]; rfl⟩)) hb hgap
  | closed => exact ha.setEntry hgap (fun hg => Or.inr ⟨hg, rfl⟩) fun h1 h2 => ha.linked h1 h2
  | released _ _ hd =>
    -- the released file is linked, so it stays live
    exact ha.setEntry hgap (fun hg => Or.inl (ha.linked hg hd)) fun h1 => by cases h1
  | @freed e f bat he ht hd hb =>
    have htree := hvol.sameTree_alloc bat
    have hsame := orphanEntries_same s.openFiles f (s.openFiles e).isFolder
    have hlivef : Live s.disk.blocks s.openFiles noPins (.node f (kindOf (s.openFiles e).isFolder)) :=
      Or.inr (Or.inl ⟨e, he, rfl⟩)
    refine Accounted.givenBack hq' ha.complete rfl hb
      (fun hk => ha.gapless (by rw [hk] at hlivef; exact hlivef)) (fun {g k} ho => ?_) hgap
      fun {e' g} h1 h2 => ?_
    · rcases ho with ho | ⟨e', h1, h2⟩ | ⟨q, hp⟩
      · exact Or.inr (Or.inl ((htree.inTree_iff g k).2 ho))
      · by_cases hee : e' = e
        · subst hee
          left
          rw [← h2, Int.ofNat_inj.1 (h1.symm.trans he)]
        · refine Or.inr (Or.inr (Or.inl ⟨e', ?_⟩))
          rw [setEntry_openFiles, Function.update_of_ne hee, freed_openFiles, (hsame e').1,
            (hsame e').2.1]
          exact ⟨h1, h2⟩
      · exact absurd hp id
    · simp only [setEntry_openFiles] at h1 h2 ⊢
      by_cases hee : e' = e
      · subst hee
        rw [Function.update_self] at h1
        cases h1
      · rw [Function.update_of_ne hee, freed_openFiles] at h1 h2 ⊢
        rw [(hsame e').1] at h1
        rw [(hsame e').2.2] at h2
        rw [(hsame e').2.1]
        exact (htree.inTree_iff _ _).2 (ha.linked h1 h2)
  | unlinked hl hr he =>
    exact ha.unlinked hq hl (childless_of_removesEmpty hq.inv hl hr hc) he hgap
  | @removed path p i f bat hl hr hno hb =>
    have hch := childless_of_removesEmpty hq.inv hl hr hc
    have htree := (hvol.unlink hl).sameTree_alloc bat
    have hsame := orphanEntries_same s.openFiles f (sfsIsFolder path)
    have hlivef : Live s.disk.blocks s.openFiles noPins (.node f (kindOf (sfsIsFolder path))) :=
      Or.inl hl.inTree
    have hkeep : ∀ {g k}, InTree s.disk.blocks g k → g ≠ f →
        InTree ((s.unlinked p f).freed f (sfsIsFolder path) bat).disk.blocks g k := by
      intro g k hg hne
      exact (htree.inTree_iff g k).2 (hvol.unlink_inTree hq.inv.small hl hch hg hne)
    refine Accounted.givenBack hq' (hvol.unlink_complete hl ha.complete) rfl hb (fun hk => ?_)
      (fun {g k} ho => ?_) hgap fun {e' g} h2 h3 => ?_
    · rw [hk] at hlivef
      rw [hvol.unlink_inode hl hlivef]
      exact ha.gapless hlivef
    · rcases ho with ho | ho | ⟨q, hp⟩
      · by_cases hgf : g = f
        · subst hgf
          left
          rw [hvol.kind_eq (Or.inl ho) hlivef]
        · exact Or.inr (Or.inl (hkeep ho hgf))
      · exact Or.inr (Or.inr (Or.inl (isOpen_orphanEntries.2 ho)))
      · exact absurd hp id
    · simp only [freed_openFiles, unlinked_openFiles] at h2 h3 ⊢
      rw [(hsame e').1] at h2
      rw [(hsame e').2.2] at h3
      rw [(hsame e').2.1]
      refine hkeep (ha.linked h2 h3) ?_
      rintro rfl
      exact hno e' h2

/-! ## After a run -/

theorem TightVolume.accounted {disk : Gbd} (h : TightVolume disk) : Accounted (sfsInit disk) where
  complete := by
    intro b hb
    rcases h.complete b hb.1 hb.2 with h3 | ⟨f, k, hf, hob⟩
    · by_cases h2 : b = 2
      · exact ⟨.node 2 .dir, VolInv.root_live, Or.inl h2⟩
      · exact ⟨.system, trivial, show b < 2 by omega⟩
    · exact ⟨.node f k, Or.inl hf, hob⟩
  gapless := fun hf => by
    obtain ⟨p, i, hl⟩ := h.linked hf
    exact h.gapless hl
  linked := fun he => by cases he

/-- With no file open, what is accounted for is reachable. -/
theorem Accounted.noLeak {s : Sfs} (hq : Quiet s) (ha : Accounted s) (hn : NoneOpen s) : NoLeak s := by
  intro b hb hm
  obtain ⟨o, ho, hob⟩ := ha.complete b ⟨hb, hm⟩
  cases o with
  | system =>
    have hob : b < 2 := hob
    exact Or.inl (by omega)
  | node f k =>
    rcases ho with ho | ⟨e, h1, -⟩ | ⟨q, hp⟩
    · exact Or.inr ⟨f, k, ho, hob⟩
    · have := (hq.idle e).opened (by omega)
      rw [hn e] at this
      omega
    · exact absurd hp id

/-- Set bits and clear bits add up. -/
theorem sum_bitmapGet (bat : Block) :
    ∀ n : ℕ, ((List.range n).map (bitmapGet bat)).sum + (freeBits bat n).card = n
  | 0 => rfl
  | n + 1 => by
    have ih := sum_bitmapGet bat n
    rw [List.range_succ, List.map_append, List.sum_append, List.map_singleton, List.sum_singleton]
    unfold freeBits at ih ⊢
    rw [Finset.range_add_one, Finset.filter_insert]
    rcases bitmapGet_eq_zero_or_one bat n with h | h
    · rw [if_pos h, Finset.card_insert_of_notMem (by simp), h]
      omega
    · rw [if_neg (by omega), h]
      omega

/-- **`sfs_getfree`** on a volume without leaks counts the unreachable blocks. -/
theorem sfsGetfree_eq {s : Sfs} (hq : Quiet s) (ht : s.totalblocks = s.totalvblocks)
    (hl : NoLeak s) : sfsGetfree s = 512 * (unreachableBlocks s).ncard := by
  have hs := hq.inv.small
  have ho := hq.inv.onDisk
  have h2 := hq.inv.two_lt
  have hset : unreachableBlocks s =
      ↑(freeBits (s.disk.blocks SFS_ALLOCATION_BLOCK) s.totalvblocks) := by
    ext b
    rw [Finset.mem_coe, mem_freeBits]
    constructor
    · rintro ⟨h3, h4⟩
      refine ⟨h3, ?_⟩
      by_contra hne
      exact h4 (hl b h3 (bitmapGet_ne_zero.1 hne))
    · rintro ⟨h3, h4⟩
      refine ⟨h3, fun hr => ?_⟩
      have hm : Marked s.disk.blocks b := by
        rcases hr with hr | ⟨f, k, hf, hob⟩
        · by_cases hb2 : b = 2
          · exact hq.inv.vol.marked VolInv.root_live (Or.inl hb2)
          · exact hq.inv.vol.marked (o := .system) trivial (show b < 2 by omega)
        · exact hq.inv.vol.marked (o := .node f k) (Or.inl hf) hob
      exact absurd (h4.symm.trans hm) (by decide)
  have hsum := sum_bitmapGet (s.disk.blocks SFS_ALLOCATION_BLOCK) s.totalvblocks
  rw [hset, Set.ncard_coe_finset]
  unfold sfsGetfree
  rw [readVblock_works hq.inv.works (show SFS_ALLOCATION_BLOCK < s.disk.totalBlocks by
    simp only [SFS_ALLOCATION_BLOCK]; omega)]
  simp only [ht, Nat.mod_self, SFS_VBLOCK_SIZE, SFS_BLOCK_SIZE]
  rw [sint_of_lt (by omega)]
  omega

/-- **No leak**: after every run that removes only empty directories and leaves no file open, the
marked blocks are the reachable ones and `sfs_getfree` counts the others. -/
theorem sfs_no_leak (disk : Gbd) (ht : TightVolume disk) (hw : disk.Works) (cs : List Call)
    (hc : everyStep removesEmpty (sfsInit disk) cs = true) :
    ∃ s, run (sfsInit disk) cs = some s ∧ (NoneOpen s →
      NoLeak s ∧ sfsGetfree s = 512 * (unreachableBlocks s).ncard) := by
  obtain ⟨s, h1, ⟨h2, h3⟩, h4⟩ := run_induction (C := removesEmpty)
    (P := fun s => Accounted s ∧ s.totalblocks = s.totalvblocks)
    (fun hq hp hcond he hq' => ⟨hp.1.effect hq hcond he hq', by
      rw [he.totals.1, he.totals.2]
      exact hp.2⟩) cs (ht.quiet hw)
    ⟨ht.accounted, by simp [sfsInit, SFS_BLOCKS_PER_VBLOCK]⟩ hc
  refine ⟨s, h1, fun hn => ?_⟩
  have hl := h2.noLeak h4 hn
  exact ⟨hl, sfsGetfree_eq h4 h3 hl⟩

theorem emptyVolume_tight : TightVolume emptyVolume where
  toWellFormed := emptyVolume_wellFormed
  complete := by
    have h : ∀ b < 12, Marked emptyVolume.blocks b → b < 3 := by decide
    exact fun b hb hm => Or.inl (h b hb hm)
  gapless := fun h => absurd h emptyVolume_link

set_option maxRecDepth 100000 in
/-- Make a directory and a file in it, remove the file, then the directory. -/
theorem sfs_no_leak_emptyVolume :
    ∃ s, run (sfsInit emptyVolume)
      [.create [47, 100, 47] 0, .create [47, 100, 47, 102] 600, .remove [47, 100, 47, 102],
        .remove [47, 100, 47]] = some s ∧ (NoneOpen s →
      NoLeak s ∧ sfsGetfree s = 512 * (unreachableBlocks s).ncard) :=
  sfs_no_leak emptyVolume emptyVolume_tight emptyVolume_works _ (by decide +kernel)

/-! ## Removing a directory that is not empty -/

/-- Make a directory and a file in it, remove the directory. -/
def leakCalls : List Call :=
  [.create [47, 100, 47] 0, .create [47, 100, 47, 102] 600, .remove [47, 100, 47]]

/-- The state after `leakCalls`. -/
def leakState : Sfs := (run (sfsInit emptyVolume) leakCalls).getD (sfsInit emptyVolume)

/-- With an empty root directory only the system blocks are reachable. -/
theorem reachableBlock_emptyRoot {blocks : ℕ → Block}
    (h : ∀ i < 25, direntInode (blocks 2) i = 0) {b : ℕ} (hb : ReachableBlock blocks b) : b < 3 := by
  have hroot : ∀ p, ReachDir blocks p → p = 2 := by
    intro p hp
    induction hp with
    | root => rfl
    | @sub q i _ hi h0 _ ih =>
      subst ih
      exact absurd (h i hi) h0
  rcases hb with hb | ⟨f, k, ⟨rfl, rfl⟩ | ⟨p, i, hl⟩, ho⟩
  · exact hb
  · rcases ho with rfl | ⟨hk, -⟩
    · omega
    · cases hk
  · have hp := hroot p hl.dir
    subst hp
    exact absurd (hl.inode.symm.trans (h i hl.lt)) hl.live

set_option maxRecDepth 100000 in
/-- **Removing a directory that is not empty leaks its children**: on a tight volume, after making
`/d/` and `/d/f` and removing `/d/`, no file is open and block 4, the inode of `/d/f`, is marked but
not reachable. -/
theorem sfs_leak_emptyVolume :
    TightVolume emptyVolume ∧ emptyVolume.Works ∧
      run (sfsInit emptyVolume) leakCalls = some leakState ∧ NoneOpen leakState ∧
      4 < leakState.totalvblocks ∧ Marked leakState.disk.blocks 4 ∧
      ¬ ReachableBlock leakState.disk.blocks 4 := by
  have hrun : (run (sfsInit emptyVolume) leakCalls).isSome = true ∧
      ((∀ e, (leakState.openFiles e).timesOpened = 0) ∧ 4 < leakState.totalvblocks) ∧
      Marked leakState.disk.blocks 4 ∧ ∀ i < 25, direntInode (leakState.disk.blocks 2) i = 0 := by
    decide +kernel
  obtain ⟨hsome, ⟨hnone, htotal⟩, hmarked, hroot⟩ := hrun
  refine ⟨emptyVolume_tight, emptyVolume_works, ?_, hnone, htotal, hmarked, ?_⟩
  · obtain ⟨s, hs⟩ := Option.isSome_iff_exists.1 hsome
    rw [leakState, hs]
    rfl
  · intro h
    exact absurd (reachableBlock_emptyRoot hroot h) (by decide)

end Buenos.Fs
