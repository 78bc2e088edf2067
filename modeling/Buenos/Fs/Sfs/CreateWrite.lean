import Buenos.Fs.Sfs.Invariant

/-!
# Creating files and writing data keep the volume invariant

* `Created.grows` — a creation adds one entry to the tree and nothing else.
* `Inv.created` — a creation keeps the invariant: the new node owns fresh blocks only.
* `Inv.writeData` — writing to the data blocks of a live file keeps the invariant.
* `sfsCreate_spec` — the outcomes of `sfs_create`.
-/

namespace Buenos.Fs

open Bytes Ownership

/-! ## Creation -/

/-- `numvblocks` blocks hold `size` bytes; a size that overflows needs too many. -/
theorem numVblocks_size {size : ℤ} (h0 : 0 ≤ size) (hs : size < 2 ^ 31)
    (hn : numVblocks size ≤ SFS_BLOCKS_MAX) : size ≤ 512 * numVblocks size := by
  unfold numVblocks at hn ⊢
  simp only [SFS_BLOCKS_PER_VBLOCK, Nat.div_one, Nat.mod_one, ne_eq, not_true_eq_false, if_false,
    Nat.add_zero, SFS_BLOCK_SIZE, SFS_BLOCKS_MAX, Nat.cast_ofNat] at hn ⊢
  have hsum : ((size + 512 - 1) % 2 ^ 32).toNat = (size + 511).toNat := by omega
  rw [hsum] at hn ⊢
  by_cases hlt : size + 511 < 2 ^ 31
  · have he : sint (size + 511).toNat = size + 511 := by
      rw [sint_of_lt (by omega)]
      omega
    rw [he, Int.tdiv_eq_ediv_of_nonneg (by omega)] at hn ⊢
    omega
  · have he : sint (size + 511).toNat = -(2 ^ 32 - (size + 511)) := by
      unfold sint
      rw [if_neg (by omega)]
      omega
    rw [he, Int.neg_tdiv, Int.tdiv_eq_ediv_of_nonneg (by omega)] at hn
    omega

section Created

variable {n : ℕ} {blocks blocks' : ℕ → Block} {files : Slot → OpenFile} {pins : Pins} {p : ℕ}
  {name : List UInt8} {isFolder : Bool} {size num idx f : ℕ} {data : List ℕ}

theorem VolInv.marked (h : VolInv n blocks files pins) {o : Owner} {b : ℕ}
    (ho : Live blocks files pins o) (hb : owns blocks o b) : Marked blocks b := h.own.used ho hb

/-- A block that a live owner holds is not among the fresh ones. -/
theorem Created.not_fresh (hc : Created n blocks blocks' p name isFolder size num idx f data)
    (h : VolInv n blocks files pins) {o : Owner} {b : ℕ} (ho : Live blocks files pins o)
    (hb : owns blocks o b) : b ∉ f :: data := fun hm =>
  absurd ((hc.fresh b hm).2.symm.trans (h.marked ho hb)) (by decide)

theorem Created.system_ne (hc : Created n blocks blocks' p name isFolder size num idx f data)
    (h : VolInv n blocks files pins) {b : ℕ} (hb : b ∈ f :: data) : 3 ≤ b := by
  by_contra hlt
  by_cases h2 : b = 2
  · exact hc.not_fresh h (VolInv.root_live) (Or.inl h2) hb
  · exact hc.not_fresh h (o := .system) trivial (show b < 2 by omega) hb

/-- Live nodes other than the parent are not touched. -/
theorem Created.same (hc : Created n blocks blocks' p name isFolder size num idx f data)
    (h : VolInv n blocks files pins) {g : ℕ} {k : Kind} (hg : Live blocks files pins (.node g k))
    (hne : g ≠ p) : blocks' g = blocks g := by
  have := h.two_le hg
  exact hc.other g (by simp only [SFS_ALLOCATION_BLOCK]; omega) hne (hc.not_fresh h hg (Or.inl rfl))

/-- **A creation adds one entry to the tree.** -/
theorem Created.grows (hc : Created n blocks blocks' p name isFolder size num idx f data)
    (h : VolInv n blocks files pins) (hn : n ≤ 4096) (hr : ReachDir blocks p)
    (hname : sfsIsFolder name = isFolder) (hlen : name.length ≤ 15) (h0 : (0 : UInt8) ∉ name) :
    Grows blocks blocks' p idx f (kindOf isFolder) := by
  have hfn := (hc.fresh f (List.mem_cons_self ..)).1
  have hf3 := hc.system_ne h (List.mem_cons_self ..)
  refine ⟨hr, hc.idx_lt, hc.slot, ?_, by omega, ?_, ?_, ?_, ?_⟩
  · rw [hc.entry, setDirent_inode _ _ hc.idx_lt (by omega), if_pos rfl]
  · rw [hc.entry, direntKind, setDirent_name _ hc.idx_lt hlen h0, if_pos rfl, hname]
  · intro hf
    exact hc.not_fresh h (VolInv.dir_live hf) (Or.inl rfl) (List.mem_cons_self ..)
  · intro hk
    cases isFolder with
    | true => exact (hc.folder rfl).2
    | false => cases hk
  · intro q hq i hi hne
    by_cases hqp : q = p
    · subst hqp
      have hi' : i ≠ idx := fun he => hne ⟨rfl, he⟩
      rw [hc.entry, direntKind, direntKind, setDirent_inode _ _ hc.idx_lt (by omega),
        setDirent_name _ hc.idx_lt hlen h0, if_neg hi', if_neg hi']
      exact ⟨rfl, rfl⟩
    · rw [hc.same h (VolInv.dir_live hq) hqp]
      exact ⟨rfl, rfl⟩

/-- The new node owns exactly the fresh blocks. -/
theorem Created.owns_iff (hc : Created n blocks blocks' p name isFolder size num idx f data)
    (h : VolInv n blocks files pins) (hnum : num ≤ 127) (b : ℕ) :
    owns blocks' (.node f (kindOf isFolder)) b ↔ b ∈ f :: data := by
  rw [List.mem_cons]
  constructor
  · rintro (hb | ⟨hk, hb0, j, hj, hb⟩)
    · exact Or.inl hb
    · cases isFolder with
      | true => cases hk
      | false =>
        rw [(hc.file rfl).2.2 j hj] at hb
        right
        by_cases hjl : j < data.length
        · rw [List.getD_eq_getElem data 0 hjl] at hb
          exact hb ▸ List.getElem_mem hjl
        · rw [List.getD_eq_default _ _ (by omega)] at hb
          exact absurd hb.symm hb0
  · rintro (hb | hb)
    · exact Or.inl hb
    · cases isFolder with
      | true =>
        rw [(hc.folder rfl).1] at hb
        cases hb
      | false =>
        have h3 := hc.system_ne h (List.mem_cons_of_mem f hb)
        obtain ⟨j, hj, rfl⟩ := List.getElem_of_mem hb
        have hjn : j < 127 := by
          have := (hc.file rfl).1
          omega
        exact Or.inr ⟨rfl, by omega, j, hjn,
          by rw [(hc.file rfl).2.2 j hjn, List.getD_eq_getElem data 0 hj]⟩

/-- **A creation keeps the invariant.** -/
theorem VolInv.created (h : VolInv n blocks files pins)
    (hc : Created n blocks blocks' p name isFolder size num idx f data) (hn : n ≤ 4096)
    (hr : ReachDir blocks p) (hname : sfsIsFolder name = isFolder) (hlen : name.length ≤ 15)
    (h0 : (0 : UInt8) ∉ name) (hnum : num ≤ 127) (hsize : size ≤ SFS_MAX_FILESIZE) :
    VolInv n blocks' files pins := by
  have hg := hc.grows h hn hr hname hlen h0
  have hpl : Live blocks files pins (.node p .dir) := VolInv.dir_live hr
  -- old live nodes keep their kind, so a live file is not the parent and keeps its inode
  have hsame : ∀ {g}, Live blocks files pins (.node g .file) → blocks' g = blocks g := by
    intro g hl
    refine hc.same h hl ?_
    rintro rfl
    cases h.kind_eq hpl hl
  have hlive : ∀ {g k}, Live blocks' files pins (.node g k) →
      Live blocks files pins (.node g k) ∨ (g = f ∧ k = kindOf isFolder) := by
    rintro g k (hl | hl)
    · rcases (hg.inTree_iff g k).1 hl with hl | hl
      · exact Or.inl (Or.inl hl)
      · exact Or.inr hl
    · exact Or.inl (Or.inr hl)
  have hnew : ∀ {k}, ¬ Live blocks files pins (.node f k) := fun hl =>
    hc.not_fresh h hl (Or.inl rfl) (List.mem_cons_self ..)
  have hfile : ∀ {g}, Live blocks' files pins (.node g .file) →
      Live blocks files pins (.node g .file) ∧ blocks' g = blocks g ∨ g = f ∧ isFolder = false := by
    intro g hl
    rcases hlive hl with hl | ⟨rfl, hk⟩
    · exact Or.inl ⟨hl, hsame hl⟩
    · exact Or.inr ⟨rfl, kindOf_inj hk.symm⟩
  have howns : ∀ o b, Live blocks files pins o → owns blocks' o b → owns blocks o b := by
    intro o b ho hb
    cases o with
    | system => exact hb
    | node g k =>
      rcases hb with hb | ⟨rfl, hb⟩
      · exact Or.inl hb
      · rw [hsame ho] at hb
        exact Or.inr ⟨rfl, hb⟩
  refine ⟨?_, ?_, ?_, ?_, ?_, ?_, ?_, h.distinct, h.free, ?_, ?_, ?_⟩
  · refine h.own.acquire (x := .node f (kindOf isFolder)) ?_ howns ?_ ?_
    · intro o ho
      cases o with
      | system => exact Or.inl trivial
      | node g k =>
        rcases hlive ho with hl | ⟨rfl, rfl⟩
        · exact Or.inl hl
        · exact Or.inr rfl
    · intro b hb hm
      rw [hc.owns_iff h hnum] at hb
      exact absurd ((hc.fresh b hb).2.symm.trans hm) (by decide)
    · intro b
      rw [hc.owns_iff h hnum, Marked, Marked, hc.bits]
      by_cases hb : b ∈ f :: data
      · simp only [hb, if_true, or_true]
      · simp only [hb, if_false, or_false]
  · intro g k b hl hb
    rcases hlive hl with hl | ⟨rfl, rfl⟩
    · exact h.inside hl (howns _ _ hl hb)
    · rw [hc.owns_iff h hnum] at hb
      exact (hc.fresh b hb).1
  · intro g j j' hl hj hj' hb hbb
    rcases hfile hl with ⟨hl, he⟩ | ⟨rfl, hk⟩
    · rw [he] at hb hbb
      exact h.data hl hj hj' hb hbb
    · rw [(hc.file hk).2.2 j hj] at hb hbb
      rw [(hc.file hk).2.2 j' hj'] at hbb
      have hjl : j < data.length := by
        by_contra hge
        exact hb (List.getD_eq_default _ _ (by omega))
      have hjl' : j' < data.length := by
        by_contra hge
        rw [hbb] at hb
        exact hb (List.getD_eq_default _ _ (by omega))
      rw [List.getD_eq_getElem data 0 hjl, List.getD_eq_getElem data 0 hjl'] at hbb
      exact (List.Nodup.getElem_inj_iff (List.nodup_cons.1 hc.nodup).2).1 hbb
  · intro g j hl hj
    rcases hfile hl with ⟨hl, he⟩ | ⟨rfl, hk⟩
    · rw [he]
      exact h.self hl hj
    · rw [(hc.file hk).2.2 j hj]
      intro hb
      have h3 := hc.system_ne h (List.mem_cons_self ..)
      have hjl : j < data.length := by
        by_contra hge
        rw [List.getD_eq_default _ _ (by omega)] at hb
        omega
      rw [List.getD_eq_getElem data 0 hjl] at hb
      exact (List.nodup_cons.1 hc.nodup).1 (hb ▸ List.getElem_mem hjl)
  · intro g hl
    rcases hfile hl with ⟨hl, he⟩ | ⟨rfl, hk⟩
    · rw [he]
      exact h.size hl
    · rw [(hc.file hk).2.1]
      exact hsize
  · intro p1 i1 p2 i2 g k1 k2 h1 h2
    rcases (hg.link_iff _ _ _ _).1 h1 with h1 | ⟨rfl, rfl, rfl, -⟩
    · rcases (hg.link_iff _ _ _ _).1 h2 with h2 | ⟨rfl, rfl, rfl, -⟩
      · exact h.link_inj h1 h2
      · exact absurd (Or.inl h1.inTree) hnew
    · rcases (hg.link_iff _ _ _ _).1 h2 with h2 | ⟨rfl, rfl, -, -⟩
      · exact absurd (Or.inl h2.inTree) hnew
      · exact ⟨rfl, rfl⟩
  · intro p1 i1 g k1 h1
    rcases (hg.link_iff _ _ _ _).1 h1 with h1 | ⟨-, -, rfl, -⟩
    · exact h.link_root h1
    · have := hc.system_ne h (List.mem_cons_self ..)
      omega
  · intro e p1 i1 g k1 h1 h2
    rcases (hg.link_iff _ _ _ _).1 h2 with h2 | ⟨-, -, rfl, -⟩
    · exact h.parent h1 h2
    · exact absurd (Or.inr (Or.inl ⟨e, h1, rfl⟩)) hnew
  · intro e g k1 h1 h2 h3
    rcases (hg.inTree_iff _ _).1 h3 with h3 | ⟨rfl, -⟩
    · exact h.deleted h1 h2 h3
    · exact absurd (Or.inr (Or.inl ⟨e, h2, rfl⟩)) hnew
  · intro q p1 i1 g k1 k2 h1 h2
    rcases (hg.link_iff _ _ _ _).1 h2 with h2 | ⟨-, -, rfl, -⟩
    · exact h.pinned h1 h2
    · exact absurd (Or.inr (Or.inr ⟨q, h1⟩)) hnew

end Created

/-! ## Writing -/

/-- Block `b` is outside the data blocks listed in `inode` (and not the header block). -/
def Untouched (inode : Block) (b : ℕ) : Prop := b ≠ 0 ∧ ∀ j < 127, inodeBlock inode j ≠ b

section Write

variable {n : ℕ} {blocks blocks' : ℕ → Block} {files : Slot → OpenFile} {pins : Pins} {f : ℕ}

/-- A block with another owner is not a data block of `f`. -/
theorem VolInv.untouched (h : VolInv n blocks files pins)
    (hf : Live blocks files pins (.node f .file)) {o : Owner} {b : ℕ}
    (ho : Live blocks files pins o) (hb : owns blocks o b) (h0 : b ≠ 0) (hne : o ≠ .node f .file) :
    Untouched (blocks f) b := by
  refine ⟨h0, fun j hj he => hne ?_⟩
  exact h.own.unique ho hf hb (Or.inr ⟨rfl, h0, j, hj, he⟩)

/-- Inode and directory blocks of live nodes are not data blocks. -/
theorem VolInv.node_untouched (h : VolInv n blocks files pins)
    (hf : Live blocks files pins (.node f .file)) {g : ℕ} {k : Kind}
    (hg : Live blocks files pins (.node g k)) : Untouched (blocks f) g := by
  have h2 := h.two_le hg
  by_cases he : Owner.node g k = .node f .file
  · cases he
    exact ⟨by omega, fun j hj => h.self hf hj⟩
  · exact h.untouched hf hg (Or.inl rfl) (by omega) he

/-- **Writing to data blocks keeps the invariant.** -/
theorem VolInv.writeData (h : VolInv n blocks files pins)
    (hf : Live blocks files pins (.node f .file))
    (hb : ∀ b, Untouched (blocks f) b → blocks' b = blocks b) : VolInv n blocks' files pins := by
  have htree : SameTree blocks blocks' := fun p hp =>
    hb p (h.node_untouched hf (VolInv.dir_live hp))
  have hlive : ∀ {g k}, Live blocks' files pins (.node g k) → Live blocks files pins (.node g k) := by
    rintro g k (hg | hg)
    · exact Or.inl ((htree.inTree_iff g k).1 hg)
    · exact Or.inr hg
  have h1 : blocks' SFS_ALLOCATION_BLOCK = blocks SFS_ALLOCATION_BLOCK :=
    hb _ (h.untouched hf (o := .system) trivial (show 1 < 2 by omega) (by decide) (by simp))
  refine h.mono hlive (fun hg => hb _ (h.node_untouched hf (hlive hg))) (fun _ _ hm => ?_)
    (fun {p i g k} hl => (htree.link_iff p i g k).1 hl) h.distinct h.free
    (fun {e p i g k} h1 h2 => h.parent h1 ((htree.link_iff p i g k).1 h2))
    (fun {e g k} h1 h2 h3 => h.deleted h1 h2 ((htree.inTree_iff g k).1 h3))
    (fun {q p i g k k'} h1 h2 => h.pinned h1 ((htree.link_iff p i g k').1 h2))
  rw [Marked, h1]
  exact hm

end Write

/-! ## The mounted volume -/

namespace Inv

variable {s : Sfs} {pins : Pins}

/-- The state after writing other contents to the device. -/
theorem withBlocks (h : Inv s pins) {blocks : ℕ → Block}
    (hv : VolInv s.totalvblocks blocks s.openFiles pins) :
    Inv { s with disk := s.disk.withBlocks blocks } pins := ⟨h.small, h.onDisk, h.works, hv⟩

end Inv

/-- The outcome of a successful `sfs_create`. -/
structure CreateOk (s s' : Sfs) (filename : List UInt8) (p idx f : ℕ) (data : List ℕ)
    (size : ℕ) : Prop where
  valid : sfsIsValidPath filename = true
  init : ∃ init, pathElems filename.tail = init ++ [sfsGetActualFilename filename] ∧
    Walk s.disk.blocks 2 init p
  reach : ReachDir s.disk.blocks p
  unused : ∀ i < 25, direntInode (s.disk.blocks p) i ≠ 0 →
    direntName (s.disk.blocks p) i ≠ sfsGetActualFilename filename
  created : Created s.totalvblocks s.disk.blocks s'.disk.blocks p (sfsGetActualFilename filename)
    (sfsIsFolder filename) size (numVblocks size) idx f data
  state : s' = { s with disk := s.disk.withBlocks s'.disk.blocks }
  isFolder : sfsIsFolder (sfsGetActualFilename filename) = sfsIsFolder filename
  length : (sfsGetActualFilename filename).length ≤ 15
  nonzero : (0 : UInt8) ∉ sfsGetActualFilename filename
  num : numVblocks size ≤ 127
  size_le : size ≤ 512 * numVblocks size

/-- The size that `sfs_create` gives to the new node. -/
def createSize (filename : List UInt8) (size : Int32) : ℕ :=
  if sfsIsFolder filename then 0 else size.toInt.toNat

section Outcomes

variable {s : Sfs} {pins : Pins} {filename : List UInt8}

/-- **`sfs_create` where only the last element is missing**: success, or nothing changed because the
directory or the disk is full. -/
theorem sfsCreate_missing (h : Inv s pins) {size : Int32} (hv : sfsIsValidPath filename = true)
    (h0 : sfsIsFolder filename = true ∨ 0 ≤ size.toInt)
    (hnum : numVblocks (createSize filename size) ≤ SFS_BLOCKS_MAX) {p : ℕ}
    (hr : sfsResolveFileExt s filename = ⟨VFS_ERROR, p, true⟩) :
    (∃ s' idx f data, sfsCreate s filename size = (VFS_OK, s') ∧
      CreateOk s s' filename p idx f data (createSize filename size) ∧
      (sfsIsFolder filename = true → s'.disk.blocks f =
        newDirectory (setDirent (s.disk.blocks p) idx (sfsGetActualFilename filename) f))) ∨
    (sfsCreate s filename size = (VFS_ERROR, s) ∧
      ((∀ i < 25, direntInode (s.disk.blocks p) i ≠ 0) ∨
        (freeBits (s.disk.blocks SFS_ALLOCATION_BLOCK) s.totalvblocks).card <
          neededBlocks (sfsIsFolder filename) (numVblocks (createSize filename size)))) := by
  have hsz : (if sfsIsFolder filename = true then 0 else size.toInt) = (createSize filename size : ℤ) := by
    unfold createSize
    split
    · rfl
    · rename_i hfo
      have := h0.resolve_left hfo
      omega
  have hszlt : createSize filename size < 2 ^ 31 := by
    unfold createSize
    split
    · omega
    · have := Int32.toInt_lt size
      omega
  have hmissing : (sfsResolveFileExt s filename).parentExists = true := by rw [hr]
  obtain ⟨init, q, -, h1, h2, h3, h4, h5, h6⟩ := resolve_missing h.readable hmissing
  have hpq : p = q := by
    have := congrArg Resolved.parentInode (hr.symm.trans h6)
    exact Int.ofNat_inj.1 this
  subst hpq
  have hp : Live s.disk.blocks s.openFiles pins (.node p .dir) := VolInv.dir_live h3
  have hp2 := h.vol.two_le hp
  have hone := h.two_lt
  have hm1 : Marked s.disk.blocks 1 := h.vol.marked (o := .system) trivial (show 1 < 2 by omega)
  unfold sfsCreate
  simp only [hv, Bool.true_eq_false, if_false, hsz, hr, Int.toNat_natCast]
  rw [if_neg (by omega), if_neg (by omega), if_neg (by simp)]
  rcases sfsCreateIn_spec (s := s) filename (sfsIsFolder filename) (createSize filename size)
    (numVblocks (createSize filename size)) h.works h.small h.onDisk (h.vol.lt hp) (by omega)
    (by omega) hm1 (h.vol.marked hp (Or.inl rfl)) (by simpa [SFS_BLOCKS_MAX] using hnum) (by omega)
    with ⟨blocks', idx, f, data, h7, h8, h9⟩ | ⟨h7, h8⟩
  · left
    have hmem : sfsGetActualFilename filename ∈ pathElems filename.tail := by
      rw [h1]
      simp
    obtain ⟨-, hlen, hz⟩ := validPath_elems hv _ hmem
    refine ⟨_, idx, f, data, h7, ⟨hv, ⟨init, h1, h2⟩, h3, h5, h8, rfl, (isFolder_last hv h1).symm,
      hlen, hz, by simpa [SFS_BLOCKS_MAX] using hnum, ?_⟩, h9⟩
    have := @numVblocks_size (createSize filename size) (by omega) (by omega) hnum
    omega
  · exact Or.inr ⟨h7, h8⟩

/-- The checks before the section under `sfs->lock`: `sfs_create` may go on. -/
def MayCreate (s : Sfs) (filename : List UInt8) (size : Int32) (p : ℕ) : Prop :=
  sfsIsValidPath filename = true ∧ (sfsIsFolder filename = true ∨ 0 ≤ size.toInt) ∧
    numVblocks (createSize filename size) ≤ SFS_BLOCKS_MAX ∧
    sfsResolveFileExt s filename = ⟨VFS_ERROR, p, true⟩

/-- **`sfs_create` refuses** what does not pass its checks. -/
theorem sfsCreate_refused (h : Inv s pins) {size : Int32} (hno : ∀ p, ¬ MayCreate s filename size p) :
    sfsCreate s filename size = (VFS_ERROR, s) := by
  unfold sfsCreate
  split
  · rfl
  rename_i hv
  simp only
  generalize hsz : (if sfsIsFolder filename = true then 0 else size.toInt) = sz
  split
  · rfl
  rename_i h0
  split
  · rfl
  rename_i hnum
  split
  · rfl
  rename_i hr
  simp only [not_or, Bool.not_eq_false] at hr
  obtain ⟨init, p, -, -, -, -, -, -, h6⟩ := resolve_missing h.readable hr.2.2
  have hszc : (createSize filename size : ℤ) = sz := by
    rw [← hsz] at h0 ⊢
    unfold createSize
    split
    · rfl
    · rename_i hfo
      rw [if_neg hfo] at h0
      omega
  refine absurd ⟨by simpa using hv, ?_, by rw [hszc]; omega, h6⟩ (hno p)
  by_cases hfo : sfsIsFolder filename = true
  · exact Or.inl hfo
  · rw [if_neg hfo] at hsz
    exact Or.inr (by omega)

/-- **The outcomes of `sfs_create`** on a mounted volume: success, or nothing changed. -/
theorem sfsCreate_spec (h : Inv s pins) (filename : List UInt8) (size : Int32) :
    (∃ s' p idx f data, sfsCreate s filename size = (VFS_OK, s') ∧
      CreateOk s s' filename p idx f data (createSize filename size)) ∨
    sfsCreate s filename size = (VFS_ERROR, s) := by
  by_cases hgood : ∃ p, MayCreate s filename size p
  · obtain ⟨p, hv, h0, hnum, hr⟩ := hgood
    rcases sfsCreate_missing h hv h0 hnum hr with ⟨s', idx, f, data, h1, h2, -⟩ | ⟨h1, -⟩
    · exact Or.inl ⟨s', p, idx, f, data, h1, h2⟩
    · exact Or.inr h1
  · exact Or.inr (sfsCreate_refused h fun p hp => hgood ⟨p, hp⟩)

end Outcomes

/-- **`sfs_create` keeps the invariant.** -/
theorem Inv.create {s s' : Sfs} {pins : Pins} (h : Inv s pins) {filename : List UInt8}
    {p idx f : ℕ} {data : List ℕ} {size : ℕ} (hc : CreateOk s s' filename p idx f data size) :
    Inv s' pins := by
  rw [hc.state]
  refine h.withBlocks (h.vol.created hc.created h.small hc.reach hc.isFolder hc.length hc.nonzero
    hc.num ?_)
  have := hc.num
  have := hc.size_le
  simp only [SFS_MAX_FILESIZE]
  omega

end Buenos.Fs
