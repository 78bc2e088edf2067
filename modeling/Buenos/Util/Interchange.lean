import Buenos.Util.Images

/-!
# Files between the host tool and the kernel

* `Holds.kernelRead` — a file on an image of the tool is opened and read through `fs/sfs.c`.
* `tfstoolRead_spec` — `tfstool_read` returns the contents of a file on a well-formed volume.
* `afterCall`, `lastWritten` — the contents of a file that a run of SFS calls leaves, told by the
  successful writes alone.
* `RootFile` — a file of the root directory with its contents; `RootFile.effect` follows it through
  one call.

Principal result: `tool_kernel_agree` — what the tool writes the kernel reads, and what the kernel
creates and writes the tool reads.
-/

namespace Buenos.Tfstool

open Bytes Buenos.Fs BlockProgram Ownership

/-! ## The kernel reads what the tool has written -/

section Kernel

variable {img : Image} {files : List UInt8 → Option (List UInt8)} {name bytes : List UInt8}

theorem Holds.flatVolume (h : Holds img files) : FlatVolume img.gbd := ⟨h.wellFormed, h.flat⟩

theorem Holds.agree (h : Holds img files) : Agree (sfsInit img.gbd) (tfsInit img.gbd) [] :=
  h.flatVolume.agree img.works

/-- The inodes of the image cover the sizes of the files. -/
theorem Holds.inodes (h : Holds img files) : Inodes Covers (sfsInit img.gbd) := by
  intro f hf
  obtain ⟨p, i, hl⟩ := h.wellFormed.linked hf
  obtain ⟨rfl, -, hi, rfl, h0⟩ := h.flat.link_iff.1 hl
  exact h.covers i hi h0

theorem Holds.namesUnique (h : Holds img files) : NamesUnique img.blocks := by
  intro p hp i hi j hj h1 h2 hn
  obtain rfl := h.flat.reachDir hp
  exact h.unique i hi j hj h1 h2 hn

/-- The search by name finds the entry of a stored file. -/
theorem Holds.findDirent_stored (h : Holds img files) {i : ℕ} (hi : i < 25)
    (h0 : direntInode (img.blocks 2) i ≠ 0) :
    findDirent (img.blocks 2) (direntName (img.blocks 2) i) SFS_MAX_FILES 0 = some i := by
  cases hd : findDirent (img.blocks 2) (direntName (img.blocks 2) i) SFS_MAX_FILES 0 with
  | none =>
    exact absurd rfl (findDirent_none hd i (Nat.zero_le _) (by simpa [SFS_MAX_FILES] using hi) h0)
  | some j =>
    obtain ⟨-, hj, hj0, hjn⟩ := findDirent_some hd
    rw [h.unique j (by simpa [SFS_MAX_FILES] using hj) i hi hj0 h0 hjn]

theorem readAt_all (contents : List UInt8) :
    readAt contents contents.length 0 = ((contents.length : ℤ), contents) := by
  rw [readAt, if_neg (by simp)]
  simp

/-- **`sfs_open` and `sfs_read` of a file that the tool has written.** -/
theorem Holds.kernelRead (h : Holds img files) (hname : files name = some bytes) :
    ∃ (f : ℕ) (s : Sfs), sfsOpen (sfsInit img.gbd) (SLASH :: name) = ((f : ℤ), s) ∧
      sfsRead s f bytes.length 0 = some (((bytes.length : ℤ), bytes), s) := by
  have hv := h.valid hname
  have hag := h.agree
  obtain ⟨i, hi, h0, rfl, hbytes⟩ := h.stored hname
  have hroot : (sfsInit img.gbd).disk.blocks 2 = img.blocks 2 := rfl
  have hopen : tfsOpen (tfsInit img.gbd) (direntName (img.blocks 2) i) =
      (direntInode (img.blocks 2) i : ℕ) := by
    rw [hag.tfsOpen_eq hv, hroot, h.findDirent_stored hi h0]
    exact hag.sint_linked hi h0
  have hnext : nextHandles [] (tfsOpen (tfsInit img.gbd) (direntName (img.blocks 2) i))
      (.openFile (direntName (img.blocks 2) i)) = [((direntInode (img.blocks 2) i : ℕ) : ℤ)] := by
    rw [hopen, nextHandles, if_pos (Int.natCast_nonneg _)]
  obtain ⟨h1, h2⟩ := hag.openFile hv (by rw [hnext]; simp [SFS_MAX_OPEN_FILES])
  rw [hnext] at h2
  have hm : ((direntInode (img.blocks 2) i : ℕ) : ℤ) ∈ [((direntInode (img.blocks 2) i : ℕ) : ℤ)] :=
    List.mem_singleton_self _
  refine ⟨_, _, Prod.ext (h1.trans hopen) rfl, ?_⟩
  obtain ⟨hr, -⟩ := h2.read hm bytes.length 0
  obtain ⟨e, f, hf, he, -⟩ := h2.entry hm
  obtain rfl : direntInode (img.blocks 2) i = f := Int.ofNat_inj.1 hf
  have hok : FileOk img.gbd (direntInode (img.blocks 2) i) :=
    hag.quiet.fileOk h.inodes (Or.inl (hag.link hi h0).inTree)
  have hdisk : (sfsOpen (sfsInit img.gbd) (SLASH :: direntName (img.blocks 2) i)).2.disk = img.gbd :=
    h2.disk.symm
  rw [hr, h2.tfsRead_eq he, hdisk, readBody_spec hok.shape]
  have hbytes' : fileBytes img.gbd.blocks (direntInode (img.blocks 2) i) = bytes := hbytes
  rw [hbytes', readAt_all]

end Kernel

/-! ## The tool reads a file -/

/-- The device as an image file. -/
def imageOf (disk : Gbd) : Image := ⟨disk.totalBlocks, disk.blocks⟩

section Export

variable {e : Endian} {img : Image} {f : ℕ}

/-- **The copy loop of `tfstool_read`** delivers the rest of the file. -/
theorem exportLoop_spec (hsize : inodeFilesize (img.blocks f) ≤ SFS_MAX_FILESIZE)
    (hcov : Covers (img.blocks f)) (hlt : ∀ j < 127, inodeBlock (img.blocks f) j < img.numBlocks) :
    ∀ {k i : ℕ} {data : Block} {count : ℕ} {out : List UInt8}, i + k = 127 →
      count = min (inodeFilesize (img.blocks f)) (512 * i) →
      exportLoop e img (img.blocks f) (inodeFilesize (img.blocks f)) k i data count out =
        out ++ fileSlice img.blocks f count (inodeFilesize (img.blocks f) - count) := by
  simp only [SFS_MAX_FILESIZE] at hsize
  intro k
  induction k with
  | zero =>
    intro i data count out hik hcount
    rw [exportLoop, show inodeFilesize (img.blocks f) - count = 0 by omega]
    exact (List.append_nil out).symm
  | succ k ih =>
    intro i data count out hik hcount
    rw [exportLoop]
    simp only [ntohl_hostLoad]
    rw [show (img.blocks f).word (4 * (i + 1)) = inodeBlock (img.blocks f) i from rfl]
    by_cases hb : inodeBlock (img.blocks f) i ≠ 0
    · have hread : readBlock img data (inodeBlock (img.blocks f) i) =
          img.blocks (inodeBlock (img.blocks f) i) := if_pos (hlt i (by omega))
      have hsz : min ((inodeFilesize (img.blocks f) + 2 ^ 32 - count) % 2 ^ 32) TFS_BLOCK_SIZE =
          min (inodeFilesize (img.blocks f) - count) 512 := by
        simp only [TFS_BLOCK_SIZE]
        omega
      rw [if_pos hb, hread, hsz, ih (by omega) (by omega), List.append_assoc]
      generalize hn : min (inodeFilesize (img.blocks f) - count) 512 = n
      have hslice : (img.blocks (inodeBlock (img.blocks f) i)).slice 0 n =
          fileSlice img.blocks f count n := by
        by_cases h0 : n = 0
        · rw [h0]
          rfl
        · rw [slice_eq_fileSlice _ _ _ _ _ (by omega), show 512 * i + 0 = count by omega]
      rw [hslice, show inodeFilesize (img.blocks f) - count =
        n + (inodeFilesize (img.blocks f) - (count + n)) by omega, fileSlice_add]
    · -- the blocks that the size needs are there, so the file ends here
      have hend : ¬ 512 * i < inodeFilesize (img.blocks f) := fun h => hb (hcov i h)
      rw [if_neg hb, show inodeFilesize (img.blocks f) - count = 0 by omega]
      exact (List.append_nil out).symm

/-- **`tfstool_read`** of a file with a covering inode. -/
theorem tfstoolRead_spec {idx : ℕ} {name : List UInt8} (junk : Block) (h3 : 3 ≤ img.numBlocks)
    (hv : ValidName name) (hidx : idx < 25) (hname : direntName (img.blocks 2) idx = name)
    (hfirst : ∀ j < idx, direntName (img.blocks 2) j ≠ name)
    (hf : direntInode (img.blocks 2) idx = f) (hflt : f < img.numBlocks)
    (hsize : inodeFilesize (img.blocks f) ≤ SFS_MAX_FILESIZE)
    (hcov : Covers (img.blocks f)) (hlt : ∀ j < 127, inodeBlock (img.blocks f) j < img.numBlocks) :
    tfstoolRead e img junk name = some (fileBytes img.blocks f) := by
  unfold tfstoolRead
  have hmd : readBlock img junk TFS_DIRECTORY_BLOCK = img.blocks 2 :=
    if_pos (show 2 < img.numBlocks by omega)
  have hfind : findFile (img.blocks 2) name TFS_MAX_FILES 0 = some idx :=
    findFile_of_name hv (Nat.zero_le _) (by simpa [TFS_MAX_FILES] using hidx) hname
      fun j hj hlt => absurd hj (hfirst j hlt)
  have hinode : readBlock img junk f = img.blocks f := if_pos hflt
  simp only [hmd, hfind, ntohl_hostLoad]
  rw [show (img.blocks 2).word (20 * idx) = f from hf, hinode,
    show (img.blocks f).word 0 = inodeFilesize (img.blocks f) from rfl,
    exportLoop_spec hsize hcov hlt (by rfl) (by simp), List.nil_append, Nat.sub_zero,
    fileSlice_eq _ _ _ _ (by omega), List.drop_zero, List.take_of_length_le (by simp)]

end Export

/-! ## A file of the root directory along SFS calls -/

/-- The contents of `f` after a call: a successful write replaces the bytes that it has written. -/
def afterCall (f : ℕ) (c : Call) (r : Reply) (contents : List UInt8) : List UInt8 :=
  match c with
  | .write _ fileid buffer offset =>
    if fileid = f ∧ 0 ≤ r.value then overwrite contents offset.toNat (buffer.take r.value.toNat)
    else contents
  | _ => contents

/-- The contents of `f` as the successful writes of a run leave them. -/
def lastWritten (f : ℕ) (s : Sfs) : List Call → List UInt8 → List UInt8
  | [], contents => contents
  | c :: cs, contents =>
    match c.exec s with
    | none => contents
    | some (r, s') => lastWritten f s' cs (afterCall f c r contents)

/-- `f` is the file `name` of the root directory, with the given contents. -/
structure RootFile (s : Sfs) (name : List UInt8) (f : ℕ) (contents : List UInt8) : Prop where
  entry : ∃ i, Link s.disk.blocks 2 i f .file ∧ direntName (s.disk.blocks 2) i = name
  bytes : fileBytes s.disk.blocks f = contents

/-- Free entries of the root directory have empty names. -/
def RootFree (blocks : ℕ → Block) : Prop :=
  ∀ i < 25, direntInode (blocks 2) i = 0 → direntName (blocks 2) i = []

/-- The tool finds the file and reads its contents. -/
theorem RootFile.toolRead {s : Sfs} {name contents : List UInt8} {f : ℕ} (hq : Quiet s)
    (hcov : Inodes Covers s) (hu : NamesUnique s.disk.blocks) (hfree : RootFree s.disk.blocks)
    (hv : ValidName name) (h : RootFile s name f contents) (e : Endian) (junk : Block) :
    tfstoolRead e (imageOf s.disk) junk name = some contents := by
  obtain ⟨i, hl, hname⟩ := h.entry
  have hlive : Live s.disk.blocks s.openFiles noPins (.node f .file) := Or.inl hl.inTree
  have hok := hq.fileOk hcov hlive
  have h2 := hq.inv.two_lt
  have ho := hq.inv.onDisk
  rw [← h.bytes]
  refine tfstoolRead_spec junk (show 3 ≤ (imageOf s.disk).numBlocks from (by omega : 3 ≤ s.disk.totalBlocks)) hv hl.lt
    hname (fun j hj hn => ?_) hl.inode hok.inode_lt hok.size (hcov hlive) hok.lt
  have hlt := hl.lt
  by_cases h0 : direntInode (s.disk.blocks 2) j = 0
  · exact hv.ne_nil (hn.symm.trans (hfree j (by omega) h0))
  · have := hu 2 .root j (by omega) i hl.lt h0 (by rw [hl.inode]; exact hl.live) (hn.trans hname.symm)
    omega

theorem afterCall_writeAt (f : ℕ) (tid : ℤ) (buf : List UInt8) (offset : ℤ) (contents : List UInt8) :
    afterCall f (.write tid f buf offset) ⟨(writeAt contents buf offset).1, []⟩ contents =
      (writeAt contents buf offset).2 := by
  simp only [afterCall, true_and]
  unfold writeAt
  by_cases hbad : offset < 0 ∨ offset > contents.length
  · rw [if_pos hbad, if_neg (not_le.2 VFS_ERROR_neg)]
  · rw [if_neg hbad, if_pos (Int.natCast_nonneg _), Int.toNat_natCast, List.length_take,
      ← List.take_take, List.take_length]

theorem afterCall_of_neg (f : ℕ) (c : Call) {v : ℤ} (hv : v < 0) (contents : List UInt8) :
    afterCall f c ⟨v, []⟩ contents = contents := by
  cases c with
  | write tid fileid buf offset =>
    simp only [afterCall]
    rw [if_neg fun hc => absurd hc.2 (by omega)]
  | _ => rfl

namespace RootFile

variable {s s' : Sfs} {name contents : List UInt8} {f : ℕ}

theorem live (h : RootFile s name f contents) :
    Live s.disk.blocks s.openFiles noPins (.node f .file) := by
  obtain ⟨i, hl, -⟩ := h.entry
  exact Or.inl hl.inTree

/-- A step that leaves the entry and the blocks of the file alone. -/
theorem keep (hq : Quiet s) (hcov : Inodes Covers s) (h : RootFile s name f contents)
    (hentry : ∀ {i}, Link s.disk.blocks 2 i f .file →
      direntInode (s'.disk.blocks 2) i = direntInode (s.disk.blocks 2) i ∧
        direntName (s'.disk.blocks 2) i = direntName (s.disk.blocks 2) i)
    (hb : ∀ b, owns s.disk.blocks (.node f .file) b → s'.disk.blocks b = s.disk.blocks b) :
    RootFile s' name f contents := by
  obtain ⟨i, hl, hname⟩ := h.entry
  obtain ⟨h1, h2⟩ := hentry hl
  refine ⟨⟨i, ⟨.root, hl.lt, h1.trans hl.inode, hl.live, ?_⟩, h2.trans hname⟩, ?_⟩
  · rw [direntKind, h2]
    exact hl.kind
  · rw [fileBytes_congr (hcov h.live) (hq.inv.vol.size h.live) hb]
    exact h.bytes

/-- The blocks of a file are neither system blocks nor directories. -/
theorem block_ne (hq : Quiet s) (h : RootFile s name f contents) {b : ℕ}
    (hb : owns s.disk.blocks (.node f .file) b) :
    b ≠ SFS_ALLOCATION_BLOCK ∧ ∀ p, ReachDir s.disk.blocks p → b ≠ p := by
  have h2 := hq.inv.vol.block_two_le h.live hb
  refine ⟨by simp only [SFS_ALLOCATION_BLOCK]; omega, fun p hp he => ?_⟩
  subst he
  cases hq.inv.vol.own.unique h.live (VolInv.dir_live hp) hb (Or.inl rfl)

/-- A walk through directories ends at a linked directory. -/
theorem walk_link {blocks : ℕ → Block} {r : ℕ} : ∀ {init : List (List UInt8)} {q : ℕ},
    ReachDir blocks q → (∀ e ∈ init, sfsIsFolder e = true) → init ≠ [] → Walk blocks q init r →
      ∃ p i, Link blocks p i r .dir
  | [], _, _, _, hne, _ => absurd rfl hne
  | e :: init, q, hq, hf, _, ⟨j, hj, h0, hname, hw⟩ => by
    have hk : direntKind (blocks q) j = .dir := by
      rw [direntKind, hname, hf e (List.mem_cons_self ..)]
      rfl
    cases init with
    | nil =>
      obtain rfl : direntInode (blocks q) j = r := hw
      exact ⟨q, j, hq, hj, rfl, h0, hk⟩
    | cons e' init =>
      exact walk_link (.sub hq hj h0 hk) (fun e he => hf e (List.mem_cons_of_mem _ he)) (by simp) hw

/-- Only its own path leads to a file of the root directory. -/
theorem path_eq (hq : Quiet s) (h : RootFile s name f contents) {path : List UInt8}
    (hr : (sfsResolveFileExt s path).block = f) : path = SLASH :: name := by
  obtain ⟨i, hl, hname⟩ := h.entry
  have hne : (sfsResolveFileExt s path).block ≠ VFS_ERROR := by
    have := VFS_ERROR_neg
    omega
  have hv : sfsIsValidPath path = true := by
    by_contra hv
    rw [sfsResolveFileExt, if_neg hv] at hne
    exact hne rfl
  rcases resolve_found hq.inv.readable hne with ⟨-, h2, -⟩ | ⟨init, l, p, j, g, h1, h2, h3, h4, h5, -⟩
  · have := hq.inv.vol.link_root hl
    omega
  obtain rfl : g = f := Int.ofNat_inj.1 (h5.symm.trans hr)
  obtain ⟨rfl, rfl⟩ := hq.inv.vol.link_inj h3 hl
  have hfold : FolderElems (init ++ [l]) := h1 ▸ pathElems_folders path.tail
  have hinit : init = [] := by
    by_contra hne
    obtain ⟨q, i', hl'⟩ := walk_link .root (fun e he => by
      obtain ⟨a, b, rfl⟩ := List.append_of_mem he
      exact hfold a e (b ++ [l]) (by simp) (by simp)) hne h2
    exact hq.inv.vol.link_root hl' rfl
  obtain ⟨cs, rfl, -⟩ := validPath_cons hv
  have hflat := pathElems_flatten cs
  rw [show pathElems cs = _ from h1, hinit] at hflat
  simp only [List.nil_append, List.flatten_cons, List.flatten_nil, List.append_nil] at hflat
  rw [← hflat, ← h4, hname]

/-- **One call** that is not the removal of the file keeps it; only writes to it change its
contents. -/
theorem effect (hq : Quiet s) (hcov : Inodes Covers s) (h : RootFile s name f contents) {c : Call}
    {r : Reply} (heff : Effect s c r s') (hc : c ≠ .remove (SLASH :: name)) :
    RootFile s' name f (afterCall f c r contents) := by
  have hvol := hq.inv.vol
  cases heff with
  | failed c hv _ =>
    rw [afterCall_of_neg f c hv]
    exact h
  | read => exact h
  | opened => exact ⟨h.entry, h.bytes⟩
  | closed => exact ⟨h.entry, h.bytes⟩
  | released => exact ⟨h.entry, h.bytes⟩
  | @created path size s' p idx g data hcr =>
    refine h.keep hq hcov (fun {i} hl => ?_) fun b hb => ?_
    · by_cases hp : p = 2
      · subst hp
        have hlt := (hcr.created.fresh g (List.mem_cons_self ..)).1
        have hsmall := hq.inv.small
        have hne : i ≠ idx := by
          rintro rfl
          exact hl.live (hl.inode.symm.trans hcr.created.slot)
        rw [hcr.created.entry, setDirent_inode _ _ hcr.created.idx_lt (by omega),
          setDirent_name _ hcr.created.idx_lt hcr.length hcr.nonzero, if_neg hne, if_neg hne]
        exact ⟨rfl, rfl⟩
      · rw [hcr.created.same hvol VolInv.root_live (Ne.symm hp)]
        exact ⟨rfl, rfl⟩
    · obtain ⟨h1, h2⟩ := h.block_ne hq hb
      exact hcr.created.other b h1 (h2 p hcr.reach) (hcr.created.not_fresh hvol h.live hb)
  | @written e g tid offset buf he hk =>
    have hlive : Live s.disk.blocks s.openFiles noPins (.node g .file) :=
      Or.inr (Or.inl ⟨e, he, by rw [hk]; rfl⟩)
    obtain ⟨blocks, h3, h4⟩ := writeBody_frame s.disk g buf buf.length offset
    have hroot : blocks 2 = s.disk.blocks 2 :=
      h4 2 (hvol.node_untouched hlive VolInv.root_live)
    by_cases hgf : g = f
    · subst hgf
      obtain ⟨blocks', h1, h2⟩ := writeBody_spec (hq.fileOk hcov h.live).shape buf offset
      rw [h1, h.bytes]
      rw [afterCall_writeAt]
      obtain rfl : blocks' = blocks := by
        rw [h1] at h3
        exact congrArg Gbd.blocks h3
      obtain ⟨i, hl, hname⟩ := h.entry
      refine ⟨⟨i, ⟨.root, hl.lt, ?_, hl.live, ?_⟩, ?_⟩, ?_⟩
      · exact (congrArg (direntInode · i) hroot).trans hl.inode
      · exact (congrArg (direntKind · i) hroot).trans hl.kind
      · exact (congrArg (direntName · i) hroot).trans hname
      · exact h2.trans (by rw [h.bytes])
    · have hsame : afterCall f (.write tid g buf offset)
          ⟨((writeBody g buf buf.length offset).run gbdDevice s.disk).1, []⟩ contents = contents := by
        simp only [afterCall]
        rw [if_neg fun hc => hgf (Int.ofNat_inj.1 hc.1)]
      rw [hsame]
      refine h.keep hq hcov (fun {i} _ => ?_) fun b hb => ?_
      · rw [h3, withBlocks_blocks, hroot]
        exact ⟨rfl, rfl⟩
      · rw [h3, withBlocks_blocks]
        have h2 := hvol.block_two_le h.live hb
        refine h4 b (hvol.untouched hlive h.live hb (by omega) ?_)
        simp only [ne_eq, Owner.node.injEq, and_true]
        exact fun he => hgf he.symm
  | freed =>
    refine h.keep hq hcov (fun {i} _ => ?_) fun b hb => ?_
    · exact ⟨rfl, rfl⟩
    · exact Function.update_of_ne (h.block_ne hq hb).1 ..
  | @unlinked path p i g e hl hr he =>
    have hgf : f ≠ g := by
      rintro rfl
      exact hc (congrArg Call.remove (h.path_eq hq hr))
    refine h.keep hq hcov (fun {j} hj => ?_) fun b hb => ?_
    · obtain ⟨h1, h2⟩ := hvol.unlink_entry (p := p) hq.inv.small hj hgf
      exact ⟨h1.trans hj.inode.symm, h2⟩
    · exact unlinkBlocks_of_ne ((h.block_ne hq hb).2 p hl.dir)
  | @removed path p i g bat hl hr hno hb =>
    have hgf : f ≠ g := by
      rintro rfl
      exact hc (congrArg Call.remove (h.path_eq hq hr))
    refine h.keep hq hcov (fun {j} hj => ?_) fun b hb => ?_
    · obtain ⟨h1, h2⟩ := hvol.unlink_entry (p := p) hq.inv.small hj hgf
      exact ⟨h1.trans hj.inode.symm, h2⟩
    · obtain ⟨h1, h2⟩ := h.block_ne hq hb
      exact (Function.update_of_ne h1 ..).trans (unlinkBlocks_of_ne (h2 p hl.dir))

end RootFile

/-- A call keeps the size of the file. -/
theorem RootFile.filesize {s s' : Sfs} {name contents contents' : List UInt8} {f : ℕ} (hq : Quiet s)
    (h : RootFile s name f contents) (h' : RootFile s' name f contents') {c : Call} {r : Reply}
    (heff : Effect s c r s') :
    inodeFilesize (s'.disk.blocks f) = inodeFilesize (s.disk.blocks f) := by
  rcases heff.live hq h'.live with ⟨-, he⟩ | ⟨path, size, p, idx, data, -, -, hc⟩
  · rw [he rfl]
  · exact absurd (List.mem_cons_self ..) (hc.created.not_fresh hq.inv.vol h.live (Or.inl rfl))

/-! ## What every run keeps -/

/-- What the tool relies on when it reads a volume that the kernel has used. -/
structure Readable (s : Sfs) : Prop where
  quiet : Quiet s
  covers : Inodes Covers s
  names : NamesUnique s.disk.blocks
  free : RootFree s.disk.blocks

theorem Holds.readable {img : Image} {files : List UInt8 → Option (List UInt8)} (h : Holds img files) :
    Readable (sfsInit img.gbd) := ⟨h.agree.quiet, h.inodes, h.namesUnique, h.flat.free⟩

theorem RootFree.congr {blocks blocks' : ℕ → Block} (h : RootFree blocks)
    (hb : blocks' 2 = blocks 2) : RootFree blocks' := by
  unfold RootFree
  rw [hb]
  exact h

/-- Unlinking empties the name of the entry. -/
theorem RootFree.unlink {s : Sfs} (hq : Quiet s) (h : RootFree s.disk.blocks) {p i g : ℕ} {k : Kind}
    (hl : Link s.disk.blocks p i g k) : RootFree (unlinkBlocks s.disk.blocks p g) := by
  by_cases hp : p = 2
  · subst hp
    intro j hj h0
    rw [unlinkBlocks, Function.update_self,
      hq.inv.vol.clearDirents_link hq.inv.small hl] at h0 ⊢
    by_cases hji : j = i
    · subst hji
      exact clearDirent_name_self _ hj
    · rw [clearDirent, clearDirent_inode _ hl.lt, if_neg hji] at h0
      exact (clearDirent_name _ hji).trans (h j hj h0)
  · exact h.congr (unlinkBlocks_of_ne (Ne.symm hp))

theorem RootFree.effect {s s' : Sfs} (hq : Quiet s) (h : RootFree s.disk.blocks) {c : Call} {r : Reply}
    (heff : Effect s c r s') : RootFree s'.disk.blocks := by
  cases heff with
  | failed => exact h
  | read => exact h
  | opened => exact h
  | closed => exact h
  | released => exact h
  | @created path size s' p idx g data hcr =>
    by_cases hp : p = 2
    · subst hp
      have hlt := (hcr.created.fresh g (List.mem_cons_self ..)).1
      have hsmall := hq.inv.small
      have hpos := (hcr.grows hq.inv).live
      intro j hj h0
      rw [hcr.created.entry, setDirent_inode _ _ hcr.created.idx_lt (by omega)] at h0
      rw [hcr.created.entry, setDirent_name _ hcr.created.idx_lt hcr.length hcr.nonzero]
      by_cases hji : j = idx
      · rw [if_pos hji] at h0
        exact absurd h0 hpos
      · rw [if_neg hji] at h0 ⊢
        exact h j hj h0
    · exact h.congr (hcr.created.same hq.inv.vol VolInv.root_live (Ne.symm hp))
  | @written e g tid offset buf he hk =>
    obtain ⟨blocks, h3, h4⟩ := writeBody_frame s.disk g buf buf.length offset
    refine h.congr ?_
    rw [h3]
    exact h4 2 (hq.inv.vol.node_untouched (Or.inr (Or.inl ⟨e, he, by rw [hk]; rfl⟩)) VolInv.root_live)
  | freed => exact h.congr rfl
  | unlinked hl => exact h.unlink hq hl
  | removed hl => exact (h.unlink hq hl).congr rfl

theorem Readable.effect {s s' : Sfs} (h : Readable s) {c : Call} {r : Reply} (heff : Effect s c r s')
    (hq : Quiet s') : Readable s' :=
  ⟨hq, Inodes.effect NewInode.covers h.quiet h.covers heff, h.names.effect h.quiet heff,
    h.free.effect h.quiet heff⟩

theorem Readable.run : ∀ (cs : List Call) {s s' : Sfs}, Readable s → Fs.run s cs = some s' → Readable s'
  | [], s, s', h, hr => by
    cases hr
    exact h
  | c :: cs, s, s', h, hr => by
    obtain ⟨r, s1, h1, h2, h3⟩ := c.exec_effect h.quiet
    rw [Fs.run, h1] at hr
    exact Readable.run cs (h.effect h2 h3) hr

/-- **A run that does not remove the file** keeps it with the bytes last written. -/
theorem RootFile.run {name : List UInt8} {f : ℕ} : ∀ (cs : List Call) {s s' : Sfs}
    {contents : List UInt8}, Readable s → RootFile s name f contents → Fs.run s cs = some s' →
      Call.remove (SLASH :: name) ∉ cs →
      RootFile s' name f (lastWritten f s cs contents) ∧
        inodeFilesize (s'.disk.blocks f) = inodeFilesize (s.disk.blocks f)
  | [], s, s', contents, _, h, hr, _ => by
    cases hr
    exact ⟨h, rfl⟩
  | c :: cs, s, s', contents, hs, h, hr, hc => by
    obtain ⟨r, s1, h1, h2, h3⟩ := c.exec_effect hs.quiet
    rw [List.mem_cons, not_or] at hc
    have hk := h.effect hs.quiet hs.covers h2 (Ne.symm hc.1)
    rw [Fs.run, h1] at hr
    obtain ⟨h4, h5⟩ := RootFile.run cs (hs.effect h2 h3) hk hr hc.2
    rw [lastWritten, h1]
    exact ⟨h4, h5.trans (h.filesize hs.quiet hk h2)⟩

/-! ## A new file -/

/-- **A file created in the root directory.** -/
theorem RootFile.created {s s' : Sfs} {name : List UInt8} {size : Int32} (hq : Quiet s)
    (hv : ValidName name) (hc : sfsCreate s (SLASH :: name) size = (VFS_OK, s')) :
    ∃ f : ℕ, RootFile s' name f (List.replicate size.toInt.toNat 0) ∧
      inodeFilesize (s'.disk.blocks f) = size.toInt.toNat := by
  rcases sfsCreate_spec hq.inv (SLASH :: name) size with ⟨s1, p, idx, f, data, he, hok⟩ | he
  · rw [hc] at he
    cases he
    have hk := isFolder_name hv
    have hsz : createSize (SLASH :: name) size = size.toInt.toNat := by
      rw [createSize, hk]
      rfl
    rw [hsz] at hok
    have hname := actualFilename_name hv
    obtain ⟨init, h1, h2⟩ := hok.init
    rw [pathElems_name hv, hname] at h1
    have hinit : init = [] := by
      have := congrArg List.length h1
      simp only [List.length_append, List.length_singleton] at this
      exact List.length_eq_zero_iff.1 (by omega)
    rw [hinit] at h2
    obtain rfl : p = 2 := h2.symm
    have hlink : Link s'.disk.blocks 2 idx f .file := by
      have := ((hok.grows hq.inv).link_iff 2 idx f _).2 (Or.inr ⟨rfl, rfl, rfl, rfl⟩)
      rwa [hk] at this
    refine ⟨f, ⟨⟨idx, hlink, ?_⟩, CreateOk.fileBytes hok hk⟩, (hok.created.file hk).2.1⟩
    rw [hok.created.entry, setDirent_name _ hok.created.idx_lt hok.length hok.nonzero, if_pos rfl, hname]
  · rw [hc] at he
    cases he

/-- The name of a file of the root directory resolves to it. -/
theorem RootFile.resolve {s : Sfs} {name contents : List UInt8} {f : ℕ} (hs : Readable s)
    (hv : ValidName name) (h : RootFile s name f contents) :
    (sfsResolveFileExt s (SLASH :: name)).block = f := by
  obtain ⟨i, hl, hname⟩ := h.entry
  have h2 := hs.quiet.inv.two_lt
  have ho := hs.quiet.inv.onDisk
  have hsmall := hs.quiet.inv.small
  have hlt := hs.quiet.inv.vol.lt h.live
  have h0 : direntInode (s.disk.blocks 2) i ≠ 0 := by
    rw [hl.inode]
    exact hl.live
  rw [resolve_name hv (readVblock_works hs.quiet.inv.works (show 2 < s.disk.totalBlocks by omega))]
  cases hd : findDirent (s.disk.blocks SFS_DIRECTORY_BLOCK) name SFS_MAX_FILES 0 with
  | none =>
    exact absurd hname (findDirent_none hd i (Nat.zero_le _) (by simpa [SFS_MAX_FILES] using hl.lt) h0)
  | some j =>
    obtain ⟨-, hj, hj0, hjn⟩ := findDirent_some hd
    obtain rfl := hs.names 2 .root j (by simpa [SFS_MAX_FILES] using hj) i hl.lt hj0 h0
      (hjn.trans hname.symm)
    simp only
    rw [show direntInode (s.disk.blocks SFS_DIRECTORY_BLOCK) j = f from hl.inode]
    exact sint_of_lt (by omega)

/-- **The host tool and the kernel agree on the on-disk format.**  An image that `createvol` and any
sequence of successful `write` and `delete` commands have made is a well-formed volume, and
`sfs_open` followed by `sfs_read` returns the source bytes of every file written and not deleted.
Conversely, after any calls on such a volume, `tfstool_read` returns the bytes of a root-level file as
`sfs_create` and the successful writes to its handle have left them, as many as its file size. -/
theorem tool_kernel_agree (e : Endian) (size : ℕ) (h3 : 3 ≤ size) (hn : size ≤ 4096)
    (volumename : List UInt8) (cmds : List Command) (hv : ∀ c ∈ cmds, ValidName c.name)
    (img0 img : Image) (h0 : tfstoolCreatevol e size volumename = some img0)
    (hrun : runCommands e img0 cmds = some img) :
    WellFormed img.gbd ∧
    (∀ name bytes, storedFiles cmds name = some bytes →
      ∃ (f : ℕ) (s : Sfs), sfsOpen (sfsInit img.gbd) (SLASH :: name) = ((f : ℤ), s) ∧
        sfsRead s f bytes.length 0 = some (((bytes.length : ℤ), bytes), s)) ∧
    ∀ (calls calls' : List Call) (s s1 s2 : Sfs) (name : List UInt8) (filesize : Int32),
      Fs.run (sfsInit img.gbd) calls = some s → ValidName name →
      sfsCreate s (SLASH :: name) filesize = (VFS_OK, s1) → Fs.run s1 calls' = some s2 →
      Call.remove (SLASH :: name) ∉ calls' →
      ∃ f : ℕ, (sfsResolveFileExt s1 (SLASH :: name)).block = f ∧
        (∀ junk, tfstoolRead e (imageOf s2.disk) junk name =
          some (lastWritten f s1 calls' (List.replicate filesize.toInt.toNat 0))) ∧
        (lastWritten f s1 calls' (List.replicate filesize.toInt.toNat 0)).length =
          filesize.toInt.toNat := by
  have h := Holds.run cmds (Holds.createvol h3 hn h0) hv hrun
  refine ⟨h.wellFormed, fun name bytes hname => h.kernelRead hname, ?_⟩
  intro calls calls' s s1 s2 name filesize hr hname hc hr' hno
  have hs := Readable.run calls h.readable hr
  obtain ⟨f, hf, hsz⟩ := RootFile.created hs.quiet hname hc
  have hs1 : Readable s1 := Readable.run [.create (SLASH :: name) filesize] hs (by
    rw [Fs.run, Call.exec, hc]
    rfl)
  have hs2 := Readable.run calls' hs1 hr'
  obtain ⟨hf2, hsz2⟩ := hf.run calls' hs1 hr' hno
  refine ⟨f, hf.resolve hs1 hname, fun junk => ?_, ?_⟩
  · exact hf2.toolRead hs2.quiet hs2.covers hs2.names hs2.free hname e junk
  · rw [← hf2.bytes, fileBytes_length, hsz2, hsz]

/-- Two files are written to an image of 12 blocks and one of them is deleted; the kernel then creates
a file of 3 bytes and writes two of them. -/
theorem tool_kernel_agree_twoFiles :
    let cmds : List Command := [.write (Buf.const 512 7) [1, 2, 3] [97],
      .write (Buf.const 512 7) [4, 5] [98], .delete [97]]
    let calls : List Call := [.openFile [47, 99], .write 0 3 [8, 9] 1]
    ∃ img0 img, tfstoolCreatevol .little 12 [118] = some img0 ∧
      runCommands .little img0 cmds = some img ∧ WellFormed img.gbd ∧
      (∃ (f : ℕ) (s : Sfs), sfsOpen (sfsInit img.gbd) [47, 98] = ((f : ℤ), s) ∧
        sfsRead s f 2 0 = some ((2, [4, 5]), s)) ∧
      ∃ s1 s2, sfsCreate (sfsInit img.gbd) [47, 99] 3 = (VFS_OK, s1) ∧
        Fs.run s1 calls = some s2 ∧
        ∀ junk, tfstoolRead .little (imageOf s2.disk) junk [99] = some [0, 8, 9] := by
  intro cmds calls
  have hall : ((tfstoolCreatevol .little 12 [118]).bind fun img0 =>
      (runCommands .little img0 cmds).bind fun img =>
        let s1 := (sfsCreate (sfsInit img.gbd) [47, 99] 3).2
        (Fs.run s1 calls).map fun _ =>
          ((sfsCreate (sfsInit img.gbd) [47, 99] 3).1, (sfsResolveFileExt s1 [47, 99]).block,
            lastWritten 3 s1 calls (List.replicate 3 0))) =
      some (VFS_OK, 3, [0, 8, 9]) := by
    decide +kernel
  obtain ⟨img0, h0, hall⟩ := Option.bind_eq_some_iff.1 hall
  obtain ⟨img, hrun, hall⟩ := Option.bind_eq_some_iff.1 hall
  obtain ⟨s2, hr, hall⟩ := Option.map_eq_some_iff.1 hall
  simp only [Prod.mk.injEq] at hall
  obtain ⟨hok, hblock, hlast⟩ := hall
  obtain ⟨hw, hread, hback⟩ := tool_kernel_agree .little 12 (by decide) (by decide) [118] cmds
    (by decide +kernel) img0 img h0 hrun
  have hc : sfsCreate (sfsInit img.gbd) [47, 99] 3 =
      (VFS_OK, (sfsCreate (sfsInit img.gbd) [47, 99] 3).2) := Prod.ext hok rfl
  obtain ⟨f, hf, htool, -⟩ := hback [] calls _ _ s2 [99] 3 rfl (by decide +kernel) hc hr
    (by simp [calls])
  have hf3 : f = 3 := by exact_mod_cast hf.symm.trans hblock
  subst hf3
  exact ⟨img0, img, h0, hrun, hw, hread [98] [4, 5] (by decide), _, s2, hc, hr,
    fun junk => (htool junk).trans (congrArg some hlast)⟩

end Buenos.Tfstool
