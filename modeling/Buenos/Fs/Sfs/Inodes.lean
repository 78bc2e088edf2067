import Buenos.Fs.Sfs.Effects

/-!
# Inodes and names along runs

A property of inodes that new inodes have is kept by every call, because no call changes the inode
of a live file; names stay unique because a name is created only where it is missing.

* `Effect.inode` — the inode of a live file is as it was, or was just created.
* `Inodes.run` — properties of inodes along runs, instantiated by `Gapless` (block numbers are used
  from the front) and `Covers` (every block that the size needs is there).
* `NamesUnique.run` — names along runs.
-/

namespace Buenos.Fs

open Bytes BlockProgram Ownership

/-! ## Inodes -/

/-- An inode as `sfs_create` writes it. -/
structure NewInode (inode : Block) : Prop where
  data : ∃ data : List ℕ, (∀ b ∈ data, b ≠ 0) ∧ data.length ≤ 127 ∧
    inodeFilesize inode ≤ 512 * data.length ∧ ∀ j < 127, inodeBlock inode j = data.getD j 0

/-- After the first unused block number there are only unused ones. -/
def Gapless (inode : Block) : Prop :=
  ∀ j < 127, inodeBlock inode j = 0 → ∀ j' < 127, j ≤ j' → inodeBlock inode j' = 0

/-- Every block that the size needs is there. -/
def Covers (inode : Block) : Prop := ∀ j, 512 * j < inodeFilesize inode → inodeBlock inode j ≠ 0

theorem getD_ne_zero {data : List ℕ} (h : ∀ b ∈ data, b ≠ 0) {j : ℕ} :
    data.getD j 0 = 0 ↔ data.length ≤ j := by
  constructor
  · intro h0
    by_contra hlt
    rw [List.getD_eq_getElem data 0 (by omega)] at h0
    exact h _ (List.getElem_mem _) h0
  · intro hle
    exact List.getD_eq_default _ _ hle

theorem NewInode.gapless {inode : Block} (h : NewInode inode) : Gapless inode := by
  obtain ⟨data, h1, -, -, h4⟩ := h.data
  intro j hj h0 j' hj' hle
  rw [h4 j hj, getD_ne_zero h1] at h0
  rw [h4 j' hj', getD_ne_zero h1]
  omega

theorem NewInode.covers {inode : Block} (h : NewInode inode) : Covers inode := by
  obtain ⟨data, h1, h2, h3, h4⟩ := h.data
  intro j hj
  rw [h4 j (by omega), ne_eq, getD_ne_zero h1]
  omega

/-- A gapless inode gives back all its blocks. -/
theorem Gapless.deletedBlock {blocks : ℕ → Block} {f b : ℕ} (h : Gapless (blocks f))
    (hb : owns blocks (.node f .file) b) : DeletedBlock blocks f false b := by
  rcases hb with hb | ⟨-, h0, j, hj, hb⟩
  · exact Or.inl hb
  · refine Or.inr ⟨rfl, j, Nat.zero_le _, by omega, hb, fun j' _ hle hz => ?_⟩
    exact h0 (hb ▸ h j' (by omega) hz j hj hle)

theorem CreateOk.newInode {s s' : Sfs} {path : List UInt8} {p idx f : ℕ} {data : List ℕ} {size : ℕ}
    {pins : Pins} (hinv : Inv s pins) (h : CreateOk s s' path p idx f data size)
    (hk : sfsIsFolder path = false) : NewInode (s'.disk.blocks f) := by
  obtain ⟨h1, h2, h3⟩ := h.created.file hk
  refine ⟨data, fun b hb => ?_, ?_, ?_, h3⟩
  · have := h.created.system_ne hinv.vol (List.mem_cons_of_mem f hb)
    omega
  · have := h.num
    omega
  · rw [h2, h1]
    exact h.size_le

/-- The grown tree of a successful creation. -/
theorem CreateOk.grows {s s' : Sfs} {path : List UInt8} {p idx f : ℕ} {data : List ℕ} {size : ℕ}
    {pins : Pins} (hinv : Inv s pins) (h : CreateOk s s' path p idx f data size) :
    Grows s.disk.blocks s'.disk.blocks p idx f (kindOf (sfsIsFolder path)) :=
  h.created.grows hinv.vol hinv.small h.reach h.isFolder h.length h.nonzero

theorem CreateOk.openFiles {s s' : Sfs} {path : List UInt8} {p idx f : ℕ} {data : List ℕ} {size : ℕ}
    (h : CreateOk s s' path p idx f data size) : s'.openFiles = s.openFiles := by
  rw [h.state]

/-- The contents of a new file are zeros. -/
theorem CreateOk.fileBytes {s s' : Sfs} {path : List UInt8} {p idx f : ℕ} {data : List ℕ} {size : ℕ}
    (h : CreateOk s s' path p idx f data size) (hk : sfsIsFolder path = false) :
    fileBytes s'.disk.blocks f = List.replicate size 0 := by
  obtain ⟨h1, h2, h3⟩ := h.created.file hk
  have hnum := h.num
  have hsize := h.size_le
  apply List.ext_getElem?
  intro x
  rw [fileBytes_getElem?, h2, List.getElem?_replicate]
  by_cases hx : x < size
  · have hlt : x / 512 < data.length := by omega
    rw [if_pos hx, if_pos hx, fileByte, h3 _ (by omega), List.getD_eq_getElem data 0 hlt,
      h.created.zero _ (List.getElem_mem hlt), Buf.byte_const, if_pos (by omega)]
  · rw [if_neg hx, if_neg hx]

/-- **The live nodes after a call** were live before, with the same block unless it is a directory,
or are new. -/
theorem Effect.live {s s' : Sfs} {c : Call} {r : Reply} (hq : Quiet s) (h : Effect s c r s') {g : ℕ}
    {k : Kind} (hg : Live s'.disk.blocks s'.openFiles noPins (.node g k)) :
    (Live s.disk.blocks s.openFiles noPins (.node g k) ∧
      (k = .file → s'.disk.blocks g = s.disk.blocks g)) ∨
    (∃ path size p idx data, c = .create path size ∧ k = kindOf (sfsIsFolder path) ∧
      CreateOk s s' path p idx g data (createSize path size)) := by
  have hvol := hq.inv.vol
  cases h with
  | failed => exact Or.inl ⟨hg, fun _ => rfl⟩
  | read => exact Or.inl ⟨hg, fun _ => rfl⟩
  | opened hf => exact Or.inl ⟨live_setEntry (fun h => h) (Inv.opened_live (Or.inl hf)) hg, fun _ => rfl⟩
  | created hc =>
    rename_i path size p idx f data
    rw [hc.openFiles] at hg
    have hlive : Live s.disk.blocks s.openFiles noPins (.node g k) ∨
        (g = f ∧ k = kindOf (sfsIsFolder path)) := by
      rcases hg with hg | hg
      · rcases ((hc.grows hq.inv).inTree_iff g k).1 hg with hg | hg
        · exact Or.inl (Or.inl hg)
        · exact Or.inr hg
      · exact Or.inl (Or.inr hg)
    rcases hlive with hl | ⟨rfl, rfl⟩
    · refine Or.inl ⟨hl, ?_⟩
      rintro rfl
      refine hc.created.same hvol hl ?_
      rintro rfl
      cases hvol.kind_eq (VolInv.dir_live hc.reach) hl
    · exact Or.inr ⟨path, size, p, idx, data, rfl, rfl, hc⟩
  | written he hk =>
    rename_i e f tid offset buf
    obtain ⟨blocks, hd, hb⟩ := writeBody_frame s.disk f buf buf.length offset
    have hf : Live s.disk.blocks s.openFiles noPins (.node f .file) :=
      Or.inr (Or.inl ⟨e, he, by rw [hk]; rfl⟩)
    rw [hd] at hg ⊢
    have htree : SameTree s.disk.blocks blocks := fun p hp =>
      hb p (hvol.node_untouched hf (VolInv.dir_live hp))
    have hl : Live s.disk.blocks s.openFiles noPins (.node g k) :=
      hg.imp_left (htree.inTree_iff g k).1
    exact Or.inl ⟨hl, fun _ => hb g (hvol.node_untouched hf hl)⟩
  | closed he =>
    exact Or.inl ⟨live_sameFile hg rfl rfl, fun _ => rfl⟩
  | released =>
    exact Or.inl ⟨live_setEntry (fun h => h) (fun f hf => by cases hf) hg, fun _ => rfl⟩
  | freed he _ hd =>
    have hl := (hvol.live_release he hd (fun _ _ hp => hp) hg).1
    have := hvol.two_le hl
    exact Or.inl ⟨hl, fun _ => Function.update_of_ne (by simp only [SFS_ALLOCATION_BLOCK]; omega) ..⟩
  | unlinked hl _ he =>
    have hlive := live_unlink (live_sameFile hg rfl rfl)
    refine Or.inl ⟨hlive, ?_⟩
    rintro rfl
    refine unlinkBlocks_of_ne ?_
    rintro rfl
    cases hvol.kind_eq (VolInv.dir_live hl.dir) hlive
  | @removed path p i f bat hl _ hno =>
    have hun := hvol.unlink hl
    have hlive : Live s.disk.blocks s.openFiles noPins (.node g k) := by
      rcases hg with hg | hg | ⟨q, hp⟩
      · rw [show ((s.unlinked p f).freed f (sfsIsFolder path) bat).disk.blocks =
          Function.update (unlinkBlocks s.disk.blocks p f) SFS_ALLOCATION_BLOCK bat from rfl,
          (hun.sameTree_alloc bat).inTree_iff] at hg
        exact live_unlink (Or.inl hg)
      · exact Or.inr (Or.inl (isOpen_orphanEntries.1 hg))
      · exact absurd hp id
    refine Or.inl ⟨hlive, ?_⟩
    rintro rfl
    have := hvol.two_le hlive
    have h1 : ((s.unlinked p f).freed f (sfsIsFolder path) bat).disk.blocks g =
        unlinkBlocks s.disk.blocks p f g :=
      Function.update_of_ne (by simp only [SFS_ALLOCATION_BLOCK]; omega) ..
    rw [h1]
    refine unlinkBlocks_of_ne ?_
    rintro rfl
    cases hvol.kind_eq (VolInv.dir_live hl.dir) hlive

/-- Every live file has an inode with property `P`. -/
def Inodes (P : Block → Prop) (s : Sfs) : Prop :=
  ∀ {f}, Live s.disk.blocks s.openFiles noPins (.node f .file) → P (s.disk.blocks f)

/-- **A property of new inodes is kept by every call.** -/
theorem Inodes.effect {P : Block → Prop} (hP : ∀ {inode}, NewInode inode → P inode) {s s' : Sfs}
    {c : Call} {r : Reply} (hq : Quiet s) (hi : Inodes P s) (h : Effect s c r s') : Inodes P s' := by
  intro f hf
  rcases h.live hq hf with ⟨hl, he⟩ | ⟨path, size, p, idx, data, -, hk, hc⟩
  · rw [he rfl]
    exact hi hl
  · exact hP (hc.newInode hq.inv (kindOf_inj hk.symm))

/-! ## Names -/

/-- Names stay unique when entries only disappear. -/
theorem NamesUnique.mono {blocks blocks' : ℕ → Block} (h : NamesUnique blocks)
    (hr : ∀ q, ReachDir blocks' q → ReachDir blocks q)
    (he : ∀ q, ReachDir blocks q → ∀ i < 25, direntInode (blocks' q) i ≠ 0 →
      direntInode (blocks q) i ≠ 0 ∧ direntName (blocks' q) i = direntName (blocks q) i) :
    NamesUnique blocks' := by
  intro q hq i hi j hj h1 h2 hn
  have hq' := hr q hq
  obtain ⟨h3, h4⟩ := he q hq' i hi h1
  obtain ⟨h5, h6⟩ := he q hq' j hj h2
  rw [h4, h6] at hn
  exact h q hq' i hi j hj h3 h5 hn

theorem NamesUnique.sameTree {blocks blocks' : ℕ → Block} (h : NamesUnique blocks)
    (ht : SameTree blocks blocks') : NamesUnique blocks' :=
  h.mono (fun q => (ht.reachDir_iff q).1) fun q hq i _ h0 => by
    rw [ht q hq] at h0 ⊢
    exact ⟨h0, rfl⟩

theorem NamesUnique.unlink {blocks : ℕ → Block} (h : NamesUnique blocks) (p f : ℕ) :
    NamesUnique (unlinkBlocks blocks p f) := by
  refine h.mono (fun q => (shrinks_unlinkBlocks p f).reachDir) fun q _ i hi h0 => ?_
  by_cases hqp : q = p
  · subst hqp
    rw [unlinkBlocks_inode hi] at h0
    split at h0
    · exact absurd rfl h0
    · rename_i hne
      exact ⟨h0, unlinkBlocks_name hne⟩
  · rw [unlinkBlocks_of_ne hqp] at h0 ⊢
    exact ⟨h0, rfl⟩

theorem NamesUnique.created {s s' : Sfs} {path : List UInt8} {p idx f : ℕ} {data : List ℕ}
    {size : ℕ} (hinv : Inv s noPins) (hc : CreateOk s s' path p idx f data size)
    (h : NamesUnique s.disk.blocks) : NamesUnique s'.disk.blocks := by
  have hg := hc.grows hinv
  have hinode : ∀ i < 25, direntInode (s'.disk.blocks p) i =
      if i = idx then f else direntInode (s.disk.blocks p) i := by
    intro i _
    have := (hc.created.fresh f (List.mem_cons_self ..)).1
    have := hinv.small
    rw [hc.created.entry, setDirent_inode _ _ hc.created.idx_lt (by omega)]
  have hname : ∀ i < 25, direntName (s'.disk.blocks p) i =
      if i = idx then sfsGetActualFilename path else direntName (s.disk.blocks p) i := by
    intro i _
    rw [hc.created.entry, setDirent_name _ hc.created.idx_lt hc.length hc.nonzero]
  intro q hq i hi j hj h1 h2 hn
  rcases hg.reachDir hq with hq | ⟨rfl, hk⟩
  · by_cases hqp : q = p
    · subst hqp
      rw [hinode i hi] at h1
      rw [hinode j hj] at h2
      rw [hname i hi, hname j hj] at hn
      by_cases hie : i = idx <;> by_cases hje : j = idx
      · rw [hie, hje]
      · rw [if_pos hie, if_neg hje] at hn
        rw [if_neg hje] at h2
        exact absurd hn.symm (hc.unused j hj h2)
      · rw [if_neg hie, if_pos hje] at hn
        rw [if_neg hie] at h1
        exact absurd hn (hc.unused i hi h1)
      · rw [if_neg hie] at h1 hn
        rw [if_neg hje] at h2 hn
        exact h q hq i hi j hj h1 h2 hn
    · rw [hc.created.same hinv.vol (VolInv.dir_live hq) hqp] at h1 h2 hn
      exact h q hq i hi j hj h1 h2 hn
  · exact absurd (hg.empty hk i hi) h1

/-- **Names stay unique.** -/
theorem NamesUnique.effect {s s' : Sfs} {c : Call} {r : Reply} (hq : Quiet s)
    (hn : NamesUnique s.disk.blocks) (h : Effect s c r s') : NamesUnique s'.disk.blocks := by
  cases h with
  | failed => exact hn
  | read => exact hn
  | opened => exact hn
  | closed => exact hn
  | released => exact hn
  | created hc => exact hn.created hq.inv hc
  | written he hk =>
    rename_i e f tid offset buf
    obtain ⟨blocks, hd, hb⟩ := writeBody_frame s.disk f buf buf.length offset
    rw [hd]
    exact hn.sameTree fun p hp => hb p (hq.inv.vol.node_untouched
      (Or.inr (Or.inl ⟨e, he, by rw [hk]; rfl⟩)) (VolInv.dir_live hp))
  | freed => exact hn.sameTree (hq.inv.vol.sameTree_alloc _)
  | unlinked => exact hn.unlink _ _
  | removed hl => exact (hn.unlink _ _).sameTree ((hq.inv.vol.unlink hl).sameTree_alloc _)

end Buenos.Fs
