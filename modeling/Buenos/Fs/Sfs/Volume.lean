import Buenos.Fs.Sfs.Sequential

/-!
# Well-formed volumes, and what every run of calls keeps

* `Site`, `refers` — the places that refer to a block: the system (blocks 0, 1 and 2), a live entry
  of a reachable directory, a block number in the inode of a linked file.
* `WellFormed` — every block is referred to from one place at most; what is referred to is marked
  and lies on the volume.
* `Consistent` — what must hold after every call, for the directory tree and for the open files.

Principal results: `WellFormed.quiet` (mounting a well-formed volume establishes the invariant),
`sfs_blocks_consistent` (the volume is consistent after every sequence of calls).
-/

namespace Buenos.Fs

open Bytes Ownership

/-! ## Well-formed volumes -/

/-- The places that refer to blocks. -/
inductive Site where
  | system (b : ℕ)
  | entry (p i : ℕ)
  | data (f j : ℕ)

/-- The place `site` refers to block `b`. -/
def refers (blocks : ℕ → Block) : Site → ℕ → Prop
  | .system b', b => b' < 3 ∧ b = b'
  | .entry p i, b => ∃ k, Link blocks p i b k
  | .data f j, b => (∃ p i, Link blocks p i f .file) ∧ j < 127 ∧ inodeBlock (blocks f) j = b ∧ b ≠ 0

/-- The number of blocks that `sfs_init` manages on `disk`. -/
def volumeBlocks (disk : Gbd) : ℕ := (sfsInit disk).totalvblocks

/-- **A well-formed volume.** -/
structure WellFormed (disk : Gbd) : Prop where
  marked : ∀ {site b}, refers disk.blocks site b → Marked disk.blocks b
  once : ∀ {site site' b}, refers disk.blocks site b → refers disk.blocks site' b → site = site'
  inside : ∀ {site b}, refers disk.blocks site b → b < volumeBlocks disk
  size : ∀ {p i f}, Link disk.blocks p i f .file → inodeFilesize (disk.blocks f) ≤ SFS_MAX_FILESIZE

/-- Who owns the block that a place refers to. -/
def Site.owner (blocks : ℕ → Block) : Site → Owner
  | .system b => if b < 2 then .system else .node 2 .dir
  | .entry p i => .node (direntInode (blocks p) i) (direntKind (blocks p) i)
  | .data f _ => .node f .file

/-- The table of a freshly mounted volume. -/
def noFiles : Slot → OpenFile := fun _ => sfsResetEntry

theorem live_noFiles {blocks : ℕ → Block} {f : ℕ} {k : Kind}
    (h : Live blocks noFiles noPins (.node f k)) : InTree blocks f k := by
  rcases h with h | ⟨e, h, -⟩ | ⟨q, h⟩
  · exact h
  · cases h
  · exact absurd h id

/-- A block that a live owner holds is referred to from a place of that owner. -/
theorem site_of_owns {blocks : ℕ → Block} {o : Owner} {b : ℕ} (ho : Live blocks noFiles noPins o)
    (hb : owns blocks o b) : ∃ site, refers blocks site b ∧ site.owner blocks = o := by
  cases o with
  | system =>
    have hb2 : b < 2 := hb
    exact ⟨.system b, ⟨by omega, rfl⟩, by rw [Site.owner, if_pos hb2]⟩
  | node f k =>
    rcases hb with rfl | ⟨rfl, hb0, j, hj, hb⟩
    · rcases live_noFiles ho with ⟨rfl, rfl⟩ | ⟨p, i, hl⟩
      · exact ⟨.system 2, ⟨by omega, rfl⟩, rfl⟩
      · exact ⟨.entry p i, ⟨k, hl⟩, by rw [Site.owner, hl.inode, hl.kind]⟩
    · rcases live_noFiles ho with ⟨-, hk⟩ | ⟨p, i, hl⟩
      · cases hk
      · exact ⟨.data f j, ⟨⟨p, i, hl⟩, hj, hb, hb0⟩, rfl⟩

section

variable {disk : Gbd}

theorem WellFormed.linked (_ : WellFormed disk) {f : ℕ}
    (hf : Live disk.blocks noFiles noPins (.node f .file)) : ∃ p i, Link disk.blocks p i f .file := by
  rcases live_noFiles hf with ⟨-, hk⟩ | hl
  · cases hk
  · exact hl

/-- **Mounting a well-formed volume** establishes the invariant. -/
theorem WellFormed.volInv (h : WellFormed disk) :
    VolInv (volumeBlocks disk) disk.blocks noFiles noPins where
  own :=
    { used := fun ho hb => by
        obtain ⟨site, h1, -⟩ := site_of_owns ho hb
        exact h.marked h1
      unique := fun ho ho' hb hb' => by
        obtain ⟨site, h1, rfl⟩ := site_of_owns ho hb
        obtain ⟨site', h2, rfl⟩ := site_of_owns ho' hb'
        rw [h.once h1 h2] }
  inside := fun ho hb => by
    obtain ⟨site, h1, -⟩ := site_of_owns ho hb
    exact h.inside h1
  data := fun {f j j'} hf hj hj' h0 he => by
    have hl := h.linked hf
    have := @WellFormed.once _ h (.data f j) (.data f j') _ ⟨hl, hj, rfl, h0⟩
      ⟨hl, hj', he.symm, h0⟩
    cases this
    rfl
  self := fun {f j} hf hj he => by
    obtain ⟨p, i, hl⟩ := h.linked hf
    have := @WellFormed.once _ h (.data f j) (.entry p i) _ ⟨⟨p, i, hl⟩, hj, he, hl.live⟩ ⟨_, hl⟩
    cases this
  size := fun hf => by
    obtain ⟨p, i, hl⟩ := h.linked hf
    exact h.size hl
  link_inj := fun {p i p' i' f k k'} h1 h2 => by
    have := @WellFormed.once _ h (.entry p i) (.entry p' i') _ ⟨k, h1⟩ ⟨k', h2⟩
    cases this
    exact ⟨rfl, rfl⟩
  link_root := fun {p i f k} h1 he => by
    subst he
    cases @WellFormed.once _ h (.entry p i) (.system 2) _ ⟨k, h1⟩ ⟨by omega, rfl⟩
  distinct := fun _ hne => absurd rfl hne
  free := fun _ => rfl
  parent := fun he => by cases he
  deleted := fun hd => by cases hd
  pinned := fun hp => absurd hp id

theorem WellFormed.inv (h : WellFormed disk) (hw : disk.Works) : Inv (sfsInit disk) noPins where
  small := by simp only [sfsInit, SFS_VBLOCK_SIZE]; omega
  onDisk := by simp only [sfsInit, SFS_BLOCKS_PER_VBLOCK, Nat.div_one]; omega
  works := hw
  vol := h.volInv

theorem WellFormed.quiet (h : WellFormed disk) (hw : disk.Works) : Quiet (sfsInit disk) :=
  ⟨h.inv hw, fun _ => atRest_reset⟩

end

/-! ## Consistency after every call -/

/-- What the volume and the table refer to: the system, the tree, and the entries with
`times_opened > 0`, deleted or not. -/
def Referenced (s : Sfs) : Owner → Prop
  | .system => True
  | .node f k => InTree s.disk.blocks f k ∨
      ∃ e, (s.openFiles e).fileid = f ∧ kindOf (s.openFiles e).isFolder = k ∧
        (s.openFiles e).timesOpened > 0

/-- **Consistency**: referenced blocks are marked and on the volume, belong to one owner, and occur
once in an inode. An owner is one file or directory: no two entries of directories name the same inode,
none names the root, a deleted file is in no directory, and a file has one entry in the table. -/
structure Consistent (s : Sfs) : Prop where
  marked : ∀ {o b}, Referenced s o → owns s.disk.blocks o b →
    Marked s.disk.blocks b ∧ b < s.totalvblocks
  disjoint : ∀ {o o' b}, Referenced s o → Referenced s o' → owns s.disk.blocks o b →
    owns s.disk.blocks o' b → o = o'
  once : ∀ {f j j'}, Referenced s (.node f .file) → j < 127 → j' < 127 →
    inodeBlock (s.disk.blocks f) j ≠ 0 →
    inodeBlock (s.disk.blocks f) j = inodeBlock (s.disk.blocks f) j' → j = j'
  inode : ∀ {f j}, Referenced s (.node f .file) → j < 127 → inodeBlock (s.disk.blocks f) j ≠ f
  linked : ∀ {p i p' i' f k k'}, Link s.disk.blocks p i f k → Link s.disk.blocks p' i' f k' → p = p' ∧ i = i'
  root : ∀ {p i f k}, Link s.disk.blocks p i f k → f ≠ SFS_DIRECTORY_BLOCK
  deleted : ∀ {e f k}, (s.openFiles e).timesOpened > 0 → (s.openFiles e).isDeleted = true →
    (s.openFiles e).fileid = (f : ℕ) → ¬ InTree s.disk.blocks f k
  opened : ∀ {e e'}, (s.openFiles e).timesOpened > 0 → (s.openFiles e).fileid = (s.openFiles e').fileid → e = e'
  parent : ∀ {e p i f k}, (s.openFiles e).fileid = (f : ℕ) → Link s.disk.blocks p i f k →
    (s.openFiles e).parentid = p

theorem Referenced.live {s : Sfs} {pins : Pins} {o : Owner} (h : Referenced s o) :
    Live s.disk.blocks s.openFiles pins o := by
  cases o with
  | system => trivial
  | node f k =>
    rcases h with h | ⟨e, h1, h2, -⟩
    · exact Or.inl h
    · exact Or.inr (Or.inl ⟨e, h1, h2⟩)

/-- The invariant implies consistency. -/
theorem Inv.consistent {s : Sfs} {pins : Pins} (h : Inv s pins) : Consistent s where
  marked := fun {o b} ho hb => by
    refine ⟨h.vol.marked ho.live hb, ?_⟩
    cases o with
    | system =>
      have hb : b < 2 := hb
      have := h.two_lt
      omega
    | node f k => exact h.vol.inside ho.live hb
  disjoint := fun ho ho' hb hb' => h.vol.own.unique ho.live ho'.live hb hb'
  once := fun ho => h.vol.data ho.live
  inode := fun ho => h.vol.self ho.live
  linked := h.vol.link_inj
  root := h.vol.link_root
  deleted := fun _ => h.vol.deleted
  opened := fun {e e'} ht he => by
    refine h.vol.distinct he fun hfree => ?_
    rw [h.vol.free (e := e) (by omega)] at ht
    exact absurd ht (lt_irrefl 0)
  parent := h.vol.parent

/-- **Every sequence of calls leaves a consistent volume**: from a mounted well-formed volume whose
device works, all calls return and the volume is consistent after the last one (hence after each
one, since every prefix is a sequence of calls). -/
theorem sfs_blocks_consistent (disk : Gbd) (hwf : WellFormed disk) (hw : disk.Works)
    (cs : List Call) : ∃ s, run (sfsInit disk) cs = some s ∧ Consistent s := by
  obtain ⟨s, h1, h2⟩ := run_inv cs (hwf.quiet hw)
  exact ⟨s, h1, h2.inv.consistent⟩

/-! ## The empty volume -/

/-- A volume of 12 blocks with an empty root directory. -/
def emptyVolume : Gbd where
  totalBlocks := 12
  blocks := fun b => if b = 1 then (Buf.const 512 0).setWord 0 7 else Buf.const 512 0
  error := fun _ => false

theorem emptyVolume_works : emptyVolume.Works := fun _ _ => rfl

theorem direntInode_const (i : ℕ) : direntInode (Buf.const 512 0) i = 0 := by
  have h : ∀ o, (Buf.const 512 0).byte o = 0 := fun o => by
    rw [Buf.byte_const]
    split <;> rfl
  unfold direntInode Buf.word
  rw [h, h, h, h]
  rfl

section EmptyRoot

variable {disk : Gbd} (hroot : ∀ i < 25, direntInode (disk.blocks 2) i = 0)

include hroot

theorem emptyRoot_link {p i f : ℕ} {k : Kind} : ¬ Link disk.blocks p i f k := by
  have honly : ∀ p, ReachDir disk.blocks p → p = 2 := by
    intro p hp
    induction hp with
    | root => rfl
    | sub _ hi h0 _ ih =>
      rw [ih] at h0
      exact absurd (hroot _ hi) h0
  rintro ⟨h1, h2, h3, h4, -⟩
  rw [honly p h1] at h3
  exact h4 (h3.symm.trans (hroot i h2))

theorem emptyRoot_refers {site : Site} {b : ℕ} (h : refers disk.blocks site b) :
    b < 3 ∧ site = .system b := by
  cases site with
  | system b' =>
    obtain ⟨h1, rfl⟩ := h
    exact ⟨h1, rfl⟩
  | entry p i =>
    obtain ⟨k, hl⟩ := h
    exact absurd hl (emptyRoot_link hroot)
  | data f j =>
    obtain ⟨⟨p, i, hl⟩, -⟩ := h
    exact absurd hl (emptyRoot_link hroot)

/-- A volume without files is well-formed when the system blocks are marked. -/
theorem emptyRoot_wellFormed (hbits : ∀ b < 3, Marked disk.blocks b) (hsize : 3 ≤ volumeBlocks disk) :
    WellFormed disk where
  marked := fun h => hbits _ (emptyRoot_refers hroot h).1
  once := fun h h' => by rw [(emptyRoot_refers hroot h).2, (emptyRoot_refers hroot h').2]
  inside := fun h => Nat.lt_of_lt_of_le (emptyRoot_refers hroot h).1 hsize
  size := fun h => absurd h (emptyRoot_link hroot)

end EmptyRoot

theorem emptyVolume_root (i : ℕ) : direntInode (emptyVolume.blocks 2) i = 0 := by
  rw [show emptyVolume.blocks 2 = Buf.const 512 0 by rfl, direntInode_const]

theorem emptyVolume_link {p i f : ℕ} {k : Kind} : ¬ Link emptyVolume.blocks p i f k :=
  emptyRoot_link fun i _ => emptyVolume_root i

theorem emptyVolume_wellFormed : WellFormed emptyVolume :=
  emptyRoot_wellFormed (fun i _ => emptyVolume_root i) (by decide) (by decide)

/-- The calls: make a directory and a file in it, open the file, remove the directory, write. -/
theorem sfs_blocks_consistent_emptyVolume :
    ∃ s, run (sfsInit emptyVolume)
      [.create [47, 100, 47] 0, .create [47, 100, 47, 102] 600, .openFile [47, 100, 47, 102],
        .remove [47, 100, 47], .write 0 4 [1, 2, 3] 510, .closeFile 4] = some s ∧ Consistent s :=
  sfs_blocks_consistent emptyVolume emptyVolume_wellFormed emptyVolume_works _

end Buenos.Fs
