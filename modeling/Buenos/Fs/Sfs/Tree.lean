import Buenos.Fs.Sfs.Model
import Buenos.Base.Ownership

/-!
# The directory tree and the ownership of blocks

Abstract view of an SFS volume, in terms of its block contents only.

* `ReachDir`, `Link`, `InTree` — directories and entries reachable from the root; an entry is a
  folder exactly when its name ends with a slash.
* `Owner`, `owns` — who owns which block: the system owns the header and the allocation block, a
  directory its own block, a file its inode block and the non-zero blocks of its inode.
* `VolInv` — the invariant of a volume together with the table of open files and the files that
  some thread has resolved but not entered yet (`Pins`): ownership is exclusive and marked in the
  bitmap, links are unique, the table agrees with the tree.

The three ways a volume changes are described by `SameTree` (no directory block that can be
reached changes), `Shrinks` (entries disappear) and `Grows` (one entry appears); each comes with
the resulting links (`SameTree.link_iff`, `Shrinks.link`, `Grows.link_iff`).
-/

namespace Buenos.Fs

open Bytes Ownership

inductive Kind where
  | file
  | dir
  deriving DecidableEq, Repr

/-- The kind that the flag `is_folder` stands for. -/
def kindOf (isFolder : Bool) : Kind := if isFolder then .dir else .file

theorem kindOf_inj {a b : Bool} (h : kindOf a = kindOf b) : a = b := by
  cases a <;> cases b <;> simp_all [kindOf]

/-- The kind of entry `i` of a directory block, told by its name. -/
def direntKind (md : Block) (i : ℕ) : Kind := kindOf (sfsIsFolder (direntName md i))

/-- Directory blocks reachable from the root. -/
inductive ReachDir (blocks : ℕ → Block) : ℕ → Prop
  | root : ReachDir blocks 2
  | sub {p i : ℕ} (hp : ReachDir blocks p) (hi : i < 25) (h0 : direntInode (blocks p) i ≠ 0)
      (hk : direntKind (blocks p) i = .dir) : ReachDir blocks (direntInode (blocks p) i)

/-- Entry `i` of the reachable directory `p` is live and refers to `f`, of kind `k`. -/
structure Link (blocks : ℕ → Block) (p i f : ℕ) (k : Kind) : Prop where
  dir : ReachDir blocks p
  lt : i < 25
  inode : direntInode (blocks p) i = f
  live : f ≠ 0
  kind : direntKind (blocks p) i = k

/-- `f` is the root or the target of a reachable entry. -/
def InTree (blocks : ℕ → Block) (f : ℕ) (k : Kind) : Prop :=
  (f = 2 ∧ k = .dir) ∨ ∃ p i, Link blocks p i f k

theorem Link.inTree {blocks : ℕ → Block} {p i f : ℕ} {k : Kind} (h : Link blocks p i f k) :
    InTree blocks f k := Or.inr ⟨p, i, h⟩

theorem reachDir_iff {blocks : ℕ → Block} {p : ℕ} : ReachDir blocks p ↔ InTree blocks p .dir := by
  constructor
  · intro h
    cases h with
    | root => exact Or.inl ⟨rfl, rfl⟩
    | sub hp hi h0 hk => exact Or.inr ⟨_, _, hp, hi, rfl, h0, hk⟩
  · rintro (⟨rfl, -⟩ | ⟨q, i, h⟩)
    · exact .root
    · have := ReachDir.sub h.dir h.lt (by rw [h.inode]; exact h.live) h.kind
      rwa [h.inode] at this

/-! ## How the tree changes -/

section Change

variable {blocks blocks' : ℕ → Block}

/-- Every directory block that can be reached is left alone. -/
def SameTree (blocks blocks' : ℕ → Block) : Prop := ∀ p, ReachDir blocks p → blocks' p = blocks p

theorem SameTree.reachDir_iff (h : SameTree blocks blocks') (p : ℕ) :
    ReachDir blocks' p ↔ ReachDir blocks p := by
  constructor
  · intro hp
    induction hp with
    | root => exact .root
    | sub _ hi h0 hk ih =>
      rw [h _ ih] at h0 hk ⊢
      exact .sub ih hi h0 hk
  · intro hp
    induction hp with
    | root => exact .root
    | sub hp hi h0 hk ih =>
      rw [← h _ hp] at h0 hk ⊢
      exact .sub ih hi h0 hk

theorem SameTree.link_iff (h : SameTree blocks blocks') (p i f : ℕ) (k : Kind) :
    Link blocks' p i f k ↔ Link blocks p i f k := by
  constructor
  · rintro ⟨h1, h2, h3, h4, h5⟩
    have h1' := (h.reachDir_iff p).1 h1
    rw [h p h1'] at h3 h5
    exact ⟨h1', h2, h3, h4, h5⟩
  · rintro ⟨h1, h2, h3, h4, h5⟩
    rw [← h p h1] at h3 h5
    exact ⟨(h.reachDir_iff p).2 h1, h2, h3, h4, h5⟩

theorem SameTree.inTree_iff (h : SameTree blocks blocks') (f : ℕ) (k : Kind) :
    InTree blocks' f k ↔ InTree blocks f k := by
  simp only [InTree, h.link_iff]

/-- Entries may disappear; those that stay live are as before. -/
def Shrinks (blocks blocks' : ℕ → Block) : Prop :=
  ∀ p, ReachDir blocks p → ∀ i < 25, direntInode (blocks' p) i ≠ 0 →
    direntInode (blocks' p) i = direntInode (blocks p) i ∧
      direntKind (blocks' p) i = direntKind (blocks p) i

theorem Shrinks.reachDir (h : Shrinks blocks blocks') {p : ℕ} (hp : ReachDir blocks' p) :
    ReachDir blocks p := by
  induction hp with
  | root => exact .root
  | sub _ hi h0 hk ih =>
    obtain ⟨e1, e2⟩ := h _ ih _ hi h0
    rw [e1] at h0 ⊢
    rw [e2] at hk
    exact .sub ih hi h0 hk

theorem Shrinks.link (h : Shrinks blocks blocks') {p i f : ℕ} {k : Kind}
    (hl : Link blocks' p i f k) : Link blocks p i f k := by
  obtain ⟨h1, h2, h3, h4, h5⟩ := hl
  have h1' := h.reachDir h1
  obtain ⟨e1, e2⟩ := h p h1' i h2 (by rw [h3]; exact h4)
  exact ⟨h1', h2, by rw [← e1, h3], h4, by rw [← e2, h5]⟩

theorem Shrinks.inTree (h : Shrinks blocks blocks') {f : ℕ} {k : Kind} (hf : InTree blocks' f k) :
    InTree blocks f k := by
  rcases hf with hf | ⟨p, i, hl⟩
  · exact Or.inl hf
  · exact (h.link hl).inTree

/-- One entry appears: slot `idx` of `p` now refers to the fresh block `f`; a new folder is
empty. -/
structure Grows (blocks blocks' : ℕ → Block) (p idx f : ℕ) (k : Kind) : Prop where
  reach : ReachDir blocks p
  lt : idx < 25
  free : direntInode (blocks p) idx = 0
  inode : direntInode (blocks' p) idx = f
  live : f ≠ 0
  kind : direntKind (blocks' p) idx = k
  fresh : ¬ ReachDir blocks f
  empty : k = .dir → ∀ i < 25, direntInode (blocks' f) i = 0
  other : ∀ q, ReachDir blocks q → ∀ i < 25, ¬ (q = p ∧ i = idx) →
    direntInode (blocks' q) i = direntInode (blocks q) i ∧
      direntKind (blocks' q) i = direntKind (blocks q) i

variable {p idx f : ℕ} {k : Kind}

theorem Grows.reachDir_of (h : Grows blocks blocks' p idx f k) {q : ℕ} (hq : ReachDir blocks q) :
    ReachDir blocks' q := by
  induction hq with
  | root => exact .root
  | @sub q i hq hi h0 hk ih =>
    have hne : ¬ (q = p ∧ i = idx) := by rintro ⟨rfl, rfl⟩; exact h0 h.free
    obtain ⟨e1, e2⟩ := h.other q hq i hi hne
    rw [← e1] at h0 ⊢
    rw [← e2] at hk
    exact .sub ih hi h0 hk

theorem Grows.reachDir (h : Grows blocks blocks' p idx f k) {q : ℕ} (hq : ReachDir blocks' q) :
    ReachDir blocks q ∨ (q = f ∧ k = .dir) := by
  induction hq with
  | root => exact Or.inl .root
  | @sub q i _ hi h0 hk ih =>
    rcases ih with ih | ⟨rfl, hkd⟩
    · by_cases hne : q = p ∧ i = idx
      · obtain ⟨rfl, rfl⟩ := hne
        rw [h.kind] at hk
        exact Or.inr ⟨h.inode, hk⟩
      · obtain ⟨e1, e2⟩ := h.other q ih i hi hne
        rw [e1] at h0 ⊢
        rw [e2] at hk
        exact Or.inl (.sub ih hi h0 hk)
    · exact absurd (h.empty hkd i hi) h0

/-- **The new links are the old ones and the added one.** -/
theorem Grows.link_iff (h : Grows blocks blocks' p idx f k) (q i g : ℕ) (k' : Kind) :
    Link blocks' q i g k' ↔ Link blocks q i g k' ∨ (q = p ∧ i = idx ∧ g = f ∧ k' = k) := by
  constructor
  · rintro ⟨h1, h2, h3, h4, h5⟩
    rcases h.reachDir h1 with h1 | ⟨rfl, hkd⟩
    · by_cases hne : q = p ∧ i = idx
      · obtain ⟨rfl, rfl⟩ := hne
        exact Or.inr ⟨rfl, rfl, by rw [← h3, h.inode], by rw [← h5, h.kind]⟩
      · obtain ⟨e1, e2⟩ := h.other q h1 i h2 hne
        exact Or.inl ⟨h1, h2, by rw [← e1, h3], h4, by rw [← e2, h5]⟩
    · exact absurd (h.empty hkd i h2 ▸ h3).symm h4
  · rintro (⟨h1, h2, h3, h4, h5⟩ | ⟨rfl, rfl, rfl, rfl⟩)
    · have hne : ¬ (q = p ∧ i = idx) := by
        rintro ⟨rfl, rfl⟩
        exact h4 (by rw [← h3, h.free])
      obtain ⟨e1, e2⟩ := h.other q h1 i h2 hne
      exact ⟨h.reachDir_of h1, h2, by rw [e1, h3], h4, by rw [e2, h5]⟩
    · exact ⟨h.reachDir_of h.reach, h.lt, h.inode, h.live, h.kind⟩

theorem Grows.inTree_iff (h : Grows blocks blocks' p idx f k) (g : ℕ) (k' : Kind) :
    InTree blocks' g k' ↔ InTree blocks g k' ∨ (g = f ∧ k' = k) := by
  unfold InTree
  simp only [h.link_iff]
  constructor
  · rintro (h1 | ⟨q, i, h1 | ⟨-, -, h2, h3⟩⟩)
    · exact Or.inl (Or.inl h1)
    · exact Or.inl (Or.inr ⟨q, i, h1⟩)
    · exact Or.inr ⟨h2, h3⟩
  · rintro ((h1 | ⟨q, i, h1⟩) | ⟨h2, h3⟩)
    · exact Or.inl h1
    · exact Or.inr ⟨q, i, Or.inl h1⟩
    · exact Or.inr ⟨p, idx, Or.inr ⟨rfl, rfl, h2, h3⟩⟩

end Change

/-! ## Ownership of blocks -/

/-- What owns blocks: the system, or a file or directory named by its inode or directory block. -/
inductive Owner where
  | system
  | node (f : ℕ) (k : Kind)
  deriving DecidableEq

/-- Block `b` belongs to `o`. -/
def owns (blocks : ℕ → Block) : Owner → ℕ → Prop
  | .system, b => b < 2
  | .node f k, b => b = f ∨ (k = .file ∧ b ≠ 0 ∧ ∃ j < 127, inodeBlock (blocks f) j = b)

/-- `f` of kind `k` is named by an entry of the table of open files. -/
def IsOpen (files : Slot → OpenFile) (f : ℕ) (k : Kind) : Prop :=
  ∃ e, (files e).fileid = f ∧ kindOf (files e).isFolder = k

/-- Files that a thread has resolved (with the parent it saw) but not yet entered. -/
abbrev Pins := ℕ → ℤ → Kind → Prop

/-- No thread is between resolving and entering. -/
def noPins : Pins := fun _ _ _ => False

/-- The owners that are in use. -/
def Live (blocks : ℕ → Block) (files : Slot → OpenFile) (pins : Pins) : Owner → Prop
  | .system => True
  | .node f k => InTree blocks f k ∨ IsOpen files f k ∨ ∃ q, pins f q k

/-- Block `b` is marked in the allocation block. -/
def Marked (blocks : ℕ → Block) (b : ℕ) : Prop := bitmapGet (blocks SFS_ALLOCATION_BLOCK) b = 1

instance (blocks : ℕ → Block) (b : ℕ) : Decidable (Marked blocks b) :=
  inferInstanceAs (Decidable (bitmapGet (blocks SFS_ALLOCATION_BLOCK) b = 1))

/-- **Invariant of a volume** with `n` blocks and its table of open files. -/
structure VolInv (n : ℕ) (blocks : ℕ → Block) (files : Slot → OpenFile) (pins : Pins) : Prop where
  own : Exclusive (Live blocks files pins) (owns blocks) (Marked blocks)
  inside : ∀ {f k b}, Live blocks files pins (.node f k) → owns blocks (.node f k) b → b < n
  data : ∀ {f j j'}, Live blocks files pins (.node f .file) → j < 127 → j' < 127 →
    inodeBlock (blocks f) j ≠ 0 → inodeBlock (blocks f) j = inodeBlock (blocks f) j' → j = j'
  self : ∀ {f j}, Live blocks files pins (.node f .file) → j < 127 → inodeBlock (blocks f) j ≠ f
  size : ∀ {f}, Live blocks files pins (.node f .file) → inodeFilesize (blocks f) ≤ SFS_MAX_FILESIZE
  link_inj : ∀ {p i p' i' f k k'}, Link blocks p i f k → Link blocks p' i' f k' → p = p' ∧ i = i'
  link_root : ∀ {p i f k}, Link blocks p i f k → f ≠ 2
  distinct : ∀ {e e'}, (files e).fileid = (files e').fileid → (files e).fileid ≠ -1 → e = e'
  free : ∀ {e}, (files e).fileid < 0 → files e = sfsResetEntry
  parent : ∀ {e p i f k}, (files e).fileid = (f : ℕ) → Link blocks p i f k → (files e).parentid = p
  deleted : ∀ {e f k}, (files e).isDeleted = true → (files e).fileid = (f : ℕ) → ¬ InTree blocks f k
  pinned : ∀ {q p i f k k'}, pins f q k → Link blocks p i f k' → q = p

namespace VolInv

variable {n : ℕ} {blocks : ℕ → Block} {files : Slot → OpenFile} {pins : Pins}

theorem two_le (h : VolInv n blocks files pins) {f : ℕ} {k : Kind}
    (hf : Live blocks files pins (.node f k)) : 2 ≤ f := by
  by_contra hlt
  have := h.own.unique (o := .system) trivial hf (show owns blocks .system f by
    show f < 2; omega) (Or.inl rfl)
  cases this

theorem block_two_le (h : VolInv n blocks files pins) {f b : ℕ} {k : Kind}
    (hf : Live blocks files pins (.node f k)) (hb : owns blocks (.node f k) b) : 2 ≤ b := by
  by_contra hlt
  have := h.own.unique (o := .system) trivial hf (show owns blocks .system b by
    show b < 2; omega) hb
  cases this

theorem root_live : Live blocks files pins (.node 2 .dir) := Or.inl (Or.inl ⟨rfl, rfl⟩)

theorem lt (h : VolInv n blocks files pins) {f : ℕ} {k : Kind}
    (hf : Live blocks files pins (.node f k)) : f < n := h.inside hf (Or.inl rfl)

/-- A live node has one kind. -/
theorem kind_eq (h : VolInv n blocks files pins) {f : ℕ} {k k' : Kind}
    (h1 : Live blocks files pins (.node f k)) (h2 : Live blocks files pins (.node f k')) :
    k = k' := by
  have := h.own.unique h1 h2 (b := f) (Or.inl rfl) (Or.inl rfl)
  cases this
  rfl

theorem dir_live (h : ReachDir blocks p) : Live blocks files pins (.node p .dir) :=
  Or.inl (reachDir_iff.1 h)

end VolInv

end Buenos.Fs
