import Buenos.Fs.Sfs.Sections

/-!
# The sections keep the volume invariant

* `Inv` — the invariant of a mounted volume on a working device.
* `Inv.enter`, `Inv.enterDelete`, `Inv.exit`, `Inv.create`, `Inv.writeData` — one lemma for each way
  a section changes the state.  They are stated for arbitrary `Pins`, so the sequential and the
  interleaved semantics use the same lemmas.

All but creation follow from one monotonicity rule, `VolInv.mono`: fewer live nodes, fewer links,
and the bits of what stays live stay set.
-/

namespace Buenos.Fs

open Bytes Ownership

/-! ## The monotonicity rule -/

section Mono

variable {n : ℕ} {blocks blocks' : ℕ → Block} {files files' : Slot → OpenFile} {pins pins' : Pins}

/-- **Less live, fewer links, same inodes, bits kept**: the invariant survives if the table is in
order. -/
theorem VolInv.mono (h : VolInv n blocks files pins)
    (hl : ∀ {f k}, Live blocks' files' pins' (.node f k) → Live blocks files pins (.node f k))
    (hnode : ∀ {f}, Live blocks' files' pins' (.node f .file) → blocks' f = blocks f)
    (hmark : ∀ {o b}, Live blocks' files' pins' o → owns blocks o b → Marked blocks b →
      Marked blocks' b)
    (hlink : ∀ {p i f k}, Link blocks' p i f k → Link blocks p i f k)
    (distinct : ∀ {e e'}, (files' e).fileid = (files' e').fileid → (files' e).fileid ≠ -1 → e = e')
    (free : ∀ {e}, (files' e).fileid < 0 → files' e = sfsResetEntry)
    (parent : ∀ {e p i f k}, (files' e).fileid = (f : ℕ) → Link blocks' p i f k →
      (files' e).parentid = p)
    (deleted : ∀ {e f k}, (files' e).isDeleted = true → (files' e).fileid = (f : ℕ) →
      ¬ InTree blocks' f k)
    (pinned : ∀ {q p i f k k'}, pins' f q k → Link blocks' p i f k' → q = p) :
    VolInv n blocks' files' pins' := by
  have hlive : ∀ o, Live blocks' files' pins' o → Live blocks files pins o := by
    intro o ho
    cases o with
    | system => trivial
    | node f k => exact hl ho
  have howns : ∀ o b, Live blocks' files' pins' o → owns blocks' o b → owns blocks o b := by
    intro o b ho hb
    cases o with
    | system => exact hb
    | node f k =>
      rcases hb with hb | ⟨rfl, hb⟩
      · exact Or.inl hb
      · rw [hnode ho] at hb
        exact Or.inr ⟨rfl, hb⟩
  exact {
    own := h.own.mono hlive howns fun o b ho hb hm => hmark ho (howns o b ho hb) hm
    inside := fun hf hb => h.inside (hl hf) (howns _ _ hf hb)
    data := fun hf => by rw [hnode hf]; exact h.data (hl hf)
    self := fun hf => by rw [hnode hf]; exact h.self (hl hf)
    size := fun hf => by rw [hnode hf]; exact h.size (hl hf)
    link_inj := fun h1 h2 => h.link_inj (hlink h1) (hlink h2)
    link_root := fun h1 => h.link_root (hlink h1)
    distinct := distinct
    free := free
    parent := parent
    deleted := deleted
    pinned := pinned }

/-- The rule when only the table and the pins change. -/
theorem VolInv.refile (h : VolInv n blocks files pins)
    (hl : ∀ {f k}, Live blocks files' pins' (.node f k) → Live blocks files pins (.node f k))
    (distinct : ∀ {e e'}, (files' e).fileid = (files' e').fileid → (files' e).fileid ≠ -1 → e = e')
    (free : ∀ {e}, (files' e).fileid < 0 → files' e = sfsResetEntry)
    (parent : ∀ {e p i f k}, (files' e).fileid = (f : ℕ) → Link blocks p i f k →
      (files' e).parentid = p)
    (deleted : ∀ {e f k}, (files' e).isDeleted = true → (files' e).fileid = (f : ℕ) →
      ¬ InTree blocks f k)
    (pinned : ∀ {q p i f k k'}, pins' f q k → Link blocks p i f k' → q = p) :
    VolInv n blocks files' pins' :=
  h.mono hl (fun _ => rfl) (fun _ _ hm => hm) (fun hl => hl) distinct free parent deleted pinned

/-- Changing one entry: what an entry must satisfy. -/
structure EntryOk (blocks : ℕ → Block) (files : Slot → OpenFile) (e : Slot) (f : OpenFile) : Prop where
  distinct : ∀ e', e' ≠ e → (files e').fileid = f.fileid → f.fileid = -1
  free : f.fileid < 0 → f = sfsResetEntry
  parent : ∀ {p i g k}, f.fileid = (g : ℕ) → Link blocks p i g k → f.parentid = p
  deleted : ∀ {g k}, f.isDeleted = true → f.fileid = (g : ℕ) → ¬ InTree blocks g k

/-- Replacing one entry by one that names a live node makes nothing else live. -/
theorem live_setEntry {e : Slot} {f : OpenFile} (hp : ∀ {g q k}, pins' g q k → pins g q k)
    (hlive : ∀ g : ℕ, f.fileid = g → Live blocks files pins (.node g (kindOf f.isFolder))) {g : ℕ}
    {k : Kind} (h : Live blocks (Function.update files e f) pins' (.node g k)) :
    Live blocks files pins (.node g k) := by
  rcases h with hg | ⟨e', h1, h2⟩ | ⟨q, hq⟩
  · exact Or.inl hg
  · by_cases he : e' = e
    · subst he
      rw [Function.update_self] at h1 h2
      have := hlive g h1
      rwa [h2] at this
    · rw [Function.update_of_ne he] at h1 h2
      exact Or.inr (Or.inl ⟨e', h1, h2⟩)
  · exact Or.inr (Or.inr ⟨q, hp hq⟩)

theorem live_sameFile {e : Slot} {f : OpenFile} {g : ℕ} {k : Kind}
    (h : Live blocks (Function.update files e f) pins (.node g k))
    (h1 : f.fileid = (files e).fileid) (h2 : f.isFolder = (files e).isFolder) :
    Live blocks files pins (.node g k) :=
  live_setEntry (fun h => h) (fun g hg => Or.inr (Or.inl ⟨e, h1 ▸ hg, by rw [h2]⟩)) h

/-- **Replacing one entry** of the table and dropping pins. -/
theorem VolInv.setEntry (h : VolInv n blocks files pins) {e : Slot} {f : OpenFile}
    (hok : EntryOk blocks files e f) (hp : ∀ {g q k}, pins' g q k → pins g q k)
    (hlive : ∀ g : ℕ, f.fileid = g → Live blocks files pins (.node g (kindOf f.isFolder))) :
    VolInv n blocks (Function.update files e f) pins' := by
  refine h.refile (live_setEntry hp hlive) ?_ ?_ ?_ ?_ ?_
  · intro e1 e2 h1 h2
    by_cases he1 : e1 = e <;> by_cases he2 : e2 = e
    · rw [he1, he2]
    · subst he1
      rw [Function.update_self, Function.update_of_ne he2] at h1
      rw [Function.update_self] at h2
      exact absurd (hok.distinct e2 he2 h1.symm) h2
    · subst he2
      rw [Function.update_self, Function.update_of_ne he1] at h1
      rw [Function.update_of_ne he1, h1] at h2
      exact absurd (hok.distinct e1 he1 h1) h2
    · rw [Function.update_of_ne he1, Function.update_of_ne he2] at h1
      rw [Function.update_of_ne he1] at h2
      exact h.distinct h1 h2
  · intro e' h1
    by_cases he : e' = e
    · subst he
      rw [Function.update_self] at h1 ⊢
      exact hok.free h1
    · rw [Function.update_of_ne he] at h1 ⊢
      exact h.free h1
  · intro e' p i g k h1 h2
    by_cases he : e' = e
    · subst he
      rw [Function.update_self] at h1 ⊢
      exact hok.parent h1 h2
    · rw [Function.update_of_ne he] at h1 ⊢
      exact h.parent h1 h2
  · intro e' g k h1 h2
    by_cases he : e' = e
    · subst he
      rw [Function.update_self] at h1 h2
      exact hok.deleted h1 h2
    · rw [Function.update_of_ne he] at h1 h2
      exact h.deleted h1 h2
  · intro q p i g k k' h1 h2
    exact h.pinned (hp h1) h2

theorem VolInv.unpin (h : VolInv n blocks files pins) (hp : ∀ {g q k}, pins' g q k → pins g q k) :
    VolInv n blocks files pins' := by
  refine h.refile ?_ h.distinct h.free h.parent h.deleted fun h1 h2 => h.pinned (hp h1) h2
  rintro g k (hg | hg | ⟨q, hq⟩)
  · exact Or.inl hg
  · exact Or.inr (Or.inl hg)
  · exact Or.inr (Or.inr ⟨q, hp hq⟩)

/-- Two entries that agree on what the invariant speaks about. -/
structure SameFile (f f' : OpenFile) : Prop where
  fileid : f'.fileid = f.fileid
  parentid : f'.parentid = f.parentid
  isFolder : f'.isFolder = f.isFolder
  isDeleted : f'.isDeleted = f.isDeleted

/-- **Counters of an open entry** may change freely. -/
theorem VolInv.recount (h : VolInv n blocks files pins) {e : Slot} {f : OpenFile}
    (hs : SameFile (files e) f) (h0 : 0 ≤ f.fileid) :
    VolInv n blocks (Function.update files e f) pins := by
  refine h.setEntry ⟨fun e' hne h1 => ?_, fun h1 => by omega, fun h1 h2 => ?_, fun h1 h2 => ?_⟩
    (fun h => h) fun g hg => ?_
  · rw [hs.fileid] at h1 h0
    exact absurd (h.distinct h1 (by omega)) hne
  · rw [hs.parentid]
    rw [hs.fileid] at h1
    exact h.parent h1 h2
  · rw [hs.isDeleted] at h1
    rw [hs.fileid] at h2
    exact h.deleted h1 h2
  · rw [hs.isFolder]
    rw [hs.fileid] at hg
    exact Or.inr (Or.inl ⟨e, hg, rfl⟩)

/-- **Releasing an entry** forgets a node. -/
theorem VolInv.reset (h : VolInv n blocks files pins) (e : Slot) :
    VolInv n blocks (Function.update files e sfsResetEntry) pins :=
  h.setEntry ⟨fun _ _ _ => rfl, fun _ => rfl, fun h1 => absurd h1 (by simp [sfsResetEntry]),
    fun h1 => absurd h1 (by simp [sfsResetEntry])⟩ (fun h => h)
    fun g hg => absurd hg (by simp [sfsResetEntry])

end Mono

/-! ## Unlinking -/

/-- The blocks after unlinking `f` from the directory `p`. -/
def unlinkBlocks (blocks : ℕ → Block) (p f : ℕ) : ℕ → Block :=
  Function.update blocks p (clearDirents f SFS_MAX_FILES 0 (blocks p))

section Unlink

variable {n : ℕ} {blocks : ℕ → Block} {files : Slot → OpenFile} {pins : Pins} {p i f : ℕ} {k : Kind}

theorem unlinkBlocks_of_ne {q : ℕ} (h : q ≠ p) : unlinkBlocks blocks p f q = blocks q :=
  Function.update_of_ne h ..

theorem unlinkBlocks_inode {j : ℕ} (hj : j < 25) :
    direntInode (unlinkBlocks blocks p f p) j =
      if sint (direntInode (blocks p) j) = f then 0 else direntInode (blocks p) j := by
  rw [unlinkBlocks, Function.update_self, clearDirents_inode _ _ _ _ (by decide)]
  exact if_congr (by simp only [SFS_MAX_FILES]; omega) rfl rfl

theorem unlinkBlocks_name {j : ℕ} (h : sint (direntInode (blocks p) j) ≠ f) :
    direntName (unlinkBlocks blocks p f p) j = direntName (blocks p) j := by
  rw [unlinkBlocks, Function.update_self, clearDirents_name _ _ _ _ (by decide) _ h]

theorem shrinks_unlinkBlocks (p f : ℕ) : Shrinks blocks (unlinkBlocks blocks p f) := by
  intro q _ j hj h0
  by_cases hq : q = p
  · subst hq
    rw [unlinkBlocks_inode hj] at h0 ⊢
    split at h0
    · exact absurd rfl h0
    · rename_i hne
      rw [if_neg hne, direntKind, direntKind, unlinkBlocks_name hne]
      exact ⟨rfl, rfl⟩
  · rw [unlinkBlocks_of_ne hq]
    exact ⟨rfl, rfl⟩

/-- **After unlinking, the file is no longer in the tree.** -/
theorem VolInv.unlinked (h : VolInv n blocks files pins) (hn : n ≤ 4096)
    (hl : Link blocks p i f k) (k' : Kind) : ¬ InTree (unlinkBlocks blocks p f) f k' := by
  rintro (⟨rfl, -⟩ | ⟨q, j, hq⟩)
  · exact h.link_root hl rfl
  · obtain ⟨rfl, rfl⟩ := h.link_inj ((shrinks_unlinkBlocks p f).link hq) hl
    have hlt := h.lt (Or.inl hl.inTree)
    have h0 := hq.inode
    rw [unlinkBlocks_inode hq.lt, hl.inode, if_pos (sint_of_lt (by omega))] at h0
    exact hl.live h0.symm

theorem live_unlink {g : ℕ} {k' : Kind}
    (h : Live (unlinkBlocks blocks p f) files pins (.node g k')) :
    Live blocks files pins (.node g k') :=
  h.imp_left (shrinks_unlinkBlocks p f).inTree

theorem VolInv.unlink (h : VolInv n blocks files pins) (hl : Link blocks p i f k) :
    VolInv n (unlinkBlocks blocks p f) files pins := by
  have hsh : Shrinks blocks (unlinkBlocks blocks p f) := shrinks_unlinkBlocks p f
  have hpl : Live blocks files pins (.node p .dir) := VolInv.dir_live hl.dir
  have hlive : ∀ {g k}, Live (unlinkBlocks blocks p f) files pins (.node g k) →
      Live blocks files pins (.node g k) := live_unlink
  have h1 : unlinkBlocks blocks p f SFS_ALLOCATION_BLOCK = blocks SFS_ALLOCATION_BLOCK := by
    have := h.two_le hpl
    exact unlinkBlocks_of_ne (by simp only [SFS_ALLOCATION_BLOCK]; omega)
  refine h.mono hlive (fun {g} hg => unlinkBlocks_of_ne ?_) (fun _ _ hm => ?_) hsh.link h.distinct
    h.free (fun h1 h2 => h.parent h1 (hsh.link h2)) (fun h1 h2 h3 => h.deleted h1 h2 (hsh.inTree h3))
    (fun h1 h2 => h.pinned h1 (hsh.link h2))
  · rintro rfl
    cases h.kind_eq hpl (hlive hg)
  · rw [Marked, h1]
    exact hm

end Unlink

/-! ## Giving blocks back -/

section Release

variable {n : ℕ} {blocks : ℕ → Block} {files : Slot → OpenFile} {pins : Pins} {e : Slot} {f : ℕ}

theorem DeletedBlock.owns {b : ℕ} {isFolder : Bool} (h : DeletedBlock blocks f isFolder b) :
    owns blocks (.node f (kindOf isFolder)) b := by
  rcases h with h | ⟨rfl, j, -, hj, hb, h0⟩
  · exact Or.inl h
  · have h0 := h0 j (Nat.zero_le _) (Nat.le_refl _)
    exact Or.inr ⟨rfl, by rw [← hb]; exact h0, j, by omega, hb⟩

theorem orphanEntries_spec (files : Slot → OpenFile) (f : ℕ) (isFolder : Bool) (i : Slot) :
    orphanEntries files f isFolder i = files i ∨
      (isFolder = true ∧ (files i).parentid = f ∧
        orphanEntries files f isFolder i = { files i with parentid := -1 }) := by
  unfold orphanEntries
  cases isFolder with
  | true =>
    simp only [if_true]
    split
    · rename_i h
      exact Or.inr ⟨trivial, h, rfl⟩
    · exact Or.inl rfl
  | false => exact Or.inl rfl

theorem orphanEntries_update (files : Slot → OpenFile) (e : Slot) (x y : OpenFile) (f : ℕ)
    (isFolder : Bool) :
    Function.update (orphanEntries (Function.update files e x) f isFolder) e y =
      Function.update (orphanEntries files f isFolder) e y := by
  funext i
  by_cases hi : i = e
  · rw [hi, Function.update_self, Function.update_self]
  · rw [Function.update_of_ne hi, Function.update_of_ne hi]
    unfold orphanEntries
    split
    · simp only [Function.update_of_ne hi]
    · rw [Function.update_of_ne hi]

/-- Orphaning entries changes parents only. -/
theorem orphanEntries_same (files : Slot → OpenFile) (f : ℕ) (isFolder : Bool) (i : Slot) :
    (orphanEntries files f isFolder i).fileid = (files i).fileid ∧
      (orphanEntries files f isFolder i).isFolder = (files i).isFolder ∧
      (orphanEntries files f isFolder i).isDeleted = (files i).isDeleted := by
  rcases orphanEntries_spec files f isFolder i with h | ⟨-, -, h⟩
  · rw [h]; exact ⟨rfl, rfl, rfl⟩
  · rw [h]; exact ⟨rfl, rfl, rfl⟩

theorem isOpen_orphanEntries {g : ℕ} {k : Kind} {isFolder : Bool} :
    IsOpen (orphanEntries files f isFolder) g k ↔ IsOpen files g k := by
  unfold IsOpen
  simp only [(orphanEntries_same files f isFolder _).1, (orphanEntries_same files f isFolder _).2.1]

/-- The allocation block is not in the tree. -/
theorem VolInv.sameTree_alloc (h : VolInv n blocks files pins) (bat : Block) :
    SameTree blocks (Function.update blocks SFS_ALLOCATION_BLOCK bat) := by
  intro p hp
  have := h.two_le (VolInv.dir_live hp)
  exact Function.update_of_ne (by simp only [SFS_ALLOCATION_BLOCK]; omega) ..

/-- After releasing a deleted file, the other live nodes are live. -/
theorem VolInv.live_release (h : VolInv n blocks files pins) (he : (files e).fileid = f)
    (hd : (files e).isDeleted = true) (hpin : ∀ q k, ¬ pins f q k) {bat : Block} {isFolder : Bool}
    {g : ℕ} {k : Kind} (hg : Live (Function.update blocks SFS_ALLOCATION_BLOCK bat)
      (Function.update (orphanEntries files f isFolder) e sfsResetEntry) pins (.node g k)) :
    Live blocks files pins (.node g k) ∧ g ≠ f := by
  rcases hg with hg | ⟨e', h1, h2⟩ | ⟨q, hq⟩
  · rw [(h.sameTree_alloc bat).inTree_iff] at hg
    exact ⟨Or.inl hg, by rintro rfl; exact h.deleted hd he hg⟩
  · have hne : e' ≠ e := by
      rintro rfl
      rw [Function.update_self] at h1
      cases h1
    rw [Function.update_of_ne hne] at h1 h2
    rw [(orphanEntries_same files f isFolder e').1] at h1
    rw [(orphanEntries_same files f isFolder e').2.1] at h2
    refine ⟨Or.inr (Or.inl ⟨e', h1, h2⟩), ?_⟩
    rintro rfl
    exact hne (h.distinct (h1.trans he.symm) (by omega))
  · exact ⟨Or.inr (Or.inr ⟨q, hq⟩), by rintro rfl; exact hpin q k hq⟩

/-- **Releasing a deleted file**: its entry is reset and the bits of its blocks are cleared. -/
theorem VolInv.release (h : VolInv n blocks files pins) (he : (files e).fileid = f)
    (hd : (files e).isDeleted = true) (hpin : ∀ q k, ¬ pins f q k) {bat : Block}
    (hbat : ∀ b, ¬ DeletedBlock blocks f (files e).isFolder b →
      bitmapGet bat b = bitmapGet (blocks SFS_ALLOCATION_BLOCK) b) :
    VolInv n (Function.update blocks SFS_ALLOCATION_BLOCK bat)
      (Function.update (orphanEntries files f (files e).isFolder) e sfsResetEntry) pins := by
  have htree := h.sameTree_alloc bat
  have hlive := fun {g k} => @VolInv.live_release _ _ _ _ _ _ h he hd hpin bat (files e).isFolder g k
  have hlivef : Live blocks files pins (.node f (kindOf (files e).isFolder)) :=
    Or.inr (Or.inl ⟨e, he, rfl⟩)
  have hsame := fun e' => orphanEntries_same files f (files e).isFolder e'
  refine h.mono (fun hg => (hlive hg).1) (fun {g} hg => ?_) ?_
    (fun {p i g k} hl => (htree.link_iff p i g k).1 hl) ?_ ?_ ?_ ?_
    (fun {q p i g k k'} h1 h2 => h.pinned h1 ((htree.link_iff p i g k').1 h2))
  · have := h.two_le (hlive hg).1
    exact Function.update_of_ne (by simp only [SFS_ALLOCATION_BLOCK]; omega) ..
  · intro o b ho hb hm
    have hm' : bitmapGet bat b = bitmapGet (blocks SFS_ALLOCATION_BLOCK) b := by
      apply hbat
      intro hdel
      cases o with
      | system => cases h.own.unique (o := .system) trivial hlivef hb hdel.owns
      | node g k =>
        have := h.own.unique (hlive ho).1 hlivef hb hdel.owns
        cases this
        exact (hlive ho).2 rfl
    rw [Marked, Function.update_self, hm']
    exact hm
  · intro e1 e2 h1 h2
    by_cases he1 : e1 = e
    · subst he1
      rw [Function.update_self] at h2
      exact absurd rfl h2
    · by_cases he2 : e2 = e
      · subst he2
        rw [h1, Function.update_self] at h2
        exact absurd rfl h2
      · rw [Function.update_of_ne he1] at h1 h2
        rw [Function.update_of_ne he2, (hsame e1).1, (hsame e2).1] at h1
        rw [(hsame e1).1] at h2
        exact h.distinct h1 h2
  · intro e' h1
    by_cases hne : e' = e
    · rw [hne, Function.update_self]
    · rw [Function.update_of_ne hne] at h1 ⊢
      rw [(hsame e').1] at h1
      have h2 := h.free h1
      rcases orphanEntries_spec files f (files e).isFolder e' with h3 | ⟨-, h3, -⟩
      · rw [h3, h2]
      · rw [h2] at h3
        cases h3
  · intro e' p i g k h1 h2
    have hne : e' ≠ e := by
      rintro rfl
      rw [Function.update_self] at h1
      cases h1
    rw [Function.update_of_ne hne] at h1 ⊢
    rw [(hsame e').1] at h1
    have hl := (htree.link_iff p i g k).1 h2
    have hp := h.parent h1 hl
    rcases orphanEntries_spec files f (files e).isFolder e' with h3 | ⟨-, h3, -⟩
    · rw [h3, hp]
    · rw [hp] at h3
      exact absurd (reachDir_iff.1 (Int.ofNat_inj.1 h3 ▸ hl.dir)) (h.deleted hd he)
  · intro e' g k h1 h2
    have hne : e' ≠ e := by
      rintro rfl
      rw [Function.update_self] at h2
      cases h2
    rw [Function.update_of_ne hne] at h1 h2
    rw [(hsame e').1] at h2
    rw [(hsame e').2.2] at h1
    rw [htree.inTree_iff]
    exact h.deleted h1 h2

end Release

/-! ## The mounted volume -/

/-- **The invariant of a mounted volume** on a working device. -/
structure Inv (s : Sfs) (pins : Pins) : Prop where
  small : s.totalvblocks ≤ 4096
  onDisk : s.totalvblocks ≤ s.disk.totalBlocks
  works : s.disk.Works
  vol : VolInv s.totalvblocks s.disk.blocks s.openFiles pins

/-- The state after `f` is unlinked from `p`. -/
def Sfs.unlinked (s : Sfs) (p f : ℕ) : Sfs :=
  { s with disk := s.disk.withBlocks (unlinkBlocks s.disk.blocks p f) }

/-- `bat` is the allocation block without the blocks that `_delete` gives back. -/
def Freeing (blocks : ℕ → Block) (f : ℕ) (isFolder : Bool) (bat : Block) : Prop :=
  ∀ b, (DeletedBlock blocks f isFolder b → bitmapGet bat b = 0) ∧
    (¬ DeletedBlock blocks f isFolder b →
      bitmapGet bat b = bitmapGet (blocks SFS_ALLOCATION_BLOCK) b)

/-- The state after the blocks of `f` are given back. -/
def Sfs.freed (s : Sfs) (f : ℕ) (isFolder : Bool) (bat : Block) : Sfs :=
  { s with disk := s.disk.withBlocks (Function.update s.disk.blocks SFS_ALLOCATION_BLOCK bat)
           openFiles := orphanEntries s.openFiles f isFolder }

@[simp] theorem unlinked_openFiles (s : Sfs) (p f : ℕ) : (s.unlinked p f).openFiles = s.openFiles := rfl

@[simp] theorem unlinked_blocks (s : Sfs) (p f : ℕ) :
    (s.unlinked p f).disk.blocks = unlinkBlocks s.disk.blocks p f := rfl

@[simp] theorem freed_openFiles (s : Sfs) (f : ℕ) (isFolder : Bool) (bat : Block) :
    (s.freed f isFolder bat).openFiles = orphanEntries s.openFiles f isFolder := rfl

@[simp] theorem freed_blocks (s : Sfs) (f : ℕ) (isFolder : Bool) (bat : Block) :
    (s.freed f isFolder bat).disk.blocks =
      Function.update s.disk.blocks SFS_ALLOCATION_BLOCK bat := rfl

namespace Inv

variable {s : Sfs} {pins pins' : Pins}

theorem two_lt (h : Inv s pins) : 2 < s.totalvblocks := h.vol.lt VolInv.root_live

theorem readable (h : Inv s pins) : Readable s.disk where
  works := h.works
  dir_lt := fun _ hp => lt_of_lt_of_le (h.vol.lt (VolInv.dir_live hp)) h.onDisk
  node_lt := fun _ _ _ _ hl => by
    have := h.vol.lt (Or.inl hl.inTree)
    have := h.small
    omega

/-- Replacing an entry of the table. -/
theorem setEntry (h : Inv s pins) {e : Slot} {f : OpenFile}
    (hv : VolInv s.totalvblocks s.disk.blocks (Function.update s.openFiles e f) pins') :
    Inv (s.setEntry e f) pins' := ⟨h.small, h.onDisk, h.works, hv⟩

theorem unpin (h : Inv s pins) (hp : ∀ {g q k}, pins' g q k → pins g q k) : Inv s pins' :=
  ⟨h.small, h.onDisk, h.works, h.vol.unpin hp⟩

/-- An entry opened for `f` with the parent `q`. -/
theorem entryOk_opened (h : Inv s pins) {f : ℕ} {q : ℤ} {isFolder : Bool} {e : Slot}
    (hq : ∀ {p i k}, Link s.disk.blocks p i f k → q = p)
    (he : (s.openFiles e).fileid = f ∨
      ((s.openFiles e).fileid = -1 ∧ ∀ j, (s.openFiles j).fileid ≠ f)) :
    EntryOk s.disk.blocks s.openFiles e (openedEntry (s.openFiles e) f q isFolder) := by
  unfold openedEntry
  rcases he with he | ⟨he, hno⟩
  · rw [if_neg (by omega)]
    exact ⟨fun e' hne h1 => absurd (h.vol.distinct (h1.trans rfl) (by rw [h1]; simp [he])) hne,
      fun h1 => by simp [he] at h1; omega, fun h1 h2 => h.vol.parent h1 h2,
      fun h1 h2 => h.vol.deleted h1 h2⟩
  · rw [if_pos he]
    refine ⟨fun e' _ h1 => absurd h1 (hno e'), fun h1 => by simp at h1; omega, fun h1 h2 => ?_,
      fun h1 => ?_⟩
    · rw [← Int.ofNat_inj.1 h1] at h2
      exact hq h2
    · rw [h.vol.free (e := e) (by omega)] at h1
      cases h1

theorem opened_live {f : ℕ} {q : ℤ} {isFolder : Bool} {e : Slot}
    (hf : Live s.disk.blocks s.openFiles pins (.node f (kindOf isFolder))) (g : ℕ)
    (hg : (openedEntry (s.openFiles e) f q isFolder).fileid = g) :
    Live s.disk.blocks s.openFiles pins
      (.node g (kindOf (openedEntry (s.openFiles e) f q isFolder).isFolder)) := by
  unfold openedEntry at hg ⊢
  split at hg
  · rename_i h1
    rw [if_pos h1, ← Int.ofNat_inj.1 hg]
    exact hf
  · rename_i h1
    rw [if_neg h1]
    exact Or.inr (Or.inl ⟨e, hg, rfl⟩)

/-- **Entering to open** a node that is live, with a parent that agrees with the tree. -/
theorem enter (h : Inv s pins) {f : ℕ} {q : ℤ} {isFolder : Bool}
    (hf : Live s.disk.blocks s.openFiles pins (.node f (kindOf isFolder)))
    (hq : ∀ {p i k}, Link s.disk.blocks p i f k → q = p)
    (hp : ∀ {g r k}, pins' g r k → pins g r k) :
    Inv (sfsEnterExt s f q true isFolder false).2 pins' := by
  rcases sfsEnterExt_open s q isFolder (Int.natCast_nonneg f) with he | ⟨e, he, h1⟩
  · rw [he]
    exact h.unpin hp
  · rw [he]
    exact h.setEntry (h.vol.setEntry (h.entryOk_opened hq h1) hp (opened_live hf))

theorem opened_parentid (h : Inv s pins) {p i f : ℕ} {k : Kind} {e : Slot} (isFolder : Bool)
    (hl : Link s.disk.blocks p i f k)
    (he : (s.openFiles e).fileid = f ∨
      ((s.openFiles e).fileid = -1 ∧ ∀ j, (s.openFiles j).fileid ≠ f)) :
    (openedEntry (s.openFiles e) f p isFolder).fileid = f ∧
      (openedEntry (s.openFiles e) f p isFolder).parentid = p ∧
      (openedEntry (s.openFiles e) f p isFolder).isDeleted = false := by
  unfold openedEntry
  rcases he with he | ⟨he, -⟩
  · rw [if_neg (by omega)]
    refine ⟨he, h.vol.parent he hl, ?_⟩
    by_contra hd
    exact h.vol.deleted (by simpa using hd) he hl.inTree
  · rw [if_pos he]
    refine ⟨rfl, rfl, ?_⟩
    rw [h.vol.free (e := e) (by omega)]
    rfl

/-- What entering to delete a linked file does: open its entry, unlink it, mark it. -/
theorem enterDelete_spec (h : Inv s pins) {p i f : ℕ} {k : Kind} (isFolder : Bool)
    (hl : Link s.disk.blocks p i f k) :
    sfsEnterExt s f p true isFolder true = (none, s) ∨
    ∃ e, sfsEnterExt s f p true isFolder true = (some e, (s.unlinked p f).setEntry e
        { openedEntry (s.openFiles e) f p isFolder with isDeleted := true }) ∧
      ((s.openFiles e).fileid = f ∨
        ((s.openFiles e).fileid = -1 ∧ ∀ j, (s.openFiles j).fileid ≠ f)) := by
  rcases sfsEnterExt_delete s p isFolder (Int.natCast_nonneg f) with he | ⟨e, he, h1⟩
  · exact Or.inl he
  · refine Or.inr ⟨e, ?_, h1⟩
    obtain ⟨h2, h3, h4⟩ := h.opened_parentid isFolder hl h1
    have hp : Live s.disk.blocks s.openFiles pins (.node p .dir) := VolInv.dir_live hl.dir
    have hlt := h.vol.lt hp
    have h2p := h.vol.two_le hp
    have hle := h.onDisk
    rw [he, unlinkFirst, h4, h2, h3, deleteFromDirtree_works h.works (by omega) (by omega)]
    rfl

/-- **Entering to delete** a linked file. -/
theorem enterDelete (h : Inv s pins) {p i f : ℕ} {isFolder : Bool}
    (hl : Link s.disk.blocks p i f (kindOf isFolder)) (hp : ∀ {g r k}, pins' g r k → pins g r k) :
    Inv (sfsEnterExt s f p true isFolder true).2 pins' := by
  rcases h.enterDelete_spec isFolder hl with he | ⟨e, he, h1⟩
  · rw [he]
    exact h.unpin hp
  · rw [he]
    obtain ⟨h2, h3, h4⟩ := h.opened_parentid isFolder hl h1
    have hq : ∀ {p' j k}, Link s.disk.blocks p' j f k → (p : ℤ) = p' := by
      intro p' j k h5
      rw [(h.vol.link_inj hl h5).1]
    have hopen : VolInv s.totalvblocks s.disk.blocks (Function.update s.openFiles e
        (openedEntry (s.openFiles e) f p isFolder)) pins' :=
      h.vol.setEntry (h.entryOk_opened hq h1) hp (opened_live (Or.inl hl.inTree))
    have hun := hopen.unlink hl
    refine ⟨h.small, h.onDisk, h.works, ?_⟩
    have hmark : VolInv _ _ _ pins' := hun.setEntry (e := e)
      (f := { openedEntry (s.openFiles e) f p isFolder with isDeleted := true })
      ⟨fun e' hne h5 => ?_, fun h5 => ?_, fun h5 h6 => ?_, fun _ h5 => ?_⟩ (fun h => h) fun g hg => ?_
    · rwa [Function.update_idem] at hmark
    · refine absurd (@VolInv.distinct _ _ _ _ hopen e' e ?_ ?_) hne
      · rw [Function.update_self]
        exact h5
      · rw [h5]
        simp only
        omega
    · simp only at h5
      omega
    · have h7 := hun.parent (e := e) (by rw [Function.update_self]; exact h5) h6
      rwa [Function.update_self] at h7
    · simp only at h5
      rw [h2] at h5
      rw [← Int.ofNat_inj.1 h5]
      exact h.vol.unlinked h.small hl _
    · refine Or.inr (Or.inl ⟨e, ?_, ?_⟩)
      · rw [Function.update_self]
        exact hg
      · rw [Function.update_self]

theorem setEntry_freed (e : Slot) (x y : OpenFile) (f : ℕ) (isFolder : Bool) (bat : Block) :
    ((s.setEntry e x).freed f isFolder bat).setEntry e y = (s.freed f isFolder bat).setEntry e y := by
  simp only [Sfs.freed, Sfs.setEntry, orphanEntries_update]

/-- `_delete` of a live node, in any state with the same device. -/
theorem freeing {s' : Sfs} (h : Inv s' pins) {f : ℕ} (isFolder : Bool)
    (hlive : Live s'.disk.blocks s'.openFiles pins (.node f (kindOf isFolder)))
    (hdisk : s.disk = s'.disk) :
    ∃ bat, deleteBlocks s f isFolder = s.freed f isFolder bat ∧
      Freeing s.disk.blocks f isFolder bat := by
  have hlt := h.vol.lt hlive
  have hs := h.small
  have ho := h.onDisk
  have h2 := h.two_lt
  obtain ⟨bat, hb1, hb2⟩ := deleteBlocks_works (s := s) (f := f) isFolder
    (by rw [hdisk]; exact h.works) (by rw [hdisk]; omega) (by rw [hdisk]; omega) (by omega)
    (fun hk j hj => by
      rw [hdisk]
      by_cases hz : inodeBlock (s'.disk.blocks f) j = 0
      · rw [hz]
        omega
      · have := h.vol.inside hlive (Or.inr ⟨by rw [hk]; rfl, hz, j, hj, rfl⟩)
        omega)
  exact ⟨bat, hb1, hb2⟩

/-- **Leaving an entry**; when this frees the blocks of a deleted file, no thread may have
resolved it. -/
theorem exit (h : Inv s pins) {e : Slot} {f : ℕ} {isCloseOp : Bool}
    (he : (s.openFiles e).fileid = f)
    (hpin : (s.openFiles e).isDeleted = true → exitCount (s.openFiles e) isCloseOp = 0 →
      ∀ q k, ¬ pins f q k) : Inv (sfsExit s e isCloseOp) pins := by
  rcases sfsExit_cases s e isCloseOp with ⟨-, h2⟩ | ⟨-, -, h2⟩ | ⟨h0, hd, h2⟩
  · rw [h2]
    refine h.setEntry (h.vol.recount ⟨rfl, rfl, rfl, rfl⟩ ?_)
    simp only [he]
    omega
  · rw [h2]
    exact h.setEntry (h.vol.reset e)
  · obtain ⟨bat, hb1, hb2⟩ := h.freeing
      (s := s.setEntry e { s.openFiles e with timesOpened := 0 }) (f := f)
      (s.openFiles e).isFolder (Or.inr (Or.inl ⟨e, he, rfl⟩)) rfl
    rw [h2, he, hb1, setEntry_freed]
    exact ⟨h.small, h.onDisk, h.works,
      h.vol.release he hd (hpin hd h0) fun b hb => (hb2 b).2 hb⟩

end Inv

end Buenos.Fs
