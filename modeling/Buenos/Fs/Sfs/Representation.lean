import Buenos.Fs.Sfs.Directories
import Buenos.Fs.Sfs.RefCount

/-!
# The filesystem that a volume stands for

* `Represents` — a volume with its table of open files stands for a `FileSystem`; nodes that nothing
  leads to any more may remain in it.
* `Represents.lookup`, `Represents.hasRoom_iff` — names and room in the table, read off the volume.
* `Represents.setNode`, `Represents.unlink`, `Represents.drop`, `Represents.create`,
  `Represents.write` — what each change of the volume is in the abstract.
-/

namespace Buenos.Fs

open Bytes BlockProgram Ownership

/-! ## The abstraction relation -/

/-- What a file or directory holds on a volume. -/
def contentOf (blocks : ℕ → Block) (f : ℕ) : Kind → Content
  | .file => .file (fileBytes blocks f)
  | .dir => .folder (direntMap (blocks f))

/-- The blocks of a file or directory. -/
def ownedBlocks (blocks : ℕ → Block) (f : ℕ) (k : Kind) : Set ℕ := { b | owns blocks (.node f k) b }

/-- **The volume stands for `fs`.** -/
structure Represents (fs : FileSystem) (s : Sfs) : Prop where
  live : ∀ {f k}, Live s.disk.blocks s.openFiles noPins (.node f k) → ∃ nd, fs.node f = some nd ∧
    nd.content = contentOf s.disk.blocks f k ∧ nd.blocks = (ownedBlocks s.disk.blocks f k).ncard
  counts : ∀ {f nd}, fs.node f = some nd → Counts s f nd.handles
  removed : ∀ {f nd e}, fs.node f = some nd → (s.openFiles e).fileid = f →
    nd.removed = (s.openFiles e).isDeleted
  kept : ∀ {f nd}, fs.node f = some nd → nd.handles = 0 → nd.removed = false
  marked : ∀ {f nd}, fs.node f = some nd → Marked s.disk.blocks f
  apart : ∀ {f nd g k}, fs.node f = some nd → Live s.disk.blocks s.openFiles noPins (.node g k) →
    owns s.disk.blocks (.node g k) f → g = f
  free : fs.free = (freeBits (s.disk.blocks SFS_ALLOCATION_BLOCK) s.totalvblocks).card

/-- What every run keeps, in one. -/
structure InOrder (s : Sfs) : Prop where
  quiet : Quiet s
  sound : Sound s
  directories : Directories s

theorem InOrder.effect {s s' : Sfs} {c : Call} {r : Reply} (h : InOrder s) (he : Effect s c r s')
    (hq : Quiet s') : InOrder s' where
  quiet := hq
  sound := h.sound.effect h.quiet he
  directories := Directories.effect h.quiet h.directories he

section Lookup

variable {fs : FileSystem} {s : Sfs}

/-- The entry of an open node. -/
theorem Represents.entry_node (hi : InOrder s) (h : Represents fs s) {e : Slot} {f : ℕ}
    (he : (s.openFiles e).fileid = f) : ∃ nd, fs.node f = some nd ∧
      nd.content = contentOf s.disk.blocks f (kindOf (s.openFiles e).isFolder) ∧
      nd.blocks = (ownedBlocks s.disk.blocks f (kindOf (s.openFiles e).isFolder)).ncard ∧
      (s.openFiles e).timesOpened = nd.handles ∧ 0 < nd.handles ∧
      nd.removed = (s.openFiles e).isDeleted := by
  obtain ⟨nd, h1, h2, h3⟩ := h.live (Or.inr (Or.inl ⟨e, he, rfl⟩))
  have hcount := (h.counts h1).count he
  have hpos := (hi.quiet.idle e).opened (by omega)
  exact ⟨nd, h1, h2, h3, hcount, by omega, h.removed h1 he⟩

theorem Represents.mem_opened (hi : InOrder s) (h : Represents fs s) {f : ℕ} :
    f ∈ fs.opened ↔ ∃ e, (s.openFiles e).fileid = f := by
  constructor
  · rintro ⟨nd, h1, h2⟩
    exact (h.counts h1).entry h2
  · rintro ⟨e, he⟩
    obtain ⟨nd, h1, -, -, -, h2, -⟩ := h.entry_node hi he
    exact ⟨nd, h1, h2⟩

/-- As many nodes are open as entries are in use. -/
theorem Represents.ncard_opened (hi : InOrder s) (h : Represents fs s) :
    fs.opened.ncard = (Finset.univ.filter fun e : Slot => (s.openFiles e).fileid ≠ -1).card := by
  have himage : fs.opened =
      (fun e => (s.openFiles e).fileid.toNat) ''
        ↑(Finset.univ.filter fun e : Slot => (s.openFiles e).fileid ≠ -1) := by
    ext f
    rw [h.mem_opened hi]
    simp only [Set.mem_image, Finset.coe_filter, Finset.mem_univ, true_and, Set.mem_ofPred_eq]
    constructor
    · rintro ⟨e, he⟩
      exact ⟨e, by omega, by omega⟩
    · rintro ⟨e, he, rfl⟩
      refine ⟨e, ?_⟩
      by_contra hne
      have := hi.quiet.inv.vol.free (e := e) (by omega)
      rw [this] at he
      exact he rfl
  rw [himage, Set.InjOn.ncard_image, Set.ncard_coe_finset]
  intro e he e' he' heq
  simp only [Finset.coe_filter, Finset.mem_univ, true_and, Set.mem_ofPred_eq] at he he' heq
  have hnn : ∀ i, (s.openFiles i).fileid ≠ -1 → 0 ≤ (s.openFiles i).fileid := by
    intro i hne
    by_contra hlt
    rw [hi.quiet.inv.vol.free (e := i) (by omega)] at hne
    exact hne rfl
  have := hnn e he
  have := hnn e' he'
  exact hi.quiet.inv.vol.distinct (by omega) he

/-- The table has room for a file unless it is full of others. -/
theorem Represents.hasRoom_iff (hi : InOrder s) (h : Represents fs s) {f : ℕ} :
    fs.HasRoom f ↔ ¬ Threads.TableFull s.openFiles f := by
  have hcard : fs.opened.ncard < SFS_MAX_OPEN_FILES ↔ ∃ e, (s.openFiles e).fileid = -1 := by
    rw [h.ncard_opened hi]
    constructor
    · intro hlt
      by_contra hno
      have hall : ∀ e ∈ (Finset.univ : Finset Slot), (s.openFiles e).fileid ≠ -1 :=
        fun e _ he => hno ⟨e, he⟩
      rw [Finset.filter_true_of_mem hall] at hlt
      exact absurd hlt (by decide)
    · rintro ⟨e, he⟩
      exact Finset.card_lt_univ_of_notMem (x := e) (by simp [he])
  unfold FileSystem.HasRoom Threads.TableFull
  rw [h.mem_opened hi, hcard, ← exists_or, not_forall]
  apply exists_congr
  intro e
  rw [not_and_or, not_not, not_not, or_comm]

theorem Represents.entries (h : Represents fs s) {d : ℕ} (hd : ReachDir s.disk.blocks d) :
    fs.entries d = some (direntMap (s.disk.blocks d)) := by
  obtain ⟨nd, h1, h2, -⟩ := h.live (VolInv.dir_live hd)
  exact FileSystem.entries_some.2 ⟨nd, h1, h2⟩

theorem Represents.child (h : Represents fs s) {d : ℕ} (hd : ReachDir s.disk.blocks d)
    (name : List UInt8) : fs.child d name = entryIn s.disk.blocks d name := by
  rw [FileSystem.child, h.entries hd]
  rfl

/-- An entry that a walk passes. -/
theorem reachDir_entryIn {blocks : ℕ → Block} {d f : ℕ} {name : List UInt8} (hd : ReachDir blocks d)
    (hn : entryIn blocks d name = some f) : ∃ i, Link blocks d i f (kindOf (sfsIsFolder name)) ∧
      direntName (blocks d) i = name := by
  rw [entryIn, lookup_direntMap, Option.map_eq_some_iff] at hn
  obtain ⟨i, hi, rfl⟩ := hn
  obtain ⟨h1, h2, h3⟩ := entryNamed_some hi
  exact ⟨i, ⟨hd, h1, rfl, h2, by rw [direntKind, h3]⟩, h3⟩

/-- **Walks agree** as long as they pass folders. -/
theorem Represents.walk (h : Represents fs s) :
    ∀ {es : List (List UInt8)} {d : ℕ}, FolderElems es → ReachDir s.disk.blocks d →
      es.foldlM fs.child d = es.foldlM (entryIn s.disk.blocks) d
  | [], _, _, _ => rfl
  | e :: es, d, hfe, hd => by
    rw [List.foldlM_cons, List.foldlM_cons, h.child hd]
    cases hn : entryIn s.disk.blocks d e with
    | none => rfl
    | some f =>
      obtain ⟨i, hl, -⟩ := reachDir_entryIn hd hn
      rcases List.eq_nil_or_concat' es with rfl | ⟨es', e', rfl⟩
      · rfl
      · have hk : kindOf (sfsIsFolder e) = .dir := by
          rw [hfe [] e (es' ++ [e']) rfl (by simp)]
          rfl
        rw [hk] at hl
        exact h.walk hfe.tail (reachDir_iff.2 hl.inTree)

theorem Represents.lookup (h : Represents fs s) (path : List UInt8) :
    fs.lookup path = nodeAt s.disk.blocks path := by
  unfold FileSystem.lookup nodeAt
  split
  · exact h.walk (pathElems_folders _) .root
  · rfl

/-- What path resolution answers. -/
theorem Represents.resolve (hi : InOrder s) (h : Represents fs s) (path : List UInt8) :
    (sfsResolveFileExt s path).block = foundBlock (fs.lookup path) := by
  rw [h.lookup, resolve_nodeAt hi.quiet.inv]

theorem Represents.resolve_eq_error (hi : InOrder s) (h : Represents fs s) (path : List UInt8) :
    (sfsResolveFileExt s path).block = VFS_ERROR ↔ fs.lookup path = none := by
  rw [h.resolve hi]
  cases fs.lookup path with
  | none => simp [foundBlock]
  | some f =>
    have := VFS_ERROR_neg
    simp only [foundBlock, reduceCtorEq, iff_false]
    omega

theorem Represents.resolve_eq (hi : InOrder s) (h : Represents fs s) {path : List UInt8} {f : ℕ} :
    (sfsResolveFileExt s path).block = f ↔ fs.lookup path = some f := by
  rw [h.resolve hi]
  cases fs.lookup path with
  | none =>
    have := VFS_ERROR_neg
    simp only [foundBlock, reduceCtorEq, iff_false]
    omega
  | some g => simp [foundBlock]

end Lookup

/-! ## Changes of the volume -/

section Change

variable {fs : FileSystem} {s : Sfs}

theorem ownedBlocks_dir (blocks : ℕ → Block) (f : ℕ) : ownedBlocks blocks f .dir = {f} := by
  ext b
  simp [ownedBlocks, owns]

theorem ownedBlocks_congr {blocks blocks' : ℕ → Block} {f : ℕ} (h : blocks' f = blocks f) (k : Kind) :
    ownedBlocks blocks' f k = ownedBlocks blocks f k := by
  ext b
  simp only [ownedBlocks, owns, Set.mem_ofPred_eq, h]

/-- What a node holds depends on its blocks only. -/
theorem InOrder.contentOf_congr (hi : InOrder s) {blocks' : ℕ → Block} {f : ℕ} {k : Kind}
    (hf : Live s.disk.blocks s.openFiles noPins (.node f k))
    (hb : ∀ b, owns s.disk.blocks (.node f k) b → blocks' b = s.disk.blocks b) :
    contentOf blocks' f k = contentOf s.disk.blocks f k := by
  cases k with
  | file => rw [contentOf, contentOf, fileBytes_congr (hi.sound.covers hf) (hi.quiet.inv.vol.size hf) hb]
  | dir => rw [contentOf, contentOf, hb f (Or.inl rfl)]

/-- **A change of one entry of the table** is a change of one node. -/
theorem Represents.setNode (hi : InOrder s) (h : Represents fs s) {e : Slot} {x : OpenFile} {f : ℕ}
    {nd nd' : Node} (hn : fs.node f = some nd) (hc : nd'.content = nd.content)
    (hb : nd'.blocks = nd.blocks) (hk : nd'.handles = 0 → nd'.removed = false)
    (he : (s.openFiles e).fileid = f ∨ ((s.openFiles e).fileid = -1 ∧ ∀ j, (s.openFiles j).fileid ≠ f))
    (hx : (x.fileid = f ∧ x.timesOpened = nd'.handles ∧ x.isDeleted = nd'.removed) ∨
      (x = sfsResetEntry ∧ nd'.handles = 0))
    (hl : ∀ {g k}, Live s.disk.blocks (Function.update s.openFiles e x) noPins (.node g k) →
      Live s.disk.blocks s.openFiles noPins (.node g k)) :
    Represents (fs.set f nd') (s.setEntry e x) := by
  -- the other entries name other files
  have hother : ∀ e', e' ≠ e → (s.openFiles e').fileid ≠ f := by
    intro e' hne hid
    rcases he with he | ⟨-, he⟩
    · exact hne (hi.quiet.inv.vol.distinct (hid.trans he.symm) (by omega))
    · exact he e' hid
  have hxf : ∀ {g : ℕ}, x.fileid = g → g = f := by
    intro g hg
    rcases hx with ⟨hx, -⟩ | ⟨rfl, -⟩
    · omega
    · simp only [sfsResetEntry] at hg
      omega
  have heg : ∀ {g : ℕ}, g ≠ f → (s.openFiles e).fileid ≠ g := by
    intro g hg hid
    rcases he with he | ⟨he, -⟩
    · omega
    · omega
  refine ⟨fun {g k} hg => ?_, fun {g x'} hg => ?_, fun {g x' e'} hg hid => ?_, fun {g x'} hg h0 => ?_,
    fun {g x'} hg => ?_, fun {g x' g' k'} hg hlive hown => ?_, h.free⟩
  · obtain ⟨x', h1, h2, h3⟩ := h.live (hl hg)
    rw [FileSystem.node_set]
    by_cases hgf : g = f
    · subst hgf
      rw [hn] at h1
      cases h1
      exact ⟨nd', if_pos rfl, hc.trans h2, hb.trans h3⟩
    · rw [if_neg hgf]
      exact ⟨x', h1, h2, h3⟩
  · rw [FileSystem.node_set] at hg
    by_cases hgf : g = f
    · subst hgf
      rw [if_pos rfl] at hg
      cases hg
      constructor
      · intro e' hid
        rw [setEntry_openFiles] at hid ⊢
        by_cases hee : e' = e
        · subst hee
          rw [Function.update_self] at hid ⊢
          rcases hx with ⟨-, hx, -⟩ | ⟨rfl, -⟩
          · exact hx
          · simp only [sfsResetEntry] at hid
            omega
        · rw [Function.update_of_ne hee] at hid
          exact absurd hid (hother e' hee)
      · intro hpos
        rcases hx with ⟨hx, -⟩ | ⟨-, hx⟩
        · exact ⟨e, by rw [setEntry_openFiles, Function.update_self]; exact hx⟩
        · omega
    · rw [if_neg hgf] at hg
      exact (h.counts hg).setEntry_ne (heg hgf) fun hid => hgf (hxf hid)
  · rw [FileSystem.node_set] at hg
    rw [setEntry_openFiles] at hid ⊢
    by_cases hee : e' = e
    · subst hee
      rw [Function.update_self] at hid ⊢
      obtain rfl := hxf hid
      rw [if_pos rfl] at hg
      cases hg
      rcases hx with ⟨-, -, hx⟩ | ⟨rfl, -⟩
      · exact hx.symm
      · simp only [sfsResetEntry] at hid
        omega
    · rw [Function.update_of_ne hee] at hid ⊢
      rw [if_neg (by rintro rfl; exact hother e' hee hid)] at hg
      exact h.removed hg hid
  · rw [FileSystem.node_set] at hg
    split at hg
    · cases hg
      exact hk h0
    · exact h.kept hg h0
  · rw [FileSystem.node_set] at hg
    split at hg
    · rename_i hgf
      subst hgf
      exact h.marked hn
    · exact h.marked hg
  · rw [FileSystem.node_set] at hg
    split at hg
    · rename_i hgf
      subst hgf
      exact h.apart hn (hl hlive) hown
    · exact h.apart hg (hl hlive) hown

/-- Only one slot of its directory refers to a linked node. -/
theorem InOrder.slot_iff (hi : InOrder s) {p i f : ℕ} {k : Kind} (hl : Link s.disk.blocks p i f k) {j : ℕ}
    (hj : j < 25) : sint (direntInode (s.disk.blocks p) j) = f ↔ j = i := by
  have hsmall := hi.quiet.inv.small
  constructor
  · intro hs
    have hlt := hi.quiet.inv.vol.lt (Or.inl hl.inTree)
    by_cases h0 : direntInode (s.disk.blocks p) j = 0
    · rw [h0, sint_of_lt (by omega)] at hs
      exact absurd (Int.ofNat_inj.1 hs).symm hl.live
    · have hlj : Link s.disk.blocks p j (direntInode (s.disk.blocks p) j)
          (direntKind (s.disk.blocks p) j) := ⟨hl.dir, hj, rfl, h0, rfl⟩
      have hltj := hi.quiet.inv.vol.lt (Or.inl hlj.inTree)
      rw [sint_of_lt (by omega)] at hs
      obtain hs := Int.ofNat_inj.1 hs
      rw [hs] at hlj
      exact (hi.quiet.inv.vol.link_inj hlj hl).2
  · rintro rfl
    have hlt := hi.quiet.inv.vol.lt (Or.inl hl.inTree)
    rw [hl.inode, sint_of_lt (by omega)]

/-- **Unlinking** takes the name away. -/
theorem Represents.unlink (hi : InOrder s) (h : Represents fs s) {p i f : ℕ} {k : Kind}
    (hl : Link s.disk.blocks p i f k) :
    Represents (fs.modify p (Finmap.erase (direntName (s.disk.blocks p) i))) (s.unlinked p f) := by
  have hp : Live s.disk.blocks s.openFiles noPins (.node p .dir) := VolInv.dir_live hl.dir
  have hp2 := hi.quiet.inv.vol.two_le hp
  obtain ⟨pd, hpn, hpc, hpb⟩ := h.live hp
  have hnode := FileSystem.node_modify hpn hpc (Finmap.erase (direntName (s.disk.blocks p) i))
  have halloc : (s.unlinked p f).disk.blocks SFS_ALLOCATION_BLOCK = s.disk.blocks SFS_ALLOCATION_BLOCK :=
    unlinkBlocks_of_ne (by simp only [SFS_ALLOCATION_BLOCK]; omega)
  refine ⟨fun {g k'} hg => ?_, fun hg => ?_, fun hg hid => ?_, fun hg h0 => ?_, fun hg => ?_,
    fun {g nd g' k'} hg hlive hown => ?_, ?_⟩
  · have hlive := live_unlink hg
    obtain ⟨nd, h1, h2, h3⟩ := h.live hlive
    rw [hnode]
    by_cases hgp : g = p
    · subst hgp
      cases hi.quiet.inv.vol.kind_eq hlive hp
      refine ⟨_, if_pos rfl, ?_, ?_⟩
      · rw [contentOf, unlinked_blocks, unlinkBlocks, Function.update_self,
          direntMap_clearDirents (hi.directories hp) hl.lt (fun j hj => hi.slot_iff hl hj)
            (by rw [hl.inode]; exact hl.live)]
      · rw [ownedBlocks_dir]
        rw [ownedBlocks_dir] at hpb
        exact hpb
    · rw [if_neg hgp]
      refine ⟨nd, h1, ?_, ?_⟩
      · rw [h2, unlinked_blocks, hi.contentOf_congr hlive fun b hb => unlinkBlocks_of_ne ?_]
        rintro rfl
        exact hgp (by cases hi.quiet.inv.vol.own.unique hlive hp hb (Or.inl rfl); rfl)
      · rw [h3, unlinked_blocks, ownedBlocks_congr (unlinkBlocks_of_ne hgp)]
  · obtain ⟨nd0, h1, h2, -⟩ := FileSystem.of_node_modify hg
    rw [← h2]
    exact (h.counts h1).congr fun _ => ⟨rfl, rfl⟩
  · obtain ⟨nd0, h1, -, h2⟩ := FileSystem.of_node_modify hg
    rw [← h2]
    exact h.removed h1 hid
  · obtain ⟨nd0, h1, h2, h3⟩ := FileSystem.of_node_modify hg
    rw [← h3]
    exact h.kept h1 (h2.trans h0)
  · obtain ⟨nd0, h1, -⟩ := FileSystem.of_node_modify hg
    rw [Marked, halloc]
    exact h.marked h1
  · obtain ⟨nd0, h1, -⟩ := FileSystem.of_node_modify hg
    have hlive' := live_unlink hlive
    refine h.apart h1 hlive' ?_
    rcases hown with hown | ⟨rfl, hown⟩
    · exact Or.inl hown
    · rw [unlinked_blocks, hi.quiet.inv.vol.unlink_inode hl hlive'] at hown
      exact Or.inr ⟨rfl, hown⟩
  · rw [FileSystem.free_modify, halloc]
    exact h.free

/-- The blocks that are given back are free afterwards. -/
theorem card_freeBits_freeing {blocks : ℕ → Block} {n f : ℕ} {isFolder : Bool} {bat : Block}
    (hb : Freeing blocks f isFolder bat)
    (hown : ∀ b, DeletedBlock blocks f isFolder b → b < n ∧ Marked blocks b) :
    (freeBits bat n).card = (freeBits (blocks SFS_ALLOCATION_BLOCK) n).card +
      { b | DeletedBlock blocks f isFolder b }.ncard := by
  classical
  have hset : { b | DeletedBlock blocks f isFolder b } =
      ↑((Finset.range n).filter fun b => DeletedBlock blocks f isFolder b) := by
    ext b
    simp only [Set.mem_ofPred_eq, Finset.coe_filter, Finset.mem_range]
    exact ⟨fun h => ⟨(hown b h).1, h⟩, fun h => h.2⟩
  have hunion : freeBits bat n = freeBits (blocks SFS_ALLOCATION_BLOCK) n ∪
      (Finset.range n).filter fun b => DeletedBlock blocks f isFolder b := by
    ext b
    rw [Finset.mem_union, mem_freeBits, mem_freeBits, Finset.mem_filter, Finset.mem_range]
    by_cases hd : DeletedBlock blocks f isFolder b
    · simp only [hd, (hb b).1 hd, and_true, or_iff_right_of_imp And.left]
    · simp only [hd, (hb b).2 hd, and_false, or_false]
  rw [hunion, Finset.card_union_of_disjoint, hset, Set.ncard_coe_finset]
  rw [Finset.disjoint_left]
  intro b h1 h2
  have h3 := (hown b (Finset.mem_filter.1 h2).2).2
  rw [Marked, (mem_freeBits.1 h1).2] at h3
  cases h3

/-- The deleted blocks of a node are all it owns. -/
theorem deletedBlock_iff {blocks : ℕ → Block} {f b : ℕ} {isFolder : Bool}
    (hg : isFolder = false → Gapless (blocks f)) :
    DeletedBlock blocks f isFolder b ↔ b ∈ ownedBlocks blocks f (kindOf isFolder) := by
  refine ⟨DeletedBlock.owns, fun hb => ?_⟩
  cases isFolder with
  | false => exact (hg rfl).deletedBlock hb
  | true =>
    rw [show kindOf true = .dir from rfl, ownedBlocks_dir] at hb
    exact Or.inl hb

/-- What deleting a live node gives back. -/
theorem InOrder.deleted (hi : InOrder s) {f : ℕ} {isFolder : Bool}
    (hf : Live s.disk.blocks s.openFiles noPins (.node f (kindOf isFolder))) :
    { b | DeletedBlock s.disk.blocks f isFolder b } = ownedBlocks s.disk.blocks f (kindOf isFolder) ∧
      ∀ b, DeletedBlock s.disk.blocks f isFolder b → b < s.totalvblocks ∧ Marked s.disk.blocks b := by
  constructor
  · ext b
    refine deletedBlock_iff fun hk => hi.sound.gapless ?_
    rw [hk] at hf
    exact hf
  · intro b hb
    exact ⟨hi.quiet.inv.vol.inside hf hb.owns, hi.quiet.inv.vol.marked hf hb.owns⟩

theorem deletedBlock_congr {blocks blocks' : ℕ → Block} {f b : ℕ} {isFolder : Bool}
    (h : isFolder = false → blocks' f = blocks f) :
    DeletedBlock blocks' f isFolder b ↔ DeletedBlock blocks f isFolder b := by
  unfold DeletedBlock
  refine or_congr_right (and_congr_right fun hk => ?_)
  rw [h hk]

/-- **Giving back the blocks of a node** that nothing leads to takes the node away. -/
theorem Represents.drop (hi : InOrder s) (h : Represents fs s) {f : ℕ} {nd : Node} {isFolder : Bool}
    {bat : Block} (hf : ∀ k, ¬ Live s.disk.blocks s.openFiles noPins (.node f k))
    (hcard : nd.blocks = { b | DeletedBlock s.disk.blocks f isFolder b }.ncard)
    (hown : ∀ b, DeletedBlock s.disk.blocks f isFolder b → b < s.totalvblocks ∧ Marked s.disk.blocks b)
    (happ : ∀ {g x}, fs.node g = some x → DeletedBlock s.disk.blocks f isFolder g → g = f)
    (hb : Freeing s.disk.blocks f isFolder bat) :
    Represents (fs.drop f nd) (s.freed f isFolder bat) := by
  have hlive : ∀ {g k}, Live (s.freed f isFolder bat).disk.blocks (s.freed f isFolder bat).openFiles
      noPins (.node g k) → Live s.disk.blocks s.openFiles noPins (.node g k) := by
    rintro g k (hg | hg | ⟨q, hq⟩)
    · exact Or.inl (((hi.quiet.inv.vol.sameTree_alloc bat).inTree_iff g k).1 hg)
    · exact Or.inr (Or.inl (isOpen_orphanEntries.1 hg))
    · exact absurd hq id
  have hsame : ∀ {b}, 2 ≤ b → (s.freed f isFolder bat).disk.blocks b = s.disk.blocks b := by
    intro b h2
    rw [freed_blocks, Function.update_of_ne (by simp only [SFS_ALLOCATION_BLOCK]; omega)]
  have hold : ∀ {g x}, (fs.drop f nd).node g = some x → g ≠ f ∧ fs.node g = some x := by
    intro g x hg
    rw [FileSystem.node_drop] at hg
    split at hg
    · cases hg
    · exact ⟨‹_›, hg⟩
  refine ⟨fun {g k} hg => ?_, fun hg => ?_, fun hg hid => ?_, fun hg h0 => ?_, fun {g x} hg => ?_,
    fun {g x g' k'} hg hl hown => ?_, ?_⟩
  · have hl := hlive hg
    have h2 := hi.quiet.inv.vol.two_le hl
    obtain ⟨x, h3, h4, h5⟩ := h.live hl
    refine ⟨x, ?_, ?_, ?_⟩
    · rw [FileSystem.node_drop, if_neg]
      · exact h3
      · rintro rfl
        exact hf k hl
    · rw [h4, hi.contentOf_congr hl fun b hb => hsame (hi.quiet.inv.vol.block_two_le hl hb)]
    · rw [h5, ownedBlocks_congr (hsame h2)]
  · exact (h.counts (hold hg).2).congr fun e =>
      ⟨(orphanEntries_same _ _ _ e).1, orphanEntries_timesOpened _ _ _ e⟩
  · rw [freed_openFiles] at hid ⊢
    rw [(orphanEntries_same _ _ _ _).1] at hid
    rw [(orphanEntries_same _ _ _ _).2.2]
    exact h.removed (hold hg).2 hid
  · exact h.kept (hold hg).2 h0
  · obtain ⟨hne, hg⟩ := hold hg
    rw [Marked, freed_blocks, Function.update_self, (hb g).2 fun hd => hne (happ hg hd)]
    exact h.marked hg
  · have hl' := hlive hl
    refine h.apart (hold hg).2 hl' ?_
    rcases hown with hown | ⟨rfl, hown⟩
    · exact Or.inl hown
    · rw [hsame (hi.quiet.inv.vol.two_le hl')] at hown
      exact Or.inr ⟨rfl, hown⟩
  · rw [FileSystem.free_drop, freed_blocks, Function.update_self, h.free, hcard]
    exact (card_freeBits_freeing hb hown).symm

/-- Unlinking keeps everything in order. -/
theorem InOrder.unlinked (hi : InOrder s) {p i f : ℕ} {k : Kind} (hl : Link s.disk.blocks p i f k) :
    InOrder (s.unlinked p f) where
  quiet := ⟨⟨hi.quiet.inv.small, hi.quiet.inv.onDisk, hi.quiet.inv.works, hi.quiet.inv.vol.unlink hl⟩,
    hi.quiet.idle⟩
  sound :=
    { names := hi.sound.names.unlink p f
      gapless := fun hg => by
        rw [unlinked_blocks, hi.quiet.inv.vol.unlink_inode hl (live_unlink hg)]
        exact hi.sound.gapless (live_unlink hg)
      covers := fun hg => by
        rw [unlinked_blocks, hi.quiet.inv.vol.unlink_inode hl (live_unlink hg)]
        exact hi.sound.covers (live_unlink hg) }
  directories := fun hd => unlinkBlocks_directoryOk (hi.directories (live_unlink hd))

/-- Resetting an entry keeps everything in order, except that its blocks may be lost. -/
theorem InOrder.reset (hi : InOrder s) (e : Slot) : InOrder (s.setEntry e sfsResetEntry) := by
  have hl : ∀ {g k}, Live (s.setEntry e sfsResetEntry).disk.blocks (s.setEntry e sfsResetEntry).openFiles
      noPins (.node g k) → Live s.disk.blocks s.openFiles noPins (.node g k) := fun hg =>
    live_setEntry (fun h => h) (fun g hg => by cases hg) hg
  have hok : EntryOk s.disk.blocks s.openFiles e sfsResetEntry :=
    ⟨fun _ _ _ => rfl, fun _ => rfl, fun hg => (by cases hg), fun hd => (by cases hd)⟩
  have hvol : VolInv s.totalvblocks s.disk.blocks (Function.update s.openFiles e sfsResetEntry) noPins :=
    hi.quiet.inv.vol.setEntry hok (fun h => h) fun g hg => by cases hg
  refine ⟨⟨hi.quiet.inv.setEntry hvol, hi.quiet.idle.setEntry atRest_reset⟩, ?_, ?_⟩
  · exact ⟨hi.sound.names, fun hg => hi.sound.gapless (hl hg), fun hg => hi.sound.covers (hl hg)⟩
  · exact fun hd => hi.directories (hl hd)

/-- **Writing data blocks of a file** changes its bytes. -/
theorem Represents.write (hi : InOrder s) (h : Represents fs s) {f : ℕ} {nd : Node} {blocks : ℕ → Block}
    (hn : fs.node f = some nd) (hf : Live s.disk.blocks s.openFiles noPins (.node f .file))
    (hb : ∀ b, Untouched (s.disk.blocks f) b → blocks b = s.disk.blocks b) :
    Represents (fs.set f { nd with content := .file (fileBytes blocks f) })
      { s with disk := s.disk.withBlocks blocks } := by
  have hvol := hi.quiet.inv.vol
  have htree : SameTree s.disk.blocks blocks := fun p hp =>
    hb p (hvol.node_untouched hf (VolInv.dir_live hp))
  have hlive : ∀ {g k}, Live blocks s.openFiles noPins (.node g k) →
      Live s.disk.blocks s.openFiles noPins (.node g k) := fun {g k} hg =>
    hg.imp_left (htree.inTree_iff g k).1
  have hnode : ∀ {g k}, Live s.disk.blocks s.openFiles noPins (.node g k) → blocks g = s.disk.blocks g :=
    fun hg => hb _ (hvol.node_untouched hf hg)
  have halloc : blocks SFS_ALLOCATION_BLOCK = s.disk.blocks SFS_ALLOCATION_BLOCK :=
    hb _ (hvol.untouched hf (o := .system) trivial (show 1 < 2 by omega) (by decide) (by simp))
  have hold : ∀ {g x}, (fs.set f { nd with content := .file (fileBytes blocks f) }).node g = some x →
      ∃ x0, fs.node g = some x0 ∧ x0.handles = x.handles ∧ x0.removed = x.removed := by
    intro g x hg
    rw [FileSystem.node_set] at hg
    split at hg
    · rename_i hgf
      subst hgf
      cases hg
      exact ⟨nd, hn, rfl, rfl⟩
    · exact ⟨x, hg, rfl, rfl⟩
  refine ⟨fun {g k} hg => ?_, fun hg => ?_, fun hg hid => ?_, fun hg h0 => ?_, fun hg => ?_,
    fun {g x g' k'} hg hl hown => ?_, ?_⟩
  · have hl := hlive hg
    obtain ⟨x, h1, h2, h3⟩ := h.live hl
    rw [FileSystem.node_set]
    by_cases hgf : g = f
    · subst hgf
      cases hvol.kind_eq hf hl
      rw [hn] at h1
      cases h1
      exact ⟨_, if_pos rfl, rfl, by rw [withBlocks_blocks, ownedBlocks_congr (hnode hl)]; exact h3⟩
    · rw [if_neg hgf]
      refine ⟨x, h1, ?_, by rw [withBlocks_blocks, ownedBlocks_congr (hnode hl)]; exact h3⟩
      rw [h2, withBlocks_blocks, hi.contentOf_congr hl fun b hown => hb b ?_]
      have := hvol.block_two_le hl hown
      refine hvol.untouched hf hl hown (by omega) fun he => hgf ?_
      cases he
      rfl
  · obtain ⟨x0, h1, h2, -⟩ := hold hg
    rw [← h2]
    exact (h.counts h1).congr fun _ => ⟨rfl, rfl⟩
  · obtain ⟨x0, h1, -, h2⟩ := hold hg
    rw [← h2]
    exact h.removed h1 hid
  · obtain ⟨x0, h1, h2, h3⟩ := hold hg
    rw [← h3]
    exact h.kept h1 (h2.trans h0)
  · obtain ⟨x0, h1, -⟩ := hold hg
    rw [Marked, withBlocks_blocks, halloc]
    exact h.marked h1
  · obtain ⟨x0, h1, -⟩ := hold hg
    have hl' := hlive hl
    refine h.apart h1 hl' ?_
    rcases hown with hown | ⟨rfl, hown⟩
    · exact Or.inl hown
    · rw [withBlocks_blocks, hnode hl'] at hown
      exact Or.inr ⟨rfl, hown⟩
  · rw [FileSystem.free_set, withBlocks_blocks, halloc]
    exact h.free

/-- Marking fresh blocks. -/
theorem card_freeBits_fresh {bat bat' : Block} {n : ℕ} {l : List ℕ} (hl : l.Nodup)
    (hfresh : ∀ b ∈ l, b < n ∧ bitmapGet bat b = 0)
    (hbits : ∀ b, bitmapGet bat' b = if b ∈ l then 1 else bitmapGet bat b) :
    (freeBits bat' n).card = (freeBits bat n).card - l.length := by
  have hset : freeBits bat' n = freeBits bat n \ l.toFinset := by
    ext b
    rw [Finset.mem_sdiff, mem_freeBits, mem_freeBits, hbits, List.mem_toFinset]
    by_cases hb : b ∈ l
    · simp [hb]
    · simp [hb]
  rw [hset, Finset.card_sdiff_of_subset, List.toFinset_card_of_nodup hl]
  intro b hb
  exact mem_freeBits.2 (hfresh b (List.mem_toFinset.1 hb))

section Create

variable {s' : Sfs} {path : List UInt8} {size : Int32} {p idx f : ℕ} {data : List ℕ}

/-- What a creation writes for the new node. -/
theorem CreateOk.newNode (hi : InOrder s) (hc : CreateOk s s' path p idx f data (createSize path size))
    (hrange : sfsIsFolder path = false → 0 ≤ size.toInt ∧ size.toInt ≤ SFS_MAX_FILESIZE) :
    (FileSystem.newNode path size).content = contentOf s'.disk.blocks f (kindOf (sfsIsFolder path)) ∧
      (FileSystem.newNode path size).blocks =
        (ownedBlocks s'.disk.blocks f (kindOf (sfsIsFolder path))).ncard := by
  constructor
  · cases hk : sfsIsFolder path with
    | true => simp [FileSystem.newNode, hk, kindOf, contentOf, direntMap_empty (hc.created.folder hk).2]
    | false => simp [FileSystem.newNode, hk, kindOf, contentOf, hc.fileBytes hk, createSize]
  · have hset : ownedBlocks s'.disk.blocks f (kindOf (sfsIsFolder path)) = ↑(f :: data).toFinset := by
      ext b
      rw [Finset.mem_coe, List.mem_toFinset]
      exact hc.created.owns_iff hi.quiet.inv.vol hc.num b
    rw [hset, Set.ncard_coe_finset, List.toFinset_card_of_nodup hc.created.nodup, hc.created.length,
      blocksFor_eq hrange]
    rfl

/-- A creation leaves the other nodes alone. -/
theorem CreateOk.others (hi : InOrder s) (hc : CreateOk s s' path p idx f data (createSize path size))
    {g : ℕ} {k : Kind} (hg : Live s.disk.blocks s.openFiles noPins (.node g k)) (hne : g ≠ p) :
    contentOf s'.disk.blocks g k = contentOf s.disk.blocks g k ∧
      ownedBlocks s'.disk.blocks g k = ownedBlocks s.disk.blocks g k := by
  have hvol := hi.quiet.inv.vol
  refine ⟨hi.contentOf_congr hg fun b hb => ?_, ownedBlocks_congr (hc.created.same hvol hg hne) k⟩
  have := hvol.block_two_le hg hb
  refine hc.created.other b (by simp only [SFS_ALLOCATION_BLOCK]; omega) ?_
    (hc.created.not_fresh hvol hg hb)
  rintro rfl
  exact hne (by cases hvol.own.unique hg (VolInv.dir_live hc.reach) hb (Or.inl rfl); rfl)

/-- The parent has one more name. -/
theorem CreateOk.parent (hi : InOrder s) (hc : CreateOk s s' path p idx f data (createSize path size)) :
    direntMap (s'.disk.blocks p) = (direntMap (s.disk.blocks p)).insert (sfsGetActualFilename path) f := by
  obtain ⟨h1, h2⟩ := hc.node_bounds hi.quiet.inv
  rw [hc.created.entry]
  exact direntMap_setDirent (hi.directories (VolInv.dir_live hc.reach)) hc.entryName hc.created.idx_lt h1 h2
    hc.created.slot hc.entryNamed_none

/-- The live nodes after a creation. -/
theorem CreateOk.live (hi : InOrder s) (hc : CreateOk s s' path p idx f data (createSize path size))
    {g : ℕ} {k : Kind} (hg : Live s'.disk.blocks s'.openFiles noPins (.node g k)) :
    (Live s.disk.blocks s.openFiles noPins (.node g k) ∧ g ≠ f) ∨ (g = f ∧ k = kindOf (sfsIsFolder path)) := by
  have hold : Live s.disk.blocks s.openFiles noPins (.node g k) → g ≠ f := by
    rintro hl rfl
    exact hc.created.not_fresh hi.quiet.inv.vol hl (Or.inl rfl) (List.mem_cons_self ..)
  rw [hc.openFiles] at hg
  rcases hg with hg | hg
  · rcases ((hc.grows hi.quiet.inv).inTree_iff g k).1 hg with hg | hg
    · exact Or.inl ⟨Or.inl hg, hold (Or.inl hg)⟩
    · exact Or.inr hg
  · exact Or.inl ⟨Or.inr hg, hold (Or.inr hg)⟩

/-- **Creating a file or folder** adds a node. -/
theorem Represents.create (hi : InOrder s) (h : Represents fs s)
    (hc : CreateOk s s' path p idx f data (createSize path size))
    (hrange : sfsIsFolder path = false → 0 ≤ size.toInt ∧ size.toInt ≤ SFS_MAX_FILESIZE) :
    Represents (fs.create p (sfsGetActualFilename path) f path size) s' := by
  have hvol := hi.quiet.inv.vol
  have hp : Live s.disk.blocks s.openFiles noPins (.node p .dir) := VolInv.dir_live hc.reach
  obtain ⟨pd, hpn, hpc, hpb⟩ := h.live hp
  have hnew : ∀ {k}, ¬ Live s.disk.blocks s.openFiles noPins (.node f k) := fun hl =>
    hc.created.not_fresh hvol hl (Or.inl rfl) (List.mem_cons_self ..)
  have hpf : p ≠ f := by
    rintro rfl
    exact hnew hp
  have hnone : ∀ e, (s.openFiles e).fileid ≠ f := fun e he => hnew (Or.inr (Or.inl ⟨e, he, rfl⟩))
  have hunmarked : ∀ {b}, b ∈ f :: data → ¬ Marked s.disk.blocks b := fun hb hm =>
    absurd ((hc.created.fresh _ hb).2.symm.trans hm) (by decide)
  have hnode : ∀ g, (fs.create p (sfsGetActualFilename path) f path size).node g =
      if g = f then some (FileSystem.newNode path size)
      else if g = p then some { pd with content := .folder (direntMap (s'.disk.blocks p)) }
      else fs.node g := by
    intro g
    unfold FileSystem.create
    rw [FileSystem.node_set, FileSystem.node_modify hpn hpc, hc.parent hi]
  -- every node is the new one or comes from one with the same handles
  have hold : ∀ {g x}, (fs.create p (sfsGetActualFilename path) f path size).node g = some x →
      (g = f ∧ x = FileSystem.newNode path size) ∨
      ∃ x0, fs.node g = some x0 ∧ x0.handles = x.handles ∧ x0.removed = x.removed := by
    intro g x hg
    rw [hnode] at hg
    split_ifs at hg with hgf hgp
    · exact Or.inl ⟨hgf, (Option.some.inj hg).symm⟩
    · subst hgp
      cases hg
      exact Or.inr ⟨pd, hpn, rfl, rfl⟩
    · exact Or.inr ⟨x, hg, rfl, rfl⟩
  refine ⟨fun {g k} hg => ?_, fun {g x} hg => ?_, fun {g x e} hg hid => ?_, fun hg h0 => ?_,
    fun {g x} hg => ?_, fun {g x g' k'} hg hl hown => ?_, ?_⟩
  · rw [hnode]
    rcases hc.live hi hg with ⟨hl, hgf⟩ | ⟨rfl, rfl⟩
    · rw [if_neg hgf]
      by_cases hgp : g = p
      · subst hgp
        cases hvol.kind_eq hl hp
        refine ⟨_, if_pos rfl, rfl, ?_⟩
        rw [ownedBlocks_dir] at hpb ⊢
        exact hpb
      · obtain ⟨x, h1, h2, h3⟩ := h.live hl
        obtain ⟨h4, h5⟩ := hc.others hi hl hgp
        exact ⟨x, by rw [if_neg hgp]; exact h1, by rw [h4]; exact h2, by rw [h5]; exact h3⟩
    · exact ⟨_, if_pos rfl, hc.newNode hi hrange⟩
  · rcases hold hg with ⟨rfl, rfl⟩ | ⟨x0, h1, h2, -⟩
    · exact Counts.of_none fun e => by rw [hc.openFiles]; exact hnone e
    · rw [← h2]
      exact (h.counts h1).congr fun _ => by rw [hc.openFiles]; exact ⟨rfl, rfl⟩
  · rw [hc.openFiles] at hid ⊢
    rcases hold hg with ⟨rfl, -⟩ | ⟨x0, h1, -, h2⟩
    · exact absurd hid (hnone e)
    · rw [← h2]
      exact h.removed h1 hid
  · rcases hold hg with ⟨-, rfl⟩ | ⟨x0, h1, h2, h3⟩
    · rfl
    · rw [← h3]
      exact h.kept h1 (h2.trans h0)
  · rw [Marked, hc.created.bits]
    split
    · rfl
    · rename_i hg'
      rcases hold hg with ⟨rfl, -⟩ | ⟨x0, h1, -⟩
      · exact absurd (List.mem_cons_self ..) hg'
      · exact h.marked h1
  · rcases hc.live hi hl with ⟨hl', hgf⟩ | ⟨rfl, rfl⟩
    · have hown' : owns s.disk.blocks (.node g' k') g := by
        rcases hown with hown | ⟨rfl, hown⟩
        · exact Or.inl hown
        · rw [hc.created.same hvol hl' (by rintro rfl; cases hvol.kind_eq hl' hp)] at hown
          exact Or.inr ⟨rfl, hown⟩
      rcases hold hg with ⟨rfl, -⟩ | ⟨x0, h1, -⟩
      · exact absurd (List.mem_cons_self ..) (hc.created.not_fresh hvol hl' hown')
      · exact h.apart h1 hl' hown'
    · rcases hold hg with ⟨rfl, -⟩ | ⟨x0, h1, -⟩
      · rfl
      · exact absurd (h.marked h1) (hunmarked ((hc.created.owns_iff hvol hc.num g).1 hown))
  · have htotal : s'.totalvblocks = s.totalvblocks := by rw [hc.state]
    rw [htotal, card_freeBits_fresh hc.created.nodup hc.created.fresh hc.created.bits, hc.created.length,
      blocksFor_eq hrange, ← h.free]
    rfl

end Create

end Change

end Buenos.Fs
