import Buenos.Fs.Sfs.Representation

/-!
# SFS implements the filesystem

Every call on a volume is a step of the `FileSystem` it stands for: `Represents.openFile`,
`Represents.closeFile`, `Represents.createFile`, `Represents.remove`, `Represents.readFile` and
`Represents.writeFile`.

Principal result: `sfs_refines`, the replies of every sequence of calls are those of the filesystem,
and `sfs_getfree` counts its free blocks.
-/

namespace Buenos.Fs

open Bytes BlockProgram Ownership

/-! ## One call -/

section Calls

variable {fs : FileSystem} {s : Sfs}

/-- `sfs_enter_ext` fails to open only when the table is full. -/
theorem enterExt_tableFull {f : ℕ} {q : ℤ} {isFolder markAsDeleted : Bool}
    (h : (sfsEnterExt s f q true isFolder markAsDeleted).1 = none) : Threads.TableFull s.openFiles f := by
  unfold sfsEnterExt at h
  rw [if_neg (by omega)] at h
  split at h
  · rename_i hnone
    intro e
    exact ⟨findEntry_full hnone e (List.mem_finRange e), findEntry_none hnone e (List.mem_finRange e)⟩
  · rw [if_neg (by simp)] at h
    simp only [if_true] at h
    split at h
    · cases h
    · cases h

/-- An entry that a file has, or may take, agrees with its node. -/
theorem Represents.entry_eq (hi : InOrder s) (h : Represents fs s) {e : Slot} {f : ℕ} {nd : Node}
    (hn : fs.node f = some nd)
    (he : (s.openFiles e).fileid = f ∨ ((s.openFiles e).fileid = -1 ∧ ∀ j, (s.openFiles j).fileid ≠ f)) :
    (s.openFiles e).timesOpened = nd.handles ∧ (s.openFiles e).isDeleted = nd.removed := by
  rcases he with he | ⟨he, hno⟩
  · exact ⟨(h.counts hn).count he, (h.removed hn he).symm⟩
  · have h0 : nd.handles = 0 := by
      by_contra hpos
      obtain ⟨j, hj⟩ := (h.counts hn).entry (by omega)
      exact hno j hj
    rw [hi.quiet.inv.vol.free (e := e) (by omega), h0, h.kept hn h0]
    exact ⟨rfl, rfl⟩

/-- A linked node has not been removed. -/
theorem Represents.linked (hi : InOrder s) (h : Represents fs s) {f : ℕ} {k : Kind} {nd : Node}
    (hn : fs.node f = some nd) (hf : InTree s.disk.blocks f k) : nd.removed = false := by
  by_cases h0 : nd.handles = 0
  · exact h.kept hn h0
  · obtain ⟨e, he⟩ := (h.counts hn).entry (by omega)
    rw [h.removed hn he]
    by_contra hd
    exact hi.quiet.inv.vol.deleted (by simpa using hd) he hf

/-- **`sfs_open`** -/
theorem Represents.openFile (hi : InOrder s) (h : Represents fs s) (path : List UInt8) :
    ∃ fs', fs.Step (.openFile path) ⟨(sfsOpen s path).1, []⟩ fs' ∧ Represents fs' (sfsOpen s path).2 := by
  cases hp : fs.lookup path with
  | none =>
    have he : sfsOpen s path = (VFS_NOT_FOUND, s) := by
      unfold sfsOpen
      rw [if_pos ((h.resolve_eq_error hi path).2 hp)]
    rw [he]
    exact ⟨fs, .notFound hp, h⟩
  | some f =>
    have hr : (sfsResolveFileExt s path).block = f := (h.resolve_eq hi).2 hp
    have hne : (sfsResolveFileExt s path).block ≠ VFS_ERROR := by
      rw [Ne, h.resolve_eq_error hi, hp]
      simp
    obtain ⟨g, hg1, htree, -, -⟩ := hi.quiet.inv.resolved hne
    obtain rfl : g = f := Int.ofNat_inj.1 (hg1.symm.trans hr)
    rcases sfsEnterExt_open s (sfsResolveFileExt s path).parentInode (sfsIsFolder path)
      (Int.natCast_nonneg g) with he | ⟨e, he, h4⟩
    · have hfull := enterExt_tableFull (by rw [he])
      have hopen : sfsOpen s path = (VFS_ERROR, s) := by
        unfold sfsOpen
        rw [if_neg hne, hr, he]
      rw [hopen]
      exact ⟨fs, .tableFull hp fun hroom => (h.hasRoom_iff hi).1 hroom hfull, h⟩
    · have hroom : fs.HasRoom g := by
        rw [h.hasRoom_iff hi]
        intro hfull
        rcases h4 with h4 | ⟨h4, -⟩
        · exact (hfull e).2 h4
        · exact (hfull e).1 h4
      obtain ⟨nd, hn, hcont, -⟩ := h.live (Or.inl htree)
      obtain ⟨hcount, hdel⟩ := h.entry_eq hi hn h4
      -- a linked file is not deleted, so the entry stays open
      have hd := h.linked hi hn htree
      have hopen : sfsOpen s path = ((g : ℤ), s.setEntry e (openedEntry (s.openFiles e) g
          (sfsResolveFileExt s path).parentInode (sfsIsFolder path))) := by
        unfold sfsOpen
        rw [if_neg hne, hr, he]
        simp only [setEntry_openFiles, Function.update_self, openedEntry_isDeleted, hdel, hd,
          Bool.false_eq_true, if_false]
        rw [sfsExit_keep]
        rw [setEntry_openFiles, Function.update_self, openedEntry_timesOpened]
        omega
      rw [hopen]
      refine ⟨_, .opened hp hn hroom, h.setNode hi hn rfl rfl (fun h0 => absurd h0 (Nat.succ_ne_zero _)) h4
        (Or.inl ⟨opened_fileid _ h4, ?_, ?_⟩) ?_⟩
      · rw [openedEntry_timesOpened, hcount]
        push_cast
        rfl
      · rw [openedEntry_isDeleted, hdel]
      · exact fun hg => live_setEntry (fun h => h) (Inv.opened_live (Or.inl htree)) hg

/-- A call on a file that is not open. -/
theorem Represents.notOpen (hi : InOrder s) (h : Represents fs s) {c : Call} {fileid : ℤ}
    (hc : c.fileid? = some fileid) (hno : ∀ (e : Slot) (f : ℕ), fileid = f → (s.openFiles e).fileid ≠ f) :
    fs.Step c ⟨VFS_ERROR, []⟩ fs := by
  refine .notOpen hc fun f hf he => ?_
  obtain ⟨e, hid⟩ := (h.mem_opened hi).1 hf
  exact hno e f he.symm hid

/-- Resetting an entry and then deleting, in either order. -/
theorem reset_freed (e : Slot) (f : ℕ) (isFolder : Bool) (bat : Block) :
    (s.setEntry e sfsResetEntry).freed f isFolder bat = (s.freed f isFolder bat).setEntry e sfsResetEntry := by
  rw [← Inv.setEntry_freed e sfsResetEntry sfsResetEntry]
  have hreset : orphanEntries (s.setEntry e sfsResetEntry).openFiles f isFolder e = sfsResetEntry := by
    rcases orphanEntries_spec (s.setEntry e sfsResetEntry).openFiles f isFolder e with ho | ⟨-, ho, -⟩
    · rw [ho, setEntry_openFiles, Function.update_self]
    · rw [setEntry_openFiles, Function.update_self] at ho
      cases ho
  generalize hs : (s.setEntry e sfsResetEntry).freed f isFolder bat = s1
  have hs1 : s1.openFiles e = sfsResetEntry := by rw [← hs]; exact hreset
  rw [Sfs.setEntry, Function.update_eq_self_iff.2 hs1.symm]

/-- **`sfs_close`** -/
theorem Represents.closeFile (hi : InOrder s) (h : Represents fs s) (fileid : ℤ) :
    ∃ fs', fs.Step (.closeFile fileid) ⟨(sfsClose s fileid).1, []⟩ fs' ∧
      Represents fs' (sfsClose s fileid).2 := by
  have heff := sfsClose_effect hi.quiet fileid
  by_cases hopen : ∃ (e : Slot) (f : ℕ), fileid = f ∧ (s.openFiles e).fileid = f
  · obtain ⟨e0, f, rfl, hid⟩ := hopen
    have hok : (sfsClose s f).1 = VFS_OK := by
      rcases sfsEnter_spec s (Int.natCast_nonneg f) with ⟨-, hno⟩ | ⟨e, he, -⟩
      · exact absurd hid (hno e0)
      · unfold sfsClose
        rw [he]
    rw [hok] at heff ⊢
    generalize (sfsClose s f).2 = s' at heff
    cases heff with
    | failed _ hv => exact absurd hv (by decide)
    | @closed e f he ht =>
      obtain ⟨nd, hn, -, -, hcount, hpos, hrem⟩ := h.entry_node hi he
      refine ⟨_, .closed hn hpos fun _ => by omega, h.setNode hi hn rfl rfl (fun h0 => ?_) (Or.inl he)
        (Or.inl ⟨he, ?_, hrem.symm⟩) fun hg => live_sameFile hg rfl rfl⟩
      · simp only at h0
        omega
      · simp only
        omega
    | @released e f he ht hd =>
      obtain ⟨nd, hn, -, -, hcount, hpos, hrem⟩ := h.entry_node hi he
      rw [hd] at hrem
      refine ⟨_, .closed hn hpos fun hr => ?_, h.setNode hi hn rfl rfl (fun _ => hrem) (Or.inl he)
        (Or.inr ⟨rfl, ?_⟩) fun hg => live_setEntry (fun h => h) (fun g hg => by cases hg) hg⟩
      · rw [hrem] at hr
        cases hr
      · simp only
        omega
    | @freed e f bat he ht hd hb =>
      obtain ⟨nd, hn, -, hblocks, hcount, hpos, hrem⟩ := h.entry_node hi he
      rw [hd] at hrem
      have hlive : Live s.disk.blocks s.openFiles noPins (.node f (kindOf (s.openFiles e).isFolder)) :=
        Or.inr (Or.inl ⟨e, he, rfl⟩)
      obtain ⟨hset, hown⟩ := hi.deleted hlive
      have h1 : Represents (fs.set f { nd with handles := 0, removed := false })
          (s.setEntry e sfsResetEntry) :=
        h.setNode hi hn rfl rfl (fun _ => rfl) (Or.inl he) (Or.inr ⟨rfl, rfl⟩)
          fun hg => live_setEntry (fun h => h) (fun g hg => by cases hg) hg
      refine ⟨_, .dropped hn (by omega) hrem, ?_⟩
      rw [← FileSystem.drop_set fs f nd { nd with handles := 0, removed := false }, ← reset_freed]
      refine h1.drop (hi.reset e) (fun k hk => ?_) (by rw [hblocks, ← hset]; rfl) hown (fun {g x} hg hd => ?_) hb
      · rcases hk with hk | ⟨e', hid, -⟩ | ⟨q, hq⟩
        · exact hi.quiet.inv.vol.deleted hd he hk
        · exact reset_none hi.quiet (fun _ => rfl) he e' hid
        · exact hq
      · rw [FileSystem.node_set] at hg
        split at hg
        · assumption
        · exact (h.apart hg hlive hd.owns).symm
  · have herr : sfsClose s fileid = (VFS_ERROR, s) := by
      unfold sfsClose
      by_cases h0 : fileid < 0
      · rw [sfsEnter_neg h0]
      · obtain ⟨f, rfl⟩ := Int.eq_ofNat_of_zero_le (show 0 ≤ fileid by omega)
        rcases sfsEnter_spec s (Int.natCast_nonneg f) with ⟨he, -⟩ | ⟨e, -, hid⟩
        · rw [he]
        · exact absurd ⟨e, f, rfl, hid⟩ hopen
    rw [herr]
    exact ⟨fs, h.notOpen hi rfl fun e f hf hid => hopen ⟨e, f, hf, hid⟩, h⟩

/-- Walking through folders ends in a directory. -/
theorem reachDir_walk {blocks : ℕ → Block} {q : ℕ} :
    ∀ {es : List (List UInt8)} {d : ℕ}, (∀ e ∈ es, sfsIsFolder e = true) → ReachDir blocks d →
      es.foldlM (entryIn blocks) d = some q → ReachDir blocks q
  | [], d, _, hd, h => by
    cases h
    exact hd
  | e :: es, d, hes, hd, h => by
    rw [List.foldlM_cons] at h
    cases hn : entryIn blocks d e with
    | none =>
      rw [hn] at h
      cases h
    | some f =>
      rw [hn] at h
      obtain ⟨i, hl, -⟩ := reachDir_entryIn hd hn
      rw [hes e (List.mem_cons_self ..)] at hl
      exact reachDir_walk (fun e he => hes e (List.mem_cons_of_mem _ he)) (reachDir_iff.2 hl.inTree) h

/-- The folders of a path before its last element. -/
theorem isFolder_init {path : List UInt8} {init : List (List UInt8)} {name : List UInt8}
    (h : pathElems path.tail = init ++ [name]) : ∀ e ∈ init, sfsIsFolder e = true := by
  intro e he
  obtain ⟨l, r, rfl⟩ := List.append_of_mem he
  exact pathElems_folders path.tail l e (r ++ [name]) (by rw [h]; simp) (by simp)

/-- The folder that a path ends in, on the volume. -/
theorem Represents.place_iff (h : Represents fs s) {path : List UInt8} {d : ℕ} {name : List UInt8} :
    fs.Place path d name ↔ sfsIsValidPath path = true ∧ ∃ init, pathElems path.tail = init ++ [name] ∧
      init.foldlM (entryIn s.disk.blocks) SFS_DIRECTORY_BLOCK = some d ∧ ReachDir s.disk.blocks d := by
  refine and_congr_right fun _ => exists_congr fun init => and_congr_right fun he => ?_
  have hfe : FolderElems init := fun l e r hl hr => isFolder_init he e (by rw [hl]; simp)
  have hwalk : init.foldlM fs.child SFS_DIRECTORY_BLOCK =
      init.foldlM (entryIn s.disk.blocks) SFS_DIRECTORY_BLOCK := h.walk hfe .root
  rw [hwalk]
  exact ⟨fun hw => ⟨hw, reachDir_walk (isFolder_init he) .root hw⟩, fun hw => hw.1⟩

/-- A named node other than the root has an entry in the folder its path ends in. -/
theorem Represents.place (h : Represents fs s) {path : List UInt8} {f : ℕ} (hp : fs.lookup path = some f)
    (hs : path ≠ [SLASH]) : ∃ d name i, fs.Place path d name ∧ fs.child d name = some f ∧
      Link s.disk.blocks d i f (kindOf (sfsIsFolder path)) ∧ direntName (s.disk.blocks d) i = name := by
  rw [h.lookup] at hp
  unfold nodeAt at hp
  split at hp
  · rename_i hv
    rcases List.eq_nil_or_concat' (pathElems path.tail) with hnil | ⟨init, name, he⟩
    · exact absurd (elems_nil hv hnil) hs
    · rw [he, List.foldlM_append, Option.bind_eq_bind, Option.bind_eq_some_iff] at hp
      obtain ⟨d, hd, hn⟩ := hp
      have hn : entryIn s.disk.blocks d name = some f := by simpa using hn
      have hr := reachDir_walk (isFolder_init he) .root hd
      obtain ⟨i, hl, hname⟩ := reachDir_entryIn hr hn
      rw [← isFolder_last hv he] at hl
      exact ⟨d, name, i, h.place_iff.2 ⟨hv, init, he, hd, hr⟩, by rw [h.child hr, hn], hl, hname⟩
  · cases hp

/-- No directory names itself. -/
theorem VolInv.not_self {n : ℕ} {blocks : ℕ → Block} {files : Slot → OpenFile} {pins : Pins}
    (h : VolInv n blocks files pins) {p i f : ℕ} {k : Kind} (hl : Link blocks p i f k) : p ≠ f := by
  have hne : ∀ q, ReachDir blocks q → p = f → q ≠ f := by
    intro q hq hpf
    induction hq with
    | root => exact (h.link_root hl).symm
    | @sub q j hq hj h0 hk ih =>
      rintro rfl
      exact ih ((h.link_inj ⟨hq, hj, rfl, h0, hk⟩ hl).1.trans hpf)
  exact fun hpf => hne p hl.dir hpf hpf

/-- **`sfs_remove`** -/
theorem Represents.remove (hi : InOrder s) (h : Represents fs s) (path : List UInt8) :
    ∃ fs', fs.Step (.remove path) ⟨(sfsRemove s path).1, []⟩ fs' ∧ Represents fs' (sfsRemove s path).2 := by
  by_cases hmiss : fs.lookup path = none ∨ path = [SLASH]
  · have he : sfsRemove s path = (VFS_NOT_FOUND, s) := by
      unfold sfsRemove
      rw [if_pos (hmiss.imp_left (h.resolve_eq_error hi path).2)]
    rw [he]
    exact ⟨fs, .missing hmiss, h⟩
  rw [not_or] at hmiss
  obtain ⟨f, hp⟩ := Option.ne_none_iff_exists'.1 hmiss.1
  have hr : (sfsResolveFileExt s path).block = f := (h.resolve_eq hi).2 hp
  have hne : ¬ ((sfsResolveFileExt s path).block = VFS_ERROR ∨ path = [SLASH]) := by
    rw [h.resolve_eq_error hi, not_or]
    exact hmiss
  obtain ⟨d, name, i, hplace, hchild, hlink, hname⟩ := h.place hp hmiss.2
  by_cases hroom : fs.HasRoom f
  · have hok : (sfsRemove s path).1 = VFS_OK := by
      unfold sfsRemove
      rw [if_neg hne, hr]
      split
      · rename_i heq
        exact absurd (enterExt_tableFull (by rw [heq])) ((h.hasRoom_iff hi).1 hroom)
      · rfl
    have heff := sfsRemove_effect hi.quiet path
    rw [hok] at heff ⊢
    generalize (sfsRemove s path).2 = s' at heff
    cases heff with
    | failed _ hv => exact absurd hv (by decide)
    | @unlinked _ p i' g e hl hr' he =>
      obtain rfl : g = f := Int.ofNat_inj.1 (hr'.symm.trans hr)
      obtain ⟨rfl, rfl⟩ := hi.quiet.inv.vol.link_inj hl hlink
      obtain ⟨nd, hn, -, -, hcount, hpos, -⟩ := h.entry_node hi he
      refine ⟨_, .unlinked hplace hchild hn hpos, ?_⟩
      rw [← hname]
      have hn' := (FileSystem.node_modify_ne (hi.quiet.inv.vol.not_self hl).symm (Finmap.erase
        (direntName (s.disk.blocks p) i'))).trans hn
      exact (h.unlink hi hl).setNode (hi.unlinked hl) hn' rfl rfl (fun h0 => absurd h0 (Nat.ne_of_gt hpos))
        (Or.inl he) (Or.inl ⟨he, hcount, rfl⟩) fun hg => live_sameFile hg rfl rfl
    | @removed _ p i' g bat hl hr' hno hb =>
      obtain rfl : g = f := Int.ofNat_inj.1 (hr'.symm.trans hr)
      obtain ⟨rfl, rfl⟩ := hi.quiet.inv.vol.link_inj hl hlink
      have hlive : Live s.disk.blocks s.openFiles noPins (.node g (kindOf (sfsIsFolder path))) :=
        Or.inl hl.inTree
      obtain ⟨nd, hn, -, hblocks⟩ := h.live hlive
      have h0 : nd.handles = 0 := by
        by_contra hpos
        obtain ⟨j, hj⟩ := (h.counts hn).entry (by omega)
        exact hno j hj
      have hsame : sfsIsFolder path = false → unlinkBlocks s.disk.blocks p g g = s.disk.blocks g := by
        intro hk
        refine hi.quiet.inv.vol.unlink_inode hl ?_
        rw [hk] at hlive
        exact hlive
      obtain ⟨hset, hown⟩ := hi.deleted hlive
      have halloc : unlinkBlocks s.disk.blocks p g SFS_ALLOCATION_BLOCK = s.disk.blocks SFS_ALLOCATION_BLOCK := by
        have hp : Live s.disk.blocks s.openFiles noPins (.node p .dir) := VolInv.dir_live hl.dir
        have := hi.quiet.inv.vol.two_le hp
        exact unlinkBlocks_of_ne (by simp only [SFS_ALLOCATION_BLOCK]; omega)
      refine ⟨_, .removed hplace hchild hn h0 hroom, ?_⟩
      rw [← hname]
      refine (h.unlink hi hl).drop (hi.unlinked hl) (fun k hk => ?_) ?_ (fun b hb => ?_) (fun {x y} hx hb => ?_) hb
      · rcases hk with hk | ⟨e, hid, -⟩ | ⟨q, hq⟩
        · exact hi.quiet.inv.vol.unlinked hi.quiet.inv.small hl k hk
        · exact hno e hid
        · exact hq
      · rw [hblocks, ← hset]
        congr 1
        ext b
        exact (deletedBlock_congr hsame).symm
      · rw [Marked, unlinked_blocks, halloc]
        exact hown b ((deletedBlock_congr hsame).1 hb)
      · obtain ⟨x0, hx0, -⟩ := FileSystem.of_node_modify hx
        exact (h.apart hx0 hlive ((deletedBlock_congr hsame).1 hb).owns).symm
  · have herr : sfsRemove s path = (VFS_ERROR, s) := by
      have hfull : Threads.TableFull s.openFiles f := by
        by_contra hfull
        exact hroom ((h.hasRoom_iff hi).2 hfull)
      unfold sfsRemove
      rw [if_neg hne, hr, Threads.sfsEnterExt_full hfull]
    rw [herr]
    exact ⟨fs, .noRoom hp hmiss.2 hroom, h⟩

/-- A free slot and enough free blocks are all that a creation needs. -/
theorem sfsCreate_creatable (hi : InOrder s) {path : List UInt8} {size : Int32} {init : List (List UInt8)}
    {name : List UInt8} {d : ℕ} (hc : Creatable s path size init name d) :
    ∃ s' idx f data, sfsCreate s path size = (VFS_OK, s') ∧
      CreateOk s s' path d idx f data (createSize path size) := by
  obtain ⟨hv, h0, hnum, hres⟩ := hc.mayCreate hi.quiet.inv
  rcases sfsCreate_missing hi.quiet.inv hv h0 hnum hres with ⟨s', idx, f, data, h1, h2, -⟩ | ⟨-, h1 | h1⟩
  · exact ⟨s', idx, f, data, h1, h2⟩
  · obtain ⟨i, hlt, hfree⟩ := hc.slot
    exact absurd hfree (h1 i hlt)
  · rw [blocksFor_eq hc.range] at h1
    exact absurd hc.room (by omega)

/-- What is created was creatable. -/
theorem creatable_of_created (hi : InOrder s) {path : List UInt8} {size : Int32}
    (hok : (sfsCreate s path size).1 = VFS_OK) : ∃ init name d, Creatable s path size init name d := by
  have hmay : ∃ d, MayCreate s path size d := by
    by_contra hno
    rw [sfsCreate_refused hi.quiet.inv fun d hd => hno ⟨d, hd⟩] at hok
    cases hok
  obtain ⟨d, hd⟩ := hmay
  obtain ⟨hv, h0, hnum, hres⟩ := hd
  rcases sfsCreate_missing hi.quiet.inv hv h0 hnum hres with ⟨s', idx, f, data, -, h2, -⟩ | ⟨h1, -⟩
  · obtain ⟨init, name, hc⟩ := creatable_of_mayCreate ⟨hv, h0, hnum, hres⟩ hi.quiet.inv
      ⟨idx, h2.created.idx_lt, h2.created.slot⟩ h2.created.room
    exact ⟨init, name, d, hc⟩
  · rw [h1] at hok
    cases hok

theorem directoryAt_eq (blocks : ℕ → Block) :
    ∀ (es : List (List UInt8)) (d : ℕ), directoryAt blocks d es = es.foldlM (entryIn blocks) d
  | [], _ => rfl
  | e :: es, d => by
    rw [directoryAt, List.foldlM_cons, entryIn, lookup_direntMap]
    cases entryNamed (blocks d) e with
    | none => rfl
    | some i => exact directoryAt_eq blocks es _

/-- **Acceptance is creatability.** -/
theorem Represents.accepts_iff (hi : InOrder s) (h : Represents fs s) {path : List UInt8} {size : Int32}
    {d : ℕ} {name : List UInt8} :
    fs.Accepts path size d name ↔ ∃ init, Creatable s path size init name d := by
  constructor
  · rintro ⟨hplace, ⟨es, he1, he2, he3⟩, hrange, hroom⟩
    obtain ⟨hv, init, he, hd, hr⟩ := h.place_iff.1 hplace
    rw [h.entries hr] at he1
    cases he1
    refine ⟨init, hv, he, by rw [directoryAt_eq]; exact hd, notMem_direntMap.1 he2, hrange,
      (hi.directories (VolInv.dir_live hr)).card_lt.1 he3, by rw [← h.free]; exact hroom⟩
  · rintro ⟨init, hv, he, hd, hn, hrange, hslot, hroom⟩
    rw [directoryAt_eq] at hd
    have hr := reachDir_walk (isFolder_init he) .root hd
    exact ⟨h.place_iff.2 ⟨hv, init, he, hd, hr⟩, ⟨_, h.entries hr, notMem_direntMap.2 hn,
      (hi.directories (VolInv.dir_live hr)).card_lt.2 hslot⟩, hrange, by rw [h.free]; exact hroom⟩

/-- **`sfs_create`** -/
theorem Represents.createFile (hi : InOrder s) (h : Represents fs s) (path : List UInt8) (size : Int32) :
    ∃ fs', fs.Step (.create path size) ⟨(sfsCreate s path size).1, []⟩ fs' ∧
      Represents fs' (sfsCreate s path size).2 := by
  by_cases hacc : ∃ d name, fs.Accepts path size d name
  · obtain ⟨d, name, hacc⟩ := hacc
    obtain ⟨init, hc⟩ := (h.accepts_iff hi).1 hacc
    obtain ⟨s', idx, f, data, he, hok⟩ := sfsCreate_creatable hi hc
    have hname : name = sfsGetActualFilename path := (actualFilename_eq hc.valid hc.elems).symm
    rw [he]
    subst hname
    refine ⟨_, .created (f := f) hacc ?_, h.create hi hok hc.range⟩
    by_contra hn
    obtain ⟨nd, hn⟩ := Option.ne_none_iff_exists'.1 hn
    have hm := h.marked hn
    rw [Marked, (hok.created.fresh f (List.mem_cons_self ..)).2] at hm
    cases hm
  · have he : sfsCreate s path size = (VFS_ERROR, s) := by
      rcases sfsCreate_spec hi.quiet.inv path size with ⟨s', p, idx, f, data, he, -⟩ | he
      · have hok : (sfsCreate s path size).1 = VFS_OK := by rw [he]
        obtain ⟨init, name, d, hc⟩ := creatable_of_created hi hok
        exact absurd ⟨d, name, (h.accepts_iff hi).2 ⟨init, hc⟩⟩ hacc
      · exact he
    rw [he]
    exact ⟨fs, .refused fun d name ha => hacc ⟨d, name, ha⟩, h⟩

/-- What reading a directory block answers. -/
theorem readBody_folder {disk : Gbd} {f n : ℕ} {offset : ℤ} (hread : readVblock disk f = some (disk.blocks f))
    (hd : DirectoryOk (disk.blocks f)) : FileSystem.ReadReply (.folder (direntMap (disk.blocks f))) n offset
      ⟨((readBody f true n offset).run gbdDevice disk).1.1,
        ((readBody f true n offset).run gbdDevice disk).1.2⟩ := by
  unfold FileSystem.ReadReply readBody
  simp only [if_true]
  by_cases hc : offset ≠ 0 ∨ (n : ℤ) < (SFS_VBLOCK_SIZE : ℕ)
  · rw [if_pos hc, if_pos (hc.imp_right Int.ofNat_lt.1)]
    rfl
  · rw [if_neg hc, if_neg fun hc' => hc (hc'.imp_right Int.ofNat_lt.2)]
    refine ⟨liveNames (disk.blocks f), hd.liveNames_nodup, (keys_direntMap _).symm, ?_⟩
    have hlist := listDirents_eq hd.named (k := SFS_MAX_FILES) (r := 0) (by omega)
    simp only [Prog.run, gbdDevice, hread, hlist, liveNames_eq]

/-- What reading an open file answers. -/
theorem Represents.readReply (hi : InOrder s) {nd : Node} {f : ℕ} {k : Kind} (n : ℕ) (offset : ℤ)
    (hf : Live s.disk.blocks s.openFiles noPins (.node f k)) (hc : nd.content = contentOf s.disk.blocks f k)
    {isFolder : Bool} (hk : k = kindOf isFolder) : FileSystem.ReadReply nd.content n offset
      ⟨((readBody f isFolder n offset).run gbdDevice s.disk).1.1,
        ((readBody f isFolder n offset).run gbdDevice s.disk).1.2⟩ := by
  rw [hc]
  cases isFolder with
  | false =>
    subst hk
    rw [readBody_spec (hi.quiet.fileOk hi.sound.covers hf).shape]
    rfl
  | true =>
    subst hk
    have hlt := hi.quiet.inv.vol.lt hf
    have hon := hi.quiet.inv.onDisk
    exact readBody_folder (readVblock_works hi.quiet.inv.works (by omega)) (hi.directories hf)

/-- **`sfs_read`** -/
theorem Represents.readFile (hi : InOrder s) (h : Represents fs s) (fileid : ℤ) (n : ℕ) (offset : ℤ) :
    ∃ r, sfsRead s fileid n offset = some (r, s) ∧ fs.Step (.read fileid n offset) ⟨r.1, r.2⟩ fs := by
  rcases sfsRead_spec hi.quiet.idle fileid n offset with ⟨he, hno⟩ | ⟨e, f, rfl, h1, he⟩
  · exact ⟨_, he, h.notOpen hi rfl fun e f hf hid => hno e f hf hid (hi.quiet.inv.good_fileid hid)⟩
  · rw [sfsExit_keep ((hi.quiet.idle e).opened (by omega))] at he
    obtain ⟨nd, hn, hc, -, -, hpos, -⟩ := h.entry_node hi h1
    exact ⟨_, he, .read hn hpos (Represents.readReply hi n offset (Or.inr (Or.inl ⟨e, h1, rfl⟩)) hc rfl)⟩

/-- **`sfs_write`** -/
theorem Represents.writeFile (hi : InOrder s) (h : Represents fs s) (tid fileid : ℤ) (buf : List UInt8)
    (offset : ℤ) : ∃ r s' fs', sfsWrite s tid fileid buf buf.length offset = some (r, s') ∧
      fs.Step (.write tid fileid buf offset) ⟨r, []⟩ fs' ∧ Represents fs' s' := by
  rcases sfsWrite_spec hi.quiet.idle hi.quiet.inv.vol.distinct tid fileid buf buf.length offset with
    ⟨he, hno⟩ | ⟨e, f, rfl, h1, hk, he⟩
  · refine ⟨_, _, fs, he, ?_, h⟩
    by_cases hopen : ∃ (e : Slot) (f : ℕ), fileid = f ∧ (s.openFiles e).fileid = f
    · obtain ⟨e, f, rfl, hid⟩ := hopen
      have hfo : (s.openFiles e).isFolder = true := by
        by_contra hfo
        exact hno e f rfl hid (by simpa using hfo) (hi.quiet.inv.good_fileid hid)
      obtain ⟨nd, hn, hc, -⟩ := h.entry_node hi hid
      rw [hfo] at hc
      exact .folder ((h.mem_opened hi).2 ⟨e, hid⟩) (FileSystem.entries_some.2 ⟨nd, hn, hc⟩)
    · exact h.notOpen hi rfl fun e f hf hid => hopen ⟨e, f, hf, hid⟩
  · have hlive : Live s.disk.blocks s.openFiles noPins (.node f .file) :=
      Or.inr (Or.inl ⟨e, h1, by rw [hk]; rfl⟩)
    obtain ⟨nd, hn, hc, -, -, hpos, -⟩ := h.entry_node hi h1
    rw [hk] at hc
    obtain ⟨blocks, hrun, hbytes⟩ := writeBody_spec (hi.quiet.fileOk hi.sound.covers hlive).shape buf offset
    obtain ⟨blocks', hframe, hb⟩ := writeBody_frame s.disk f buf buf.length offset
    rw [hrun] at hframe
    obtain rfl : blocks = blocks' := congrArg Gbd.blocks hframe
    have hkeep := sfsExit_keep (e := e)
      (s := { s with disk := ((writeBody f buf buf.length offset).run gbdDevice s.disk).2 })
      ((hi.quiet.idle e).opened (by omega))
    rw [hkeep, hrun] at he
    refine ⟨_, _, _, he, .written hn hpos hc, ?_⟩
    rw [← hbytes]
    exact h.write hi hn hlive hb

/-- **One call is one step.** -/
theorem Represents.step (hi : InOrder s) (h : Represents fs s) (c : Call) :
    ∃ r s' fs', c.exec s = some (r, s') ∧ fs.Step c r fs' ∧ Represents fs' s' ∧ InOrder s' := by
  obtain ⟨r, s', he, heff, hq⟩ := c.exec_effect hi.quiet
  suffices hs : ∃ r s' fs', c.exec s = some (r, s') ∧ fs.Step c r fs' ∧ Represents fs' s' by
    obtain ⟨r1, s1, fs1, he1, hstep, hrep⟩ := hs
    rw [he] at he1
    cases he1
    exact ⟨r, s', fs1, he, hstep, hrep, hi.effect heff hq⟩
  cases c with
  | openFile path =>
    obtain ⟨fs', h1, h2⟩ := h.openFile hi path
    exact ⟨_, _, fs', rfl, h1, h2⟩
  | closeFile fileid =>
    obtain ⟨fs', h1, h2⟩ := h.closeFile hi fileid
    exact ⟨_, _, fs', rfl, h1, h2⟩
  | create path size =>
    obtain ⟨fs', h1, h2⟩ := h.createFile hi path size
    exact ⟨_, _, fs', rfl, h1, h2⟩
  | remove path =>
    obtain ⟨fs', h1, h2⟩ := h.remove hi path
    exact ⟨_, _, fs', rfl, h1, h2⟩
  | read fileid n offset =>
    obtain ⟨r, h1, h2⟩ := h.readFile hi fileid n offset
    exact ⟨_, _, fs, by rw [Call.exec, h1]; rfl, h2, h⟩
  | write tid fileid buf offset =>
    obtain ⟨r, s', fs', h1, h2, h3⟩ := h.writeFile hi tid fileid buf offset
    exact ⟨_, _, fs', by rw [Call.exec, h1]; rfl, h2, h3⟩

end Calls

/-! ## Every sequence of calls -/

/-- Run the calls and write down their replies. -/
def record (s : Sfs) : List Call → Option (List (Call × Reply) × Sfs)
  | [] => some ([], s)
  | c :: cs => match c.exec s with
    | none => none
    | some (r, s') => (record s' cs).map fun x => ((c, r) :: x.1, x.2)

/-- A sound volume whose names are well formed. -/
structure NamedVolume (disk : Gbd) : Prop extends SoundVolume disk where
  named : ∀ p, ReachDir disk.blocks p → WellNamed (disk.blocks p)

open Classical in
/-- **The filesystem on a volume** that is mounted. -/
noncomputable def filesystemOf (disk : Gbd) : FileSystem where
  node f :=
    if InTree disk.blocks f .dir then some ⟨.folder (direntMap (disk.blocks f)), 1, 0, false⟩
    else if InTree disk.blocks f .file then
      some ⟨.file (fileBytes disk.blocks f), (ownedBlocks disk.blocks f .file).ncard, 0, false⟩
    else none
  free := (freeBits (disk.blocks SFS_ALLOCATION_BLOCK) (volumeBlocks disk)).card

/-- A node of a volume is in its tree. -/
theorem filesystemOf_some {disk : Gbd} {f : ℕ} {nd : Node} (h : (filesystemOf disk).node f = some nd) :
    (∃ k, InTree disk.blocks f k) ∧ nd.handles = 0 ∧ nd.removed = false := by
  simp only [filesystemOf] at h
  split_ifs at h with h1 h2
  · cases h
    exact ⟨⟨_, h1⟩, rfl, rfl⟩
  · cases h
    exact ⟨⟨_, h2⟩, rfl, rfl⟩

theorem NamedVolume.inOrder {disk : Gbd} (h : NamedVolume disk) (hw : disk.Works) : InOrder (sfsInit disk) where
  quiet := h.quiet hw
  sound := h.sound
  directories := fun {d} hd => by
    have hr : ReachDir disk.blocks d := reachDir_iff.2 (live_noFiles hd)
    exact ⟨h.named d hr, h.names d hr⟩

/-- **Mounting.** -/
theorem NamedVolume.represents {disk : Gbd} (h : NamedVolume disk) (hw : disk.Works) :
    Represents (filesystemOf disk) (sfsInit disk) := by
  have hvol := (h.quiet hw).inv.vol
  have hno : ∀ (e : Slot) (f : ℕ), ((sfsInit disk).openFiles e).fileid ≠ f := by
    intro e f he
    cases he
  have hlive : ∀ {f k}, InTree disk.blocks f k →
      Live (sfsInit disk).disk.blocks (sfsInit disk).openFiles noPins (.node f k) := fun hf => Or.inl hf
  refine ⟨fun {f k} hf => ?_, fun hn => ?_, fun {f nd e} _ hid => absurd hid (hno e f),
    fun hn _ => (filesystemOf_some hn).2.2, fun hn => ?_, fun {f nd g k} hn hg hown => ?_, rfl⟩
  · have ht : InTree disk.blocks f k := live_noFiles hf
    cases k with
    | dir =>
      refine ⟨_, if_pos ht, rfl, ?_⟩
      rw [ownedBlocks_dir, Set.ncard_singleton]
    | file =>
      have hnd : ¬ InTree disk.blocks f .dir := fun hd => by cases hvol.kind_eq (hlive ht) (hlive hd)
      exact ⟨_, (if_neg hnd).trans (if_pos ht), rfl, rfl⟩
  · rw [(filesystemOf_some hn).2.1]
    exact Counts.of_none fun e => hno e _
  · obtain ⟨⟨k, ht⟩, -⟩ := filesystemOf_some hn
    exact hvol.marked (hlive ht) (Or.inl rfl)
  · obtain ⟨⟨k', ht⟩, -⟩ := filesystemOf_some hn
    cases hvol.own.unique hg (hlive ht) hown (Or.inl rfl)
    rfl

/-- The answer of `sfs_getfree` is the number of free blocks. -/
theorem Represents.getfree {fs : FileSystem} {s : Sfs} (hi : InOrder s) (h : Represents fs s)
    (ht : s.totalblocks = s.totalvblocks) : sfsGetfree s = 512 * fs.free := by
  have hsmall := hi.quiet.inv.small
  have hone := hi.quiet.inv.two_lt
  have hon := hi.quiet.inv.onDisk
  have hsum := sum_bitmapGet (s.disk.blocks SFS_ALLOCATION_BLOCK) s.totalvblocks
  rw [← h.free] at hsum
  unfold sfsGetfree
  rw [readVblock_works hi.quiet.inv.works (by simp only [SFS_ALLOCATION_BLOCK]; omega)]
  simp only [ht, Nat.mod_self, Nat.zero_mul, Nat.add_zero, SFS_VBLOCK_SIZE]
  rw [sint_of_lt (by omega)]
  omega

/-- Runs from any state that stands for a filesystem. -/
theorem Represents.run :
    ∀ (cs : List Call) {fs : FileSystem} {s : Sfs}, InOrder s → s.totalblocks = s.totalvblocks →
      Represents fs s → ∃ trace s' fs', record s cs = some (trace, s') ∧ trace.map Prod.fst = cs ∧
        fs.Steps trace fs' ∧ Represents fs' s' ∧ sfsGetfree s' = 512 * fs'.free
  | [], fs, s, hi, ht, h => ⟨[], s, fs, rfl, rfl, .nil fs, h, h.getfree hi ht⟩
  | c :: cs, fs, s, hi, ht, h => by
    obtain ⟨r, s1, fs1, h1, h2, h3, h4⟩ := h.step hi c
    obtain ⟨r', s1', he', heff, -⟩ := c.exec_effect hi.quiet
    rw [h1] at he'
    cases he'
    have ht1 : s1.totalblocks = s1.totalvblocks := by
      rw [heff.totals.1, heff.totals.2, ht]
    obtain ⟨trace, s', fs', h5, h6, h7, h8, h9⟩ := run cs h4 ht1 h3
    refine ⟨(c, r) :: trace, s', fs', ?_, by rw [List.map_cons, h6], .cons h2 h7, h8, h9⟩
    rw [record, h1]
    simp only [h5, Option.map_some]

/-- **SFS implements the filesystem**: on a mounted volume every sequence of calls returns, with replies
that the filesystem on the volume may give, and `sfs_getfree` then tells its free blocks. -/
theorem sfs_refines (disk : Gbd) (hv : NamedVolume disk) (hw : disk.Works) (cs : List Call) :
    ∃ trace s fs, record (sfsInit disk) cs = some (trace, s) ∧ trace.map Prod.fst = cs ∧
      (filesystemOf disk).Steps trace fs ∧ Represents fs s ∧ sfsGetfree s = 512 * fs.free :=
  Represents.run cs (hv.inOrder hw) (by simp [sfsInit, SFS_BLOCKS_PER_VBLOCK]) (hv.represents hw)

theorem emptyVolume_named : NamedVolume emptyVolume where
  toSoundVolume := emptyVolume_sound
  named := fun p hp r hr h0 => by
    refine absurd ?_ (emptyVolume_link (p := p) (i := r) (f := direntInode (emptyVolume.blocks p) r)
      (k := direntKind (emptyVolume.blocks p) r))
    exact ⟨hp, by simpa [SFS_MAX_FILES] using hr, rfl, by omega, rfl⟩

/-- A file is opened, removed, written, read and closed. -/
theorem sfs_refines_emptyVolume : ∃ trace s fs, record (sfsInit emptyVolume)
      [.create [47, 102] 600, .openFile [47, 102], .remove [47, 102], .write 0 3 [1, 2, 3] 510,
        .read 3 4 509, .closeFile 3] = some (trace, s) ∧
      trace.map Prod.fst = [.create [47, 102] 600, .openFile [47, 102], .remove [47, 102],
        .write 0 3 [1, 2, 3] 510, .read 3 4 509, .closeFile 3] ∧
      (filesystemOf emptyVolume).Steps trace fs ∧ Represents fs s ∧ sfsGetfree s = 512 * fs.free :=
  sfs_refines emptyVolume emptyVolume_named emptyVolume_works _

end Buenos.Fs
