import Buenos.Fs.Sfs.CreateExact
import Buenos.Fs.Sfs.Inodes
import Buenos.Fs.Vfs.Volumes

/-!
# Creating a file and opening it

`vfs_create` followed by `vfs_open` and `vfs_read`, on any mounted SFS volume.

* `CreateOk.open` — `sfs_open` of the path that `sfs_create` has just created.
* `CreatesFile` — what a successful or failed `vfs_create` promises.

Principal result: `vfs_create_exact`: it keeps its promise exactly for the sizes that are not negative; a negative size
is answered with `VFS_OK` and nothing is created.
-/

namespace Buenos.Fs

open Bytes BlockProgram Ownership

/-! ## The new file is found -/

section Resolve

variable {disk : Gbd} {blocks blocks' : ℕ → Block} {l : List UInt8} {p i : ℕ}

/-- **Resolution finds the last element** when the parent has an entry of that name. -/
theorem resolveLoop_entryNamed (hd : Readable disk) (hlast : entryNamed (disk.blocks p) l = some i) :
    ∀ (init : List (List UInt8)) (block : ℕ) (parent : ℤ), FolderElems (init ++ [l]) → ReachDir disk.blocks block →
      directoryAt disk.blocks block init = some p →
      (resolveLoop disk (init ++ [l]) block parent).block = sint (direntInode (disk.blocks p) i)
  | [], block, parent, _, hr, hat => by
    obtain rfl := Option.some.inj hat
    rw [List.nil_append, resolveLoop, readVblock_works hd.works (hd.dir_lt _ hr)]
    simp only [findDirent_entryNamed, hlast, resolveLoop]
  | e :: init, block, parent, hfe, hr, hat => by
    rw [List.cons_append, resolveLoop, readVblock_works hd.works (hd.dir_lt _ hr)]
    simp only [findDirent_entryNamed]
    have hfold : sfsIsFolder e = true := hfe [] e (init ++ [l]) rfl (by simp)
    rw [directoryAt] at hat
    cases hn : entryNamed (disk.blocks block) e with
    | none =>
      rw [hn] at hat
      cases hat
    | some j =>
      rw [hn] at hat
      obtain ⟨hj, h0, hname⟩ := entryNamed_some hn
      have hk : direntKind (disk.blocks block) j = .dir := by
        rw [direntKind, hname, hfold]
        rfl
      exact resolveLoop_entryNamed hd hlast init _ _ (FolderElems.tail hfe) (.sub hr hj h0 hk) hat

/-- The entries by name stay, so paths lead to the same directory. -/
theorem directoryAt_kept (hkept : ∀ q e i, ReachDir blocks q → entryNamed (blocks q) e = some i →
      entryNamed (blocks' q) e = some i ∧ direntInode (blocks' q) i = direntInode (blocks q) i) :
    ∀ (init : List (List UInt8)) (block : ℕ), FolderElems (init ++ [l]) → ReachDir blocks block →
      directoryAt blocks block init = some p → directoryAt blocks' block init = some p
  | [], _, _, _, hat => hat
  | e :: init, block, hfe, hr, hat => by
    have hfold : sfsIsFolder e = true := hfe [] e (init ++ [l]) rfl (by simp)
    rw [directoryAt] at hat ⊢
    cases hn : entryNamed (blocks block) e with
    | none =>
      rw [hn] at hat
      cases hat
    | some j =>
      rw [hn] at hat
      obtain ⟨hj, h0, hname⟩ := entryNamed_some hn
      obtain ⟨hn', hinode⟩ := hkept block e j hr hn
      have hk : direntKind (blocks block) j = .dir := by
        rw [direntKind, hname, hfold]
        rfl
      rw [hn']
      simp only [hinode]
      exact directoryAt_kept hkept init _ (FolderElems.tail hfe) (.sub hr hj h0 hk) hat

end Resolve

section Opening

variable {s s' : Sfs} {path : List UInt8} {size : Int32} {init : List (List UInt8)} {l : List UInt8} {p idx f n : ℕ}
  {data : List ℕ}

/-- A creation keeps the entries that were there. -/
theorem CreateOk.entryNamed_kept (hq : Quiet s) (h : CreateOk s s' path p idx f data n) {q i : ℕ} {e : List UInt8}
    (hr : ReachDir s.disk.blocks q) (hn : entryNamed (s.disk.blocks q) e = some i) :
    entryNamed (s'.disk.blocks q) e = some i ∧ direntInode (s'.disk.blocks q) i = direntInode (s.disk.blocks q) i := by
  by_cases hqp : q = p
  · subst hqp
    have hc := h.created
    have hvol := hq.inv.vol
    have hsmall := hq.inv.small
    have hfn := (hc.fresh f (List.mem_cons_self ..)).1
    obtain ⟨hi, h0, hname⟩ := entryNamed_some hn
    have hslot : i ≠ idx := fun he => h0 (he ▸ hc.slot)
    have hother : e ≠ sfsGetActualFilename path := fun he => h.unused i hi h0 (hname.trans he)
    have hsame : ∀ j, decide (direntInode (s'.disk.blocks q) j ≠ 0 ∧ direntName (s'.disk.blocks q) j = e) =
        decide (direntInode (s.disk.blocks q) j ≠ 0 ∧ direntName (s.disk.blocks q) j = e) := fun j => by
      rw [hc.entry, setDirent_inode _ _ hc.idx_lt (by omega), setDirent_name _ hc.idx_lt h.length h.nonzero]
      by_cases hj : j = idx
      · rw [if_pos hj, if_pos hj, hj, hc.slot]
        simp [hother.symm]
      · rw [if_neg hj, if_neg hj]
    refine ⟨?_, by rw [hc.entry, setDirent_inode _ _ hc.idx_lt (by omega), if_neg hslot]⟩
    unfold entryNamed at hn ⊢
    simp only [hsame]
    exact hn
  · rw [h.created.same hq.inv.vol (VolInv.dir_live hr) hqp]
    exact ⟨hn, rfl⟩

/-- The entry of the new node is the one that its name finds. -/
theorem CreateOk.entryNamed_new (hq : Quiet s) (h : CreateOk s s' path p idx f data n) :
    entryNamed (s'.disk.blocks p) (sfsGetActualFilename path) = some idx ∧ direntInode (s'.disk.blocks p) idx = f := by
  have hc := h.created
  have hg := h.grows hq.inv
  have hname : direntName (s'.disk.blocks p) idx = sfsGetActualFilename path := by
    rw [hc.entry, setDirent_name _ hc.idx_lt h.length h.nonzero, if_pos rfl]
  refine ⟨?_, hg.inode⟩
  cases hn : entryNamed (s'.disk.blocks p) (sfsGetActualFilename path) with
  | none =>
    have hnone := List.find?_eq_none.1 hn idx (List.mem_range.2 hc.idx_lt)
    exact absurd (decide_eq_true ⟨by rw [hg.inode]; exact hg.live, hname⟩) hnone
  | some j =>
    obtain ⟨hj, h0, hjname⟩ := entryNamed_some hn
    by_cases hji : j = idx
    · rw [hji]
    · have hsmall := hq.inv.small
      have hfn := (hc.fresh f (List.mem_cons_self ..)).1
      rw [hc.entry, setDirent_inode _ _ hc.idx_lt (by omega), if_neg hji] at h0
      rw [hc.entry, setDirent_name _ hc.idx_lt h.length h.nonzero, if_neg hji] at hjname
      exact absurd hjname (h.unused j hj h0)

/-- The path of a new node leads to it. -/
theorem CreateOk.resolve (hq : Quiet s) (hq' : Quiet s') (hc : Creatable s path size init l p)
    (h : CreateOk s s' path p idx f data n) : (sfsResolveFileExt s' path).block = f := by
  have hfe := pathElems_folders path.tail
  rw [hc.elems] at hfe
  obtain ⟨hnew, hinode⟩ := CreateOk.entryNamed_new hq h
  rw [actualFilename_eq hc.valid hc.elems] at hnew
  have hat := directoryAt_kept (fun q e i hr hn => CreateOk.entryNamed_kept hq h hr hn) init SFS_DIRECTORY_BLOCK hfe .root
    hc.parent
  have hfn := (h.created.fresh f (List.mem_cons_self ..)).1
  have hsmall := hq.inv.small
  rw [sfsResolveFileExt, if_pos hc.valid, hc.elems,
    resolveLoop_entryNamed hq'.inv.readable hnew init SFS_DIRECTORY_BLOCK (-1) hfe .root hat, hinode]
  exact sint_of_lt (by omega)

/-- The entry of a regular file that is opened. -/
theorem Quiet.openRegular (hq : Quiet s) (hf : InTree s.disk.blocks f .file) {e : Slot} {q : ℤ}
    (he : (s.openFiles e).fileid = f ∨ ((s.openFiles e).fileid = -1 ∧ ∀ j, (s.openFiles j).fileid ≠ f)) :
    OpenRegular (s.setEntry e (openedEntry (s.openFiles e) f q false)) e f := by
  have hlive : Live s.disk.blocks s.openFiles noPins (.node f .file) := Or.inl hf
  have hvol := hq.inv.vol
  have hsmall := hq.inv.small
  have htwo := hvol.two_le hlive
  have hlt := hvol.lt hlive
  have hrest := (hq.idle e).opens hvol.free f q false
  have hid : (openedEntry (s.openFiles e) f q false).fileid = f := opened_fileid false he
  have hself : (s.setEntry e (openedEntry (s.openFiles e) f q false)).openFiles e =
      openedEntry (s.openFiles e) f q false := Function.update_self ..
  refine ⟨by rw [hself, hid], fun e' hid' => ?_, ?_, ?_, by rw [hself, hrest.readernum], by rw [hself, hrest.writerTid], ?_⟩
  · -- no other entry is one of the file
    by_contra hne
    rw [setEntry_openFiles, Function.update_of_ne hne] at hid'
    rcases he with he | ⟨-, hno⟩
    · exact hne (hvol.distinct (hid'.trans he.symm) (by omega))
    · exact hno e' hid'
  · rw [hself]
    unfold openedEntry
    rcases he with he | ⟨he, -⟩
    · have hkind := hvol.kind_eq (Or.inr (Or.inl ⟨e, he, rfl⟩)) hlive
      rw [if_neg (by omega)]
      show (s.openFiles e).isFolder = false
      cases hfolder : (s.openFiles e).isFolder with
      | false => rfl
      | true =>
        rw [hfolder] at hkind
        cases hkind
    · rw [if_pos he]
  · rw [hself]
    exact (hrest.opened (by rw [hid]; exact Int.natCast_nonneg f)).ne'
  · unfold badFileid
    rw [setEntry_totalvblocks, sint_of_lt (by omega)]
    have hlow : ¬ (f : ℤ) < SFS_DIRECTORY_BLOCK := by
      unfold SFS_DIRECTORY_BLOCK
      omega
    have hhigh : ¬ (f : ℤ) > s.totalvblocks := by omega
    rw [decide_eq_false hlow, decide_eq_false hhigh]
    rfl

/-- **`sfs_open` of a regular file**, with a free entry in the table. -/
theorem Quiet.open_regular (hq : Quiet s) (hk : sfsIsFolder path = false) (hr : (sfsResolveFileExt s path).block = f)
    (hfree : ∃ e, (s.openFiles e).fileid = -1) :
    ∃ e s', sfsOpen s path = ((f : ℤ), s') ∧ OpenRegular s' e f ∧ s'.disk = s.disk := by
  have hne : (sfsResolveFileExt s path).block ≠ VFS_ERROR := by
    rw [hr]
    unfold VFS_ERROR
    omega
  obtain ⟨g, h1, h2, -, -⟩ := hq.inv.resolved hne
  obtain rfl := Int.ofNat_inj.1 (hr.symm.trans h1)
  rw [hk] at h2
  unfold sfsOpen
  rw [hr] at hne
  simp only [hr, hk, if_neg hne]
  rcases sfsEnterExt_open s (sfsResolveFileExt s path).parentInode false (Int.natCast_nonneg f) with he | ⟨e, he, h4⟩
  · obtain ⟨e, hfree⟩ := hfree
    unfold sfsEnterExt at he
    rw [if_neg (by omega)] at he
    cases hf : findEntry s.openFiles f (List.finRange 32) none with
    | none => exact absurd hfree (findEntry_full hf e (List.mem_finRange e))
    | some i =>
      rw [hf] at he
      simp at he
  · have hopen := hq.openRegular h2 (q := (sfsResolveFileExt s path).parentInode) h4
    have hdeleted : (s.openFiles e).isDeleted = false := by
      rcases h4 with h4 | ⟨h4, -⟩
      · by_contra hd
        exact hq.inv.vol.deleted (by simpa using hd) h4 h2
      · rw [hq.inv.vol.free (e := e) (by omega)]
        rfl
    rw [he]
    simp only [setEntry_openFiles, Function.update_self, openedEntry_isDeleted, hdeleted, Bool.false_eq_true, if_false]
    rw [sfsExit_open hopen.opened]
    exact ⟨e, _, rfl, hopen, rfl⟩

/-- The shape of a new file. -/
theorem CreateOk.shape (hq' : Quiet s') (h : CreateOk s s' path p idx f data n) (hk : sfsIsFolder path = false) :
    FileShape s'.disk f := by
  obtain ⟨h1, h2, h3⟩ := h.created.file hk
  have hnum := h.num
  have hsize := h.size_le
  have hdisk := hq'.inv.onDisk
  have htotal : s'.totalvblocks = s.totalvblocks := by
    rw [h.state]
  have hlt : ∀ b ∈ f :: data, b < s'.disk.totalBlocks := fun b hb => by
    have hb := (h.created.fresh b hb).1
    omega
  have hblock : ∀ j, 512 * j < n → ∃ hj : j < data.length, inodeBlock (s'.disk.blocks f) j = data[j] := fun j hj => by
    have hj : j < data.length := by omega
    exact ⟨hj, by rw [h3 _ (by omega), List.getD_eq_getElem data 0 hj]⟩
  obtain ⟨hnotin, hnodup⟩ := List.nodup_cons.1 h.created.nodup
  refine ⟨⟨hlt f (List.mem_cons_self ..), ?_, ?_, ?_, ?_⟩, hq'.inv.works⟩
  all_goals rw [h2]
  · unfold SFS_MAX_FILESIZE
    omega
  · intro j hj
    obtain ⟨hj, hb⟩ := hblock _ hj
    rw [hb]
    exact hlt _ (List.mem_cons_of_mem _ (List.getElem_mem hj))
  · intro j hj hf
    obtain ⟨hj, hb⟩ := hblock _ hj
    exact hnotin (hf ▸ hb ▸ List.getElem_mem hj)
  · intro j j' hj hj' heq
    obtain ⟨hj, hb⟩ := hblock _ hj
    obtain ⟨hj', hb'⟩ := hblock _ hj'
    exact (List.Nodup.getElem_inj_iff hnodup).1 (hb.symm.trans (heq.trans hb'))

/-- **A file that `sfs_create` has made can be opened**, and is full of zeros. -/
theorem sfsCreate_opens {disk : Gbd} (hwf : WellFormed disk) (hworks : disk.Works) {calls : List Call}
    (hrun : run (sfsInit disk) calls = some s) (hk : sfsIsFolder path = false) (hok : (sfsCreate s path size).1 = VFS_OK) :
    ∃ s', sfsCreate s path size = (VFS_OK, s') ∧ s'.openFiles = s.openFiles ∧ 0 ≤ size.toInt ∧
      ((∃ e, (s'.openFiles e).fileid = -1) → ∃ (f : ℕ) (e : Slot) (s'' : Sfs),
        sfsOpen s' path = ((f : ℤ), s'') ∧ OpenRegular s'' e f ∧
        FileShape s''.disk f ∧ fileBytes s''.disk.blocks f = List.replicate size.toInt.toNat 0) := by
  obtain ⟨s1, hr1, hq⟩ := run_inv calls (hwf.quiet hworks)
  obtain rfl := Option.some.inj (hr1.symm.trans hrun)
  obtain ⟨init, l, p, hc⟩ := (sfs_create_exact disk hwf hworks calls s1 hrun path size).1.1 hok
  obtain ⟨hv, h0, hnum, hres⟩ := hc.mayCreate hq.inv
  have hsize : createSize path size = size.toInt.toNat := by
    rw [createSize, hk]
    rfl
  rcases sfsCreate_missing hq.inv hv h0 hnum hres with ⟨s', idx, f, data, hcreate, hcok, -⟩ | ⟨herror, -⟩
  · have hq' := sfsCreate_quiet hq path size
    rw [hcreate] at hq'
    refine ⟨s', hcreate, CreateOk.openFiles hcok, (hc.range hk).1, fun hfree => ?_⟩
    obtain ⟨e, s'', hopen, hregular, hdisk⟩ := hq'.open_regular hk (CreateOk.resolve hq hq' hc hcok) hfree
    refine ⟨f, e, s'', hopen, hregular, ?_, ?_⟩
    · rw [hdisk]
      exact CreateOk.shape hq' hcok hk
    · rw [hdisk, ← hsize]
      exact CreateOk.fileBytes hcok hk
  · rw [herror] at hok
    exact absurd hok (show VFS_ERROR ≠ VFS_OK by decide)

end Opening

end Buenos.Fs

namespace Buenos.Vfs

open Buenos.Fs (Sfs sfsCreate sfsOpen OpenRegular FileShape inodeFilesize fileByte fileBytes sfsIsFolder SLASH VFS_OK
  VFS_ERROR)

/-! ## Pathnames -/

section Pathnames

variable {pathname volume filename : Str} {i : ℕ}

theorem filename_eq (h : vfsParsePathname pathname = some (volume, filename)) :
    FileSystems.filename pathname = filename := by
  rw [FileSystems.filename, h]
  rfl

theorem parseVolume_suffix {r : Str × Str} {rest : Str} (h : parseVolume i rest = some r) :
    ∃ volume, rest = volume ++ r.2 := by
  induction rest generalizing i r with
  | nil => cases h
  | cons c rest ih =>
    rw [parseVolume] at h
    split at h
    · cases h
    · split at h
      · cases h
        exact ⟨[c], rfl⟩
      · obtain ⟨r', hr', rfl⟩ := Option.map_eq_some_iff.1 h
        obtain ⟨volume, hrest⟩ := ih hr'
        exact ⟨c :: volume, congrArg (c :: ·) hrest⟩

/-- The file name ends as the pathname does. -/
theorem isFolder_filename (h : vfsParsePathname pathname = some (volume, filename)) :
    sfsIsFolder filename = sfsIsFolder pathname := by
  have hsuffix : ∃ pre, pathname = pre ++ filename ∧ filename ≠ [] := by
    unfold vfsParsePathname at h
    simp only at h
    split at h
    · cases h
    · rename_i hsplit
      split at h
      · cases h
      · rename_i hname
        cases h
        refine Exists.imp (fun pre hpre => ⟨hpre, (not_or.1 hname).1⟩) ?_
        split at hsplit
        · obtain ⟨pre, hpre⟩ := parseVolume_suffix hsplit
          exact ⟨91 :: pre, congrArg (91 :: ·) hpre⟩
        · cases hsplit
          exact ⟨[], rfl⟩
  obtain ⟨pre, rfl, hne⟩ := hsuffix
  unfold sfsIsFolder
  rw [List.getLast?_append_of_ne_nil _ hne]

end Pathnames

/-! ## The calls -/

section Calls

variable {σ : Type} {driver : Tables → ℕ → FsOp → σ → Option (ℤ × σ)} {t : Tables} {m : σ} {s s' : FileSystems}
  {pathname volume filename : Str} {size : Int32} {row : Row} {d f : ℕ} {r : ℤ} {k : Code}

/-- An unusable VFS starts no operation. -/
theorem drive_startOp_unusable (h : Resting t) (hu : t.usable = false) :
    (Code.startOp fun ok => if !ok then .ret r else k).drive driver t m = some (r, t, m) := by
  have hstart : vfsStartOp t = t := if_neg (by rw [hu]; exact Bool.false_ne_true)
  have hop : ¬ t.sem .op = 0 := by
    rw [h.op]
    exact Nat.one_ne_zero
  rw [Code.drive, if_neg hop, hstart, hu]
  rfl

/-- A semaphore is taken and given back. -/
theorem setSem_back {x : Sem} (h : t.sem x = 1) : (t.setSem x 0).setSem x 1 = t := by
  have hsem : Function.update (Function.update t.sem x 0) x 1 = t.sem := by
    rw [Function.update_idem, ← h, Function.update_eq_self]
  show ({ t with sem := Function.update (Function.update t.sem x 0) x 1 } : Tables) = t
  rw [hsem]

/-- **A driver function under the lock of the mount table.** -/
theorem drive_callLocked (h : Idle t) {op : FsOp} :
    (callLocked volume op).drive driver t.started m =
      match vfsGetFilesystem t volume with
      | none => some (VFS_NO_SUCH_FS, t, m)
      | some .reserved => none
      | some (.driver d) => (driver (t.started.setSem .table 0) d op m).map fun r => (r.1, t, r.2) := by
  have hback : (t.started.setSem .table 0).setSem .table 1 = t.started := setSem_back h.table
  have hzero : (t.started.setSem .table 0).sem .table = 0 := rfl
  have hfs : vfsGetFilesystem (t.started.setSem .table 0) volume = vfsGetFilesystem t volume := rfl
  unfold callLocked
  rw [drive_semP (show t.started.sem .table = 1 from h.table), drive_look, hfs]
  cases vfsGetFilesystem t volume with
  | none =>
    simp only
    rw [drive_semV hzero, hback, drive_endOp h]
  | some fs =>
    cases fs with
    | reserved => rfl
    | driver d =>
      simp only
      rw [drive_callFs]
      cases driver (t.started.setSem .table 0) d op m with
      | none => rfl
      | some q =>
        simp only [Option.map_some]
        rw [drive_semV hzero, hback, drive_endOp h]

theorem drive_access {g : Tables → Tables} {k : Tables → Code} :
    (Code.access g k).drive driver t m = (k t).drive driver (g t) m := rfl

/-- **What `vfs_create` does**: nothing, or the creation by the file system of the volume. -/
theorem create_cases (hrest : Resting s.tables) (h : s.create pathname size = some (r, s')) :
    (size.toInt < 0 ∧ r = VFS_OK ∧ s' = s) ∨ (r ≠ VFS_OK ∧ s' = s) ∨
    ∃ volume filename d, Idle s.tables ∧ vfsParsePathname pathname = some (volume, filename) ∧
      vfsGetFilesystem s.tables volume = some (.driver d) ∧ r = (sfsCreate (s.volumes d) filename size).1 ∧
      s' = s.setVolume d (sfsCreate (s.volumes d) filename size).2 := by
  obtain ⟨⟨r', t', v'⟩, hrun, heq⟩ := Option.map_eq_some_iff.1 h
  obtain ⟨rfl, rfl⟩ := Prod.mk.inj heq
  unfold vfsCreate at hrun
  by_cases hneg : size.toInt < 0
  · rw [if_pos hneg] at hrun
    cases hrun
    exact Or.inl ⟨hneg, rfl, rfl⟩
  rw [if_neg hneg] at hrun
  right
  cases husable : s.tables.usable with
  | false =>
    rw [drive_startOp_unusable hrest husable] at hrun
    cases hrun
    exact Or.inl ⟨show VFS_UNUSABLE ≠ VFS_OK by decide, rfl⟩
  | true =>
    have hidle : Idle s.tables := ⟨hrest, husable⟩
    rw [drive_startOp hidle] at hrun
    cases hparse : vfsParsePathname pathname with
    | none =>
      rw [hparse] at hrun
      simp only at hrun
      rw [drive_endOp hidle] at hrun
      cases hrun
      exact Or.inl ⟨show VFS_ERROR ≠ VFS_OK by decide, rfl⟩
    | some q =>
      obtain ⟨volume, filename⟩ := q
      rw [hparse] at hrun
      simp only at hrun
      rw [drive_callLocked hidle] at hrun
      cases hfs : vfsGetFilesystem s.tables volume with
      | none =>
        rw [hfs] at hrun
        cases hrun
        exact Or.inl ⟨show VFS_NO_SUCH_FS ≠ VFS_OK by decide, rfl⟩
      | some fs =>
        rw [hfs] at hrun
        cases fs with
        | reserved => cases hrun
        | driver d =>
          simp only [filename_eq hparse, Option.map_some, Option.some.injEq] at hrun
          cases hrun
          exact Or.inr ⟨volume, filename, d, hidle, rfl, hfs, rfl, rfl⟩

/-- The search of `vfs_open` reads the two tables only. -/
theorem openRow_congr {t t' : Tables} (hfiles : t.files = t'.files) (hmounts : t.filesystems = t'.filesystems) :
    openRow t volume = openRow t' volume := by
  unfold openRow freeRow vfsGetFilesystem findMount
  rw [hfiles, hmounts]

/-- **`vfs_open`** of a file that the file system finds. -/
theorem openFile_eq (hidle : Idle s.tables) (hparse : vfsParsePathname pathname = some (volume, filename))
    (hrow : freeRow s.tables = some row) (hfs : vfsGetFilesystem s.tables volume = some (.driver d)) {v : Sfs}
    (hopen : sfsOpen (s.volumes d) filename = ((f : ℤ), v)) :
    s.openFile pathname =
      some ((row.val : ℤ), ⟨s.tables.setFile row ⟨some (.driver d), f, 0⟩, Function.update s.volumes d v⟩) := by
  have hsame : openRow ((s.tables.started.setSem .table 0).setSem .openfile 0) volume = openRow s.tables volume :=
    openRow_congr rfl rfl
  have hfound : openRow ((s.tables.started.setSem .table 0).setSem .openfile 0) volume = .ok (row, .driver d) := by
    rw [hsame]
    unfold openRow
    simp only [hrow, hfs]
  have hnonneg : ¬ (f : ℤ) < 0 := not_lt.2 (Int.natCast_nonneg f)
  have hidle' : Idle (s.tables.setFile row ⟨some (.driver d), f, 0⟩) :=
    ⟨⟨hidle.table, hidle.openfile, hidle.op, hidle.ops⟩, hidle.usable⟩
  have htable : s.tables.started.sem .table = 1 := hidle.table
  have hopenfile : (s.tables.started.setSem .table 0).sem .openfile = 1 := hidle.openfile
  have hback : ((((s.tables.started.setSem .table 0).setSem .openfile 0).setFs row (some (.driver d))).setSem .openfile
      1).setSem .table 1 = (s.tables.started.setFs row (some (.driver d))) := by
    have hmoved : ((s.tables.started.setSem .table 0).setSem .openfile 0).setFs row (some (.driver d)) =
        ((s.tables.started.setFs row (some (.driver d))).setSem .table 0).setSem .openfile 0 := rfl
    have h1 : ((s.tables.started.setFs row (some (.driver d))).setSem .table 0).sem .openfile = 1 := hidle.openfile
    have h2 : (s.tables.started.setFs row (some (.driver d))).sem .table = 1 := hidle.table
    rw [hmoved, setSem_back h1, setSem_back h2]
  have hset : (s.tables.started.setFs row (some (.driver d))).setFile row
      { (s.tables.started.setFs row (some (.driver d))).files row with fileid := f, seekPosition := 0 } =
      (s.tables.setFile row ⟨some (.driver d), f, 0⟩).started := by
    have hrow : (s.tables.started.setFs row (some (.driver d))).files row =
        { s.tables.files row with filesystem := some (.driver d) } := Function.update_self ..
    rw [hrow]
    unfold Tables.setFs Tables.setFile Tables.started
    rw [Function.update_idem]
  unfold FileSystems.openFile vfsOpen
  simp only [drive_startOp hidle, hparse, drive_semP htable, drive_semP hopenfile, drive_access, hfound]
  rw [drive_semV (by rfl), drive_semV (by rfl), Tables.reserved, hback]
  simp only [drive_callFs, filename_eq hparse, hopen, if_neg hnonneg, drive_store, hset]
  rw [drive_endOp hidle']
  rfl

end Calls

/-! ## Creating, opening and reading -/

/-- Read from a file again and again: how much is returned in all, and the bytes. -/
def FileSystems.readAll (s : FileSystems) (file : ℤ) : List ℕ → Option ((ℤ × List UInt8) × FileSystems)
  | [] => some ((0, []), s)
  | bufsize :: rest =>
    (s.read file bufsize).bind fun r =>
      (r.2.readAll file rest).map fun q => ((r.1.1 + q.1.1, r.1.2 ++ q.1.2), q.2)

/-- A free row of open files, and a free entry in the table of the volume that the pathname names. -/
def FreeEntries (s : FileSystems) (pathname : Str) : Prop :=
  (freeRow s.tables).isSome = true ∧ ∀ volume filename d, vfsParsePathname pathname = some (volume, filename) →
    vfsGetFilesystem s.tables volume = some (.driver d) → ∃ e, ((s.volumes d).openFiles e).fileid = -1

/-- The file can be opened, and however it is read there are exactly `size` bytes, all zero. -/
def OpensZeros (s : FileSystems) (pathname : Str) (size : ℤ) : Prop :=
  ∃ file s1 n, s.openFile pathname = some (file, s1) ∧ 0 ≤ file ∧ (n : ℕ) = size ∧
    ∀ bufsizes : List ℕ, ∃ s2, s1.readAll file bufsizes =
      some ((((min bufsizes.sum n : ℕ) : ℤ), List.replicate (min bufsizes.sum n) 0), s2)

/-- **What `vfs_create` promises**: with `VFS_OK` the file is there, else nothing has changed. -/
structure CreatesFile (s : FileSystems) (pathname : Str) (size : Int32) : Prop where
  created : ∀ s', s.create pathname size = some (VFS_OK, s') → FreeEntries s' pathname →
    OpensZeros s' pathname size.toInt
  failed : ∀ r s', s.create pathname size = some (r, s') → r ≠ VFS_OK → s' = s

section Creates

variable {s s' : FileSystems} {pathname volume filename : Str} {size : Int32} {file : ℤ} {row : Row} {d f o n : ℕ}
  {e : Fs.Slot}

/-- A file of zeros is read. -/
theorem OnFile.readAll_zeros (h : OnFile s file row d e f o)
    (hzero : fileBytes (s.volumes d).disk.blocks f = List.replicate n 0)
    (bufsizes : List ℕ) :
    ∃ s2, s.readAll file bufsizes = some ((((min bufsizes.sum (n - o) : ℕ) : ℤ),
      List.replicate (min bufsizes.sum (n - o)) 0), s2) := by
  have hsize : inodeFilesize ((s.volumes d).disk.blocks f) = n := by
    rw [← Fs.fileBytes_length, hzero, List.length_replicate]
  induction bufsizes generalizing s o with
  | nil => exact ⟨s, by simp [FileSystems.readAll]⟩
  | cons bufsize rest ih =>
    have hinside := h.inside
    have hread := h.read_eq bufsize
    rw [hsize] at hinside hread
    generalize hk : min bufsize (n - o) = k at hread
    have hbytes : (List.range k).map (fun x => fileByte (s.volumes d).disk.blocks f (o + x)) = List.replicate k 0 := by
      have hslice := Fs.fileSlice_eq (s.volumes d).disk.blocks f o k (by omega)
      rw [hzero, List.drop_replicate, List.take_replicate, Nat.min_eq_left (by omega)] at hslice
      exact hslice
    simp only [hbytes] at hread
    obtain ⟨s2, hrest⟩ := @ih { s with tables := s.tables.seekTo row ((o + k : ℕ) : ℤ) } (o + k)
      ⟨h.seekTo (by rw [hsize]; omega), h.works⟩ hzero hsize
    refine ⟨s2, ?_⟩
    rw [FileSystems.readAll, hread, Option.bind_some, hrest, Option.map_some]
    have hall : min (bufsize :: rest).sum (n - o) = k + min rest.sum (n - (o + k)) := by
      rw [List.sum_cons]
      omega
    rw [hall, List.replicate_add, Nat.cast_add]
    rfl

/-- The file that is opened. -/
theorem onFile_opened (hidle : Idle s.tables) {v : Sfs} (hopen : OpenRegular v e f) (hshape : FileShape v.disk f) :
    OnFile ⟨s.tables.setFile row ⟨some (.driver d), f, 0⟩, Function.update s.volumes d v⟩ row.val row d e f 0 := by
  have hrow : (s.tables.setFile row ⟨some (.driver d), f, 0⟩).files row = ⟨some (.driver d), f, 0⟩ :=
    Function.update_self ..
  have hvolume : Function.update s.volumes d v d = v := Function.update_self ..
  refine ⟨⟨⟨⟨hidle.table, hidle.openfile, hidle.op, hidle.ops⟩, hidle.usable⟩, ?_, ?_, ?_, ?_, ?_, ?_, Nat.zero_le _⟩, ?_⟩
  · have hlt : (0 : ℤ) ≤ row.val ∧ (row.val : ℤ) < CONFIG_MAX_OPEN_FILES :=
      ⟨Int.natCast_nonneg _, Int.ofNat_lt.2 row.isLt⟩
    rw [vfsVerifyOpen, dif_pos hlt]
    have hsame : (⟨(row.val : ℤ).toNat, by omega⟩ : Row) = row := Fin.ext (Int.toNat_natCast _)
    simp only [hsame, hrow, reduceCtorEq, if_false]
  · exact congrArg OpenFileEntry.filesystem hrow
  · exact congrArg OpenFileEntry.fileid hrow
  · exact congrArg OpenFileEntry.seekPosition hrow
  · simp only [hvolume]
    exact hopen
  · simp only [hvolume]
    exact hshape.toFileLayout
  · simp only [hvolume]
    exact hshape.works

/-- **Successful creation means the file exists**: for every pathname that does not end in a slash `vfs_create` keeps
its promise, unless the size is negative. -/
theorem vfs_create_exact (hrest : Resting s.tables)
    (hvolumes : ∀ d, ∃ disk calls, Fs.WellFormed disk ∧ disk.Works ∧ Fs.run (Fs.sfsInit disk) calls = some (s.volumes d))
    (hname : sfsIsFolder pathname = false) (size : Int32) :
    CreatesFile s pathname size ↔ (FreeEntries s pathname → 0 ≤ size.toInt) := by
  constructor
  · intro h hfree
    by_contra hneg
    have hcreate : s.create pathname size = some (VFS_OK, s) := by
      unfold FileSystems.create vfsCreate
      simp only [if_pos (not_le.1 hneg)]
      rfl
    obtain ⟨-, -, n, -, -, hn, -⟩ := h.created s hcreate hfree
    omega
  · intro hsize
    refine ⟨fun s' hcreate hfree => ?_, fun r s' hcreate hfailed => ?_⟩
    · rcases create_cases hrest hcreate with ⟨hneg, -, rfl⟩ | ⟨hno, -⟩ | ⟨volume, filename, d, hidle, hparse, hfs, hok, rfl⟩
      · exact absurd (hsize hfree) (not_le.2 hneg)
      · exact absurd rfl hno
      · obtain ⟨disk, calls, hwf, hworks, hrun⟩ := hvolumes d
        have hk := (isFolder_filename hparse).trans hname
        obtain ⟨v', hv', hfiles, hnonneg, hopens⟩ := Fs.sfsCreate_opens hwf hworks hrun hk hok.symm
        rw [hv'] at hfree ⊢
        have hvolume : (s.setVolume d v').volumes d = v' := Function.update_self ..
        obtain ⟨row, hrow⟩ := Option.isSome_iff_exists.1 hfree.1
        obtain ⟨e, he⟩ := hfree.2 volume filename d hparse hfs
        rw [hvolume] at he
        obtain ⟨f, e', v'', hopen, hregular, hshape, hbytes⟩ := hopens ⟨e, he⟩
        have hopened := @openFile_eq (s.setVolume d v') pathname volume filename row d f hidle hparse hrow hfs v''
          (by rw [hvolume]; exact hopen)
        have hon := @onFile_opened (s.setVolume d v') row d f e' hidle v'' hregular hshape
        refine ⟨_, _, size.toInt.toNat, hopened, Int.natCast_nonneg _, Int.toNat_of_nonneg hnonneg, fun bufsizes => ?_⟩
        refine hon.readAll_zeros (n := size.toInt.toNat) ?_ bufsizes
        simp only [Function.update_self]
        exact hbytes
    · rcases create_cases hrest hcreate with ⟨-, hok, -⟩ | ⟨-, rfl⟩ | ⟨volume, filename, d, hidle, hparse, hfs, hr, rfl⟩
      · exact absurd hok hfailed
      · rfl
      · obtain ⟨disk, calls, hwf, hworks, hrun⟩ := hvolumes d
        obtain ⟨-, -, hfail⟩ := Fs.sfs_create_exact disk hwf hworks calls (s.volumes d) hrun filename size
        rw [hfail (hr ▸ hfailed)]
        exact congrArg (FileSystems.mk s.tables) (Function.update_eq_self ..)

end Creates

/-- An empty volume, mounted as `d`. -/
def mountedEmpty : FileSystems where
  tables := vfsInit.setMount ⟨0, by decide⟩ ⟨some (.driver 0), [100]⟩
  volumes := fun _ => Fs.sfsInit Fs.emptyVolume

theorem mountedEmpty_resting : Resting mountedEmpty.tables := ⟨rfl, rfl, rfl, le_refl _⟩

theorem mountedEmpty_volumes (d : ℕ) : ∃ disk calls, Fs.WellFormed disk ∧ disk.Works ∧
    Fs.run (Fs.sfsInit disk) calls = some (mountedEmpty.volumes d) :=
  ⟨Fs.emptyVolume, [], Fs.emptyVolume_wellFormed, Fs.emptyVolume_works, rfl⟩

theorem mountedEmpty_free (pathname : Str) : FreeEntries mountedEmpty pathname :=
  ⟨by decide +kernel, fun _ _ _ _ _ => ⟨0, rfl⟩⟩

/-- `[d]/f` with 600 bytes is created, and is there. -/
theorem vfs_create_exact_file : CreatesFile mountedEmpty [91, 100, 93, 47, 102] 600 ∧
    (mountedEmpty.create [91, 100, 93, 47, 102] 600).map (·.1) = some VFS_OK :=
  ⟨(vfs_create_exact mountedEmpty_resting mountedEmpty_volumes (by decide) 600).2 fun _ => by decide, by decide +kernel⟩

/-- With a negative size it answers `VFS_OK`, and the file cannot be opened. -/
theorem vfs_create_negative : FreeEntries mountedEmpty [91, 100, 93, 47, 102] ∧
    mountedEmpty.create [91, 100, 93, 47, 102] (-1) = some (VFS_OK, mountedEmpty) ∧
    (mountedEmpty.openFile [91, 100, 93, 47, 102]).map (·.1) = some Fs.VFS_NOT_FOUND ∧
    ¬ CreatesFile mountedEmpty [91, 100, 93, 47, 102] (-1) := by
  have hopen : (mountedEmpty.openFile [91, 100, 93, 47, 102]).map (·.1) = some Fs.VFS_NOT_FOUND := by decide +kernel
  refine ⟨mountedEmpty_free _, rfl, hopen, fun h => ?_⟩
  obtain ⟨file, s1, n, hfile, hnonneg, -⟩ := h.created mountedEmpty rfl (mountedEmpty_free _)
  rw [hfile] at hopen
  obtain rfl : file = Fs.VFS_NOT_FOUND := Option.some.inj hopen
  exact absurd hnonneg (by decide)

end Buenos.Vfs
