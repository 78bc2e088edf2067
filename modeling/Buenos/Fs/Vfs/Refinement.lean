import Buenos.Fs.Sfs.Refinement
import Buenos.Fs.Vfs.Creation
import Buenos.Fs.Vfs.FileStore

/-!
# The VFS on SFS volumes implements the store

The functions of `fs/vfs.c` with those of `fs/sfs.c` behind the drivers, one after another.

* `FileSystems.close`, `seek`, `remove`, `getfree` — the functions that are not in `Buenos.Fs.Vfs.Volumes`.
* `FileSystems.answer` — the answer to a request.
* `Stands st s` — the tables and the volumes stand for the store.

Principal result: `vfs_refines`, the answers to every sequence of requests are those of the store, and every file is
open as often as there are handles of it.
-/

namespace Buenos.Vfs

open Bytes
open Buenos.Fs (Sfs Reply sfsCreate sfsOpen sfsClose sfsRemove sfsGetfree sfsRead sfsWrite InOrder VFS_OK VFS_ERROR)

namespace FileSystems

variable (s : FileSystems)

/-- `vfs_close`, with `sfs_close`. -/
def close (file : ℤ) : Option (ℤ × FileSystems) :=
  let driver := fun tables fs (_ : FsOp) (volumes : ℕ → Sfs) =>
    (vfsVerifyOpen tables file).map fun row =>
      let r := sfsClose (volumes fs) (tables.files row).fileid
      (r.1, Function.update volumes fs r.2)
  ((vfsClose file).drive driver s.tables s.volumes).map fun r => (r.1, ⟨r.2.1, r.2.2⟩)

/-- `vfs_seek`. -/
def seek (file position : ℤ) : Option (ℤ × FileSystems) :=
  let driver := fun (_ : Tables) (_ : ℕ) (_ : FsOp) (_ : ℕ → Sfs) => none
  ((vfsSeek file position).drive driver s.tables s.volumes).map fun r => (r.1, ⟨r.2.1, r.2.2⟩)

/-- `vfs_remove`, with `sfs_remove`. -/
def remove (pathname : Str) : Option (ℤ × FileSystems) :=
  let driver := fun (_ : Tables) fs (_ : FsOp) (volumes : ℕ → Sfs) =>
    let r := sfsRemove (volumes fs) (filename pathname)
    some (r.1, Function.update volumes fs r.2)
  ((vfsRemove pathname).drive driver s.tables s.volumes).map fun r => (r.1, ⟨r.2.1, r.2.2⟩)

/-- `vfs_getfree`, with `sfs_getfree`. -/
def getfree (volume : Str) : Option (ℤ × FileSystems) :=
  let driver := fun (_ : Tables) fs (_ : FsOp) (volumes : ℕ → Sfs) => some (sfsGetfree (volumes fs), volumes)
  ((vfsGetfree volume).drive driver s.tables s.volumes).map fun r => (r.1, ⟨r.2.1, r.2.2⟩)

/-- The answer to a request; `none` when it would wait for ever or the kernel stops. -/
def answer : Request → Option (Reply × FileSystems)
  | .openFile pathname => (s.openFile pathname).map fun r => (⟨r.1, []⟩, r.2)
  | .close file => (s.close file).map fun r => (⟨r.1, []⟩, r.2)
  | .seek file position => (s.seek file position).map fun r => (⟨r.1, []⟩, r.2)
  | .read file bufsize => (s.read file bufsize).map fun r => (⟨r.1.1, r.1.2⟩, r.2)
  | .write tid file buffer => (s.write tid file buffer buffer.length).map fun r => (⟨r.1, []⟩, r.2)
  | .create pathname size => (s.create pathname size).map fun r => (⟨r.1, []⟩, r.2)
  | .remove pathname => (s.remove pathname).map fun r => (⟨r.1, []⟩, r.2)
  | .getfree volume => (s.getfree volume).map fun r => (⟨r.1, []⟩, r.2)

end FileSystems

/-! ## What the functions do -/

section Drive

variable {σ : Type} {driver : Tables → ℕ → FsOp → σ → Option (ℤ × σ)} {t : Tables} {m : σ} {row : Row}

theorem Idle.started (h : Idle t) : Idle t.started := by
  refine ⟨⟨h.table, h.openfile, h.op, ?_⟩, h.usable⟩
  have hops := h.ops
  show 0 ≤ t.ops + 1
  omega

theorem Idle.setFile (h : Idle t) (row : Row) (e : OpenFileEntry) : Idle (t.setFile row e) :=
  ⟨⟨h.table, h.openfile, h.op, h.ops⟩, h.usable⟩

/-- **The end of `vfs_read` and `vfs_write`**, whatever the driver has returned. -/
theorem drive_advanced (h : Idle t) (value : ℤ) : (advance row value).drive driver t.started m =
    some (value, t.seekTo row (FileStore.moved (t.files row).seekPosition value), m) := by
  unfold advance FileStore.moved
  by_cases hpos : 0 < value
  · have hmoved : (((t.started.setSem .openfile 0).setFile row { (t.started.setSem .openfile 0).files row with
        seekPosition := ((t.started.setSem .openfile 0).files row).seekPosition + value }).setSem .openfile 1) =
        (t.seekTo row ((t.files row).seekPosition + value)).started :=
      setSem_back (t := (t.seekTo row ((t.files row).seekPosition + value)).started) h.openfile
    have hidle : Idle (t.seekTo row ((t.files row).seekPosition + value)) := h.setFile row _
    rw [if_pos hpos, if_pos hpos, drive_semP (show t.started.sem .openfile = 1 from h.openfile), drive_store,
      drive_semV (by rfl), hmoved, drive_endOp hidle]
  · have hsame : t.seekTo row (t.files row).seekPosition = t := by
      unfold Tables.seekTo Tables.setFile
      rw [Function.update_eq_self]
    rw [if_neg hpos, if_neg hpos, hsame, drive_endOp h]

end Drive

section Functions

variable {s : FileSystems} {file position : ℤ} {row : Row} {d : ℕ} {pathname volume name : Str}

/-- A handle that is no open file. -/
def FileSystems.leaked (s : FileSystems) : FileSystems := { s with tables := s.tables.started }

/-- **`vfs_read`** with a bad handle leaves the operation in progress. -/
theorem read_bad (h : Idle s.tables) (hv : vfsVerifyOpen s.tables file = none) (bufsize : ℕ) :
    s.read file bufsize = some ((VFS_ERROR, []), s.leaked) := by
  have hv' : vfsVerifyOpen s.tables.started file = none := hv
  unfold FileSystems.read vfsRead
  simp only [drive_startOp h, drive_verify, hv']
  rfl

/-- **`vfs_read`** reads at the position and moves it. -/
theorem read_good (h : Idle s.tables) (hv : vfsVerifyOpen s.tables file = some row)
    (hfs : (s.tables.files row).filesystem = some (.driver d)) {bufsize : ℕ} {r : ℤ × List UInt8} {v : Sfs}
    (hr : sfsRead (s.volumes d) (s.tables.files row).fileid bufsize (s.tables.files row).seekPosition = some (r, v)) :
    s.read file bufsize = some (r, ⟨s.tables.seekTo row (FileStore.moved (s.tables.files row).seekPosition r.1),
      Function.update s.volumes d v⟩) := by
  have hv' : vfsVerifyOpen s.tables.started file = some row := hv
  have hfiles : s.tables.started.files = s.tables.files := rfl
  have hsize : ¬ ((bufsize : ℤ) < 0 ∨ true = false) := by
    rintro (hneg | hfalse)
    · omega
    · cases hfalse
  unfold FileSystems.read vfsRead
  simp only [drive_startOp h, drive_verify, hv', drive_look, if_neg hsize, hfiles, hfs, drive_callFs, Option.bind_some,
    hr, Option.map_some, drive_advanced h]

/-- **`vfs_write`** with a bad handle leaves the operation in progress. -/
theorem write_bad (h : Idle s.tables) (hv : vfsVerifyOpen s.tables file = none) (tid : ℤ) (buffer : List UInt8)
    (datasize : ℤ) : s.write tid file buffer datasize = some (VFS_ERROR, s.leaked) := by
  have hv' : vfsVerifyOpen s.tables.started file = none := hv
  unfold FileSystems.write vfsWrite
  simp only [drive_startOp h, drive_verify, hv']
  rfl

/-- **`vfs_write`** writes at the position and moves it. -/
theorem write_good (h : Idle s.tables) (hv : vfsVerifyOpen s.tables file = some row)
    (hfs : (s.tables.files row).filesystem = some (.driver d)) {tid : ℤ} {buffer : List UInt8} {r : ℤ} {v : Sfs}
    (hr : sfsWrite (s.volumes d) tid (s.tables.files row).fileid buffer buffer.length
      (s.tables.files row).seekPosition = some (r, v)) :
    s.write tid file buffer buffer.length =
      some (r, ⟨s.tables.seekTo row (FileStore.moved (s.tables.files row).seekPosition r),
        Function.update s.volumes d v⟩) := by
  have hv' : vfsVerifyOpen s.tables.started file = some row := hv
  have hfiles : s.tables.started.files = s.tables.files := rfl
  have hsize : ¬ ((buffer.length : ℤ) < 0 ∨ true = false) := by
    rintro (hneg | hfalse)
    · omega
    · cases hfalse
  unfold FileSystems.write vfsWrite
  simp only [drive_startOp h, drive_verify, hv', drive_look, if_neg hsize, hfiles, hfs, drive_callFs, Option.bind_some,
    hr, Option.map_some, drive_advanced h]

/-- **`vfs_seek`** to a negative position leaves the operation in progress. -/
theorem seek_negative (h : Idle s.tables) (hneg : position < 0) (file : ℤ) :
    s.seek file position = some (VFS_ERROR, s.leaked) := by
  unfold FileSystems.seek vfsSeek
  simp only [drive_startOp h, if_pos hneg]
  rfl

/-- The table of open files is locked. -/
theorem drive_locked {σ : Type} {driver : Tables → ℕ → FsOp → σ → Option (ℤ × σ)} {m : σ} {t : Tables} (h : Idle t)
    (file : ℤ) (k : Option Row → Code) :
    (Code.semP .openfile <| Code.verify file k).drive driver t.started m =
      (k (vfsVerifyOpen t file)).drive driver (t.started.setSem .openfile 0) m := by
  rw [drive_semP (show t.started.sem .openfile = 1 from h.openfile), drive_verify]
  rfl

/-- The table of open files is unlocked again, and row `row` of it may have changed. -/
theorem unlock {t : Tables} (h : Idle t) (row : Row) (e : OpenFileEntry) :
    ((t.started.setSem .openfile 0).setFile row e).setSem .openfile 1 = (t.setFile row e).started :=
  setSem_back (t := (t.setFile row e).started) h.openfile

theorem unlock_same {t : Tables} (h : Idle t) : (t.started.setSem .openfile 0).setSem .openfile 1 = t.started :=
  setSem_back (t := t.started) h.openfile

/-- **`vfs_seek`** with a bad handle leaves the operation in progress. -/
theorem seek_bad (h : Idle s.tables) (hv : vfsVerifyOpen s.tables file = none) (position : ℤ) :
    s.seek file position = some (VFS_ERROR, s.leaked) := by
  by_cases hneg : position < 0
  · exact seek_negative h hneg file
  · unfold FileSystems.seek vfsSeek
    simp only [drive_startOp h, if_neg hneg, drive_locked h, hv]
    rw [drive_semV (by rfl), unlock_same h]
    rfl

/-- **`vfs_seek`** sets the position. -/
theorem seek_good (h : Idle s.tables) (hv : vfsVerifyOpen s.tables file = some row) (hnonneg : 0 ≤ position) :
    s.seek file position = some (VFS_OK, { s with tables := s.tables.seekTo row position }) := by
  have hneg : ¬ position < 0 := not_lt.2 hnonneg
  have hidle : Idle (s.tables.seekTo row position) := h.setFile row _
  unfold FileSystems.seek vfsSeek
  simp only [drive_startOp h, if_neg hneg, drive_locked h, hv, drive_store]
  rw [drive_semV (by rfl), unlock h]
  show ((Code.endOp VFS_OK).drive _ (s.tables.seekTo row position).started _).map _ = _
  rw [drive_endOp hidle]
  rfl

/-- **`vfs_close`** with a bad handle leaves the operation in progress. -/
theorem close_bad (h : Idle s.tables) (hv : vfsVerifyOpen s.tables file = none) :
    s.close file = some (VFS_ERROR, s.leaked) := by
  unfold FileSystems.close vfsClose
  simp only [drive_startOp h, drive_locked h, hv]
  rw [drive_semV (by rfl), unlock_same h]
  rfl

/-- **`vfs_close`** closes the file of the volume and frees the row. -/
theorem close_good (h : Idle s.tables) (hv : vfsVerifyOpen s.tables file = some row)
    (hfs : (s.tables.files row).filesystem = some (.driver d)) :
    s.close file = some ((sfsClose (s.volumes d) (s.tables.files row).fileid).1, ⟨s.tables.setFs row none,
      Function.update s.volumes d (sfsClose (s.volumes d) (s.tables.files row).fileid).2⟩) := by
  have hv' : vfsVerifyOpen (s.tables.started.setSem .openfile 0) file = some row := hv
  have hfiles : (s.tables.started.setSem .openfile 0).files = s.tables.files := rfl
  have hidle : Idle (s.tables.setFs row none) := h.setFile row _
  unfold FileSystems.close vfsClose
  simp only [drive_startOp h, drive_locked h, hv, drive_look, hfiles, hfs, drive_callFs, hv', Option.map_some,
    drive_store]
  have hback : ((s.tables.started.setSem .openfile 0).setFs row none).setSem .openfile 1 =
      (s.tables.setFs row none).started := unlock h row _
  rw [drive_semV (by rfl), hback, drive_endOp hidle]
  rfl

/-- **`vfs_create`** and **`vfs_remove`** with a bad path name. -/
theorem remove_bad (h : Idle s.tables) (hp : vfsParsePathname pathname = none) :
    s.remove pathname = some (VFS_ERROR, s) := by
  unfold FileSystems.remove vfsRemove
  simp only [drive_startOp h, hp]
  rw [drive_endOp h]
  rfl

theorem remove_noVolume (h : Idle s.tables) (hp : vfsParsePathname pathname = some (volume, name))
    (hm : vfsGetFilesystem s.tables volume = none) : s.remove pathname = some (VFS_NO_SUCH_FS, s) := by
  unfold FileSystems.remove vfsRemove
  simp only [drive_startOp h, hp, drive_callLocked h, hm]
  rfl

/-- **`vfs_remove`** asks the volume. -/
theorem remove_good (h : Idle s.tables) (hp : vfsParsePathname pathname = some (volume, name))
    (hm : vfsGetFilesystem s.tables volume = some (.driver d)) :
    s.remove pathname =
      some ((sfsRemove (s.volumes d) name).1, s.setVolume d (sfsRemove (s.volumes d) name).2) := by
  unfold FileSystems.remove vfsRemove
  simp only [drive_startOp h, hp, drive_callLocked h, hm, filename_eq hp]
  rfl

theorem create_negative {size : Int32} (hneg : size.toInt < 0) : s.create pathname size = some (VFS_OK, s) := by
  unfold FileSystems.create vfsCreate
  simp only [if_pos hneg]
  rfl

theorem create_bad (h : Idle s.tables) {size : Int32} (hneg : ¬ size.toInt < 0)
    (hp : vfsParsePathname pathname = none) : s.create pathname size = some (VFS_ERROR, s) := by
  unfold FileSystems.create vfsCreate
  simp only [if_neg hneg, drive_startOp h, hp]
  rw [drive_endOp h]
  rfl

theorem create_noVolume (h : Idle s.tables) {size : Int32} (hneg : ¬ size.toInt < 0)
    (hp : vfsParsePathname pathname = some (volume, name)) (hm : vfsGetFilesystem s.tables volume = none) :
    s.create pathname size = some (VFS_NO_SUCH_FS, s) := by
  unfold FileSystems.create vfsCreate
  simp only [if_neg hneg, drive_startOp h, hp, drive_callLocked h, hm]
  rfl

/-- **`vfs_create`** asks the volume. -/
theorem create_good (h : Idle s.tables) {size : Int32} (hneg : ¬ size.toInt < 0)
    (hp : vfsParsePathname pathname = some (volume, name))
    (hm : vfsGetFilesystem s.tables volume = some (.driver d)) :
    s.create pathname size =
      some ((sfsCreate (s.volumes d) name size).1, s.setVolume d (sfsCreate (s.volumes d) name size).2) := by
  unfold FileSystems.create vfsCreate
  simp only [if_neg hneg, drive_startOp h, hp, drive_callLocked h, hm, filename_eq hp]
  rfl

theorem getfree_noVolume (h : Idle s.tables) (hm : vfsGetFilesystem s.tables volume = none) :
    s.getfree volume = some (VFS_NO_SUCH_FS, s) := by
  unfold FileSystems.getfree vfsGetfree
  simp only [drive_startOp h, drive_callLocked h, hm]
  rfl

/-- **`vfs_getfree`** asks the volume. -/
theorem getfree_good (h : Idle s.tables) (hm : vfsGetFilesystem s.tables volume = some (.driver d)) :
    s.getfree volume = some (sfsGetfree (s.volumes d), s) := by
  unfold FileSystems.getfree vfsGetfree
  simp only [drive_startOp h, drive_callLocked h, hm]
  rfl

/-- What `vfs_open` does when its search is over. -/
def openFound : Except ℤ (Row × FsPtr) → Code
  | .error r => .endOp r
  | .ok (file, fs) => Code.callFs fs .open fun fileid =>
    if fileid < 0 then
      .semP .openfile <| Code.store (fun s => s.setFs file none) <| .semV .openfile <| .endOp fileid
    else
      Code.store (fun s => s.setFile file { s.files file with fileid := fileid, seekPosition := 0 }) <| .endOp file.val

/-- **The search of `vfs_open`**, with both tables locked. -/
theorem drive_vfsOpen {σ : Type} {driver : Tables → ℕ → FsOp → σ → Option (ℤ × σ)} {m : σ} {t : Tables} (h : Idle t)
    (hp : vfsParsePathname pathname = some (volume, name)) : (vfsOpen pathname).drive driver t m =
      (openFound (openRow t volume)).drive driver (t.reserved (openRow t volume)).started m := by
  have htable : t.started.sem .table = 1 := h.table
  have hopenfile : (t.started.setSem .table 0).sem .openfile = 1 := h.openfile
  have hsame : openRow ((t.started.setSem .table 0).setSem .openfile 0) volume = openRow t volume :=
    openRow_congr rfl rfl
  -- the semaphores do not matter to what is written
  obtain ⟨files, hfiles⟩ : ∃ files, ∀ x : Tables, x.files = t.files →
      x.reserved (openRow t volume) = { x with files := files } := by
    cases openRow t volume with
    | error r => exact ⟨t.files, fun x hx => by rw [← hx]; rfl⟩
    | ok found =>
      refine ⟨((t.reserved (.ok found)).files), fun x hx => ?_⟩
      unfold Tables.reserved Tables.setFs Tables.setFile
      rw [hx]
  have hback : ((((t.started.setSem .table 0).setSem .openfile 0).reserved (openRow t volume)).setSem .openfile
      1).setSem .table 1 = (t.reserved (openRow t volume)).started := by
    rw [hfiles ((t.started.setSem .table 0).setSem .openfile 0) rfl, hfiles t rfl]
    have h1 : (({ t with files := files } : Tables).started.setSem .table 0).sem .openfile = 1 := h.openfile
    have h2 : ({ t with files := files } : Tables).started.sem .table = 1 := h.table
    have hboth := setSem_back h1
    show ((((({ t with files := files } : Tables).started.setSem .table 0).setSem .openfile 0).setSem .openfile
      1).setSem .table 1) = _
    rw [hboth, setSem_back h2]
  have hzero1 : (((t.started.setSem .table 0).setSem .openfile 0).reserved (openRow t volume)).sem .openfile = 0 := by
    rw [hfiles ((t.started.setSem .table 0).setSem .openfile 0) rfl]
    rfl
  have hzero2 : ((((t.started.setSem .table 0).setSem .openfile 0).reserved (openRow t volume)).setSem .openfile 1).sem
      .table = 0 := by
    rw [hfiles ((t.started.setSem .table 0).setSem .openfile 0) rfl]
    rfl
  unfold vfsOpen
  rw [drive_startOp h]
  simp only [hp]
  rw [drive_semP htable, drive_semP hopenfile, drive_access, hsame, drive_semV hzero1, drive_semV hzero2, hback]
  cases openRow t volume with
  | error r => rfl
  | ok found => rfl

theorem openFile_bad (h : Idle s.tables) (hp : vfsParsePathname pathname = none) :
    s.openFile pathname = some (VFS_ERROR, s) := by
  unfold FileSystems.openFile vfsOpen
  simp only [drive_startOp h, hp]
  rw [drive_endOp h]
  rfl

/-- **`vfs_open`** without a free row or without the volume. -/
theorem openFile_refused (h : Idle s.tables) (hp : vfsParsePathname pathname = some (volume, name)) {r : ℤ}
    (hr : openRow s.tables volume = .error r) : s.openFile pathname = some (r, s) := by
  unfold FileSystems.openFile
  simp only [drive_vfsOpen h hp, hr]
  show ((Code.endOp r).drive _ s.tables.started _).map _ = _
  rw [drive_endOp h]
  rfl

/-- What the search of `vfs_open` finds. -/
theorem freeRow_openRow {t : Tables} {fs : FsPtr} (hr : openRow t volume = .ok (row, fs)) :
    freeRow t = some row ∧ vfsGetFilesystem t volume = some fs := by
  unfold openRow at hr
  split at hr
  · cases hr
  · rename_i file hfree
    split at hr
    · cases hr
    · rename_i fs' hfs
      cases hr
      exact ⟨hfree, hfs⟩

theorem freeRow_none {t : Tables} (hr : freeRow t = some row) : (t.files row).filesystem = none := by
  have hp := List.find?_some hr
  simpa using hp

/-- **`vfs_open`** of a file that the volume does not open frees the row again. -/
theorem openFile_failed (h : Idle s.tables) (hp : vfsParsePathname pathname = some (volume, name))
    (hrow : openRow s.tables volume = .ok (row, .driver d)) {r : ℤ} {v : Sfs}
    (hopen : sfsOpen (s.volumes d) name = (r, v)) (hr : r < 0) :
    s.openFile pathname = some (r, s.setVolume d v) := by
  have hnone := freeRow_none (freeRow_openRow hrow).1
  have hback : ((s.tables.setFs row (some (.driver d))).started.setSem .openfile 0).setFs row none =
      (s.tables.started.setSem .openfile 0).setFs row none := by
    unfold Tables.setFs Tables.setFile Tables.started Tables.setSem
    simp
  have hsame : s.tables.setFs row none = s.tables := by
    have hentry : ({ s.tables.files row with filesystem := none } : OpenFileEntry) = s.tables.files row := by
      rw [← hnone]
    rw [Tables.setFs, hentry, Tables.setFile, Function.update_eq_self]
  have hunlock : ((s.tables.started.setSem .openfile 0).setFs row none).setSem .openfile 1 =
      (s.tables.setFs row none).started := unlock h row _
  have hsem : (s.tables.setFs row (some (.driver d))).started.sem .openfile = 1 := h.openfile
  unfold FileSystems.openFile
  simp only [drive_vfsOpen h hp, hrow, openFound, drive_callFs, filename_eq hp, hopen, if_pos hr, Tables.reserved]
  rw [drive_semP hsem, drive_store, drive_semV (by rfl), hback, hunlock, hsame, drive_endOp h]
  rfl

end Functions

/-! ## What stands for the store -/

section Stands

/-- What a row of open files stands for. -/
def handleOf (e : OpenFileEntry) : Option Handle :=
  match e.filesystem with
  | none => none
  | some .reserved => some .stream
  | some (.driver d) => some (.file d e.fileid.toNat e.seekPosition)

/-- The tables stand for the mounted volumes and the handles. -/
structure TablesStand (mounted : Str → Option ℕ) (handle : Row → Option Handle) (t : Tables) : Prop where
  idle : Idle t
  mounted : ∀ name, vfsGetFilesystem t name = (mounted name).map .driver
  handle : ∀ row, handle row = handleOf (t.files row)
  fileid : ∀ row d, (t.files row).filesystem = some (.driver d) → 0 ≤ (t.files row).fileid
  streams : ∀ row, (t.files row).filesystem = some .reserved → row.val < 3

/-- A volume stands for a filesystem. -/
structure VolumeStands (fs : Fs.FileSystem) (v : Sfs) : Prop where
  order : InOrder v
  totals : v.totalblocks = v.totalvblocks
  represents : Fs.Represents fs v

/-- **The tables and the volumes stand for the store.** -/
structure Stands (st : FileStore) (s : FileSystems) : Prop where
  tables : TablesStand st.mounted st.handle s.tables
  volumes : ∀ d, VolumeStands (st.volume d) (s.volumes d)

variable {st : FileStore} {s : FileSystems} {mounted : Str → Option ℕ} {handle : Row → Option Handle} {t : Tables}
  {row : Row} {d : ℕ} {fs : Fs.FileSystem} {v : Sfs} {q : Request} {file : ℤ} {pathname volume name : Str}

/-- A call on a volume. -/
theorem VolumeStands.ask (h : VolumeStands fs v) (c : Fs.Call) :
    ∃ r v' fs', c.exec v = some (r, v') ∧ fs.Step c r fs' ∧ VolumeStands fs' v' := by
  obtain ⟨r, v', fs', h1, h2, h3, h4⟩ := h.represents.step h.order c
  obtain ⟨r', v'', he, heff, -⟩ := c.exec_effect h.order.quiet
  rw [h1] at he
  cases he
  refine ⟨r, v', fs', h1, h2, h4, ?_, h3⟩
  rw [heff.totals.1, heff.totals.2, h.totals]

theorem Stands.setVolume (h : Stands st s) (hv : VolumeStands fs v) : Stands (st.setVolume d fs) (s.setVolume d v) := by
  refine ⟨h.tables, fun d' => ?_⟩
  show VolumeStands (Function.update st.volume d fs d') (Function.update s.volumes d v d')
  by_cases hd : d' = d
  · rw [hd, Function.update_self, Function.update_self]
    exact hv
  · rw [Function.update_of_ne hd, Function.update_of_ne hd]
    exact h.volumes d'

/-- Row `row` of open files changes. -/
theorem TablesStand.setFile (h : TablesStand mounted handle t) {e : OpenFileEntry} (hid : 0 ≤ e.fileid)
    (hno : e.filesystem ≠ some .reserved) :
    TablesStand mounted (Function.update handle row (handleOf e)) (t.setFile row e) := by
  have hrow : ∀ row', (t.setFile row e).files row' = if row' = row then e else t.files row' := fun row' =>
    Function.update_apply ..
  refine ⟨h.idle.setFile row e, h.mounted, fun row' => ?_, fun row' d hfs => ?_, fun row' hfs => ?_⟩
  · rw [hrow, Function.update_apply]
    split
    · rfl
    · exact h.handle row'
  · rw [hrow] at hfs ⊢
    split
    · exact hid
    · rename_i hne
      rw [if_neg hne] at hfs
      exact h.fileid row' d hfs
  · rw [hrow] at hfs
    split at hfs
    · exact absurd hfs hno
    · exact h.streams row' hfs

theorem Stands.setFile (h : Stands st s) {e : OpenFileEntry} (hid : 0 ≤ e.fileid)
    (hno : e.filesystem ≠ some .reserved) :
    Stands (st.setHandle row (handleOf e)) { s with tables := s.tables.setFile row e } :=
  ⟨h.tables.setFile hid hno, h.volumes⟩

/-- An operation that is left in progress does not matter. -/
theorem Stands.leaked (h : Stands st s) : Stands st s.leaked :=
  ⟨⟨h.tables.idle.started, h.tables.mounted, h.tables.handle, h.tables.fileid, h.tables.streams⟩, h.volumes⟩

/-- What `vfs_verify_open` finds. -/
theorem verify_some (hv : vfsVerifyOpen t file = some row) :
    (row.val : ℤ) = file ∧ (t.files row).filesystem ≠ none := by
  unfold vfsVerifyOpen at hv
  split at hv
  · rename_i hrange
    simp only at hv
    split at hv
    · cases hv
    · rename_i hopen
      cases hv
      exact ⟨by simp only; omega, hopen⟩
  · cases hv

theorem verify_none (hv : vfsVerifyOpen t file = none) (hrow : (row.val : ℤ) = file) :
    (t.files row).filesystem = none := by
  unfold vfsVerifyOpen at hv
  have hlt := row.isLt
  rw [dif_pos ⟨by omega, by omega⟩] at hv
  simp only at hv
  have hsame : (⟨file.toNat, by omega⟩ : Row) = row := Fin.ext (by simp only; omega)
  rw [hsame] at hv
  split at hv
  · assumption
  · cases hv

/-- A bad handle. -/
theorem Stands.noFile (h : Stands st s) (hv : vfsVerifyOpen s.tables file = none) : st.NoFile file := by
  intro row hrow
  rw [h.tables.handle, handleOf, verify_none hv hrow]

/-- A good handle of a file. -/
theorem Stands.good (h : Stands st s) (hv : vfsVerifyOpen s.tables file = some row) (hfile : ¬ (0 ≤ file ∧ file < 3)) :
    ∃ d f : ℕ, (row.val : ℤ) = file ∧ (s.tables.files row).filesystem = some (.driver d) ∧
      (s.tables.files row).fileid = f ∧ st.handle row = some (.file d f (s.tables.files row).seekPosition) := by
  obtain ⟨hrow, hopen⟩ := verify_some hv
  cases hfs : (s.tables.files row).filesystem with
  | none => exact absurd hfs hopen
  | some fs =>
    cases fs with
    | reserved =>
      have hlt := h.tables.streams row hfs
      exact absurd ⟨by omega, by omega⟩ hfile
    | driver d =>
      have hid := h.tables.fileid row d hfs
      refine ⟨d, _, hrow, rfl, (Int.toNat_of_nonneg hid).symm, ?_⟩
      rw [h.tables.handle, handleOf, hfs]

/-- The position of an open file moves. -/
theorem Stands.seekTo (h : Stands st s) {f : ℕ} (hfs : (s.tables.files row).filesystem = some (.driver d))
    (hid : (s.tables.files row).fileid = f) (position : ℤ) :
    Stands (st.setHandle row (some (.file d f position))) { s with tables := s.tables.seekTo row position } := by
  have hentry : handleOf { s.tables.files row with seekPosition := position } = some (.file d f position) := by
    unfold handleOf
    simp only [hfs, hid, Int.toNat_natCast]
  rw [← hentry]
  refine h.setFile (h.tables.fileid row d hfs) ?_
  rw [hfs]
  intro he
  cases he

/-- A volume that is mounted, or not. -/
theorem Stands.getFilesystem (h : Stands st s) (volume : Str) :
    (vfsGetFilesystem s.tables volume = none ∧ st.mounted volume = none) ∨
      ∃ d, vfsGetFilesystem s.tables volume = some (.driver d) ∧ st.mounted volume = some d := by
  have hm := h.tables.mounted volume
  cases hd : st.mounted volume with
  | none =>
    rw [hd] at hm
    exact Or.inl ⟨hm, rfl⟩
  | some d =>
    rw [hd] at hm
    exact Or.inr ⟨d, hm, rfl⟩

/-- The request does not name one of the rows that are reserved for the standard streams. -/
def OffStreams (q : Request) : Prop := ∀ file, q.file? = some file → ¬ (0 ≤ file ∧ file < 3)

/-- **`vfs_read`** and **`vfs_write`** on a good handle. -/
theorem Stands.transfer (h : Stands st s) {c : ℕ → ℤ → Fs.Call} (hq : q.transfer? = some (file, c))
    (hv : vfsVerifyOpen s.tables file = some row) (hfile : ¬ (0 ≤ file ∧ file < 3))
    (hans : ∀ {d f : ℕ} {r : Reply} {v : Sfs}, (s.tables.files row).filesystem = some (.driver d) →
      (s.tables.files row).fileid = f →
      (c f (s.tables.files row).seekPosition).exec (s.volumes d) = some (r, v) → s.answer q =
        some (r, ⟨s.tables.seekTo row (FileStore.moved (s.tables.files row).seekPosition r.value),
          Function.update s.volumes d v⟩)) :
    ∃ r s' st', s.answer q = some (r, s') ∧ st.Step q r st' ∧ Stands st' s' := by
  obtain ⟨d, f, rfl, hfs, hid, hh⟩ := h.good hv hfile
  obtain ⟨r, v, fs, he, hs, hvol⟩ := (h.volumes d).ask (c f (s.tables.files row).seekPosition)
  exact ⟨r, _, _, hans hfs hid he, .transferred hq hh hs, (h.setVolume hvol).seekTo hfs hid _⟩

theorem Stands.read (h : Stands st s) (hfile : ¬ (0 ≤ file ∧ file < 3)) (bufsize : ℕ) :
    ∃ r s' st', s.answer (.read file bufsize) = some (r, s') ∧ st.Step (.read file bufsize) r st' ∧ Stands st' s' := by
  cases hv : vfsVerifyOpen s.tables file with
  | none =>
    refine ⟨_, _, st, ?_, .noFile rfl (h.noFile hv), h.leaked⟩
    rw [FileSystems.answer, read_bad h.tables.idle hv]
    rfl
  | some row =>
    refine h.transfer rfl hv hfile fun hfs hid he => ?_
    obtain ⟨⟨r, v⟩, hr, hrep⟩ := Option.map_eq_some_iff.1 he
    rw [← hid] at hr
    cases hrep
    rw [FileSystems.answer, read_good h.tables.idle hv hfs hr]
    rfl

theorem Stands.write (h : Stands st s) (hfile : ¬ (0 ≤ file ∧ file < 3)) (tid : ℤ) (buffer : List UInt8) :
    ∃ r s' st', s.answer (.write tid file buffer) = some (r, s') ∧ st.Step (.write tid file buffer) r st' ∧
      Stands st' s' := by
  cases hv : vfsVerifyOpen s.tables file with
  | none =>
    refine ⟨_, _, st, ?_, .noFile rfl (h.noFile hv), h.leaked⟩
    rw [FileSystems.answer, write_bad h.tables.idle hv]
    rfl
  | some row =>
    refine h.transfer rfl hv hfile fun hfs hid he => ?_
    obtain ⟨⟨r, v⟩, hr, hrep⟩ := Option.map_eq_some_iff.1 he
    rw [← hid] at hr
    cases hrep
    rw [FileSystems.answer, write_good h.tables.idle hv hfs hr]
    rfl

theorem Stands.seek (h : Stands st s) (hfile : ¬ (0 ≤ file ∧ file < 3)) (position : ℤ) :
    ∃ r s' st', s.answer (.seek file position) = some (r, s') ∧ st.Step (.seek file position) r st' ∧
      Stands st' s' := by
  by_cases hneg : position < 0
  · refine ⟨_, _, st, ?_, .notSought hneg, h.leaked⟩
    rw [FileSystems.answer, seek_negative h.tables.idle hneg]
    rfl
  cases hv : vfsVerifyOpen s.tables file with
  | none =>
    refine ⟨_, _, st, ?_, .noFile rfl (h.noFile hv), h.leaked⟩
    rw [FileSystems.answer, seek_bad h.tables.idle hv]
    rfl
  | some row =>
    obtain ⟨d, f, rfl, hfs, hid, hh⟩ := h.good hv hfile
    refine ⟨_, _, _, ?_, .sought hh (not_lt.1 hneg), h.seekTo hfs hid position⟩
    rw [FileSystems.answer, seek_good h.tables.idle hv (not_lt.1 hneg)]
    rfl

theorem Stands.close (h : Stands st s) (hfile : ¬ (0 ≤ file ∧ file < 3)) :
    ∃ r s' st', s.answer (.close file) = some (r, s') ∧ st.Step (.close file) r st' ∧ Stands st' s' := by
  cases hv : vfsVerifyOpen s.tables file with
  | none =>
    refine ⟨_, _, st, ?_, .noFile rfl (h.noFile hv), h.leaked⟩
    rw [FileSystems.answer, close_bad h.tables.idle hv]
    rfl
  | some row =>
    obtain ⟨d, f, rfl, hfs, hid, hh⟩ := h.good hv hfile
    obtain ⟨r, v, fs, he, hs, hvol⟩ := (h.volumes d).ask (.closeFile f)
    cases he
    have hstands : Stands ((st.setVolume d fs).setHandle row none)
        ⟨s.tables.setFs row none, Function.update s.volumes d (sfsClose (s.volumes d) f).2⟩ :=
      (h.setVolume hvol).setFile (e := { s.tables.files row with filesystem := none }) (h.tables.fileid row d hfs)
        (by simp)
    refine ⟨_, _, _, ?_, .closed hh hs, hstands⟩
    rw [FileSystems.answer, close_good h.tables.idle hv hfs, hid]
    rfl

/-- The first free row of open files. -/
theorem Stands.freeRow_some (h : Stands st s) (hr : freeRow s.tables = some row) : st.FirstFree row := by
  unfold freeRow at hr
  rw [← Fin.find?_eq_find?_finRange, Fin.find?_eq_some_iff] at hr
  obtain ⟨hfree, hbelow⟩ := hr
  refine ⟨?_, fun row' hlt hnone => ?_⟩
  · rw [h.tables.handle, handleOf, of_decide_eq_true hfree]
  · have hfs := of_decide_eq_false (hbelow row' hlt)
    rw [h.tables.handle, handleOf] at hnone
    split at hnone
    · rename_i hn
      exact hfs hn
    · cases hnone
    · cases hnone

/-- There is none. -/
theorem Stands.freeRow_none (h : Stands st s) (hr : freeRow s.tables = none) (row : Row) : st.handle row ≠ none := by
  unfold freeRow at hr
  rw [← Fin.find?_eq_find?_finRange, Fin.find?_eq_none_iff] at hr
  intro hnone
  have hfs := of_decide_eq_false (hr row)
  rw [h.tables.handle, handleOf] at hnone
  split at hnone
  · rename_i hn
    exact hfs hn
  · cases hnone
  · cases hnone

theorem Stands.openFile (h : Stands st s) (pathname : Str) : ∃ r s' st', s.answer (.openFile pathname) = some (r, s') ∧
    st.Step (.openFile pathname) r st' ∧ Stands st' s' := by
  cases hp : vfsParsePathname pathname with
  | none =>
    refine ⟨_, _, st, ?_, .badName rfl hp, h⟩
    rw [FileSystems.answer, openFile_bad h.tables.idle hp]
    rfl
  | some parsed =>
    obtain ⟨volume, name⟩ := parsed
    cases hfree : freeRow s.tables with
    | none =>
      have hrow : openRow s.tables volume = .error VFS_LIMIT := by
        unfold openRow
        rw [hfree]
      refine ⟨_, _, st, ?_, .limit hp (h.freeRow_none hfree), h⟩
      rw [FileSystems.answer, openFile_refused h.tables.idle hp hrow]
      rfl
    | some row =>
      have hfirst := h.freeRow_some hfree
      rcases h.getFilesystem volume with ⟨hfs, hm⟩ | ⟨d, hfs, hm⟩
      · have hrow : openRow s.tables volume = .error VFS_NO_SUCH_FS := by
          unfold openRow
          rw [hfree]
          simp only [hfs]
        refine ⟨_, _, st, ?_, .noVolume rfl hp hm fun _ => ⟨row, hfirst.1⟩, h⟩
        rw [FileSystems.answer, openFile_refused h.tables.idle hp hrow]
        rfl
      · have hrow : openRow s.tables volume = .ok (row, .driver d) := by
          unfold openRow
          rw [hfree]
          simp only [hfs]
        obtain ⟨r, v, fs, he, hs, hvol⟩ := (h.volumes d).ask (.openFile name)
        cases he
        rcases hs.opens with ⟨f, hf, -⟩ | ⟨hneg, -⟩
        · have hopen : sfsOpen (s.volumes d) name = ((f : ℤ), (sfsOpen (s.volumes d) name).2) := Prod.ext hf rfl
          have hstands : Stands ((st.setVolume d fs).setHandle row (some (.file d f 0)))
              ⟨s.tables.setFile row ⟨some (.driver d), f, 0⟩,
                Function.update s.volumes d (sfsOpen (s.volumes d) name).2⟩ :=
            (h.setVolume hvol).setFile (e := ⟨some (.driver d), f, 0⟩) (Int.natCast_nonneg f) (by simp)
          simp only at hf
          rw [hf] at hs
          refine ⟨_, _, _, ?_, .opened hp hm hfirst hs, hstands⟩
          rw [FileSystems.answer, openFile_eq h.tables.idle hp hfree hfs hopen]
          rfl
        · refine ⟨_, _, _, ?_, .notOpened hp hm ⟨row, hfirst.1⟩ hs hneg, h.setVolume hvol⟩
          rw [FileSystems.answer, openFile_failed h.tables.idle hp hrow rfl hneg]
          rfl

theorem Stands.create (h : Stands st s) (pathname : Str) (size : Int32) : ∃ r s' st',
    s.answer (.create pathname size) = some (r, s') ∧ st.Step (.create pathname size) r st' ∧ Stands st' s' := by
  by_cases hneg : size.toInt < 0
  · refine ⟨_, _, st, ?_, .nothing hneg, h⟩
    rw [FileSystems.answer, create_negative hneg]
    rfl
  have hq : (Request.create pathname size).path? = some (pathname, fun name => .create name size) := if_neg hneg
  have hno : ¬ (Request.create pathname size).Opening := by
    rintro ⟨p, hp⟩
    cases hp
  cases hp : vfsParsePathname pathname with
  | none =>
    refine ⟨_, _, st, ?_, .badName hq hp, h⟩
    rw [FileSystems.answer, create_bad h.tables.idle hneg hp]
    rfl
  | some parsed =>
    obtain ⟨volume, name⟩ := parsed
    rcases h.getFilesystem volume with ⟨hfs, hm⟩ | ⟨d, hfs, hm⟩
    · refine ⟨_, _, st, ?_, .noVolume hq hp hm fun hopening => absurd hopening hno, h⟩
      rw [FileSystems.answer, create_noVolume h.tables.idle hneg hp hfs]
      rfl
    · obtain ⟨r, v, fs, he, hs, hvol⟩ := (h.volumes d).ask (.create name size)
      cases he
      refine ⟨_, _, _, ?_, .asked hq hno hp hm hs, h.setVolume hvol⟩
      rw [FileSystems.answer, create_good h.tables.idle hneg hp hfs]
      rfl

theorem Stands.remove (h : Stands st s) (pathname : Str) : ∃ r s' st', s.answer (.remove pathname) = some (r, s') ∧
    st.Step (.remove pathname) r st' ∧ Stands st' s' := by
  have hno : ¬ (Request.remove pathname).Opening := by
    rintro ⟨p, hp⟩
    cases hp
  cases hp : vfsParsePathname pathname with
  | none =>
    refine ⟨_, _, st, ?_, .badName rfl hp, h⟩
    rw [FileSystems.answer, remove_bad h.tables.idle hp]
    rfl
  | some parsed =>
    obtain ⟨volume, name⟩ := parsed
    rcases h.getFilesystem volume with ⟨hfs, hm⟩ | ⟨d, hfs, hm⟩
    · refine ⟨_, _, st, ?_, .noVolume rfl hp hm fun hopening => absurd hopening hno, h⟩
      rw [FileSystems.answer, remove_noVolume h.tables.idle hp hfs]
      rfl
    · obtain ⟨r, v, fs, he, hs, hvol⟩ := (h.volumes d).ask (.remove name)
      cases he
      refine ⟨_, _, _, ?_, .asked rfl hno hp hm hs, h.setVolume hvol⟩
      rw [FileSystems.answer, remove_good h.tables.idle hp hfs]
      rfl

theorem Stands.getfree (h : Stands st s) (volume : Str) : ∃ r s' st', s.answer (.getfree volume) = some (r, s') ∧
    st.Step (.getfree volume) r st' ∧ Stands st' s' := by
  rcases h.getFilesystem volume with ⟨hfs, hm⟩ | ⟨d, hfs, hm⟩
  · refine ⟨_, _, st, ?_, .noFree hm, h⟩
    rw [FileSystems.answer, getfree_noVolume h.tables.idle hfs]
    rfl
  · have hvol := h.volumes d
    refine ⟨_, _, st, ?_, .free hm, h⟩
    rw [FileSystems.answer, getfree_good h.tables.idle hfs, hvol.represents.getfree hvol.order hvol.totals]
    rfl

/-- **Every request** is answered as the store may answer it. -/
theorem Stands.step (h : Stands st s) (hq : OffStreams q) :
    ∃ r s' st', s.answer q = some (r, s') ∧ st.Step q r st' ∧ Stands st' s' := by
  cases q with
  | openFile pathname => exact h.openFile pathname
  | close file => exact h.close (hq file rfl)
  | seek file position => exact h.seek (hq file rfl) position
  | read file bufsize => exact h.read (hq file rfl) bufsize
  | write tid file buffer => exact h.write (hq file rfl) tid buffer
  | create pathname size => exact h.create pathname size
  | remove pathname => exact h.remove pathname
  | getfree volume => exact h.getfree volume

end Stands

/-! ## Every sequence of requests -/

/-- Answer the requests and write down the replies. -/
def FileSystems.record (s : FileSystems) : List Request → Option (List (Request × Reply) × FileSystems)
  | [] => some ([], s)
  | q :: qs => match s.answer q with
    | none => none
    | some (r, s') => (s'.record qs).map fun x => ((q, r) :: x.1, x.2)

/-- The VFS after it has been initialised and volumes have been mounted: no file is open. -/
structure Mounted (s : FileSystems) : Prop where
  idle : Idle s.tables
  files : s.tables.files = vfsInit.files
  drivers : ∀ i, (s.tables.filesystems i).filesystem ≠ some .reserved
  volumes : ∀ d, ∃ disk, Fs.NamedVolume disk ∧ disk.Works ∧ s.volumes d = Fs.sfsInit disk

/-- The store that is mounted. -/
noncomputable def storeOf (s : FileSystems) : FileStore where
  mounted volume := match vfsGetFilesystem s.tables volume with
    | some (.driver d) => some d
    | _ => none
  volume d := Fs.filesystemOf (s.volumes d).disk
  handle row := handleOf (s.tables.files row)

section Runs

variable {st : FileStore} {s : FileSystems}

theorem Mounted.stands (h : Mounted s) : Stands (storeOf s) s := by
  refine ⟨⟨h.idle, fun name => ?_, fun row => rfl, fun row d hfs => ?_, fun row hfs => ?_⟩, fun d => ?_⟩
  · have hfs : vfsGetFilesystem s.tables name ≠ some .reserved := by
      unfold vfsGetFilesystem
      split
      · simp
      · exact h.drivers _
    show _ = Option.map FsPtr.driver (match vfsGetFilesystem s.tables name with
      | some (.driver d) => some d
      | _ => none)
    cases hv : vfsGetFilesystem s.tables name with
    | none => rfl
    | some fs =>
      cases fs with
      | reserved => exact absurd hv hfs
      | driver d => rfl
  · rw [h.files]
    exact le_refl 0
  · rw [h.files] at hfs
    simp only [vfsInit] at hfs
    split at hfs
    · assumption
    · cases hfs
  · obtain ⟨disk, hv, hw, hd⟩ := h.volumes d
    show VolumeStands (Fs.filesystemOf (s.volumes d).disk) (s.volumes d)
    rw [hd]
    exact ⟨hv.inOrder hw, by simp [Fs.sfsInit, Fs.SFS_BLOCKS_PER_VBLOCK], hv.represents hw⟩

/-- Before any file is open, no file is counted. -/
theorem Mounted.counted (h : Mounted s) : (storeOf s).Counted := by
  intro d f
  have hnone : ∀ row, FileStore.onFile d f ((storeOf s).handle row) = false := by
    intro row
    show FileStore.onFile d f (handleOf (s.tables.files row)) = false
    rw [h.files]
    unfold handleOf vfsInit
    simp only
    split
    · rfl
    · rfl
    · rename_i hfs
      split at hfs
      · cases hfs
      · cases hfs
  rw [Transition.count_eq_zero.2 hnone]
  show (((Fs.filesystemOf (s.volumes d).disk).node f).map Fs.Node.handles).getD 0 = 0
  cases hn : (Fs.filesystemOf (s.volumes d).disk).node f with
  | none => rfl
  | some nd => exact (Fs.filesystemOf_some hn).2.1

/-- Runs from any state that stands for a store. -/
theorem Stands.run : ∀ (qs : List Request) {st : FileStore} {s : FileSystems}, Stands st s → st.Counted →
    (∀ q ∈ qs, OffStreams q) → ∃ trace s' st', s.record qs = some (trace, s') ∧ trace.map Prod.fst = qs ∧
      st.Steps trace st' ∧ Stands st' s' ∧ st'.Counted
  | [], st, s, h, hc, _ => ⟨[], s, st, rfl, rfl, .nil st, h, hc⟩
  | q :: qs, st, s, h, hc, hq => by
    obtain ⟨r, s1, st1, h1, h2, h3⟩ := h.step (hq q List.mem_cons_self)
    have hrest : ∀ x ∈ qs, OffStreams x := fun x hx => hq x (List.mem_cons_of_mem _ hx)
    obtain ⟨trace, s', st', h4, h5, h6, h7, h8⟩ := run qs h3 (h2.counted hc) hrest
    refine ⟨(q, r) :: trace, s', st', ?_, by rw [List.map_cons, h5], .cons h2 h6, h7, h8⟩
    rw [FileSystems.record, h1]
    simp only [h4, Option.map_some]

/-- **The VFS implements the store**: on mounted SFS volumes every sequence of requests that keeps off the standard
streams is answered to its end as the store may answer it, and then every file is open as often as there are handles of
it. -/
theorem vfs_refines (s : FileSystems) (h : Mounted s) (qs : List Request) (hq : ∀ q ∈ qs, OffStreams q) :
    ∃ trace s' st, s.record qs = some (trace, s') ∧ trace.map Prod.fst = qs ∧ (storeOf s).Steps trace st ∧
      Stands st s' ∧ st.Counted :=
  Stands.run qs h.stands h.counted hq

theorem mountedEmpty_mounted : Mounted mountedEmpty where
  idle := ⟨mountedEmpty_resting, rfl⟩
  files := rfl
  drivers := by decide +kernel
  volumes := fun _ => ⟨Fs.emptyVolume, Fs.emptyVolume_named, Fs.emptyVolume_works, rfl⟩

/-- A file is created, opened, written, read back from the start and closed, and then its handle is bad. -/
theorem vfs_refines_mountedEmpty : ∃ trace s' st, mountedEmpty.record
      [.create [91, 100, 93, 47, 102] 600, .openFile [91, 100, 93, 47, 102], .write 0 3 [1, 2, 3], .seek 3 0,
        .read 3 4, .remove [91, 100, 93, 47, 102], .close 3, .read 3 4] = some (trace, s') ∧
      trace.map Prod.fst = [.create [91, 100, 93, 47, 102] 600, .openFile [91, 100, 93, 47, 102],
        .write 0 3 [1, 2, 3], .seek 3 0, .read 3 4, .remove [91, 100, 93, 47, 102], .close 3, .read 3 4] ∧
      (storeOf mountedEmpty).Steps trace st ∧ Stands st s' ∧ st.Counted :=
  vfs_refines mountedEmpty mountedEmpty_mounted _ (by simp [OffStreams, Request.file?])

end Runs

end Buenos.Vfs
