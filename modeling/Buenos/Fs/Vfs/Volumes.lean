import Buenos.Fs.Sfs.FileArray
import Buenos.Fs.Vfs.System

/-!
# VFS functions on SFS volumes

The functions of `fs/vfs.c`, each run to its end by one thread, with the functions of `fs/sfs.c` behind the
drivers.

* `Code.drive` — a function run to its end; `driver` is the function of the file system that is called, with its
  arguments.
* `FileSystems` — the tables of `vfs.c` and the volumes, with `create`, `open`, `read` and `write`.
* `Resting`, `Idle` — no function is in progress.
* `OnHandle` — a handle of an open regular file, with its seek position; `OnFile` — on a disk without errors.

Principal results: `OnHandle.read_run` and `OnHandle.write_run`, and what they are without errors, `OnFile.read_eq`
and `OnFile.write_eq`.
-/

namespace Buenos.Vfs

open Bytes
open Buenos.Fs (Sfs sfsCreate sfsOpen sfsRead sfsWrite OpenRegular FileLayout FileShape inodeFilesize inodeBlock fileByte
  fileSlice goodBytes readBody writeBody gbdDevice VFS_OK VFS_ERROR)

/-- Run a function alone; `none` when it would wait for ever or the kernel stops. -/
def Code.drive {σ : Type} (driver : Tables → ℕ → FsOp → σ → Option (ℤ × σ)) :
    Code → Tables → σ → Option (ℤ × Tables × σ)
  | .ret r, s, m => some (r, s, m)
  | .endOp r, s, m => if s.sem .op = 0 ∨ s.ops - 1 < 0 then none else some (r, vfsEndOp s, m)
  | .startOp k, s, m => if s.sem .op = 0 then none else (k s.usable).drive driver (vfsStartOp s) m
  | .semP x k, s, m => if s.sem x = 0 then none else k.drive driver (s.setSem x (s.sem x - 1)) m
  | .semV x k, s, m => k.drive driver (s.setSem x (s.sem x + 1)) m
  | .verify file k, s, m => (k (vfsVerifyOpen s file)).drive driver s m
  | .access f k, s, m => (k s).drive driver (f s) m
  | .enter fs op k, s, m =>
    match driver s fs op m with
    | none => none
    | some (r, m) => (k r).drive driver s m
  | .crash, _, _ => none

/-- The tables of `vfs.c`, and the SFS volumes of the drivers. -/
structure FileSystems where
  tables : Tables
  volumes : ℕ → Sfs

namespace FileSystems

variable (s : FileSystems)

def setVolume (d : ℕ) (v : Sfs) : FileSystems := { s with volumes := Function.update s.volumes d v }

/-- The file name that is passed to a file system. -/
def filename (pathname : Str) : Str := ((vfsParsePathname pathname).map (·.2)).getD []

/-- `vfs_create`, with `sfs_create`. -/
def create (pathname : Str) (size : Int32) : Option (ℤ × FileSystems) :=
  let driver := fun (_ : Tables) fs (_ : FsOp) (volumes : ℕ → Sfs) =>
    let r := sfsCreate (volumes fs) (filename pathname) size
    some (r.1, Function.update volumes fs r.2)
  ((vfsCreate pathname size.toInt).drive driver s.tables s.volumes).map fun r => (r.1, ⟨r.2.1, r.2.2⟩)

/-- `vfs_open`, with `sfs_open`. -/
def openFile (pathname : Str) : Option (ℤ × FileSystems) :=
  let driver := fun (_ : Tables) fs (_ : FsOp) (volumes : ℕ → Sfs) =>
    let r := sfsOpen (volumes fs) (filename pathname)
    some (r.1, Function.update volumes fs r.2)
  ((vfsOpen pathname).drive driver s.tables s.volumes).map fun r => (r.1, ⟨r.2.1, r.2.2⟩)

/-- `vfs_read`, with `sfs_read`: the result and the bytes that are written to the buffer. -/
def read (file bufsize : ℤ) : Option ((ℤ × List UInt8) × FileSystems) :=
  let driver := fun tables fs (_ : FsOp) (m : (ℕ → Sfs) × List UInt8) =>
    (vfsVerifyOpen tables file).bind fun row =>
      (sfsRead (m.1 fs) (tables.files row).fileid bufsize (tables.files row).seekPosition).map fun r =>
        (r.1.1, Function.update m.1 fs r.2, r.1.2)
  ((vfsRead file true bufsize).drive driver s.tables (s.volumes, [])).map fun r => ((r.1, r.2.2.2), ⟨r.2.1, r.2.2.1⟩)

/-- `vfs_write`, with `sfs_write`, by thread `tid`. -/
def write (tid file : ℤ) (buffer : List UInt8) (datasize : ℤ) : Option (ℤ × FileSystems) :=
  let driver := fun tables fs (_ : FsOp) (volumes : ℕ → Sfs) =>
    (vfsVerifyOpen tables file).bind fun row =>
      (sfsWrite (volumes fs) tid (tables.files row).fileid buffer datasize (tables.files row).seekPosition).map fun r =>
        (r.1, Function.update volumes fs r.2)
  ((vfsWrite file true datasize).drive driver s.tables s.volumes).map fun r => (r.1, ⟨r.2.1, r.2.2⟩)

end FileSystems

/-! ## A function alone -/

/-- No function is in progress. -/
structure Resting (s : Tables) : Prop where
  table : s.sem .table = 1
  openfile : s.sem .openfile = 1
  op : s.sem .op = 1
  ops : 0 ≤ s.ops

/-- The VFS is usable and no function is in progress. -/
structure Idle (s : Tables) : Prop extends Resting s where
  usable : s.usable = true

section Drive

variable {σ : Type} {driver : Tables → ℕ → FsOp → σ → Option (ℤ × σ)} {s : Tables} {m : σ} {r : ℤ} {k c : Code}

/-- The operation starts. -/
def Tables.started (s : Tables) : Tables := { s with ops := s.ops + 1 }

theorem drive_startOp (h : Idle s) :
    (Code.startOp fun ok => if !ok then .ret r else c).drive driver s m = c.drive driver s.started m := by
  have hstart : vfsStartOp s = s.started := if_pos h.usable
  have hop : ¬ s.sem .op = 0 := by
    rw [h.op]
    exact Nat.one_ne_zero
  show (if s.sem .op = 0 then none
    else (if !s.usable then Code.ret r else c).drive driver (vfsStartOp s) m) = _
  rw [if_neg hop, hstart, h.usable]
  rfl

theorem drive_semP {x : Sem} (h : s.sem x = 1) : (Code.semP x k).drive driver s m = k.drive driver (s.setSem x 0) m := by
  have hne : s.sem x ≠ 0 := by
    rw [h]
    decide
  show (if s.sem x = 0 then none else k.drive driver (s.setSem x (s.sem x - 1)) m) = _
  rw [if_neg hne, h]

theorem drive_semV {x : Sem} (h : s.sem x = 0) : (Code.semV x k).drive driver s m = k.drive driver (s.setSem x 1) m := by
  show k.drive driver (s.setSem x (s.sem x + 1)) m = _
  rw [h]

theorem drive_look {k : Tables → Code} : (Code.look k).drive driver s m = (k s).drive driver s m := rfl

theorem drive_store {f : Tables → Tables} : (Code.store f k).drive driver s m = k.drive driver (f s) m := rfl

theorem drive_verify {file : ℤ} {k : Option Row → Code} :
    (Code.verify file k).drive driver s m = (k (vfsVerifyOpen s file)).drive driver s m := rfl

theorem drive_callFs {d : ℕ} {op : FsOp} {k : ℤ → Code} : (Code.callFs (.driver d) op k).drive driver s m =
    match driver s d op m with
    | none => none
    | some (r, m) => (k r).drive driver s m := by
  rw [Code.callFs, Code.drive]

theorem drive_endOp (h : Idle s) : (Code.endOp r).drive driver s.started m = some (r, s, m) := by
  have hend : ¬ (s.started.sem .op = 0 ∨ s.started.ops - 1 < 0) := by
    rintro (hop | hops)
    · exact absurd (h.op.symm.trans hop) Nat.one_ne_zero
    · have hback : s.started.ops - 1 = s.ops := Int.add_sub_cancel ..
      rw [hback] at hops
      exact absurd h.ops (not_le.2 hops)
  have hback : vfsEndOp s.started = s := by
    have husable : ¬ (s.started.usable = false ∧ s.started.ops - 1 = 0) := fun hc => by
      have husable := h.usable.symm.trans hc.1
      cases husable
    unfold vfsEndOp
    rw [if_neg husable]
    show { s with ops := s.ops + 1 - 1 } = s
    rw [Int.add_sub_cancel]
  show (if s.started.sem .op = 0 ∨ s.started.ops - 1 < 0 then none else some (r, vfsEndOp s.started, m)) = _
  rw [if_neg hend, hback]

end Drive

/-! ## Reading and writing an open file -/

/-- Row `row` with another seek position. -/
def Tables.seekTo (s : Tables) (row : Row) (position : ℤ) : Tables :=
  s.setFile row { s.files row with seekPosition := position }

/-- `file` is an open regular file of volume `d`, with the seek position inside. -/
structure OnHandle (s : FileSystems) (file : ℤ) (row : Row) (d : ℕ) (e : Fs.Slot) (f o : ℕ) : Prop where
  idle : Idle s.tables
  handle : vfsVerifyOpen s.tables file = some row
  driver : (s.tables.files row).filesystem = some (.driver d)
  fileid : (s.tables.files row).fileid = f
  seek : (s.tables.files row).seekPosition = o
  entry : OpenRegular (s.volumes d) e f
  layout : FileLayout (s.volumes d).disk f
  inside : o ≤ inodeFilesize ((s.volumes d).disk.blocks f)

/-- It is on a disk without errors. -/
structure OnFile (s : FileSystems) (file : ℤ) (row : Row) (d : ℕ) (e : Fs.Slot) (f o : ℕ) : Prop
    extends OnHandle s file row d e f o where
  works : (s.volumes d).disk.Works

section OnFile

variable {σ : Type} {driver : Tables → ℕ → FsOp → σ → Option (ℤ × σ)} {t : Tables} {m : σ} {s : FileSystems}
  {file : ℤ} {row : Row} {d : ℕ} {e : Fs.Slot} {f o n : ℕ}

theorem seekTo_self (h : (t.files row).seekPosition = o) : t.seekTo row o = t := by
  have hrow : ({ t.files row with seekPosition := (o : ℤ) } : OpenFileEntry) = t.files row := by
    rw [← h]
  rw [Tables.seekTo, hrow, Tables.setFile, Function.update_eq_self]

/-- **The end of `vfs_read` and `vfs_write`** moves the seek position. -/
theorem drive_advance (h : Idle t) (hseek : (t.files row).seekPosition = o) :
    (advance row (n : ℤ)).drive driver t.started m = some ((n : ℤ), t.seekTo row ((o + n : ℕ) : ℤ), m) := by
  unfold advance
  by_cases hpos : (n : ℤ) > 0
  · have hidle : Idle (t.seekTo row ((o + n : ℕ) : ℤ)) := ⟨⟨h.table, h.openfile, h.op, h.ops⟩, h.usable⟩
    have hback : ((t.started.setSem .openfile 0).setFile row
        { (t.started.setSem .openfile 0).files row with
          seekPosition := ((t.started.setSem .openfile 0).files row).seekPosition + n }).setSem .openfile 1 =
        (t.seekTo row ((o + n : ℕ) : ℤ)).started := by
      have hsem : Function.update (Function.update t.sem .openfile 0) .openfile 1 = t.sem := by
        rw [Function.update_idem, ← h.openfile, Function.update_eq_self]
      show ({ t with files := _, sem := Function.update (Function.update t.sem .openfile 0) .openfile 1,
                     ops := t.ops + 1 } : Tables) = _
      rw [hsem]
      show ({ t with files := Function.update t.files row { t.files row with
          seekPosition := (t.files row).seekPosition + n }, ops := t.ops + 1 } : Tables) = _
      rw [hseek, ← Nat.cast_add]
      rfl
    rw [if_pos hpos, drive_semP (show t.started.sem .openfile = 1 from h.openfile), drive_store, drive_semV (by rfl), hback,
      drive_endOp hidle]
  · have hzero : n = 0 := by omega
    rw [if_neg hpos, drive_endOp h, hzero, Nat.add_zero, seekTo_self hseek]

/-- A transfer that fails leaves the seek position. -/
theorem drive_advance_error (h : Idle t) :
    (advance row VFS_ERROR).drive driver t.started m = some (VFS_ERROR, t, m) := by
  unfold advance
  rw [if_neg (by decide), drive_endOp h]

/-- `vfs_read` up to the end of `sfs_read`. -/
theorem OnHandle.read_body (h : OnHandle s file row d e f o) {count : ℕ} {r : ℤ} {bytes : List UInt8}
    (hbody : (readBody f false count o).run gbdDevice (s.volumes d).disk = ((r, bytes), (s.volumes d).disk))
    {t : Tables} (hend : ∀ driver, (advance row r).drive (σ := (ℕ → Sfs) × List UInt8) driver s.tables.started
      (s.volumes, bytes) = some (r, t, s.volumes, bytes)) :
    s.read file count = some ((r, bytes), { s with tables := t }) := by
  have hread := h.entry.read count o
  rw [hbody] at hread
  have hsize : ¬ ((count : ℤ) < 0 ∨ true = false) := by
    rintro (hneg | hfalse)
    · omega
    · cases hfalse
  have hhandle : vfsVerifyOpen s.tables.started file = some row := h.handle
  have hdriver : (s.tables.started.files row).filesystem = some (.driver d) := h.driver
  have hfileid : (s.tables.started.files row).fileid = f := h.fileid
  have hseek : (s.tables.started.files row).seekPosition = o := h.seek
  unfold FileSystems.read vfsRead
  simp only [drive_startOp h.idle, drive_verify, hhandle, drive_look, if_neg hsize, hdriver, drive_callFs,
    Option.bind_some, hfileid, hseek, hread, Option.map_some, Function.update_eq_self]
  simp only [hend, Option.map_some]

/-- `vfs_read` of a file whose inode cannot be read. -/
theorem OnHandle.read_failed (h : OnHandle s file row d e f o) (he : (s.volumes d).disk.error f = true) (count : ℕ) :
    s.read file count = some ((VFS_ERROR, []), s) :=
  h.read_body (Fs.readBody_failed h.layout.inode_lt he count o) fun _ => drive_advance_error h.idle

/-- **`vfs_read`** of an open file: it is complete, or it ends at a block that fails and the seek position stays. -/
theorem OnHandle.read_run (h : OnHandle s file row d e f o) (he : (s.volumes d).disk.error f = false) {count g : ℕ}
    (hn : min count (inodeFilesize ((s.volumes d).disk.blocks f) - o) = n)
    (hg : goodBytes (s.volumes d).disk ((s.volumes d).disk.blocks f) o n = g) :
    s.read file count = some (if g = n then
        (((n : ℤ), fileSlice (s.volumes d).disk.blocks f o n), { s with tables := s.tables.seekTo row ((o + n : ℕ) : ℤ) })
      else ((VFS_ERROR, fileSlice (s.volumes d).disk.blocks f o g), s)) := by
  have hbody := Fs.readBody_run h.layout he h.inside hn
  simp only [hg] at hbody
  split
  · rename_i hall
    rw [if_pos hall, hall] at hbody
    exact h.read_body hbody fun _ => drive_advance h.idle h.seek
  · rename_i hpart
    rw [if_neg hpart] at hbody
    exact h.read_body hbody fun _ => drive_advance_error h.idle

theorem OnFile.shape (h : OnFile s file row d e f o) : FileShape (s.volumes d).disk f := ⟨h.layout, h.works⟩

/-- No block of the file fails. -/
theorem OnFile.goodBytes (h : OnFile s file row d e f o)
    (hn : n ≤ inodeFilesize ((s.volumes d).disk.blocks f) - o) :
    goodBytes (s.volumes d).disk ((s.volumes d).disk.blocks f) o n = n :=
  h.shape.goodBytes (by have := h.inside; omega)

/-- **`vfs_read`** on a disk without errors. -/
theorem OnFile.read_eq (h : OnFile s file row d e f o) (count : ℕ) :
    let n := min count (inodeFilesize ((s.volumes d).disk.blocks f) - o)
    s.read file count = some (((n : ℤ), (List.range n).map fun k => fileByte (s.volumes d).disk.blocks f (o + k)),
      { s with tables := s.tables.seekTo row ((o + n : ℕ) : ℤ) }) := by
  intro n
  rw [h.read_run (h.works f h.layout.inode_lt) rfl (h.goodBytes (Nat.min_le_right ..)), if_pos rfl]
  rfl

end OnFile

/-! ## Writing to a file in pieces -/

/-- The bytes `data` have been written to the file `f` from `o` on, and nothing else has changed. -/
structure WritesAt (blocks blocks' : ℕ → Fs.Block) (f o : ℕ) (data : List UInt8) : Prop where
  inside : ∀ k < data.length,
    (blocks' (inodeBlock (blocks f) ((o + k) / 512))).byte ((o + k) % 512) = data.getD k 0
  outside : ∀ b i, i < 512 →
    (∀ k < data.length, ¬ (b = inodeBlock (blocks f) ((o + k) / 512) ∧ i = (o + k) % 512)) →
    (blocks' b).byte i = (blocks b).byte i

section WritesAt

variable {disk : Fs.Gbd} {blocks blocks' blocks1 blocks2 : ℕ → Fs.Block} {f o : ℕ} {data xs ys : List UInt8}

/-- The inode stays. -/
theorem WritesAt.inode (h : WritesAt disk.blocks blocks' f o data) (hlayout : FileLayout disk f)
    (hin : o + data.length ≤ inodeFilesize (disk.blocks f)) : blocks' f = disk.blocks f := by
  refine Buf.ext_byte fun i hi => h.outside f i hi fun k hk ⟨hf, _⟩ => ?_
  exact hlayout.ne (show 512 * ((o + k) / 512) < _ by omega) hf.symm

/-- There is one outcome. -/
theorem WritesAt.unique (h1 : WritesAt blocks blocks1 f o data) (h2 : WritesAt blocks blocks2 f o data) :
    blocks1 = blocks2 := by
  funext b
  refine Buf.ext_byte fun i hi => ?_
  by_cases hat : ∃ k < data.length, b = inodeBlock (blocks f) ((o + k) / 512) ∧ i = (o + k) % 512
  · obtain ⟨k, hk, rfl, rfl⟩ := hat
    rw [h1.inside k hk, h2.inside k hk]
  · have hout : ∀ k < data.length, ¬ (b = inodeBlock (blocks f) ((o + k) / 512) ∧ i = (o + k) % 512) :=
      fun k hk hc => hat ⟨k, hk, hc⟩
    rw [h1.outside b i hi hout, h2.outside b i hi hout]

/-- Two offsets in a file are in different places. -/
theorem FileLayout.place_inj (hlayout : FileLayout disk f) {x y : ℕ} (hx : x < inodeFilesize (disk.blocks f))
    (hy : y < inodeFilesize (disk.blocks f))
    (hblock : inodeBlock (disk.blocks f) (x / 512) = inodeBlock (disk.blocks f) (y / 512))
    (hbyte : x % 512 = y % 512) : x = y := by
  have hsame := hlayout.inj (show 512 * (x / 512) < _ by omega) (show 512 * (y / 512) < _ by omega) hblock
  omega

/-- **Two writes one behind the other** are one write. -/
theorem WritesAt.append (hlayout : FileLayout disk f) (h1 : WritesAt disk.blocks blocks1 f o xs)
    (h2 : WritesAt blocks1 blocks2 f (o + xs.length) ys)
    (hin : o + xs.length + ys.length ≤ inodeFilesize (disk.blocks f)) : WritesAt disk.blocks blocks2 f o (xs ++ ys) := by
  have hinode := h1.inode hlayout (by omega)
  obtain ⟨hin2, hout2⟩ := h2
  rw [hinode] at hin2 hout2
  refine ⟨fun k hk => ?_, fun b i hi hout => ?_⟩
  · rw [List.length_append] at hk
    rcases Nat.lt_or_ge k xs.length with hlt | hge
    · rw [List.getD_append _ _ _ _ hlt, ← h1.inside k hlt]
      refine hout2 _ _ (Nat.mod_lt _ (by decide)) fun j hj ⟨hblock, hbyte⟩ => ?_
      have hsame := FileLayout.place_inj hlayout (by omega) (by omega) hblock hbyte
      omega
    · rw [List.getD_append_right _ _ _ _ hge, ← hin2 (k - xs.length) (by omega)]
      have hat : o + xs.length + (k - xs.length) = o + k := by omega
      rw [hat]
  · rw [hout2 b i hi fun k hk hc => hout (xs.length + k) (by rw [List.length_append]; omega) (by rwa [← Nat.add_assoc])]
    exact h1.outside b i hi fun k hk => hout k (by rw [List.length_append]; omega)

/-- No bytes are written. -/
theorem WritesAt.nothing : WritesAt blocks blocks f o [] := ⟨fun _ hk => absurd hk (Nat.not_lt_zero _), fun _ _ _ _ => rfl⟩

/-- What `sfs_write` writes. -/
theorem WritesAt.of_written {n : ℕ} (h : Fs.Written blocks blocks' f o n data) (hn : n ≤ data.length) :
    WritesAt blocks blocks' f o (data.take n) := by
  have hlen : (data.take n).length = n := by
    rw [List.length_take]
    omega
  refine ⟨fun k hk => ?_, fun b i hi hout => h.outside hi (by rwa [hlen] at hout)⟩
  rw [hlen] at hk
  have hat : 512 * ((o + k) / 512) + (o + k) % 512 = o + k := Nat.div_add_mod ..
  rw [h.byte _ (by omega) (by omega) _ (Nat.mod_lt _ (by decide)), hat, if_pos (by omega), Nat.add_sub_cancel_left,
    List.getD_eq_getElem?_getD, List.getD_eq_getElem?_getD, List.getElem?_take, if_pos hk]

/-- A file keeps its blocks when its inode stays. -/
theorem FileLayout.withBlocks (h : FileLayout disk f) (hinode : blocks' f = disk.blocks f) :
    FileLayout (disk.withBlocks blocks') f := by
  refine ⟨h.inode_lt, ?_, ?_, ?_, ?_⟩
  all_goals rw [Fs.withBlocks_blocks, hinode]
  · exact h.size
  · exact h.lt
  · exact h.ne
  · exact h.inj

end WritesAt

section OnFile

variable {s : FileSystems} {file : ℤ} {row : Row} {d : ℕ} {e : Fs.Slot} {f o : ℕ}

/-- The seek position is moved inside the file. -/
theorem OnHandle.seekTo (h : OnHandle s file row d e f o) {o' : ℕ} (hin : o' ≤ inodeFilesize ((s.volumes d).disk.blocks f)) :
    OnHandle { s with tables := s.tables.seekTo row o' } file row d e f o' := by
  have hrow : (s.tables.seekTo row o').files row = { s.tables.files row with seekPosition := (o' : ℤ) } :=
    Function.update_self ..
  have hopen : ∀ i, ((s.tables.seekTo row o').files i).filesystem = (s.tables.files i).filesystem := fun i => by
    by_cases hi : i = row
    · rw [hi, hrow]
    · exact congrArg OpenFileEntry.filesystem (Function.update_of_ne hi ..)
  refine ⟨⟨⟨h.idle.table, h.idle.openfile, h.idle.op, h.idle.ops⟩, h.idle.usable⟩, ?_, ?_, ?_, ?_, h.entry, h.layout, hin⟩
  · have hverify : vfsVerifyOpen (s.tables.seekTo row o') file = vfsVerifyOpen s.tables file := by
      unfold vfsVerifyOpen
      simp only [hopen]
    exact hverify.trans h.handle
  · exact (hopen row).trans h.driver
  · show ((s.tables.seekTo row o').files row).fileid = f
    rw [hrow]
    exact h.fileid
  · show ((s.tables.seekTo row o').files row).seekPosition = o'
    rw [hrow]

/-- The blocks of the file are written. -/
def FileSystems.setBlocks (s : FileSystems) (d : ℕ) (blocks : ℕ → Fs.Block) : FileSystems :=
  s.setVolume d { s.volumes d with disk := (s.volumes d).disk.withBlocks blocks }

theorem OnHandle.setBlocks (h : OnHandle s file row d e f o) {blocks : ℕ → Fs.Block}
    (hinode : blocks f = (s.volumes d).disk.blocks f) : OnHandle (s.setBlocks d blocks) file row d e f o := by
  have hvolume : (s.setBlocks d blocks).volumes d =
      { s.volumes d with disk := (s.volumes d).disk.withBlocks blocks } := Function.update_self ..
  have hentry := h.entry
  refine ⟨h.idle, h.handle, h.driver, h.fileid, h.seek, ?_, ?_, ?_⟩
  · rw [hvolume]
    exact ⟨hentry.fileid, hentry.only, hentry.regular, hentry.opened, hentry.readernum, hentry.writerTid, hentry.inode⟩
  · rw [hvolume]
    exact FileLayout.withBlocks h.layout hinode
  · rw [hvolume]
    show o ≤ inodeFilesize (blocks f)
    rw [hinode]
    exact h.inside

/-- `vfs_write` up to the end of `sfs_write`. -/
theorem OnHandle.write_body (h : OnHandle s file row d e f o) {tid : ℤ} {buffer : List UInt8} {count : ℕ} {r : ℤ}
    {blocks' : ℕ → Fs.Block} (hbody : (writeBody f buffer count o).run gbdDevice (s.volumes d).disk =
      (r, (s.volumes d).disk.withBlocks blocks'))
    {t : Tables} (hend : ∀ driver, (advance row r).drive (σ := ℕ → Sfs) driver s.tables.started
      (s.setBlocks d blocks').volumes = some (r, t, (s.setBlocks d blocks').volumes)) :
    s.write tid file buffer count = some (r, { s.setBlocks d blocks' with tables := t }) := by
  have hwrite := h.entry.write tid buffer count o
  rw [hbody] at hwrite
  have hsize : ¬ ((count : ℤ) < 0 ∨ true = false) := by
    rintro (hneg | hfalse)
    · omega
    · cases hfalse
  have hhandle : vfsVerifyOpen s.tables.started file = some row := h.handle
  have hdriver : (s.tables.started.files row).filesystem = some (.driver d) := h.driver
  have hfileid : (s.tables.started.files row).fileid = f := h.fileid
  have hseek : (s.tables.started.files row).seekPosition = o := h.seek
  unfold FileSystems.write vfsWrite
  simp only [drive_startOp h.idle, drive_verify, hhandle, drive_look, if_neg hsize, hdriver, drive_callFs,
    Option.bind_some, hfileid, hseek, hwrite, Option.map_some]
  exact congrArg _ (hend _)

theorem setBlocks_self (fs : FileSystems) (d : ℕ) : fs.setBlocks d (fs.volumes d).disk.blocks = fs := by
  have hvolume : ({ fs.volumes d with disk := (fs.volumes d).disk.withBlocks (fs.volumes d).disk.blocks } : Fs.Sfs) =
      fs.volumes d := rfl
  unfold FileSystems.setBlocks FileSystems.setVolume
  rw [hvolume, Function.update_eq_self]

/-- `vfs_write` to a file whose inode cannot be read. -/
theorem OnHandle.write_failed (h : OnHandle s file row d e f o) (he : (s.volumes d).disk.error f = true) (tid : ℤ)
    (buffer : List UInt8) (count : ℕ) : s.write tid file buffer count = some (VFS_ERROR, s) := by
  have hbody : (writeBody f buffer count o).run gbdDevice (s.volumes d).disk =
      (VFS_ERROR, (s.volumes d).disk.withBlocks (s.volumes d).disk.blocks) :=
    Fs.writeBody_failed h.layout.inode_lt he buffer count o
  rw [h.write_body hbody fun _ => drive_advance_error h.idle, setBlocks_self]

/-- **`vfs_write`** to an open file: it is complete, or it ends at a block that fails and the seek position stays. -/
theorem OnHandle.write_run (h : OnHandle s file row d e f o) (he : (s.volumes d).disk.error f = false) (tid : ℤ)
    {buffer : List UInt8} {count n g : ℕ} (hcount : count ≤ buffer.length)
    (hn : min count (inodeFilesize ((s.volumes d).disk.blocks f) - o) = n)
    (hg : goodBytes (s.volumes d).disk ((s.volumes d).disk.blocks f) o n = g) :
    ∃ blocks', s.write tid file buffer count = some (if g = n then
          ((n : ℤ), { s.setBlocks d blocks' with tables := s.tables.seekTo row ((o + n : ℕ) : ℤ) })
        else (VFS_ERROR, s.setBlocks d blocks')) ∧
      WritesAt (s.volumes d).disk.blocks blocks' f o (buffer.take g) := by
  obtain ⟨blocks', hbody, hwritten⟩ := Fs.writeBody_run h.layout he hcount h.inside hn
  simp only [hg] at hbody hwritten
  have hle : g ≤ n := by
    rw [← hg]
    exact Fs.goodBytes_le
  refine ⟨blocks', ?_, ?_⟩
  · split
    · rename_i hall
      rw [if_pos hall] at hbody
      exact h.write_body hbody fun _ => drive_advance h.idle h.seek
    · rename_i hpart
      rw [if_neg hpart] at hbody
      exact h.write_body hbody fun _ => drive_advance_error h.idle
  · split at hwritten
    · rename_i h0
      rw [hwritten, h0, List.take_zero]
      exact WritesAt.nothing
    · exact WritesAt.of_written hwritten (by omega)

/-- **`vfs_write`** on a disk without errors. -/
theorem OnFile.write_eq (h : OnFile s file row d e f o) (tid : ℤ) {buffer : List UInt8} {count : ℕ}
    (hcount : count ≤ buffer.length) :
    let n := min count (inodeFilesize ((s.volumes d).disk.blocks f) - o)
    ∃ blocks', s.write tid file buffer count =
        some ((n : ℤ), { s.setBlocks d blocks' with tables := s.tables.seekTo row ((o + n : ℕ) : ℤ) }) ∧
      WritesAt (s.volumes d).disk.blocks blocks' f o (buffer.take n) := by
  intro n
  obtain ⟨blocks', hwrite, hwrites⟩ := h.write_run (h.works f h.layout.inode_lt) tid hcount rfl
    (h.goodBytes (Nat.min_le_right ..))
  rw [if_pos rfl] at hwrite
  exact ⟨blocks', hwrite, hwrites⟩

end OnFile

end Buenos.Vfs
