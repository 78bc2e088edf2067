import Buenos.Fs.Sfs.Format
import Mathlib.Data.List.FinRange
import Mathlib.Logic.Function.Basic

/-!
# The virtual filesystem

Translation of `fs/vfs.c`.

* `Tables` — `vfs_table`, `openfile_table`, `vfs_ops`, `vfs_usable` and the four semaphores.
* `Code` — a VFS function as a tree of steps: a semaphore operation, `vfs_start_op`, `vfs_end_op`,
  `vfs_verify_open`, an access to the tables between two of these, the entry into a function of a
  filesystem driver.  What a driver function returns is chosen when it returns.
* `vfsMount`, `vfsUnmount`, `vfsOpen`, `vfsClose`, `vfsSeek`, `vfsRead`, `vfsWrite`, `vfsCreate`,
  `vfsRemove`, `vfsGetfree`, `vfsDeinit` — the functions.

`vfs_start_op` and `vfs_end_op` are one section of `vfs_op_sem` each, and nothing is done between
`vfs_end_op` and the return.
-/

namespace Buenos.Vfs

open Buenos.Fs (VFS_OK VFS_ERROR VFS_NOT_FOUND)

def VFS_NO_SUCH_FS : ℤ := -6
def VFS_LIMIT : ℤ := -7
def VFS_IN_USE : ℤ := -8
def VFS_UNUSABLE : ℤ := -9

def VFS_NAME_LENGTH : ℕ := 16
def CONFIG_MAX_FILESYSTEMS : ℕ := 8
def CONFIG_MAX_OPEN_FILES : ℕ := 512

/-- A row of the table of open files. -/
abbrev Row := Fin CONFIG_MAX_OPEN_FILES

/-- A row of the mount table. -/
abbrev Mount := Fin CONFIG_MAX_FILESYSTEMS

/-- A C string without its terminating zero. -/
abbrev Str := List UInt8

/-- A pointer to `fs_t` that is not `NULL`: a driver, or the `(void *) 1` of the rows that are
reserved for the standard streams. -/
inductive FsPtr where
  | reserved
  | driver (id : ℕ)
  deriving DecidableEq

/-- `vfs_entry_t`. -/
structure VfsEntry where
  filesystem : Option FsPtr
  mountpoint : Str
  deriving DecidableEq

/-- `openfile_entry_t`. -/
structure OpenFileEntry where
  filesystem : Option FsPtr
  fileid : ℤ
  seekPosition : ℤ
  deriving DecidableEq

/-- The semaphores of `vfs.c`. -/
inductive Sem where
  | table
  | openfile
  | op
  | unmount
  deriving DecidableEq

/-- The static data of `vfs.c`. -/
structure Tables where
  filesystems : Mount → VfsEntry
  files : Row → OpenFileEntry
  sem : Sem → ℕ
  ops : ℤ
  usable : Bool

namespace Tables

def setFile (s : Tables) (i : Row) (f : OpenFileEntry) : Tables :=
  { s with files := Function.update s.files i f }

def setMount (s : Tables) (i : Mount) (e : VfsEntry) : Tables :=
  { s with filesystems := Function.update s.filesystems i e }

def setSem (s : Tables) (x : Sem) (v : ℕ) : Tables := { s with sem := Function.update s.sem x v }

/-- Set the `filesystem` field of a row of open files. -/
def setFs (s : Tables) (i : Row) (fs : Option FsPtr) : Tables :=
  s.setFile i { s.files i with filesystem := fs }

end Tables

/-- The state that `vfs_init` leaves. -/
def vfsInit : Tables where
  filesystems := fun _ => ⟨none, []⟩
  files := fun i => ⟨if i.val < 3 then some .reserved else none, 0, 0⟩
  sem := fun x => if x = .unmount then 0 else 1
  ops := 0
  usable := true

/-- The functions of a driver. -/
inductive FsOp where
  | open
  | close
  | create
  | remove
  | read
  | write
  | getfree
  | unmount
  deriving DecidableEq

/-- What is left to do of a VFS function. -/
inductive Code where
  /-- `return r` -/
  | ret (r : ℤ)
  /-- `vfs_end_op(); return r` -/
  | endOp (r : ℤ)
  /-- `vfs_start_op()`, which tells whether the operation may continue -/
  | startOp (k : Bool → Code)
  /-- `semaphore_P` -/
  | semP (x : Sem) (k : Code)
  /-- `semaphore_V` -/
  | semV (x : Sem) (k : Code)
  /-- `vfs_verify_open(file)` -/
  | verify (file : ℤ) (k : Option Row → Code)
  /-- reads and writes of the tables; `k` gets the tables before the writes -/
  | access (f : Tables → Tables) (k : Tables → Code)
  /-- a call of a driver function; `k` gets its return value -/
  | enter (fs : ℕ) (op : FsOp) (k : ℤ → Code)
  /-- a failed assertion or a jump through a bad pointer -/
  | crash

namespace Code

/-- Read the tables. -/
def look (k : Tables → Code) : Code := .access id k

/-- Write the tables. -/
def store (f : Tables → Tables) (k : Code) : Code := .access f fun _ => k

/-- Call a function through a pointer to a filesystem. -/
def callFs (fs : FsPtr) (op : FsOp) (k : ℤ → Code) : Code :=
  match fs with
  | .reserved => .crash
  | .driver id => .enter id op k

end Code

open Code

/-! ## Helpers of the functions -/

/-- `stringcopy` into a buffer of `buflen` bytes. -/
def stringcopy (source : Str) (buflen : ℕ) : Str := source.take (buflen - 1)

/-- The first row of the mount table with the given name. -/
def findMount (s : Tables) (name : Str) : Option Mount :=
  (List.finRange CONFIG_MAX_FILESYSTEMS).find? fun i => (s.filesystems i).mountpoint = name

/-- `vfs_get_filesystem`. -/
def vfsGetFilesystem (s : Tables) (mountpoint : Str) : Option FsPtr :=
  match findMount s mountpoint with
  | none => none
  | some row => (s.filesystems row).filesystem

/-- The row with the given name and the filesystem mounted there. -/
def mountedAs (s : Tables) (name : Str) : Option (Mount × FsPtr) :=
  match findMount s name with
  | none => none
  | some row => ((s.filesystems row).filesystem).map fun fs => (row, fs)

/-- The first free row of the mount table. -/
def freeMount (s : Tables) : Option Mount :=
  (List.finRange CONFIG_MAX_FILESYSTEMS).find? fun i => (s.filesystems i).filesystem = none

/-- The first free row of the table of open files. -/
def freeRow (s : Tables) : Option Row :=
  (List.finRange CONFIG_MAX_OPEN_FILES).find? fun i => (s.files i).filesystem = none

/-- Some row of the table of open files is on the filesystem. -/
def inUse (s : Tables) (fs : FsPtr) : Bool :=
  (List.finRange CONFIG_MAX_OPEN_FILES).any fun i => (s.files i).filesystem = some fs

/-- `vfs_verify_open`. -/
def vfsVerifyOpen (s : Tables) (file : ℤ) : Option Row :=
  if h : 0 ≤ file ∧ file < CONFIG_MAX_OPEN_FILES then
    have hlt : file.toNat < CONFIG_MAX_OPEN_FILES := by omega
    if (s.files ⟨file.toNat, hlt⟩).filesystem = none then none else some ⟨file.toNat, hlt⟩
  else none

/-- The volume part of a path after its `[`: the name, and what follows the `]`.  `i` bytes of the
buffer are used. -/
def parseVolume (i : ℕ) : Str → Option (Str × Str)
  | [] => none
  | c :: rest =>
    if i ≥ VFS_NAME_LENGTH - 1 then none
    else if c = 93 then some ([], rest)
    else (parseVolume (i + 1) rest).map fun r => (c :: r.1, r.2)

/-- `vfs_parse_pathname`: volume and file name, or `VFS_ERROR`. -/
def vfsParsePathname (pathname : Str) : Option (Str × Str) :=
  let split := match pathname with
    | 91 :: rest => parseVolume 0 rest
    | _ => some ([], pathname)
  match split with
  | none => none
  | some (volume, filename) =>
    if filename = [] ∨ VFS_NAME_LENGTH ≤ filename.length then none else some (volume, filename)

/-! ## Mounting -/

/-- What `vfs_mount` finds with `vfs_table` locked: an error, or the row to use. -/
def mountRow (s : Tables) (name : Str) : Except ℤ Mount :=
  match freeMount s with
  | none => .error VFS_LIMIT
  | some row => if (findMount s name).isSome then .error VFS_ERROR else .ok row

/-- The mount table after the search of `vfs_mount`. -/
def Tables.mounted (s : Tables) (fs : ℕ) (name : Str) : Except ℤ Mount → Tables
  | .error _ => s
  | .ok row => s.setMount row ⟨some (.driver fs), stringcopy name VFS_NAME_LENGTH⟩

/-- `vfs_mount`. -/
def vfsMount (fs : ℕ) (name : Str) : Code :=
  if name = [] then .ret VFS_ERROR else
  .startOp fun ok => if !ok then .ret VFS_UNUSABLE else
  .semP .table <|
  .access (fun s => s.mounted fs name (mountRow s name)) fun s =>
  .semV .table <|
  match mountRow s name with
  | .error r => .endOp r
  | .ok _ => .endOp VFS_OK

/-- `vfs_unmount`. -/
def vfsUnmount (name : Str) : Code :=
  .startOp fun ok => if !ok then .ret VFS_UNUSABLE else
  .semP .table <| look fun s =>
  match mountedAs s name with
  | none => .semV .table <| .endOp VFS_NOT_FOUND
  | some (row, fs) =>
  .semP .openfile <| look fun s =>
  if inUse s fs then
    .semV .openfile <| .semV .table <| .endOp VFS_IN_USE
  else
  callFs fs .unmount fun _ =>
  store (fun s => s.setMount row { s.filesystems row with filesystem := none }) <|
  .semV .openfile <| .semV .table <| .endOp VFS_OK

/-! ## Files -/

/-- What `vfs_open` finds with both tables locked: an error, or the row it reserves and the
filesystem. -/
def openRow (s : Tables) (volumename : Str) : Except ℤ (Row × FsPtr) :=
  match freeRow s with
  | none => .error VFS_LIMIT
  | some file => match vfsGetFilesystem s volumename with
    | none => .error VFS_NO_SUCH_FS
    | some fs => .ok (file, fs)

/-- The table of open files after the search of `vfs_open`. -/
def Tables.reserved (s : Tables) : Except ℤ (Row × FsPtr) → Tables
  | .error _ => s
  | .ok (file, fs) => s.setFs file (some fs)

/-- `vfs_open`. -/
def vfsOpen (pathname : Str) : Code :=
  .startOp fun ok => if !ok then .ret VFS_UNUSABLE else
  match vfsParsePathname pathname with
  | none => .endOp VFS_ERROR
  | some (volumename, _) =>
  .semP .table <| .semP .openfile <|
  .access (fun s => s.reserved (openRow s volumename)) fun s =>
  .semV .openfile <| .semV .table <|
  match openRow s volumename with
  | .error r => .endOp r
  | .ok (file, fs) =>
  callFs fs .open fun fileid =>
  if fileid < 0 then
    .semP .openfile <| store (fun s => s.setFs file none) <| .semV .openfile <| .endOp fileid
  else
  store (fun s => s.setFile file { s.files file with fileid := fileid, seekPosition := 0 }) <|
  .endOp file.val

/-- `vfs_close`. -/
def vfsClose (file : ℤ) : Code :=
  .startOp fun ok => if !ok then .ret VFS_UNUSABLE else
  .semP .openfile <| .verify file fun openfile =>
  match openfile with
  | none => .semV .openfile <| .ret VFS_ERROR
  | some row => look fun s =>
  match (s.files row).filesystem with
  | none => .crash
  | some fs =>
  callFs fs .close fun ret =>
  store (fun s => s.setFs row none) <| .semV .openfile <| .endOp ret

/-- `vfs_seek`. -/
def vfsSeek (file seekPosition : ℤ) : Code :=
  .startOp fun ok => if !ok then .ret VFS_UNUSABLE else
  if seekPosition < 0 then .ret VFS_ERROR else
  .semP .openfile <| .verify file fun openfile =>
  match openfile with
  | none => .semV .openfile <| .ret VFS_ERROR
  | some row =>
  store (fun s => s.setFile row { s.files row with seekPosition := seekPosition }) <|
  .semV .openfile <| .endOp VFS_OK

/-- The common end of `vfs_read` and `vfs_write`. -/
def advance (row : Row) (ret : ℤ) : Code :=
  if ret > 0 then
    .semP .openfile <|
    store (fun s => s.setFile row
      { s.files row with seekPosition := (s.files row).seekPosition + ret }) <|
    .semV .openfile <| .endOp ret
  else .endOp ret

/-- `vfs_read`; `buffer` tells whether the buffer is not `NULL`. -/
def vfsRead (file : ℤ) (buffer : Bool) (bufsize : ℤ) : Code :=
  .startOp fun ok => if !ok then .ret VFS_UNUSABLE else
  .verify file fun openfile =>
  match openfile with
  | none => .ret VFS_ERROR
  | some row => look fun s =>
  if bufsize < 0 ∨ buffer = false then .ret VFS_ERROR else
  match (s.files row).filesystem with
  | none => .crash
  | some fs => callFs fs .read (advance row)

/-- `vfs_write`; a negative size or a `NULL` buffer fails an assertion. -/
def vfsWrite (file : ℤ) (buffer : Bool) (datasize : ℤ) : Code :=
  .startOp fun ok => if !ok then .ret VFS_UNUSABLE else
  .verify file fun openfile =>
  match openfile with
  | none => .ret VFS_ERROR
  | some row => look fun s =>
  if datasize < 0 ∨ buffer = false then .crash else
  match (s.files row).filesystem with
  | none => .crash
  | some fs => callFs fs .write (advance row)

/-- The common end of `vfs_create`, `vfs_remove` and `vfs_getfree`: call a driver function with
`vfs_table` locked. -/
def callLocked (volumename : Str) (op : FsOp) : Code :=
  .semP .table <| look fun s =>
  match vfsGetFilesystem s volumename with
  | none => .semV .table <| .endOp VFS_NO_SUCH_FS
  | some fs => callFs fs op fun ret => .semV .table <| .endOp ret

/-- `vfs_create`. -/
def vfsCreate (pathname : Str) (size : ℤ) : Code :=
  if size < 0 then .ret VFS_OK else
  .startOp fun ok => if !ok then .ret VFS_UNUSABLE else
  match vfsParsePathname pathname with
  | none => .endOp VFS_ERROR
  | some (volumename, _) => callLocked volumename .create

/-- `vfs_remove`. -/
def vfsRemove (pathname : Str) : Code :=
  .startOp fun ok => if !ok then .ret VFS_UNUSABLE else
  match vfsParsePathname pathname with
  | none => .endOp VFS_ERROR
  | some (volumename, _) => callLocked volumename .remove

/-- `vfs_getfree`. -/
def vfsGetfree (filesystem : Str) : Code :=
  .startOp fun ok => if !ok then .ret VFS_UNUSABLE else callLocked filesystem .getfree

/-! ## Shutting down -/

/-- The loop of `vfs_deinit` over the rows of the mount table. -/
def unmountRows : List Mount → Code → Code
  | [], k => k
  | row :: rows, k => look fun s =>
    match (s.filesystems row).filesystem with
    | none => unmountRows rows k
    | some fs => callFs fs .unmount fun _ =>
      store (fun s => s.setMount row { s.filesystems row with filesystem := none }) <|
      unmountRows rows k

/-- `vfs_deinit` from the locking of the tables on. -/
def deinitTables : Code :=
  .semP .table <| .semP .openfile <|
  unmountRows (List.finRange CONFIG_MAX_FILESYSTEMS) <|
  .semV .openfile <| .semV .table <| .semV .op <| .ret VFS_OK

/-- `vfs_deinit`. -/
def vfsDeinit : Code :=
  .semP .op <|
  .access (fun s => { s with usable := false }) fun s =>
  if s.ops > 0 then
    .semV .op <| .semP .unmount <| .semP .op <| look fun s =>
    if s.ops = 0 then deinitTables else .crash
  else deinitTables

end Buenos.Vfs
