import Buenos.Fs.Sfs.Model

/-!
# The trivial filesystem (`fs/tfs.c`)

Functional model of the TFS operations on an explicit state (`Tfs`): the size of the volume and the
device.  Every operation runs under the one semaphore `tfs->lock` from its first statement to its
last, so each is one function.

The blocks of a TFS volume have the layout of `Fs.Sfs.Format` (an SFS virtual block is one block).
The loops that `fs/tfs.c` and `fs/sfs.c` share statement by statement are the functions of
`Fs.Sfs.Model`: the allocation loop (`allocBlocks`), the rest of the inode (`clearTail`), the zeroing
loop (in `writeNewFile`), the loop that frees the blocks of an inode (`freeBlocks`), and the transfers
of `tfs_read` and `tfs_write` (`readBody`, `writeBody`).

* `findName` — the search of `tfs_open` and `tfs_remove`, which does not look at the inode.
* `findSlot` — the loop of `tfs_create`: the name must be new, and the last free slot wins.
* `tfsOpen`, `tfsClose`, `tfsCreate`, `tfsRemove`, `tfsRead`, `tfsWrite`, `tfsInit` — the operations.
-/

namespace Buenos.Fs

open Bytes BlockProgram

def TFS_BLOCK_SIZE : ℕ := 512
def TFS_ALLOCATION_BLOCK : ℕ := 1
def TFS_DIRECTORY_BLOCK : ℕ := 2
/-- Block pointers of one inode: `TFS_BLOCK_SIZE / 4 - 1`. -/
def TFS_BLOCKS_MAX : ℕ := 127
/-- Entries of the directory block: `TFS_BLOCK_SIZE / sizeof(tfs_direntry_t)`. -/
def TFS_MAX_FILES : ℕ := 25

/-- `tfs_t` without its lock and buffers. -/
structure Tfs where
  totalblocks : ℕ
  disk : Gbd

/-- The search of `tfs_open` and `tfs_remove`: the first entry with the given name, free or not. -/
def findName (md : Block) (filename : List UInt8) : ℕ → ℕ → Option ℕ
  | 0, _ => none
  | k + 1, i => if direntName md i = filename then some i else findName md filename k (i + 1)

/-- `tfs_open`. -/
def tfsOpen (t : Tfs) (filename : List UInt8) : ℤ :=
  match readVblock t.disk TFS_DIRECTORY_BLOCK with
  | none => VFS_ERROR
  | some md =>
    match findName md filename TFS_MAX_FILES 0 with
    | some i => sint (direntInode md i)
    | none => VFS_NOT_FOUND

/-- `tfs_close`: there is nothing to be done. -/
def tfsClose (_fileid : ℤ) : ℤ := VFS_OK

/-- `numblocks` of `tfs_create`: the sum is taken on `int`, its quotient is converted to
`uint32_t`. -/
def tfsNumBlocks (size : ℤ) : ℕ :=
  ((sint ((size + TFS_BLOCK_SIZE - 1) % 2 ^ 32).toNat).tdiv TFS_BLOCK_SIZE % 2 ^ 32).toNat

/-- The loop of `tfs_create` over the directory block: `none` when the name is taken, else the last
free slot (`some none` for `index == -1`). -/
def findSlot (md : Block) (filename : List UInt8) : ℕ → ℕ → Option ℕ → Option (Option ℕ)
  | 0, _, index => some index
  | k + 1, i, index =>
    if direntName md i = filename then none
    else findSlot md filename k (i + 1) (if direntInode md i = 0 then some i else index)

/-- `tfs_create`.  Every word of the inode buffer is overwritten. -/
def tfsCreate (t : Tfs) (filename : List UInt8) (size : Int32) : ℤ × Tfs :=
  let numblocks := tfsNumBlocks size.toInt
  if numblocks > TFS_BLOCKS_MAX then (VFS_ERROR, t) else
  match readVblock t.disk TFS_DIRECTORY_BLOCK with
  | none => (VFS_ERROR, t)
  | some md =>
    match findSlot md filename TFS_MAX_FILES 0 none with
    | none => (VFS_ERROR, t)
    | some none => (VFS_ERROR, t)
    | some (some index) =>
      match readVblock t.disk TFS_ALLOCATION_BLOCK with
      | none => (VFS_ERROR, t)
      | some bat =>
        match bitmapFindnset bat t.totalblocks with
        | (none, _) => (VFS_ERROR, t)
        | (some fileInode, bat) =>
          let md := setDirent md index filename fileInode
          let inode := (Buf.const 512 0).setWord 0 (size.toInt % 2 ^ 32).toNat
          match allocBlocks t.totalblocks numblocks 0 bat inode with
          | none => (VFS_ERROR, t)
          | some (bat, inode) =>
            let inode := clearTail (TFS_BLOCKS_MAX - numblocks) numblocks inode
            match writeMeta t.disk bat TFS_DIRECTORY_BLOCK md with
            | (false, disk) => (VFS_ERROR, { t with disk := disk })
            | (true, disk) =>
              let r := writeNewFile disk fileInode inode numblocks
              (r.1, { t with disk := r.2 })

/-- Free entry `index` of the directory block: no inode, empty name. -/
def clearDirent (md : Block) (index : ℕ) : Block :=
  (md.setWord (20 * index) 0).store (20 * index + 4) [0]

/-- `tfs_remove`. -/
def tfsRemove (t : Tfs) (filename : List UInt8) : ℤ × Tfs :=
  match readVblock t.disk TFS_DIRECTORY_BLOCK with
  | none => (VFS_ERROR, t)
  | some md =>
    match findName md filename TFS_MAX_FILES 0 with
    | none => (VFS_NOT_FOUND, t)
    | some index =>
      match readVblock t.disk TFS_ALLOCATION_BLOCK with
      | none => (VFS_ERROR, t)
      | some bat =>
        match readVblock t.disk (direntInode md index) with
        | none => (VFS_ERROR, t)
        | some inode =>
          let bat := freeBlocks inode TFS_BLOCKS_MAX 0 (bitmapSet bat (direntInode md index) false)
          match writeMeta t.disk bat TFS_DIRECTORY_BLOCK (clearDirent md index) with
          | (false, disk) => (VFS_ERROR, { t with disk := disk })
          | (true, disk) => (VFS_OK, { t with disk := disk })

/-- The bounds check on `fileid` at the start of `tfs_read` and `tfs_write`. -/
def tfsBadFileid (t : Tfs) (fileid : ℤ) : Bool := fileid < 2 || fileid > sint t.totalblocks

/-- `tfs_read`: return value and bytes copied to the buffer. -/
def tfsRead (t : Tfs) (fileid bufsize offset : ℤ) : (ℤ × List UInt8) × Tfs :=
  if tfsBadFileid t fileid then ((VFS_ERROR, []), t) else
  let r := (readBody fileid.toNat false bufsize offset).run gbdDevice t.disk
  (r.1, { t with disk := r.2 })

/-- `tfs_write`; `buffer` holds at least `datasize` bytes. -/
def tfsWrite (t : Tfs) (fileid : ℤ) (buffer : List UInt8) (datasize offset : ℤ) : ℤ × Tfs :=
  if tfsBadFileid t fileid then (VFS_ERROR, t) else
  let r := (writeBody fileid.toNat buffer datasize offset).run gbdDevice t.disk
  (r.1, { t with disk := r.2 })

/-- The filesystem made by a successful `tfs_init` on `disk`. -/
def tfsInit (disk : Gbd) : Tfs := ⟨min disk.totalBlocks (8 * TFS_BLOCK_SIZE), disk⟩

end Buenos.Fs
