import Buenos.Fs.Sfs.Format

/-!
# The student filesystem (`fs/sfs.c`)

Functional model of the SFS operations on an explicit state (`Sfs`): the device and the table of
open files.  Every section that the source runs under `sfs->lock` or `sfs->openfile_lock` is one
function, and the operations are compositions of these sections, so that the same functions serve
the sequential and the interleaved semantics.

* `sfsEnterExt` / `sfsExit` — the sections under `openfile_lock`, with the nested sections
  `deleteFromDirtree` and `deleteBlocks` (`_delete`).
* `sfsResolveFileExt` — path resolution under `sfs->lock`.
* `sfsCreateIn` — the section of `sfs_create` under `sfs->lock`.
* `readBody` / `writeBody` — what `sfs_read` and `sfs_write` do between the reader/writer entry and
  `sfs_end_read` / `sfs_end_write`, as block programs (one node per block transfer).
* `sfsOpen`, `sfsClose`, `sfsCreate`, `sfsRemove`, `sfsRead`, `sfsWrite`, `sfsGetfree`,
  `sfsUnmount` — the operations.

The global buffers of `sfs_t` are always refilled before use and are local values here.
-/

namespace Buenos.Fs

open Bytes BlockProgram

/-- Index into the table of open files. -/
abbrev Slot := Fin 32

instance Slot.neZero : NeZero 32 := ⟨by decide⟩

/-- `sfs_openfile_t` without its lock and condition variable. -/
structure OpenFile where
  timesOpened : ℤ
  readernum : ℤ
  writerTid : ℤ
  fileid : ℤ
  parentid : ℤ
  isFolder : Bool
  isDeleted : Bool
  deriving DecidableEq, Repr

/-- `sfs_reset_entry`; `fileid = -1` indicates a free entry. -/
def sfsResetEntry : OpenFile := ⟨0, 0, -1, -1, -1, false, false⟩

/-- `sfs_t`. -/
structure Sfs where
  totalblocks : ℕ
  totalvblocks : ℕ
  disk : Gbd
  openFiles : Slot → OpenFile

/-- Replace one entry of the table. -/
def Sfs.setEntry (s : Sfs) (e : Slot) (f : OpenFile) : Sfs :=
  { s with openFiles := Function.update s.openFiles e f }

/-! ## Deletion -/

/-- The `while` loop of `_delete` over `block[i], block[i+1], …`. -/
def freeBlocks (inode : Block) : ℕ → ℕ → Block → Block
  | 0, _, bat => bat
  | k + 1, i, bat =>
    if inodeBlock inode i ≠ 0 then
      freeBlocks inode k (i + 1) (bitmapSet bat (inodeBlock inode i) false)
    else bat

/-- `_delete`: free the block `fileid` and, for a file, its data blocks; for a folder, entries that
name it as their parent lose their parent. -/
def deleteBlocks (s : Sfs) (fileid : ℤ) (isFolder : Bool) : Sfs :=
  match readVblock s.disk SFS_ALLOCATION_BLOCK with
  | none => s
  | some bat =>
    let bat := bitmapSet bat fileid.toNat false
    if isFolder then
      let s := { s with
        openFiles := fun i =>
          if (s.openFiles i).parentid = fileid then { s.openFiles i with parentid := -1 }
          else s.openFiles i }
      match writeVblock s.disk SFS_ALLOCATION_BLOCK bat with
      | none => s
      | some disk => { s with disk := disk }
    else
      match readVblock s.disk fileid.toNat with
      | none => s
      | some inode =>
        match writeVblock s.disk SFS_ALLOCATION_BLOCK (freeBlocks inode SFS_BLOCKS_MAX 0 bat) with
        | none => s
        | some disk => { s with disk := disk }

/-- The loop of `_delete_from_dirtree` over the entries `i, i + 1, …`. -/
def clearDirents (fileid : ℤ) : ℕ → ℕ → Block → Block
  | 0, _, md => md
  | k + 1, i, md =>
    clearDirents fileid k (i + 1)
      (if sint (direntInode md i) = fileid then (md.setWord (20 * i) 0).store (20 * i + 4) [0]
       else md)

/-- `_delete_from_dirtree`. -/
def deleteFromDirtree (disk : Gbd) (fileid parentid : ℤ) : Gbd :=
  if parentid > 0 then
    match readVblock disk parentid.toNat with
    | none => disk
    | some md =>
      match writeVblock disk parentid.toNat (clearDirents fileid SFS_MAX_FILES 0 md) with
      | none => disk
      | some disk => disk
  else disk

/-! ## The table of open files -/

/-- The search loop of `sfs_enter_ext`: the entry of `fileid`, else the first free entry. -/
def findEntry (files : Slot → OpenFile) (fileid : ℤ) : List Slot → Option Slot → Option Slot
  | [], f => f
  | i :: is, f =>
    if (files i).fileid = fileid then some i
    else if (files i).fileid = -1 ∧ f = none then findEntry files fileid is (some i)
    else findEntry files fileid is f

/-- `sfs_enter_ext`, one section under `openfile_lock`; `none` for `NULL`. -/
def sfsEnterExt (s : Sfs) (fileid parentid : ℤ) (isOpenOp isFolder markAsDeleted : Bool) :
    Option Slot × Sfs :=
  if fileid < 0 then (none, s) else
  match findEntry s.openFiles fileid (List.finRange 32) none with
  | none => (none, s)
  | some i =>
    if (s.openFiles i).fileid = -1 ∧ isOpenOp = false then (none, s) else
    let f := s.openFiles i
    let f := if f.fileid = -1 then
        { f with fileid := fileid, parentid := parentid, isFolder := isFolder } else f
    let f := if isOpenOp then { f with timesOpened := f.timesOpened + 1 } else f
    if markAsDeleted then
      let disk := if f.isDeleted then s.disk else deleteFromDirtree s.disk f.fileid f.parentid
      (some i, { s with disk := disk }.setEntry i { f with isDeleted := true })
    else (some i, s.setEntry i f)

/-- `sfs_enter`. -/
def sfsEnter (s : Sfs) (fileid : ℤ) : Option Slot × Sfs := sfsEnterExt s fileid (-1) false false false

/-- `sfs_exit`, one section under `openfile_lock`. -/
def sfsExit (s : Sfs) (entry : Slot) (isCloseOp : Bool) : Sfs :=
  let f := s.openFiles entry
  let f := if isCloseOp then { f with timesOpened := f.timesOpened - 1 } else f
  let s := s.setEntry entry f
  if f.timesOpened = 0 then
    let s := if f.isDeleted then deleteBlocks s f.fileid f.isFolder else s
    s.setEntry entry sfsResetEntry
  else s

/-! ## Path resolution -/

/-- The loop over the entries of a directory block: the first live entry with the given name. -/
def findDirent (md : Block) (filename : List UInt8) : ℕ → ℕ → Option ℕ
  | 0, _ => none
  | k + 1, i =>
    if direntInode md i > 0 ∧ direntName md i = filename then some i
    else findDirent md filename k (i + 1)

/-- Result of `sfs_resolve_file_ext`: the returned block number (or `VFS_ERROR`),
`*parent_inode` and `*parent_exists`. -/
structure Resolved where
  block : ℤ
  parentInode : ℤ
  parentExists : Bool
  deriving DecidableEq, Repr

/-- The loop of `sfs_resolve_file_ext` over the remaining path elements. -/
def resolveLoop (disk : Gbd) : List (List UInt8) → ℕ → ℤ → Resolved
  | [], block, parent => ⟨sint block, parent, false⟩
  | e :: es, block, _ =>
    match readVblock disk block with
    | none => ⟨VFS_ERROR, sint block, false⟩
    | some md =>
      match findDirent md e SFS_MAX_FILES 0 with
      | some i => resolveLoop disk es (direntInode md i) (sint block)
      | none => ⟨VFS_ERROR, sint block, es.isEmpty⟩

/-- `sfs_resolve_file_ext`, one section under `sfs->lock`. -/
def sfsResolveFileExt (s : Sfs) (path : List UInt8) : Resolved :=
  if sfsIsValidPath path then resolveLoop s.disk (pathElems path.tail) SFS_DIRECTORY_BLOCK (-1)
  else ⟨VFS_ERROR, -1, false⟩

/-! ## Creation -/

/-- The loop of `sfs_create` over the entries of the parent: the last free slot wins. -/
def findFreeDirent (md : Block) : ℕ → ℕ → Option ℕ → Option ℕ
  | 0, _, index => index
  | k + 1, i, index =>
    findFreeDirent md k (i + 1) (if direntInode md i = 0 then some i else index)

/-- The allocation loop of `sfs_create`; `none` when the disk is full. -/
def allocBlocks (totalvblocks : ℕ) : ℕ → ℕ → Block → Block → Option (Block × Block)
  | 0, _, bat, inode => some (bat, inode)
  | k + 1, i, bat, inode =>
    match bitmapFindnset bat totalvblocks with
    | (none, _) => none
    | (some p, bat) => allocBlocks totalvblocks k (i + 1) bat (inode.setWord (4 * (i + 1)) p)

/-- Mark the blocks `block[i], block[i+1], …` of an inode as unused. -/
def clearTail : ℕ → ℕ → Block → Block
  | 0, _, inode => inode
  | k + 1, i, inode => clearTail k (i + 1) (inode.setWord (4 * (i + 1)) 0)

/-- The loop that writes zeros to the reserved blocks; `false` when a write fails. -/
def zeroBlocks (inode : Block) : ℕ → ℕ → Gbd → Bool × Gbd
  | 0, _, disk => (true, disk)
  | k + 1, i, disk =>
    match writeVblock disk (inodeBlock inode i) (Buf.const 512 0) with
    | none => (false, disk)
    | some disk => zeroBlocks inode k (i + 1) disk

/-- Write the allocation block and the parent directory block. -/
def writeMeta (disk : Gbd) (bat : Block) (parent : ℕ) (md : Block) : Bool × Gbd :=
  match writeVblock disk SFS_ALLOCATION_BLOCK bat with
  | none => (false, disk)
  | some disk =>
    match writeVblock disk parent md with
    | none => (false, disk)
    | some disk => (true, disk)

/-- The last part of `sfs_create` for a file: write the inode and zero the data blocks. -/
def writeNewFile (disk : Gbd) (fileInode : ℕ) (inode : Block) (numvblocks : ℕ) : ℤ × Gbd :=
  match writeVblock disk fileInode inode with
  | none => (VFS_ERROR, disk)
  | some disk =>
    match zeroBlocks inode numvblocks 0 disk with
    | (false, disk) => (VFS_ERROR, disk)
    | (true, disk) => (VFS_OK, disk)

/-- The last part of `sfs_create` for a folder: `buffer_md` still holds the parent and only
`25 * 20` of its bytes are zeroed. -/
def writeNewFolder (disk : Gbd) (fileInode : ℕ) (md : Block) : ℤ × Gbd :=
  match writeVblock disk fileInode (md.store 0 (List.replicate (20 * SFS_MAX_FILES) 0)) with
  | none => (VFS_ERROR, disk)
  | some disk => (VFS_OK, disk)

/-- The directory entry written by `sfs_create`: `stringcopy` of the name, then the inode. -/
def setDirent (md : Block) (index : ℕ) (name : List UInt8) (inode : ℕ) : Block :=
  (md.store (20 * index + 4) (name.take (SFS_FILENAME_MAX - 1) ++ [0])).setWord (20 * index) inode

/-- The section of `sfs_create` under `sfs->lock`.  Every word of the inode buffer is
overwritten. -/
def sfsCreateIn (s : Sfs) (parent : ℕ) (filename : List UInt8) (isFolder : Bool) (size : ℕ)
    (numvblocks : ℕ) : ℤ × Sfs :=
  match readVblock s.disk parent with
  | none => (VFS_ERROR, s)
  | some md =>
    match findFreeDirent md SFS_MAX_FILES 0 none with
    | none => (VFS_ERROR, s)
    | some index =>
      match readVblock s.disk SFS_ALLOCATION_BLOCK with
      | none => (VFS_ERROR, s)
      | some bat =>
        match bitmapFindnset bat s.totalvblocks with
        | (none, _) => (VFS_ERROR, s)
        | (some fileInode, bat) =>
          let md := setDirent md index (sfsGetActualFilename filename) fileInode
          if isFolder then
            match writeMeta s.disk bat parent md with
            | (false, disk) => (VFS_ERROR, { s with disk := disk })
            | (true, disk) =>
              let r := writeNewFolder disk fileInode md
              (r.1, { s with disk := r.2 })
          else
            match allocBlocks s.totalvblocks numvblocks 0 bat ((Buf.const 512 0).setWord 0 size) with
            | none => (VFS_ERROR, s)
            | some (bat, inode) =>
              let inode := clearTail (SFS_BLOCKS_MAX - numvblocks) numvblocks inode
              match writeMeta s.disk bat parent md with
              | (false, disk) => (VFS_ERROR, { s with disk := disk })
              | (true, disk) =>
                let r := writeNewFile disk fileInode inode numvblocks
                (r.1, { s with disk := r.2 })

/-- `numvblocks` of `sfs_create`: the sum `size + SFS_BLOCK_SIZE - 1` is taken on `int`, its
quotient is converted to `uint32_t`. -/
def numVblocks (size : ℤ) : ℕ :=
  let sum := sint ((size + SFS_BLOCK_SIZE - 1) % 2 ^ 32).toNat
  let numblocks := (sum.tdiv SFS_BLOCK_SIZE % 2 ^ 32).toNat
  numblocks / SFS_BLOCKS_PER_VBLOCK + if numblocks % SFS_BLOCKS_PER_VBLOCK ≠ 0 then 1 else 0

/-! ## Reading and writing -/

/-- The directory branch of `sfs_read`: the number of live entries followed by their names. -/
def listDirents (md : Block) : ℕ → ℕ → ℕ × List UInt8
  | 0, _ => (0, [])
  | k + 1, i =>
    let r := listDirents md k (i + 1)
    if direntInode md i > 0 then
      (r.1 + 1, (direntName md i).take (SFS_FILENAME_MAX - 1) ++ [0] ++ r.2)
    else r

/-- The loop of `sfs_read` over the blocks `b1 … b2` (`k` of them): `read` bytes are done and
stand in `out`. -/
def readLoop (inode : Block) (bufsize : ℤ) : ℕ → ℕ → ℤ → List UInt8 → Prog Block (ℤ × List UInt8)
  | 0, _, read, out => .ret (read, out)
  | k + 1, b1, read, out => .read (inodeBlock inode b1) fun
    | none => .ret (VFS_ERROR, out)
    | some bat =>
      if k = 0 then readLoop inode bufsize k (b1 + 1) (read + (bufsize - read))
        (out ++ bat.slice 0 (bufsize - read).toNat)
      else readLoop inode bufsize k (b1 + 1) (read + SFS_VBLOCK_SIZE)
        (out ++ bat.slice 0 SFS_VBLOCK_SIZE)

/-- `sfs_read` between the reader entry and `sfs_end_read`: return value and bytes copied to the
buffer. -/
def readBody (fileid : ℕ) (isFolder : Bool) (bufsize offset : ℤ) : Prog Block (ℤ × List UInt8) :=
  if isFolder then
    if offset ≠ 0 ∨ bufsize < SFS_VBLOCK_SIZE then .ret (VFS_ERROR, [])
    else .read fileid fun
      | none => .ret (VFS_ERROR, [])
      | some bat =>
        let r := listDirents bat SFS_MAX_FILES 0
        .ret (r.2.length + 4, be32 r.1 ++ r.2)
  else .read fileid fun
    | none => .ret (VFS_ERROR, [])
    | some inode =>
      if offset < 0 ∨ offset > sint (inodeFilesize inode) then .ret (VFS_ERROR, []) else
      let bufsize := min bufsize (sint (inodeFilesize inode) - offset)
      if bufsize = 0 then .ret (0, []) else
      let b1 := (offset.tdiv SFS_VBLOCK_SIZE).toNat
      let b2 := (offset + bufsize - 1).tdiv SFS_VBLOCK_SIZE
      .read (inodeBlock inode b1) fun
        | none => .ret (VFS_ERROR, [])
        | some bat =>
          let read := min (SFS_VBLOCK_SIZE - offset.tmod SFS_VBLOCK_SIZE) bufsize
          readLoop inode bufsize (b2 - b1).toNat (b1 + 1) read
            (bat.slice (offset.tmod SFS_VBLOCK_SIZE).toNat read.toNat)

/-- The loop of `sfs_write` over the blocks `b1 … b2` (`k` of them); `buffer` is what is left to
write and `bat` the block buffer. -/
def writeLoop (inode : Block) (datasize : ℤ) : ℕ → ℕ → ℤ → List UInt8 → Block → Prog Block ℤ
  | 0, _, written, _, _ => .ret written
  | k + 1, b1, written, buffer, bat =>
    let put (written' : ℤ) (buffer' : List UInt8) (bat' : Block) : Prog Block ℤ :=
      .write (inodeBlock inode b1) bat' fun
        | false => .ret VFS_ERROR
        | true => writeLoop inode datasize k (b1 + 1) written' buffer' bat'
    if k = 0 then
      let last (bat : Block) : Prog Block ℤ :=
        put datasize buffer (bat.store 0 (buffer.take (datasize - written).toNat))
      if datasize - written < SFS_VBLOCK_SIZE then
        .read (inodeBlock inode b1) fun
          | none => .ret VFS_ERROR
          | some bat => last bat
      else last bat
    else put (written + SFS_VBLOCK_SIZE) (buffer.drop SFS_VBLOCK_SIZE)
      (bat.store 0 (buffer.take SFS_VBLOCK_SIZE))

/-- `sfs_write` between the writer entry and `sfs_end_write`; `buffer` holds at least `datasize`
bytes.  The block buffer starts uninitialised and is filled before it is written. -/
def writeBody (fileid : ℕ) (buffer : List UInt8) (datasize offset : ℤ) : Prog Block ℤ :=
  .read fileid fun
    | none => .ret VFS_ERROR
    | some inode =>
      if offset < 0 ∨ offset > sint (inodeFilesize inode) then .ret VFS_ERROR else
      let datasize := min datasize (sint (inodeFilesize inode) - offset)
      if datasize = 0 then .ret 0 else
      let b1 := (offset.tdiv SFS_VBLOCK_SIZE).toNat
      let b2 := (offset + datasize - 1).tdiv SFS_VBLOCK_SIZE
      let written := min (SFS_VBLOCK_SIZE - offset.tmod SFS_VBLOCK_SIZE) datasize
      let first (bat : Block) : Prog Block ℤ :=
        let bat := bat.store (offset.tmod SFS_VBLOCK_SIZE).toNat (buffer.take written.toNat)
        .write (inodeBlock inode b1) bat fun
          | false => .ret VFS_ERROR
          | true => writeLoop inode datasize (b2 - b1).toNat (b1 + 1) written
              (buffer.drop written.toNat) bat
      if written < SFS_VBLOCK_SIZE then
        .read (inodeBlock inode b1) fun
          | none => .ret VFS_ERROR
          | some bat => first bat
      else first (Buf.const 512 0)

/-- The reader entry section: `none` when the reader has to wait. -/
def readEntry (f : OpenFile) : Option OpenFile :=
  if f.writerTid ≠ -1 then none else some { f with readernum := f.readernum + 1 }

/-- The counter update of `sfs_end_read`. -/
def readExit (f : OpenFile) : OpenFile := { f with readernum := f.readernum - 1 }

/-- The first half of the writer entry section: reserve the entry, `none` when the writer has to
wait for another writer. -/
def writeReserve (tid : ℤ) (f : OpenFile) : Option OpenFile :=
  if f.writerTid ≠ -1 then none else some { f with writerTid := tid }

/-- The update of `sfs_end_write`. -/
def writeExit (f : OpenFile) : OpenFile := { f with writerTid := -1 }

/-- The bounds check on `fileid` at the start of `sfs_read` and `sfs_write`. -/
def badFileid (s : Sfs) (fileid : ℤ) : Bool :=
  fileid < SFS_DIRECTORY_BLOCK || fileid > sint s.totalvblocks

/-- `sfs_read` run alone; `none` when it would wait for ever. -/
def sfsRead (s : Sfs) (fileid bufsize offset : ℤ) : Option ((ℤ × List UInt8) × Sfs) :=
  if badFileid s fileid then some ((VFS_ERROR, []), s) else
  match sfsEnter s fileid with
  | (none, s) => some ((VFS_ERROR, []), s)
  | (some e, s) =>
    match readEntry (s.openFiles e) with
    | none => none
    | some f =>
      let s := s.setEntry e f
      let r := (readBody fileid.toNat f.isFolder bufsize offset).run gbdDevice s.disk
      let s := { s with disk := r.2 }
      some (r.1, sfsExit (s.setEntry e (readExit (s.openFiles e))) e false)

/-- `sfs_write` run alone by thread `tid`; `none` when it would wait for ever. -/
def sfsWrite (s : Sfs) (tid fileid : ℤ) (buffer : List UInt8) (datasize offset : ℤ) :
    Option (ℤ × Sfs) :=
  if badFileid s fileid then some (VFS_ERROR, s) else
  match sfsEnter s fileid with
  | (none, s) => some (VFS_ERROR, s)
  | (some e, s) =>
    if (s.openFiles e).isFolder then some (VFS_ERROR, s) else
    match writeReserve tid (s.openFiles e) with
    | none => none
    | some f =>
      if f.readernum > 0 then none else
      let s := s.setEntry e f
      let r := (writeBody fileid.toNat buffer datasize offset).run gbdDevice s.disk
      let s := { s with disk := r.2 }
      some (r.1, sfsExit (s.setEntry e (writeExit (s.openFiles e))) e false)

/-! ## The remaining operations -/

/-- `sfs_open`. -/
def sfsOpen (s : Sfs) (filename : List UInt8) : ℤ × Sfs :=
  let r := sfsResolveFileExt s filename
  if r.block = VFS_ERROR then (VFS_NOT_FOUND, s) else
  match sfsEnterExt s r.block r.parentInode true (sfsIsFolder filename) false with
  | (none, s) => (VFS_ERROR, s)
  | (some e, s) =>
    let isDeleted := (s.openFiles e).isDeleted
    (if isDeleted then VFS_NOT_FOUND else r.block, sfsExit s e isDeleted)

/-- `sfs_close`. -/
def sfsClose (s : Sfs) (fileid : ℤ) : ℤ × Sfs :=
  match sfsEnter s fileid with
  | (none, s) => (VFS_ERROR, s)
  | (some e, s) => (VFS_OK, sfsExit s e true)

/-- `sfs_create`. -/
def sfsCreate (s : Sfs) (filename : List UInt8) (size : Int32) : ℤ × Sfs :=
  if sfsIsValidPath filename = false then (VFS_ERROR, s) else
  let isFolder := sfsIsFolder filename
  let size : ℤ := if isFolder then 0 else size.toInt
  if size < 0 then (VFS_ERROR, s) else
  if numVblocks size > SFS_BLOCKS_MAX then (VFS_ERROR, s) else
  let r := sfsResolveFileExt s filename
  if r.block ≠ VFS_ERROR ∨ r.parentInode < 0 ∨ r.parentExists = false then (VFS_ERROR, s)
  else sfsCreateIn s r.parentInode.toNat filename isFolder size.toNat (numVblocks size)

/-- `sfs_remove`. -/
def sfsRemove (s : Sfs) (filename : List UInt8) : ℤ × Sfs :=
  let r := sfsResolveFileExt s filename
  if r.block = VFS_ERROR ∨ filename = [SLASH] then (VFS_NOT_FOUND, s) else
  match sfsEnterExt s r.block r.parentInode true (sfsIsFolder filename) true with
  | (none, s) => (VFS_ERROR, s)
  | (some e, s) => (VFS_OK, sfsExit s e true)

/-- `sfs_getfree`. -/
def sfsGetfree (s : Sfs) : ℤ :=
  match readVblock s.disk SFS_ALLOCATION_BLOCK with
  | none => VFS_ERROR
  | some bat =>
    let allocated := ((List.range s.totalvblocks).map (bitmapGet bat)).sum
    sint ((s.totalvblocks - allocated) * SFS_VBLOCK_SIZE +
      s.totalblocks % s.totalvblocks * SFS_BLOCK_SIZE)

/-- The deletion loop of `sfs_unmount` over the entries of the table. -/
def unmountLoop (s : Sfs) : List Slot → Sfs
  | [] => s
  | i :: is =>
    let f := s.openFiles i
    unmountLoop (if f.fileid > 0 ∧ f.isDeleted then deleteBlocks s f.fileid f.isFolder else s) is

/-- `sfs_unmount`: what it leaves on the device. -/
def sfsUnmount (s : Sfs) : ℤ × Sfs := (VFS_OK, unmountLoop s (List.finRange 32))

/-- The filesystem made by a successful `sfs_init` on `disk`. -/
def sfsInit (disk : Gbd) : Sfs where
  totalblocks := min disk.totalBlocks (8 * SFS_VBLOCK_SIZE)
  totalvblocks := min (disk.totalBlocks / SFS_BLOCKS_PER_VBLOCK) (8 * SFS_VBLOCK_SIZE)
  disk := disk
  openFiles := fun _ => sfsResetEntry

end Buenos.Fs
