import Buenos.Lib.Bitmap
import Buenos.Base.BlockProgram

/-!
# SFS on-disk format and paths (`fs/sfs.h`, path functions of `fs/sfs.c`)

* Block layout: directory blocks are arrays of 20-byte entries (`uint32_t inode`, `char name[16]`),
  inode blocks hold the file size and 127 block numbers; all words are big-endian.
* `Gbd` — the generic block device with `readVblock` / `writeVblock`; a transfer fails outside the
  device and on the blocks where the device reports an error.
* Paths are C strings, represented by their bytes without the terminator:
  `sfsIsValidPath`, `sfsGetActualFilename`, `sfsIsFolder`, `sfsNextPathElem`.
* `pathElems` — the elements that iterating `sfsNextPathElem` yields (`pathElems_next`).
-/

namespace Buenos.Fs

open Bytes BlockProgram

def SFS_BLOCK_SIZE : ℕ := 512
def SFS_BLOCKS_PER_VBLOCK : ℕ := 1
def SFS_VBLOCK_SIZE : ℕ := 512
def SFS_HEADER_BLOCK : ℕ := 0
def SFS_ALLOCATION_BLOCK : ℕ := 1
def SFS_DIRECTORY_BLOCK : ℕ := 2
def SFS_FILENAME_MAX : ℕ := 16
def SFS_MAX_OPEN_FILES : ℕ := 32
/-- Block pointers of one inode. -/
def SFS_BLOCKS_MAX : ℕ := 127
/-- Entries of one directory block: `512 / sizeof(sfs_direntry_t)`. -/
def SFS_MAX_FILES : ℕ := 25
def SFS_MAX_FILESIZE : ℕ := 65024

def VFS_OK : ℤ := 0
def VFS_ERROR : ℤ := -2
def VFS_NOT_FOUND : ℤ := -5

theorem VFS_ERROR_neg : VFS_ERROR < 0 := by decide

theorem VFS_NOT_FOUND_neg : VFS_NOT_FOUND < 0 := by decide

/-- The C conversion of a 32-bit pattern to `int`. -/
def sint (v : ℕ) : ℤ := if v % 2 ^ 32 < 2 ^ 31 then (v % 2 ^ 32 : ℕ) else (v % 2 ^ 32 : ℕ) - 2 ^ 32

theorem sint_of_lt {v : ℕ} (h : v < 2 ^ 31) : sint v = v := by
  unfold sint
  rw [Nat.mod_eq_of_lt (by omega), if_pos h]

/-! ## Blocks -/

/-- The contents of one (virtual) disk block. -/
abbrev Block := Buf 512

/-- `sfs_direntry_t.inode` of entry `i` of a directory block. -/
def direntInode (md : Block) (i : ℕ) : ℕ := md.word (20 * i)

/-- `sfs_direntry_t.name` of entry `i`, as a C string. -/
def direntName (md : Block) (i : ℕ) : List UInt8 :=
  (md.slice (20 * i + 4) SFS_FILENAME_MAX).takeWhile (· ≠ 0)

/-- `sfs_inode_t.filesize`. -/
def inodeFilesize (inode : Block) : ℕ := inode.word 0

/-- `sfs_inode_t.block[j]`. -/
def inodeBlock (inode : Block) (j : ℕ) : ℕ := inode.word (4 * (j + 1))

/-- `'/'`. -/
def SLASH : UInt8 := 47

/-! ## The device -/

/-- Generic block device: its size, its contents, and the blocks on which it reports an error. -/
structure Gbd where
  totalBlocks : ℕ
  blocks : ℕ → Block
  error : ℕ → Bool

/-- `read_vblock`; `none` for the return value 0. -/
def readVblock (disk : Gbd) (block : ℕ) : Option Block :=
  if block < disk.totalBlocks ∧ disk.error block = false then some (disk.blocks block) else none

/-- `write_vblock`; `none` for the return value 0. -/
def writeVblock (disk : Gbd) (block : ℕ) (buf : Block) : Option Gbd :=
  if block < disk.totalBlocks ∧ disk.error block = false then
    some { disk with blocks := Function.update disk.blocks block buf }
  else none

/-- The device as seen by block programs. -/
def gbdDevice : Device Gbd Block := ⟨readVblock, writeVblock⟩

/-- Disk I/O succeeds: every transfer inside the device does. -/
def Gbd.Works (disk : Gbd) : Prop := ∀ b < disk.totalBlocks, disk.error b = false

/-! ## Paths -/

/-- `sfs_is_valid_filename_char`. -/
def sfsIsValidFilenameChar (ch : UInt8) : Bool :=
  ch = 95 || ch = 45 || ch = 46 || ch = 126 || ch = 32 ||
  (48 ≤ ch && ch ≤ 57) || (65 ≤ ch && ch ≤ 90) || (97 ≤ ch && ch ≤ 122)

/-- The loop of `sfs_is_valid_path`: `prev` is `path[i-1]`. -/
def validPathLoop : UInt8 → ℕ → List UInt8 → Bool
  | _, _, [] => true
  | prev, elemchars, c :: rest =>
    if elemchars + 1 ≥ SFS_FILENAME_MAX then false
    else if c = SLASH then
      if prev = SLASH then false else validPathLoop c 0 rest
    else if sfsIsValidFilenameChar c then validPathLoop c (elemchars + 1) rest
    else false

/-- `sfs_is_valid_path`. -/
def sfsIsValidPath : List UInt8 → Bool
  | [] => false
  | c :: rest => if c ≠ SLASH then false else validPathLoop c 0 rest

/-- The loop of `sfs_get_actual_filename`: `last` is the text after the last slash seen so far
that is not the end of the path. -/
def actualFilenameLoop : List UInt8 → List UInt8 → List UInt8
  | [], last => last
  | c :: rest, last =>
    if c = SLASH ∧ rest ≠ [] then actualFilenameLoop rest rest else actualFilenameLoop rest last

/-- `sfs_get_actual_filename`. -/
def sfsGetActualFilename (path : List UInt8) : List UInt8 := actualFilenameLoop path path

/-- `sfs_is_folder`: the path ends with a slash. -/
def sfsIsFolder (path : List UInt8) : Bool := path.getLast? = some SLASH

/-- Copy up to and including the next slash: element and rest. -/
def takeElem : List UInt8 → List UInt8 × List UInt8
  | [] => ([], [])
  | c :: cs => if c = SLASH then ([c], cs) else ((c :: (takeElem cs).1), (takeElem cs).2)

/-- `sfs_next_path_elem`: `none` when no path element remains. -/
def sfsNextPathElem (consumedPath : List UInt8) : Option (List UInt8 × List UInt8) :=
  match consumedPath with
  | [] => none
  | c :: cs => some (takeElem (c :: cs))

/-- The path elements that iterating `sfs_next_path_elem` yields. -/
def pathElems : List UInt8 → List (List UInt8)
  | [] => []
  | c :: cs =>
    if c = SLASH then [c] :: pathElems cs
    else match pathElems cs with
      | [] => [[c]]
      | e :: es => (c :: e) :: es

end Buenos.Fs
