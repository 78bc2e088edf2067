import Buenos.Fs.Tfs.Model

/-!
# The host tool for disk images (`util/tfstool.c`)

* `Endian`, `hostLoad`, `hostStore`, `ntohl`, `htonl` — 32-bit words in the memory of the host, in
  either byte order.
* `Image` — the image file as an array of blocks; `readBlock` and `writeBlock` are `fseek` followed by
  `fread` or `fwrite`.  Host file I/O succeeds.
* `hostBitmapGet`, `hostBitmapSet`, `hostFindnset` — the bitmap routines of the tool: the search looks
  at one bit after the other.
* `tfstoolCreatevol`, `tfstoolWrite`, `tfstoolRead`, `tfstoolDelete` — the commands; `none` stands for
  `exit(EXIT_FAILURE)`.

Block buffers on the stack of the tool start with arbitrary contents (`junk`): after the last `fread`
of a file the end of the buffer is what the block before left there.

Principal results: `ntohl_hostLoad` and `hostStore_htonl` (in either byte order the words of an image
are big-endian), `hostBitmapGet_eq`, `hostBitmapSet_eq` and `hostFindnset_some` (the tool and the
kernel read and write the same bits).
-/

namespace Buenos.Tfstool

open Bytes Buenos.Fs

/-! ## Words of the host -/

/-- The byte order of the host. -/
inductive Endian where
  | big
  | little
  deriving DecidableEq, Repr

section Words

variable {n : ℕ}

/-- The 32-bit word of the host at byte offset `o`. -/
def hostLoad (e : Endian) (b : Buf n) (o : ℕ) : ℕ :=
  match e with
  | .big => b.word o
  | .little => 2 ^ 24 * (b.byte (o + 3)).toNat + 2 ^ 16 * (b.byte (o + 2)).toNat +
      2 ^ 8 * (b.byte (o + 1)).toNat + (b.byte o).toNat

/-- Write a 32-bit word of the host at byte offset `o`. -/
def hostStore (e : Endian) (b : Buf n) (o v : ℕ) : Buf n :=
  match e with
  | .big => b.store o (be32 v)
  | .little => b.store o (be32 v).reverse

/-- Reverse the bytes of a 32-bit word. -/
def swap32 (v : ℕ) : ℕ :=
  2 ^ 24 * (v % 2 ^ 8) + 2 ^ 16 * (v / 2 ^ 8 % 2 ^ 8) + 2 ^ 8 * (v / 2 ^ 16 % 2 ^ 8) +
    v / 2 ^ 24 % 2 ^ 8

/-- `ntohl`. -/
def ntohl : Endian → ℕ → ℕ
  | .big, v => v
  | .little, v => swap32 v

/-- `htonl`. -/
def htonl : Endian → ℕ → ℕ := ntohl

/-- The bytes of a word made of four bytes. -/
theorem bytes_of_digits {a b c d : ℕ} (ha : a < 2 ^ 8) (hb : b < 2 ^ 8) (hc : c < 2 ^ 8)
    (hd : d < 2 ^ 8) :
    let w := 2 ^ 24 * a + 2 ^ 16 * b + 2 ^ 8 * c + d
    w % 2 ^ 8 = d ∧ w / 2 ^ 8 % 2 ^ 8 = c ∧ w / 2 ^ 16 % 2 ^ 8 = b ∧ w / 2 ^ 24 % 2 ^ 8 = a := by
  intro w
  omega

/-- **A loaded word, converted, is big-endian.** -/
@[simp] theorem ntohl_hostLoad (e : Endian) (b : Buf n) (o : ℕ) :
    ntohl e (hostLoad e b o) = b.word o := by
  cases e with
  | big => rfl
  | little =>
    obtain ⟨h0, h1, h2, h3⟩ := bytes_of_digits (b.byte (o + 3)).toNat_lt (b.byte (o + 2)).toNat_lt
      (b.byte (o + 1)).toNat_lt (b.byte o).toNat_lt
    rw [ntohl, hostLoad, swap32, h0, h1, h2, h3, Buf.word]

/-- **A converted word, stored, is big-endian.** -/
@[simp] theorem hostStore_htonl (e : Endian) (b : Buf n) (o v : ℕ) :
    hostStore e b o (htonl e v) = b.setWord o v := by
  cases e with
  | big => rfl
  | little =>
    have hbyte : ∀ a c : ℕ, a % 2 ^ 8 = c % 2 ^ 8 → UInt8.ofNat a = UInt8.ofNat c := by
      intro a c h
      apply UInt8.toNat_inj.1
      simpa using h
    have hmod : ∀ x : ℕ, x % 2 ^ 8 < 2 ^ 8 := fun x => Nat.mod_lt x (by decide)
    obtain ⟨h0, h1, h2, h3⟩ := bytes_of_digits (hmod v) (hmod (v / 2 ^ 8)) (hmod (v / 2 ^ 16))
      (hmod (v / 2 ^ 24))
    have hrev : (be32 (swap32 v)).reverse = be32 v := by
      simp only [be32, swap32, List.reverse_cons, List.reverse_nil, List.nil_append,
        List.cons_append, List.cons.injEq, and_true]
      exact ⟨hbyte _ _ h0, hbyte _ _ h1, hbyte _ _ h2, hbyte _ _ h3⟩
    rw [hostStore, htonl, ntohl, hrev]
    rfl

/-- Zero is the same word in both orders. -/
theorem hostLoad_eq_zero (e : Endian) (b : Buf n) (o : ℕ) : hostLoad e b o = 0 ↔ b.word o = 0 := by
  cases e with
  | big => rfl
  | little =>
    simp only [hostLoad, Buf.word]
    omega

theorem hostStore_zero (e : Endian) (b : Buf n) (o : ℕ) : hostStore e b o 0 = b.setWord o 0 := by
  cases e with
  | big => rfl
  | little => rfl

end Words

/-! ## Bitmaps -/

section Bitmaps

variable {n : ℕ}

/-- `bitmap_get` of the tool. -/
def hostBitmapGet (e : Endian) (bitmap : Buf n) (pos : ℕ) : ℕ :=
  (ntohl e (hostLoad e bitmap (4 * (pos / 32))) >>> (pos % 32)) &&& 1

/-- `bitmap_set` of the tool; `~(1 << j)` is taken on 32 bits. -/
def hostBitmapSet (e : Endian) (bitmap : Buf n) (pos : ℕ) (value : Bool) : Buf n :=
  let i := pos / 32
  let j := pos % 32
  let w := ntohl e (hostLoad e bitmap (4 * i))
  if value then hostStore e bitmap (4 * i) (htonl e (w ||| 1 <<< j))
  else hostStore e bitmap (4 * i) (htonl e (w &&& (2 ^ 32 - 1 - 1 <<< j)))

/-- The loop of `bitmap_findnset` over the bits `i, i + 1, …` (`k` of them). -/
def hostFindLoop (e : Endian) (bitmap : Buf n) : ℕ → ℕ → Option ℕ × Buf n
  | 0, _ => (none, bitmap)
  | k + 1, i =>
    if hostBitmapGet e bitmap i = 0 then (some i, hostBitmapSet e bitmap i true)
    else hostFindLoop e bitmap k (i + 1)

/-- `bitmap_findnset` of the tool; `none` stands for `-1`. -/
def hostFindnset (e : Endian) (bitmap : Buf n) (l : ℕ) : Option ℕ × Buf n :=
  hostFindLoop e bitmap l 0

theorem hostBitmapGet_eq (e : Endian) (bitmap : Buf n) (pos : ℕ) :
    hostBitmapGet e bitmap pos = bitmapGet bitmap pos := by
  rw [hostBitmapGet, ntohl_hostLoad, bitmapGet]

theorem hostBitmapSet_eq (e : Endian) (bitmap : Buf n) (pos : ℕ) (value : Bool) :
    hostBitmapSet e bitmap pos value = bitmapSet bitmap pos value := by
  simp only [hostBitmapSet, ntohl_hostLoad, hostStore_htonl, bitmapSet]

theorem hostFindLoop_some {e : Endian} {bitmap bitmap' : Buf n} {p : ℕ} :
    ∀ {k i : ℕ}, hostFindLoop e bitmap k i = (some p, bitmap') →
      i ≤ p ∧ p < i + k ∧ bitmapGet bitmap p = 0 ∧ bitmap' = bitmapSet bitmap p true
  | 0, _, h => by cases h
  | k + 1, i, h => by
    rw [hostFindLoop] at h
    by_cases h0 : hostBitmapGet e bitmap i = 0
    · rw [if_pos h0] at h
      cases h
      rw [hostBitmapGet_eq] at h0
      exact ⟨Nat.le_refl _, by omega, h0, hostBitmapSet_eq e bitmap _ true⟩
    · rw [if_neg h0] at h
      obtain ⟨h1, h2, h3, h4⟩ := hostFindLoop_some h
      exact ⟨by omega, by omega, h3, h4⟩

/-- **The search of the tool** takes a clear bit below `l`. -/
theorem hostFindnset_some {e : Endian} {bitmap bitmap' : Buf n} {l p : ℕ}
    (h : hostFindnset e bitmap l = (some p, bitmap')) :
    p < l ∧ bitmapGet bitmap p = 0 ∧ bitmap' = bitmapSet bitmap p true := by
  obtain ⟨-, h2, h3, h4⟩ := hostFindLoop_some h
  exact ⟨by omega, h3, h4⟩

end Bitmaps

/-! ## The image file -/

/-- A disk image: the blocks of the file. -/
structure Image where
  numBlocks : ℕ
  blocks : ℕ → Block

/-- `read_block`: past the end of the file the buffer keeps its contents. -/
def readBlock (img : Image) (data : Block) (block : ℕ) : Block :=
  if block < img.numBlocks then img.blocks block else data

/-- `write_block`: writing past the end makes the file longer. -/
def writeBlock (img : Image) (data : Block) (block : ℕ) : Image :=
  ⟨max img.numBlocks (block + 1), Function.update img.blocks block data⟩

/-- `strncmp(direntry[i].name, filename, TFS_FILENAME_MAX) == 0`. -/
def sameName (md : Block) (i : ℕ) (filename : List UInt8) : Bool :=
  direntName md i = filename.take 16

/-- `strncpy(direntry[i].name, target, TFS_FILENAME_MAX)`: padded with zeros. -/
def strncpyName (target : List UInt8) : List UInt8 :=
  target.take 16 ++ List.replicate (16 - target.length) 0

/-! ## The commands -/

def TFS_MAGIC : ℕ := 3745
def TFS_MAX_FILESIZE : ℕ := 65024

/-- The last loop of `tfstool_createvol`: zero blocks from `i` on (`k` of them). -/
def zeroLoop : ℕ → ℕ → Image → Image
  | 0, _, img => img
  | k + 1, i, img => zeroLoop k (i + 1) (writeBlock img (Buf.const 512 0) i)

/-- `tfstool_createvol` on a file that does not exist yet; `volumename` has 16 bytes. -/
def tfstoolCreatevol (e : Endian) (size : ℕ) (volumename : List UInt8) : Option Image :=
  if size < 3 then none else
  let header := ((Buf.const 512 0).store 0 ((hostStore e (Buf.const 4 0) 0 (htonl e TFS_MAGIC)).slice 0 4)).store
    4 (volumename.take 16)
  let allocation := hostBitmapSet e (hostBitmapSet e (hostBitmapSet e (Buf.const 512 0) 0 true)
    1 true) 2 true
  let img := writeBlock ⟨0, fun _ => Buf.const 512 0⟩ header 0
  let img := writeBlock img allocation 1
  let img := writeBlock img (Buf.const 512 0) 2
  some (zeroLoop (size - 3) 3 img)

/-- The loop of `tfstool_write` over the directory block: `none` when the name is taken, else the
first free slot. -/
def findFirstSlot (e : Endian) (md : Block) (target : List UInt8) :
    ℕ → ℕ → Option ℕ → Option (Option ℕ)
  | 0, _, index => some index
  | k + 1, i, index =>
    let index := if hostLoad e md (20 * i) = 0 ∧ index = none then some i else index
    if sameName md i target then none else findFirstSlot e md target k (i + 1) index

/-- What the copy loop of `tfstool_write` leaves. -/
structure Copied where
  img : Image
  bat : Block
  inode : Block
  filesize : ℕ
  writeok : Bool

/-- The copy loop of `tfstool_write`: `k` more iterations are below `num_blocks`, `data` is the block
buffer and `rest` what `fread` has not delivered yet; `feof` is set by a short read only. -/
def copyLoop (e : Endian) (numBlocks : ℕ) :
    ℕ → ℕ → Image → Block → Block → Block → ℕ → List UInt8 → Copied
  | 0, _, img, bat, inode, _, filesize, _ => ⟨img, bat, inode, filesize, true⟩
  | k + 1, i, img, bat, inode, data, filesize, rest =>
    if filesize < TFS_MAX_FILESIZE then
      match hostFindnset e bat numBlocks with
      | (none, bat) => ⟨img, bat, inode, filesize, false⟩
      | (some bnum, bat) =>
        if bnum > 2 ∧ bnum < numBlocks then
          let data := data.store 0 (rest.take TFS_BLOCK_SIZE)
          let filesize := filesize + (rest.take TFS_BLOCK_SIZE).length
          let img := writeBlock img data bnum
          let inode := hostStore e inode (4 * (i + 1)) (htonl e bnum)
          if rest.length < TFS_BLOCK_SIZE then ⟨img, bat, inode, filesize, true⟩
          else copyLoop e numBlocks k (i + 1) img bat inode data filesize (rest.drop TFS_BLOCK_SIZE)
        else ⟨img, bat, inode, filesize, false⟩
    else ⟨img, bat, inode, filesize, true⟩

/-- `tfstool_write`: copy the bytes `source` to the image as `target`. -/
def tfstoolWrite (e : Endian) (img : Image) (junk : Block) (source target : List UInt8) :
    Option Image :=
  let md := readBlock img junk TFS_DIRECTORY_BLOCK
  match findFirstSlot e md target TFS_MAX_FILES 0 none with
  | none => none
  | some none => none
  | some (some index) =>
    let bat := readBlock img junk TFS_ALLOCATION_BLOCK
    match hostFindnset e bat img.numBlocks with
    | (none, _) => none
    | (some inodeBnum, bat) =>
      if inodeBnum > 2 ∧ inodeBnum < img.numBlocks then
        let c := copyLoop e img.numBlocks img.numBlocks 0 img bat (Buf.const 512 0) junk 0 source
        if c.filesize ≠ source.length then none
        else if c.writeok then
          let inode := hostStore e c.inode 0 (htonl e c.filesize)
          let img := writeBlock c.img inode inodeBnum
          let md := (hostStore e md (20 * index) (htonl e inodeBnum)).store (20 * index + 4)
            (strncpyName target)
          let img := writeBlock img md TFS_DIRECTORY_BLOCK
          some (writeBlock img c.bat TFS_ALLOCATION_BLOCK)
        else none
      else none

/-- The search of `tfstool_read` and `tfstool_delete`. -/
def findFile (md : Block) (filename : List UInt8) : ℕ → ℕ → Option ℕ
  | 0, _ => none
  | k + 1, i => if sameName md i filename then some i else findFile md filename k (i + 1)

/-- The copy loop of `tfstool_read` over `block[i], block[i+1], …`: `count` bytes are done and stand in
`out`; `filesize - count` is taken on 32 bits. -/
def exportLoop (e : Endian) (img : Image) (inode : Block) (filesize : ℕ) :
    ℕ → ℕ → Block → ℕ → List UInt8 → List UInt8
  | 0, _, _, _, out => out
  | k + 1, i, data, count, out =>
    let bnum := ntohl e (hostLoad e inode (4 * (i + 1)))
    if bnum ≠ 0 then
      let data := readBlock img data bnum
      let size := min ((filesize + 2 ^ 32 - count) % 2 ^ 32) TFS_BLOCK_SIZE
      exportLoop e img inode filesize k (i + 1) data (count + size) (out ++ data.slice 0 size)
    else out

/-- `tfstool_read`: the bytes written to the host file. -/
def tfstoolRead (e : Endian) (img : Image) (junk : Block) (source : List UInt8) :
    Option (List UInt8) :=
  let md := readBlock img junk TFS_DIRECTORY_BLOCK
  match findFile md source TFS_MAX_FILES 0 with
  | none => none
  | some index =>
    let inode := readBlock img junk (ntohl e (hostLoad e md (20 * index)))
    let filesize := ntohl e (hostLoad e inode 0)
    some (exportLoop e img inode filesize TFS_BLOCKS_MAX 0 junk 0 [])

/-- The loop of `tfstool_delete` over `block[i], block[i+1], …`. -/
def releaseLoop (e : Endian) (inode : Block) : ℕ → ℕ → Block → Block
  | 0, _, bat => bat
  | k + 1, i, bat =>
    let bnum := ntohl e (hostLoad e inode (4 * (i + 1)))
    if bnum ≠ 0 then releaseLoop e inode k (i + 1) (hostBitmapSet e bat bnum false) else bat

/-- `tfstool_delete`. -/
def tfstoolDelete (e : Endian) (img : Image) (filename : List UInt8) : Option Image :=
  let md := readBlock img (Buf.const 512 0) TFS_DIRECTORY_BLOCK
  match findFile md filename TFS_MAX_FILES 0 with
  | none => none
  | some index =>
    let bat := readBlock img (Buf.const 512 0) TFS_ALLOCATION_BLOCK
    let inodeBn := ntohl e (hostLoad e md (20 * index))
    let inode := readBlock img (Buf.const 512 0) inodeBn
    let bat := releaseLoop e inode TFS_BLOCKS_MAX 0 bat
    let bat := hostBitmapSet e bat inodeBn false
    let md := (hostStore e md (20 * index) 0).store (20 * index + 4) [0]
    some (writeBlock (writeBlock img bat TFS_ALLOCATION_BLOCK) md TFS_DIRECTORY_BLOCK)

end Buenos.Tfstool
