import Buenos.Fs.Sfs.FileArray
import Mathlib.Data.List.TakeWhile

/-!
# Listing a directory

The directory branch of `sfs_read` on the memory, and the loop of `tests/ls.c` that takes the buffer
apart again.

* `listLoop`, `sfsReadFolder` — the branch: the names one behind the other, then their number in front.
* `lsLoop`, `lsNames` — the loop of `ls`.
* `liveNames` — the names of the live entries of a directory block; `packed` — with their terminators.
* `WellNamed` — every live entry has a name of 1 to 15 characters.

Principal results: `listLoop_spec`, `lsLoop_packed`, and `listing_roundTrip`.
-/

namespace Buenos.Fs

open Bytes BlockProgram

/-! ## The code -/

/-- The loop of `sfs_read` over the entries, `k` of them from entry `r` on: `b1` names of `read` bytes are
done.  `bat` is the block buffer; `none` when `strlen` runs out of it. -/
def listLoop (buffer bat : ℕ) : ℕ → ℕ → ℕ → ℕ → Memory → Option (ℕ × ℕ × Memory)
  | 0, _, b1, read, mem => some (b1, read, mem)
  | k + 1, r, b1, read, mem =>
    let e := bat + 20 * r
    if loadWord mem e > 0 then
      let mem := stringcopy mem (buffer + 4 + read) (e + 4) SFS_FILENAME_MAX
      match strlen mem (e + 4) (SFS_VBLOCK_SIZE - (20 * r + 4)) with
      | none => none
      | some len => listLoop buffer bat k (r + 1) (b1 + 1) (read + (len + 1)) mem
    else listLoop buffer bat k (r + 1) b1 read mem

/-- The directory branch of `sfs_read`: return value and memory. -/
def sfsReadFolder (disk : Gbd) (mem : Memory) (fileid buffer bat : ℕ) (bufsize offset : ℤ) :
    Option (ℤ × Memory) :=
  if offset ≠ 0 ∨ bufsize < SFS_VBLOCK_SIZE then some (VFS_ERROR, mem)
  else
    match readVblock disk fileid with
    | none => some (VFS_ERROR, mem)
    | some md =>
      match listLoop buffer bat SFS_MAX_FILES 0 0 0 (storeBytes mem bat (md.slice 0 SFS_VBLOCK_SIZE)) with
      | none => none
      | some (b1, read, mem) => some (read + 4, storeWord mem buffer b1)

/-- `BUFFER_SIZE` of `ls`. -/
def BUFFER_SIZE : ℕ := 128

/-- The loop of `ls`: the names that it prints. -/
def lsLoop (filepath : ℕ) : ℕ → ℕ → Memory → Option (List (List UInt8))
  | 0, _, _ => some []
  | num + 1, p, mem =>
    let mem := stringcopy mem filepath p BUFFER_SIZE
    match strlen mem filepath BUFFER_SIZE with
    | none => none
    | some len => (lsLoop filepath num (p + (len + 1)) mem).map (bytesAt mem filepath len :: ·)

/-- What `ls` makes of the buffer `dir`. -/
def lsNames (mem : Memory) (dir filepath : ℕ) : Option (List (List UInt8)) :=
  lsLoop filepath (loadWord mem dir) (dir + 4) mem

/-! ## The names of a directory -/

/-- The names of the live ones of the `k` entries from `r` on. -/
def namesFrom (md : Block) : ℕ → ℕ → List (List UInt8)
  | 0, _ => []
  | k + 1, r => if direntInode md r > 0 then direntName md r :: namesFrom md k (r + 1) else namesFrom md k (r + 1)

/-- The names of the live entries, in slot order. -/
def liveNames (md : Block) : List (List UInt8) :=
  ((List.range SFS_MAX_FILES).filter fun r => direntInode md r > 0).map (direntName md)

/-- Strings with their terminators, one behind the other. -/
def packed (names : List (List UInt8)) : List UInt8 := (names.map (· ++ [0])).flatten

/-- Every live entry has a name of 1 to 15 characters with a terminator. -/
def WellNamed (md : Block) : Prop :=
  ∀ r < SFS_MAX_FILES, direntInode md r > 0 → 1 ≤ (direntName md r).length ∧ (direntName md r).length ≤ 15

section Names

variable {md : Block} {k r : ℕ} {names : List (List UInt8)}

theorem namesFrom_eq (md : Block) (k r : ℕ) :
    namesFrom md k r = ((List.range' r k).filter fun r => direntInode md r > 0).map (direntName md) := by
  induction k generalizing r with
  | zero => rfl
  | succ k ih =>
    rw [namesFrom, List.range'_succ, List.filter_cons, ih]
    split
    · rename_i hlive
      rw [if_pos (by simpa using hlive), List.map_cons]
    · rename_i hfree
      rw [if_neg (by simpa using hfree)]

theorem liveNames_eq (md : Block) : liveNames md = namesFrom md SFS_MAX_FILES 0 := by
  rw [namesFrom_eq, liveNames, List.range_eq_range']

theorem packed_cons (name : List UInt8) (names : List (List UInt8)) :
    packed (name :: names) = name ++ [0] ++ packed names := rfl

/-- The size of the packed names. -/
theorem packed_length (names : List (List UInt8)) :
    (packed names).length = (names.map fun name => name.length + 1).sum := by
  unfold packed
  rw [List.length_flatten, List.map_map]
  congr 1
  refine List.map_congr_left fun name _ => ?_
  rw [Function.comp_apply, List.length_append, List.length_singleton]

/-- A name and its terminator take 16 bytes at most. -/
theorem WellNamed.packed_le (h : WellNamed md) (hr : r + k ≤ SFS_MAX_FILES) :
    (packed (namesFrom md k r)).length ≤ 16 * k := by
  induction k generalizing r with
  | zero => exact le_refl _
  | succ k ih =>
    have hrest := ih (r := r + 1) (by omega)
    rw [namesFrom]
    split
    · rename_i hlive
      have hname := (h r (by omega) hlive).2
      rw [packed_cons, List.length_append, List.length_append, List.length_singleton]
      omega
    · omega

/-- The name of an entry in a block that is in memory. -/
theorem terminated_direntName {mem : Memory} {bat : ℕ} (h : Placed mem bat md) (hr : r < SFS_MAX_FILES)
    (hlen : (direntName md r).length ≤ 15) : Terminated mem (bat + 20 * r + 4) (direntName md r) := by
  have hslice : (md.slice (20 * r + 4) SFS_FILENAME_MAX).length = 16 := Buf.slice_length ..
  have hsplit : direntName md r ++ (md.slice (20 * r + 4) SFS_FILENAME_MAX).dropWhile (· ≠ 0) =
      md.slice (20 * r + 4) SFS_FILENAME_MAX := List.takeWhile_append_dropWhile
  refine ⟨?_, fun h0 => ?_⟩
  · cases hrest : (md.slice (20 * r + 4) SFS_FILENAME_MAX).dropWhile (· ≠ 0) with
    | nil =>
      rw [hrest, List.append_nil] at hsplit
      rw [hsplit, hslice] at hlen
      exact absurd hlen (by decide)
    | cons c rest =>
      -- the name ends at the first zero byte
      have hc : c = 0 := by
        have hhead := List.head?_dropWhile_not (· ≠ 0) (md.slice (20 * r + 4) SFS_FILENAME_MAX)
        rw [hrest] at hhead
        simpa using hhead
      rw [hrest, hc] at hsplit
      intro i hi
      rw [List.length_append, List.length_singleton] at hi
      have hbyte : (direntName md r ++ 0 :: rest)[i]? = some (md.byte (20 * r + 4 + i)) := by
        rw [hsplit, Buf.slice_getElem?, if_pos (by unfold SFS_FILENAME_MAX; omega)]
      have hin : 20 * r + 4 + i < 512 := by
        unfold SFS_MAX_FILES at hr
        omega
      rw [show bat + 20 * r + 4 + i = bat + (20 * r + 4 + i) by omega, h _ hin]
      rw [show direntName md r ++ 0 :: rest = (direntName md r ++ [0]) ++ rest by simp,
        List.getElem?_append_left (by simpa using hi)] at hbyte
      rw [List.getD_eq_getElem?_getD, hbyte]
      rfl
  · have hmem := List.mem_takeWhile_imp h0
    simp at hmem

end Names

/-! ## The packed area -/

section Packing

variable {md : Block} {mem : Memory} {buffer bat k r : ℕ}

/-- **The loop over the entries** writes the packed names behind the count and nothing else. -/
theorem listLoop_spec (b1 read : ℕ) (hwell : WellNamed md) (hplaced : Placed mem bat md)
    (hr : r + k ≤ SFS_MAX_FILES) (hsep : buffer + 4 + read + 16 * k ≤ bat ∨ bat + 512 ≤ buffer) :
    ∃ mem', listLoop buffer bat k r b1 read mem =
        some (b1 + (namesFrom md k r).length, read + (packed (namesFrom md k r)).length, mem') ∧
      HoldsBytes mem' (buffer + 4 + read) (packed (namesFrom md k r)) ∧
      ∀ a, a < buffer + 4 + read ∨ buffer + 4 + read + (packed (namesFrom md k r)).length ≤ a →
        mem' a = mem a := by
  induction k generalizing r b1 read mem with
  | zero => exact ⟨mem, rfl, fun i hi => absurd hi (Nat.not_lt_zero i), fun a _ => rfl⟩
  | succ k ih =>
    have hword : loadWord mem (bat + 20 * r) = direntInode md r :=
      hplaced.loadWord (by unfold SFS_MAX_FILES at hr; omega)
    rw [listLoop, namesFrom]
    simp only [hword]
    split
    · -- a live entry
      rename_i hlive
      have hlen := (hwell r (by omega) hlive).2
      have hname := terminated_direntName hplaced (by omega) hlen
      generalize hstr : direntName md r = str at hlen hname
      have hbat : bat + 20 * r + 4 + 16 ≤ bat + 512 := by
        unfold SFS_MAX_FILES at hr
        omega
      have hcopied := stringcopy_copied (t := buffer + 4 + read) hname
        (show (str.length : ℤ) < (SFS_FILENAME_MAX : ℕ) by unfold SFS_FILENAME_MAX; omega)
        (by unfold Apart; omega)
      generalize stringcopy mem (buffer + 4 + read) (bat + 20 * r + 4) SFS_FILENAME_MAX = mem1 at hcopied
      have hplaced1 : Placed mem1 bat md := by
        intro i hi
        rw [hcopied.outside _ (by omega), hplaced i hi]
      have hname1 : Terminated mem1 (bat + 20 * r + 4) str := by
        refine ⟨hname.bytes.frame fun i hi => hcopied.outside _ ?_, hname.nonzero⟩
        rw [List.length_append, List.length_singleton] at hi
        omega
      have hstrlen : strlen mem1 (bat + 20 * r + 4) (SFS_VBLOCK_SIZE - (20 * r + 4)) = some str.length := by
        refine hname1.strlen ?_
        unfold SFS_VBLOCK_SIZE
        unfold SFS_MAX_FILES at hr
        omega
      obtain ⟨mem2, hloop, hbytes, hsame⟩ := ih (r := r + 1) (b1 + 1) (read + (str.length + 1)) hplaced1
        (by omega) (by omega)
      have hat : buffer + 4 + (read + (str.length + 1)) = buffer + 4 + read + (str.length + 1) := by omega
      rw [hat] at hbytes hsame
      refine ⟨mem2, ?_, ?_, fun a ha => ?_⟩
      · simp only [hstrlen, hloop]
        rw [List.length_cons, packed_cons, List.length_append, List.length_append, List.length_singleton,
          Nat.add_assoc b1, Nat.add_comm 1, Nat.add_assoc read]
      · rw [packed_cons, holdsBytes_append, List.length_append, List.length_singleton]
        refine ⟨(hcopied.holds hname.bytes (by simp)).frame fun i hi => hsame _ (Or.inl ?_), hbytes⟩
        rw [List.length_append, List.length_singleton] at hi
        omega
      · rw [packed_cons, List.length_append, List.length_append, List.length_singleton] at ha
        rw [hsame a (by omega), hcopied.outside a (by omega)]
    · -- a free entry
      exact ih b1 read hplaced (by omega) (by omega)

end Packing

section Decoding

variable {mem : Memory} {filepath p : ℕ} {names : List (List UInt8)}

/-- **The loop of `ls`** takes the packed names apart. -/
theorem lsLoop_packed (hnames : ∀ name ∈ names, 0 ∉ name ∧ name.length ≤ 15)
    (h : HoldsBytes mem p (packed names))
    (hsep : p + (packed names).length ≤ filepath ∨ filepath + BUFFER_SIZE ≤ p) :
    lsLoop filepath names.length p mem = some names := by
  induction names generalizing p mem with
  | nil => rfl
  | cons name names ih =>
    obtain ⟨hzero, hlen⟩ := hnames name List.mem_cons_self
    rw [packed_cons, holdsBytes_append, List.length_append, List.length_singleton] at h
    rw [packed_cons, List.length_append, List.length_append, List.length_singleton] at hsep
    have hname : Terminated mem p name := ⟨h.1, hzero⟩
    have hcopied := stringcopy_copied (t := filepath) hname
      (show (name.length : ℤ) < (BUFFER_SIZE : ℕ) by unfold BUFFER_SIZE; omega)
      (by unfold Apart; unfold BUFFER_SIZE at hsep; omega)
    rw [List.length_cons, lsLoop]
    generalize stringcopy mem filepath p BUFFER_SIZE = mem1 at hcopied
    have hcopy : Terminated mem1 filepath name := ⟨hcopied.holds hname.bytes (by simp), hzero⟩
    have hrest : HoldsBytes mem1 (p + (name.length + 1)) (packed names) := by
      refine h.2.frame fun i hi => hcopied.outside _ ?_
      unfold BUFFER_SIZE at hsep
      omega
    have hbytes : bytesAt mem1 filepath name.length = name := (holdsBytes_append.1 hcopy.bytes).1.bytesAt
    have hstrlen : strlen mem1 filepath BUFFER_SIZE = some name.length :=
      hcopy.strlen (by unfold BUFFER_SIZE; omega)
    have hloop := ih (fun n hn => hnames n (List.mem_cons_of_mem _ hn)) hrest
      (by unfold BUFFER_SIZE at hsep ⊢; omega)
    simp only [hstrlen, hloop, hbytes, Option.map_some]

end Decoding

/-! ## `sfs_read` of a folder -/

/-- `e` is the entry of the open folder `f`; no other call is reading or writing it. -/
structure OpenFolder (s : Sfs) (e : Slot) (f : ℕ) : Prop where
  fileid : (s.openFiles e).fileid = f
  only : ∀ e', (s.openFiles e').fileid = f → e' = e
  folder : (s.openFiles e).isFolder = true
  opened : (s.openFiles e).timesOpened ≠ 0
  readernum : (s.openFiles e).readernum = 0
  writerTid : (s.openFiles e).writerTid = -1
  inode : badFileid s f = false

section Folder

variable {s : Sfs} {e : Slot} {f : ℕ} {md : Block} {mem : Memory} {buffer bat : ℕ} {bufsize : ℤ}

theorem OpenFolder.enter (h : OpenFolder s e f) : sfsEnter s f = (some e, s) := by
  rcases sfsEnter_spec s (Int.natCast_nonneg f) with ⟨-, hno⟩ | ⟨e', he, hid⟩
  · exact absurd h.fileid (hno e)
  · rw [he, h.only e' hid]

/-- The listing as a list of bytes. -/
theorem listDirents_eq (hwell : WellNamed md) {k r : ℕ} (hr : r + k ≤ SFS_MAX_FILES) :
    listDirents md k r = ((namesFrom md k r).length, packed (namesFrom md k r)) := by
  induction k generalizing r with
  | zero => rfl
  | succ k ih =>
    rw [listDirents, namesFrom, ih (by omega)]
    split
    · rename_i hlive
      have hname : (direntName md r).take (SFS_FILENAME_MAX - 1) = direntName md r :=
        List.take_of_length_le (hwell r (by omega) hlive).2
      rw [hname, List.length_cons, packed_cons]
    · rfl

/-- **`sfs_read` of an open folder** as a whole call. -/
theorem OpenFolder.read (h : OpenFolder s e f) (hread : readVblock s.disk f = some md) (hwell : WellNamed md)
    (hsize : 512 ≤ bufsize) :
    sfsRead s f bufsize 0 = some
      ((((packed (liveNames md)).length : ℤ) + 4, be32 (liveNames md).length ++ packed (liveNames md)), s) := by
  have hnot : ¬ ((0 : ℤ) ≠ 0 ∨ bufsize < (SFS_VBLOCK_SIZE : ℕ)) := by
    unfold SFS_VBLOCK_SIZE
    omega
  have hread' : gbdDevice.read s.disk f = some md := hread
  rw [sfsRead_entered h.enter h.opened h.readernum h.writerTid h.inode, h.folder, readBody, if_pos rfl,
    if_neg hnot, Prog.run, hread', liveNames_eq]
  simp only [listDirents_eq hwell (le_refl _ : 0 + SFS_MAX_FILES ≤ SFS_MAX_FILES), Prog.run]

/-- **The directory branch on the memory.** -/
theorem sfsReadFolder_spec (hread : readVblock s.disk f = some md) (hwell : WellNamed md) (hsize : 512 ≤ bufsize)
    (hsep : buffer + 512 ≤ bat ∨ bat + 512 ≤ buffer) :
    ∃ mem', sfsReadFolder s.disk mem f buffer bat bufsize 0 =
        some (((packed (liveNames md)).length : ℤ) + 4, mem') ∧
      HoldsBytes mem' buffer (be32 (liveNames md).length ++ packed (liveNames md)) ∧
      ∀ a, a < buffer ∨ buffer + 404 ≤ a → a < bat ∨ bat + 512 ≤ a → mem' a = mem a := by
  have hnot : ¬ ((0 : ℤ) ≠ 0 ∨ bufsize < (SFS_VBLOCK_SIZE : ℕ)) := by
    unfold SFS_VBLOCK_SIZE
    omega
  have hplaced : Placed (storeBytes mem bat (md.slice 0 SFS_VBLOCK_SIZE)) bat md := by
    intro i hi
    have hbyte := holdsBytes_storeBytes mem bat (md.slice 0 SFS_VBLOCK_SIZE) i (by rw [Buf.slice_length]; exact hi)
    rw [hbyte, List.getD_eq_getElem?_getD, Buf.slice_getElem?, if_pos (show i < SFS_VBLOCK_SIZE from hi), Nat.zero_add]
    rfl
  have hsize' := hwell.packed_le (show 0 + SFS_MAX_FILES ≤ SFS_MAX_FILES from le_refl _)
  obtain ⟨mem1, hloop, hbytes, hsame⟩ := listLoop_spec 0 0 hwell hplaced
    (show 0 + SFS_MAX_FILES ≤ SFS_MAX_FILES from le_refl _)
    (show buffer + 4 + 0 + 16 * SFS_MAX_FILES ≤ bat ∨ bat + 512 ≤ buffer by unfold SFS_MAX_FILES; omega)
  rw [← liveNames_eq] at hloop hbytes hsame hsize'
  rw [Nat.zero_add, Nat.zero_add] at hloop
  refine ⟨storeWord mem1 buffer (liveNames md).length, ?_, ?_, fun a ha hbat => ?_⟩
  · rw [sfsReadFolder, if_neg hnot, hread]
    simp only [hloop]
  · rw [holdsBytes_append, be32_length]
    refine ⟨holdsBytes_storeBytes _ _ _, hbytes.frame fun i _ => storeBytes_outside (Or.inr ?_)⟩
    rw [be32_length]
    omega
  · unfold SFS_MAX_FILES at hsize'
    rw [storeWord, storeBytes_outside (by rw [be32_length]; omega), hsame a (by omega), storeBytes_outside]
    rw [Buf.slice_length]
    exact hbat

/-- **Listing round trip.**  Reading an open folder at offset 0 returns four bytes and the names with their
terminators, 404 at most, and writes nothing behind the first 404 bytes of the buffer; `ls` finds in these
bytes, wherever they are copied, the names of the live entries in slot order. -/
theorem listing_roundTrip (h : OpenFolder s e f) (hread : readVblock s.disk f = some md) (hwell : WellNamed md)
    (hsize : 512 ≤ bufsize) (hsep : buffer + 512 ≤ bat ∨ bat + 512 ≤ buffer) :
    ∃ (n : ℕ) (mem' : Memory), n = 4 + ((liveNames md).map fun name => name.length + 1).sum ∧ n ≤ 404 ∧
      sfsReadFolder s.disk mem f buffer bat bufsize 0 = some ((n : ℤ), mem') ∧
      sfsRead s f bufsize 0 = some (((n : ℤ), bytesAt mem' buffer n), s) ∧
      (∀ a, a < buffer ∨ buffer + 404 ≤ a → a < bat ∨ bat + 512 ≤ a → mem' a = mem a) ∧
      ∀ (user : Memory) (dir filepath : ℕ), (∀ i < n, user (dir + i) = mem' (buffer + i)) →
        dir + 512 ≤ filepath ∨ filepath + BUFFER_SIZE ≤ dir → lsNames user dir filepath = some (liveNames md) := by
  obtain ⟨mem', hfolder, hbytes, hsame⟩ : ∃ mem',
      sfsReadFolder s.disk mem f buffer bat bufsize 0 = some (((packed (liveNames md)).length : ℤ) + 4, mem') ∧
        HoldsBytes mem' buffer (be32 (liveNames md).length ++ packed (liveNames md)) ∧
        ∀ a, a < buffer ∨ buffer + 404 ≤ a → a < bat ∨ bat + 512 ≤ a → mem' a = mem a :=
    sfsReadFolder_spec hread hwell hsize hsep
  have hle : (packed (liveNames md)).length ≤ 400 := by
    rw [liveNames_eq]
    exact hwell.packed_le (show 0 + SFS_MAX_FILES ≤ SFS_MAX_FILES from le_refl _)
  have hlen : (be32 (liveNames md).length ++ packed (liveNames md)).length = 4 + (packed (liveNames md)).length := by
    rw [List.length_append, be32_length]
  refine ⟨4 + (packed (liveNames md)).length, mem', by rw [packed_length], by omega, ?_, ?_, hsame,
    fun user dir filepath hcopy hapart => ?_⟩
  · rw [hfolder]
    congr 2
    omega
  · rw [h.read hread hwell hsize, ← hlen, hbytes.bytesAt, hlen]
    congr 3
    omega
  · have huser : HoldsBytes user dir (be32 (liveNames md).length ++ packed (liveNames md)) := by
      intro i hi
      rw [hcopy i (by omega), hbytes i hi]
    obtain ⟨hcount, hnames⟩ := holdsBytes_append.1 huser
    have hfew : (liveNames md).length ≤ 25 := by
      rw [liveNames, List.length_map]
      exact (List.length_filter_le _ _).trans (by rw [List.length_range]; exact le_refl _)
    rw [lsNames, hcount.loadWord, Nat.mod_eq_of_lt (by omega)]
    refine lsLoop_packed (fun name hname => ?_) hnames (by omega)
    obtain ⟨r, hr, rfl⟩ := List.mem_map.1 hname
    obtain ⟨hr, hlive⟩ := List.mem_filter.1 hr
    refine ⟨fun h0 => ?_, (hwell r (List.mem_range.1 hr) (by simpa using hlive)).2⟩
    have hmem := List.mem_takeWhile_imp h0
    simp at hmem

end Folder

/-- The folder in block 3 with a file `a` in slot 1 and a folder `c/` in slot 3, opened once. -/
def openFolder : Sfs :=
  let md := (((Buf.const 512 0).setWord 20 4).store 24 [97]).setWord 60 5 |>.store 64 [99, 47]
  let disk : Gbd := ⟨8, fun b => if b = 3 then md else Buf.const 512 0, fun _ => false⟩
  (sfsInit disk).setEntry 0 ⟨1, 0, -1, 3, 2, true, false⟩

/-- It is read into a buffer at 0x2000, and `ls` takes the buffer apart. -/
theorem listing_roundTrip_twoNames : ∃ mem',
    sfsReadFolder openFolder.disk (fun _ => 0xff) 3 0x2000 0x1000 512 0 = some (9, mem') ∧
      lsNames mem' 0x2000 0x3000 = some [[97], [99, 47]] := by
  have hopen : OpenFolder openFolder 0 3 :=
    ⟨by decide, by decide, by decide, by decide, by decide, by decide, by decide +kernel⟩
  have hread : readVblock openFolder.disk 3 = some (openFolder.disk.blocks 3) := rfl
  have hwell : WellNamed (openFolder.disk.blocks 3) := by
    unfold WellNamed SFS_MAX_FILES
    decide +kernel
  have hnames : liveNames (openFolder.disk.blocks 3) = [[97], [99, 47]] := by decide +kernel
  obtain ⟨n, mem', hn, -, hfolder, -, -, hls⟩ := @listing_roundTrip _ _ _ _ (fun _ => 0xff) 0x2000 0x1000 512
    hopen hread hwell (by decide) (Or.inr (by decide))
  rw [hnames] at hn hls
  obtain rfl : n = 9 := hn
  exact ⟨mem', hfolder, hls mem' 0x2000 0x3000 (fun _ _ => rfl) (Or.inl (by decide))⟩

end Buenos.Fs
