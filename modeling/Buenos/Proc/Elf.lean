import Buenos.Fs.Sfs.Format
import Buenos.Proc.Memlimit

/-!
# ELF headers

`elf_parse_header` of `proc/elf.c`, on an open file.

* `OpenFile`, `vfsSeek`, `vfsRead` — an open file as the loader uses it: its bytes and the seek position,
  with `fs->read` of a file system whose disk has no errors.
* `Elf32Ehdr`, `Elf32Phdr` — the fields of the headers that are used, in big-endian order.
* `elfParseHeader` — the header and the loop over the program headers.

Principal result: `elfParseHeader_bounded`, the ranges of the fields of an accepted header.
-/

namespace Buenos.Proc

open Bytes Buenos.Vm
open Buenos.Fs (VFS_OK VFS_ERROR)

/-! ## Open files -/

/-- An open file. -/
structure OpenFile where
  content : List UInt8
  seekPosition : ℕ
  deriving DecidableEq

/-- `vfs_seek`. -/
def vfsSeek (file : OpenFile) (seekPosition : ℤ) : ℤ × OpenFile :=
  if 0 ≤ seekPosition then (VFS_OK, { file with seekPosition := seekPosition.toNat }) else (VFS_ERROR, file)

/-- The bytes that `vfs_read` writes to the buffer. -/
def OpenFile.available (file : OpenFile) (bufsize : ℤ) : List UInt8 :=
  (file.content.drop file.seekPosition).take bufsize.toNat

/-- `vfs_read`: the result, the bytes that are written to the buffer, and the file. -/
def vfsRead (file : OpenFile) (bufsize : ℤ) : ℤ × List UInt8 × OpenFile :=
  if bufsize < 0 then (VFS_ERROR, [], file)
  else if file.content.length < file.seekPosition then (VFS_ERROR, [], file)
  else
    let bytes := file.available bufsize
    (bytes.length, bytes, { file with seekPosition := file.seekPosition + bytes.length })

/-! ## Headers -/

def ELF_MAGIC : ℕ := 0x7f454c46
def EI_CLASS : ℕ := 4
def EI_DATA : ℕ := 5
def EI_VERSION : ℕ := 6
def ELFCLASS32 : UInt8 := 1
def ELFDATA2MSB : UInt8 := 2
def EV_CURRENT : ℕ := 1
def ET_EXEC : ℕ := 2
def EM_MIPS : ℕ := 8
def PT_NULL : ℕ := 0
def PT_LOAD : ℕ := 1
def PT_NOTE : ℕ := 4
def PT_PHDR : ℕ := 6
def PF_W : ℕ := 0x2

/-- A big-endian 16-bit value. -/
def halfWord {n : ℕ} (b : Buf n) (o : ℕ) : ℕ := 2 ^ 8 * (b.byte o).toNat + (b.byte (o + 1)).toNat

/-- `Elf32_Ehdr`, as it lies in memory. -/
abbrev Elf32Ehdr := Buf 52

namespace Elf32Ehdr

variable (h : Elf32Ehdr)

def identWord : ℕ := h.word 0
def identByte (i : ℕ) : UInt8 := h.byte i
def type : ℕ := halfWord h 16
def machine : ℕ := halfWord h 18
def version : ℕ := h.word 20
def entry : ℕ := h.word 24
def phoff : ℕ := h.word 28
def phnum : ℕ := halfWord h 44

end Elf32Ehdr

/-- `Elf32_Phdr`, as it lies in memory. -/
abbrev Elf32Phdr := Buf 32

namespace Elf32Phdr

variable (p : Elf32Phdr)

def type : ℕ := p.word 0
def offset : ℕ := p.word 4
def vaddr : ℕ := p.word 8
def filesz : ℕ := p.word 16
def memsz : ℕ := p.word 20
def flags : ℕ := p.word 24

end Elf32Phdr

/-- `elf_info_t`. -/
structure ElfInfo where
  entryPoint : ℕ
  roLocation : ℕ
  roSize : ℕ
  roPages : ℕ
  roVaddr : ℕ
  rwLocation : ℕ
  rwSize : ℕ
  rwPages : ℕ
  rwVaddr : ℕ
  deriving DecidableEq

/-- `elf_info_t` after the `memoryset`, with the entry point. -/
def ElfInfo.zeroed (entryPoint : ℕ) : ElfInfo := ⟨entryPoint, 0, 0, 0, 0, 0, 0, 0, 0⟩

/-- `segs`. -/
structure Segs where
  ro : Bool
  rw : Bool
  deriving DecidableEq

/-- Memory size rounded up to the page boundary, in pages. -/
def pagesOf (memsz : ℕ) : ℕ := u32 (memsz + PAGE_SIZE - 1) / PAGE_SIZE

/-- The checks of `elf_parse_header` on the ELF header. -/
def Elf32Ehdr.accepted (h : Elf32Ehdr) : Bool :=
  h.identWord == ELF_MAGIC &&
  (h.identByte EI_CLASS == ELFCLASS32 && h.identByte EI_DATA == ELFDATA2MSB && h.machine == EM_MIPS) &&
  (h.version == EV_CURRENT && (h.identByte EI_VERSION).toNat == EV_CURRENT) &&
  h.type == ET_EXEC && h.phnum != 0

/-- The `switch` on a program header; `none` when it is refused. -/
def programHeader (p : Elf32Phdr) (elf : ElfInfo) (segs : Segs) : Option (ElfInfo × Segs) :=
  if p.type = PT_NULL ∨ p.type = PT_NOTE ∨ p.type = PT_PHDR then some (elf, segs)
  else if p.type = PT_LOAD then
    if p.flags &&& PF_W ≠ 0 then
      if segs.rw then none
      else some ({ elf with rwLocation := p.offset, rwSize := p.filesz, rwVaddr := p.vaddr
                            rwPages := pagesOf p.memsz }, { segs with rw := true })
    else if segs.ro then none
    else some ({ elf with roLocation := p.offset, roSize := p.filesz, roVaddr := p.vaddr
                          roPages := pagesOf p.memsz }, { segs with ro := true })
  else none

/-- The loop over the program headers, with the number that is left. -/
def programHeaders : ℕ → ℤ → ElfInfo → Segs → OpenFile → Option (ElfInfo × Segs) × OpenFile
  | 0, _, elf, segs, file => (some (elf, segs), file)
  | n + 1, currentPosition, elf, segs, file =>
    match vfsRead file 32 with
    | (ret, bytes, file) =>
      if ret ≠ 32 then (none, file)
      else match programHeader ((Buf.const 32 0).store 0 bytes) elf segs with
        | none => (none, file)
        | some (elf, segs) =>
          -- the result of `vfs_seek` is not looked at
          programHeaders n (currentPosition + 32) elf segs (vfsSeek file (currentPosition + 32)).2

/-- `elf_parse_header`; `none` when it returns 0. -/
def elfParseHeader (file : OpenFile) : Option ElfInfo × OpenFile :=
  match vfsRead file 52 with
  | (ret, bytes, file) =>
    if ret ≠ 52 then (none, file)
    else
      let hdr : Elf32Ehdr := (Buf.const 52 0).store 0 bytes
      if hdr.accepted then
        let currentPosition := toInt hdr.phoff
        match programHeaders hdr.phnum currentPosition (.zeroed hdr.entry) ⟨false, false⟩
            (vfsSeek file currentPosition).2 with
        | (none, file) => (none, file)
        | (some (elf, segs), file) => (if segs.ro || segs.rw then some elf else none, file)
      else (none, file)

/-! ## The ranges of the fields -/

/-- The fields are 32-bit values and the numbers of pages are quotients by the page size. -/
structure ElfInfo.Bounded (elf : ElfInfo) : Prop where
  roLocation : elf.roLocation < 2 ^ 32
  roSize : elf.roSize < 2 ^ 32
  roPages : elf.roPages < 2 ^ 20
  roVaddr : elf.roVaddr < 2 ^ 32
  rwLocation : elf.rwLocation < 2 ^ 32
  rwSize : elf.rwSize < 2 ^ 32
  rwPages : elf.rwPages < 2 ^ 20
  rwVaddr : elf.rwVaddr < 2 ^ 32

section Bounded

variable {elf elf' : ElfInfo} {segs segs' : Segs} {file : OpenFile}

theorem pagesOf_lt (memsz : ℕ) : pagesOf memsz < 2 ^ 20 := by
  have hlt : u32 (memsz + PAGE_SIZE - 1) < 2 ^ 32 := Nat.mod_lt _ (by decide)
  exact Nat.div_lt_of_lt_mul (by simpa [PAGE_SIZE] using hlt)

theorem programHeader_bounded {p : Elf32Phdr} (h : elf.Bounded)
    (hp : programHeader p elf segs = some (elf', segs')) : elf'.Bounded := by
  unfold programHeader at hp
  split at hp
  · cases hp
    exact h
  · split at hp
    · split at hp
      · split at hp
        · cases hp
        · cases hp
          exact { h with rwLocation := p.word_lt 4, rwSize := p.word_lt 16, rwPages := pagesOf_lt _,
                         rwVaddr := p.word_lt 8 }
      · split at hp
        · cases hp
        · cases hp
          exact { h with roLocation := p.word_lt 4, roSize := p.word_lt 16, roPages := pagesOf_lt _,
                         roVaddr := p.word_lt 8 }
    · cases hp

theorem programHeaders_bounded {n : ℕ} {currentPosition : ℤ} {file' : OpenFile} (h : elf.Bounded)
    (hp : programHeaders n currentPosition elf segs file = (some (elf', segs'), file')) : elf'.Bounded := by
  induction n generalizing currentPosition elf segs file with
  | zero =>
    cases hp
    exact h
  | succ n ih =>
    rw [programHeaders] at hp
    simp only at hp
    split at hp
    · cases hp
    · split at hp
      · cases hp
      · rename_i hhdr
        exact ih (programHeader_bounded h hhdr) hp

/-- **The fields of an accepted header.** -/
theorem elfParseHeader_bounded (h : (elfParseHeader file).1 = some elf) : elf.Bounded := by
  unfold elfParseHeader at h
  simp only at h
  split at h
  · cases h
  · split at h
    · split at h
      · cases h
      · rename_i elf' segs' file' hp
        simp only at h
        split at h
        · cases h
          refine programHeaders_bounded ⟨?_, ?_, ?_, ?_, ?_, ?_, ?_, ?_⟩ hp
          all_goals exact Nat.two_pow_pos _
        · cases h
    · cases h

/-- Reading and seeking leave the bytes of the file. -/
theorem vfsSeek_content (file : OpenFile) (position : ℤ) : (vfsSeek file position).2.content = file.content := by
  unfold vfsSeek
  split <;> rfl

theorem vfsRead_content (file : OpenFile) (bufsize : ℤ) :
    (vfsRead file bufsize).2.2.content = file.content := by
  unfold vfsRead
  split
  · rfl
  · split <;> rfl

theorem programHeaders_content {n : ℕ} {currentPosition : ℤ} :
    (programHeaders n currentPosition elf segs file).2.content = file.content := by
  induction n generalizing currentPosition elf segs file with
  | zero => rfl
  | succ n ih =>
    rw [programHeaders]
    simp only
    split
    · exact vfsRead_content _ _
    · split
      · exact vfsRead_content _ _
      · rw [ih, vfsSeek_content, vfsRead_content]

theorem elfParseHeader_content (file : OpenFile) : (elfParseHeader file).2.content = file.content := by
  unfold elfParseHeader
  simp only
  split
  · exact vfsRead_content _ _
  · split
    · have hcontent : ∀ n position elf segs, (programHeaders n position elf segs
          (vfsSeek (vfsRead file 52).2.2 position).2).2.content = file.content := by
        intro n position elf segs
        rw [programHeaders_content, vfsSeek_content, vfsRead_content]
      split
      · rename_i hp
        rw [← hcontent, hp]
      · rename_i hp
        rw [← hcontent, hp]
    · exact vfsRead_content _ _

end Bounded

end Buenos.Proc
