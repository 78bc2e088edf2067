import Buenos.Proc.Elf
import Mathlib.Algebra.Order.Floor.Div

/-!
# Which ELF files are accepted

`elf_parse_header` against the tables that an ELF header describes, for every content of the file.

* `headerOf`, `headerAt` — the headers in a file, where they are complete.
* `programTable` — the table that the ELF header describes: entries of `e_phentsize` bytes from `e_phoff` on.
* `readTable` — the table that the code reads: entries of 32 bytes, from where its seeks lead.
* `Loadable` — what the entries of a table have to be.
* `ParsesRight` — the property, `Faithful` — its condition on the file.

Principal result: `elfParseHeader_exact`.
-/

namespace Buenos.Proc

open Bytes Buenos.Vm

/-! ## Tables -/

/-- The ELF header of a file, if it is complete. -/
def headerOf (content : List UInt8) : Option Elf32Ehdr :=
  if 52 ≤ content.length then some ((Buf.const 52 0).store 0 (content.take 52)) else none

/-- The program header at a position of the file, if it is complete. -/
def headerAt (content : List UInt8) (position : ℕ) : Option Elf32Phdr :=
  if position + 32 ≤ content.length then some ((Buf.const 32 0).store 0 ((content.drop position).take 32)) else none

def Elf32Ehdr.phentsize (h : Elf32Ehdr) : ℕ := halfWord h 42

/-- The entries from number `i` on, at the given positions. -/
def entries (content : List UInt8) (position : ℕ → ℕ) (i n : ℕ) : List (Option Elf32Phdr) :=
  (List.range' i n).map fun i => headerAt content (position i)

/-- The table that the ELF header describes. -/
def programTable (content : List UInt8) (h : Elf32Ehdr) : List (Option Elf32Phdr) :=
  entries content (fun i => h.phoff + i * h.phentsize) 0 h.phnum

/-- Where the code reads entry `i`: a seek to a negative position fails, and the file goes on behind what has been
read, from the end of the ELF header on. -/
def readPosition (h : Elf32Ehdr) (i : ℕ) : ℕ :=
  if 0 ≤ toInt h.phoff + 32 * i then (toInt h.phoff + 32 * i).toNat else 52 + 32 * i

/-- The table that the code reads. -/
def readTable (content : List UInt8) (h : Elf32Ehdr) : List (Option Elf32Phdr) :=
  entries content (readPosition h) 0 h.phnum

namespace Elf32Phdr

variable (p : Elf32Phdr)

/-- A segment to load that is writable. -/
def writable : Bool := decide (p.type = PT_LOAD ∧ p.flags &&& PF_W ≠ 0)

/-- A segment to load that is not. -/
def readOnly : Bool := decide (p.type = PT_LOAD ∧ p.flags &&& PF_W = 0)

/-- One of the types that are accepted. -/
def Known : Prop := p.type = PT_NULL ∨ p.type = PT_NOTE ∨ p.type = PT_PHDR ∨ p.type = PT_LOAD

end Elf32Phdr

/-- The entries are of known types, and there are one or two segments to load, of different kinds. -/
structure Loadable (ps : List Elf32Phdr) : Prop where
  known : ∀ p ∈ ps, p.Known
  writable : (ps.filter Elf32Phdr.writable).length ≤ 1
  readOnly : (ps.filter Elf32Phdr.readOnly).length ≤ 1
  some : 1 ≤ (ps.filter Elf32Phdr.writable).length + (ps.filter Elf32Phdr.readOnly).length

/-- Every entry of the table is complete, and they are loadable. -/
def AcceptsTable (table : List (Option Elf32Phdr)) (ps : List Elf32Phdr) : Prop := table = ps.map some ∧ Loadable ps

/-- The ELF header has what an executable has to have. -/
structure Elf32Ehdr.Required (h : Elf32Ehdr) : Prop where
  magic : h.identWord = ELF_MAGIC
  cls : h.identByte EI_CLASS = ELFCLASS32
  byteOrder : h.identByte EI_DATA = ELFDATA2MSB
  machine : h.machine = EM_MIPS
  version : h.version = EV_CURRENT
  identVersion : (h.identByte EI_VERSION).toNat = EV_CURRENT
  type : h.type = ET_EXEC
  phnum : 0 < h.phnum

theorem required_iff (h : Elf32Ehdr) : h.accepted = true ↔ h.Required := by
  unfold Elf32Ehdr.accepted
  simp only [Bool.and_eq_true, beq_iff_eq, bne_iff_ne]
  constructor
  · rintro ⟨⟨⟨⟨hmagic, ⟨hcls, horder⟩, hmachine⟩, hversion, hident⟩, htype⟩, hphnum⟩
    exact ⟨hmagic, hcls, horder, hmachine, hversion, hident, htype, Nat.pos_of_ne_zero hphnum⟩
  · rintro ⟨hmagic, hcls, horder, hmachine, hversion, hident, htype, hphnum⟩
    exact ⟨⟨⟨⟨hmagic, ⟨hcls, horder⟩, hmachine⟩, hversion, hident⟩, htype⟩, hphnum.ne'⟩

/-! ## Segments -/

/-- The fields of `elf_info_t` about one segment. -/
structure Segment where
  location : ℕ
  size : ℕ
  vaddr : ℕ
  pages : ℕ
  deriving DecidableEq

def ElfInfo.rw (elf : ElfInfo) : Segment := ⟨elf.rwLocation, elf.rwSize, elf.rwVaddr, elf.rwPages⟩

def ElfInfo.ro (elf : ElfInfo) : Segment := ⟨elf.roLocation, elf.roSize, elf.roVaddr, elf.roPages⟩

/-- The segment that a program header describes. -/
def Elf32Phdr.segment (p : Elf32Phdr) : Segment := ⟨p.offset, p.filesz, p.vaddr, p.memsz ⌈/⌉ PAGE_SIZE⟩

/-- What the code notes of it: the number of pages is computed in 32 bits. -/
def Elf32Phdr.noted (p : Elf32Phdr) : Segment := ⟨p.offset, p.filesz, p.vaddr, pagesOf p.memsz⟩

/-- What is noted of the first header of a list, or what was there before. -/
def notedFirst (ps : List Elf32Phdr) (before : Segment) : Segment := (ps.head?.map Elf32Phdr.noted).getD before

/-! ## The scan -/

/-- The loop over the program headers, on a table. -/
def scanTable : List (Option Elf32Phdr) → ElfInfo → Segs → Option (ElfInfo × Segs)
  | [], elf, segs => some (elf, segs)
  | none :: _, _, _ => none
  | some p :: ps, elf, segs =>
    match programHeader p elf segs with
    | none => none
    | some (elf, segs) => scanTable ps elf segs

section Scan

variable {content : List UInt8} {h : Elf32Ehdr} {p : Elf32Phdr} {elf elf' : ElfInfo} {segs segs' : Segs}

/-- Reading a program header. -/
theorem vfsRead_header (position : ℕ) :
    (headerAt content position = none ∧ (vfsRead ⟨content, position⟩ 32).1 ≠ 32) ∨
    ∃ bytes, headerAt content position = some ((Buf.const 32 0).store 0 bytes) ∧
      vfsRead ⟨content, position⟩ 32 = (32, bytes, ⟨content, position + 32⟩) := by
  unfold headerAt
  by_cases hfull : position + 32 ≤ content.length
  · have hlen : ((content.drop position).take 32).length = 32 := by
      rw [List.length_take, List.length_drop]
      omega
    refine Or.inr ⟨_, if_pos hfull, ?_⟩
    unfold vfsRead OpenFile.available
    rw [if_neg (by decide), if_neg (by simp only; omega)]
    simp only [Int.reduceToNat, hlen]
    rfl
  · refine Or.inl ⟨if_neg hfull, ?_⟩
    unfold vfsRead OpenFile.available
    rw [if_neg (by decide)]
    split_ifs with hpast
    · show Fs.VFS_ERROR ≠ 32
      decide
    · simp only [Int.reduceToNat, List.length_take, List.length_drop]
      omega

/-- The position after an entry and the seek behind it. -/
theorem vfsSeek_next (i : ℕ) :
    (vfsSeek ⟨content, readPosition h i + 32⟩ (toInt h.phoff + 32 * i + 32)).2 = ⟨content, readPosition h (i + 1)⟩ := by
  unfold vfsSeek readPosition
  by_cases hnext : 0 ≤ toInt h.phoff + 32 * i + 32
  · rw [if_pos hnext, if_pos (show 0 ≤ toInt h.phoff + 32 * ((i + 1 : ℕ) : ℤ) by omega)]
    simp only [OpenFile.mk.injEq, true_and]
    omega
  · rw [if_neg hnext, if_neg (show ¬ 0 ≤ toInt h.phoff + 32 * (i : ℤ) by omega),
      if_neg (show ¬ 0 ≤ toInt h.phoff + 32 * ((i + 1 : ℕ) : ℤ) by omega)]
    simp only [OpenFile.mk.injEq, true_and]
    omega

theorem vfsSeek_first : (vfsSeek ⟨content, 52⟩ (toInt h.phoff)).2 = ⟨content, readPosition h 0⟩ := by
  unfold vfsSeek readPosition
  simp only [Nat.cast_zero, mul_zero, add_zero]
  split_ifs <;> rfl

/-- **The loop of `elf_parse_header`** scans the table of the entries at its positions. -/
theorem programHeaders_scan (n : ℕ) : ∀ (i : ℕ) (elf : ElfInfo) (segs : Segs),
    (programHeaders n (toInt h.phoff + 32 * i) elf segs ⟨content, readPosition h i⟩).1 =
      scanTable (entries content (readPosition h) i n) elf segs := by
  induction n with
  | zero => exact fun _ _ _ => rfl
  | succ n ih =>
    intro i elf segs
    have hentries : entries content (readPosition h) i (n + 1) =
        headerAt content (readPosition h i) :: entries content (readPosition h) (i + 1) n := rfl
    rw [hentries, programHeaders]
    rcases @vfsRead_header content (readPosition h i) with ⟨hnone, hread⟩ | ⟨bytes, hsome, hread⟩
    · rw [hnone]
      simp only [if_pos hread]
      rfl
    · rw [hsome, hread, scanTable]
      simp only [ne_eq, not_true_eq_false, if_false]
      cases programHeader ((Buf.const 32 0).store 0 bytes) elf segs with
      | none => rfl
      | some r =>
        simp only [vfsSeek_next]
        have hcast : toInt h.phoff + 32 * (i : ℤ) + 32 = toInt h.phoff + 32 * ((i + 1 : ℕ) : ℤ) := by omega
        rw [hcast]
        exact ih (i + 1) r.1 r.2

/-- **`elf_parse_header`** on a file that has just been opened. -/
theorem elfParseHeader_scan : (elfParseHeader ⟨content, 0⟩).1 =
    match headerOf content with
    | none => none
    | some h =>
      if h.accepted then
        match scanTable (readTable content h) (.zeroed h.entry) ⟨false, false⟩ with
        | none => none
        | some (elf, segs) => if segs.ro || segs.rw then some elf else none
      else none := by
  unfold elfParseHeader headerOf
  by_cases hfull : 52 ≤ content.length
  · have hlen : (content.take 52).length = 52 := by
      rw [List.length_take]
      omega
    have hread : vfsRead ⟨content, 0⟩ 52 = (52, content.take 52, ⟨content, 52⟩) := by
      unfold vfsRead OpenFile.available
      rw [if_neg (by decide), if_neg (by simp)]
      simp only [Int.reduceToNat, List.drop_zero, hlen, Nat.zero_add]
      rfl
    rw [if_pos hfull, hread]
    simp only [ne_eq, not_true_eq_false, if_false]
    generalize ((Buf.const 52 0).store 0 (content.take 52) : Elf32Ehdr) = h
    split_ifs with hacc
    · have hscan := @programHeaders_scan content h (Elf32Ehdr.phnum h) 0 (.zeroed (Elf32Ehdr.entry h))
        ⟨false, false⟩
      simp only [Nat.cast_zero, mul_zero, add_zero] at hscan
      rw [vfsSeek_first, readTable, ← hscan]
      split
      · rename_i hp
        rw [hp]
      · rename_i hp
        rw [hp]
    · rfl
  · rw [if_neg hfull]
    have hread : (vfsRead ⟨content, 0⟩ 52).1 ≠ 52 := by
      unfold vfsRead OpenFile.available
      rw [if_neg (by decide), if_neg (by simp)]
      simp only [Int.reduceToNat, List.drop_zero, List.length_take]
      omega
    simp only [if_pos hread]

end Scan

section Spec

variable {content : List UInt8} {h : Elf32Ehdr} {p q : Elf32Phdr} {elf elf' : ElfInfo} {segs segs' : Segs}
  {table : List (Option Elf32Phdr)} {ps rs : List Elf32Phdr}

/-- What an accepted program header changes. -/
structure Noted (p : Elf32Phdr) (elf elf' : ElfInfo) (segs segs' : Segs) : Prop where
  known : p.Known
  rwCount : segs'.rw.toNat = segs.rw.toNat + p.writable.toNat
  roCount : segs'.ro.toNat = segs.ro.toNat + p.readOnly.toNat
  entry : elf'.entryPoint = elf.entryPoint
  rw : elf'.rw = if p.writable then p.noted else elf.rw
  ro : elf'.ro = if p.readOnly then p.noted else elf.ro

/-- A header of one of the types that are ignored is no segment. -/
theorem ignored_kinds (hp : p.type = PT_NULL ∨ p.type = PT_NOTE ∨ p.type = PT_PHDR) :
    p.type ≠ PT_LOAD ∧ p.writable = false ∧ p.readOnly = false := by
  have hne : p.type ≠ PT_LOAD := by
    rcases hp with hp | hp | hp
    · rw [hp]
      decide
    · rw [hp]
      decide
    · rw [hp]
      decide
  exact ⟨hne, by simp [Elf32Phdr.writable, hne], by simp [Elf32Phdr.readOnly, hne]⟩

theorem programHeader_noted (hp : programHeader p elf segs = some (elf', segs')) : Noted p elf elf' segs segs' := by
  unfold programHeader at hp
  split at hp
  · rename_i hign
    cases hp
    obtain ⟨-, hw, hr⟩ := ignored_kinds hign
    refine ⟨?_, by simp [hw], by simp [hr], rfl, by simp [hw], by simp [hr]⟩
    unfold Elf32Phdr.Known
    tauto
  split at hp
  · rename_i hload
    have hknown : p.Known := Or.inr (Or.inr (Or.inr hload))
    split at hp
    · rename_i hflag
      have hw : p.writable = true := by simp [Elf32Phdr.writable, hload, hflag]
      have hr : p.readOnly = false := by simp [Elf32Phdr.readOnly, hflag]
      split at hp
      · cases hp
      · rename_i hfree
        cases hp
        exact ⟨hknown, by simp [hw, hfree], by simp [hr], rfl, by rw [if_pos hw]; rfl, by simp [hr]; rfl⟩
    · rename_i hflag
      have hw : p.writable = false := by simp only [Elf32Phdr.writable, hflag, and_false, decide_false]
      have hr : p.readOnly = true := by
        rw [not_not] at hflag
        simp [Elf32Phdr.readOnly, hload, hflag]
      split at hp
      · cases hp
      · rename_i hfree
        cases hp
        exact ⟨hknown, by simp [hw], by simp [hr, hfree], rfl, by simp [hw]; rfl, by rw [if_pos hr]; rfl⟩
  · cases hp

theorem programHeader_some (hknown : p.Known) (hw : segs.rw.toNat + p.writable.toNat ≤ 1)
    (hr : segs.ro.toNat + p.readOnly.toNat ≤ 1) : ∃ elf' segs', programHeader p elf segs = some (elf', segs') := by
  unfold programHeader
  by_cases hign : p.type = PT_NULL ∨ p.type = PT_NOTE ∨ p.type = PT_PHDR
  · rw [if_pos hign]
    exact ⟨elf, segs, rfl⟩
  have hload : p.type = PT_LOAD := by
    unfold Elf32Phdr.Known at hknown
    tauto
  rw [if_neg hign, if_pos hload]
  by_cases hflag : p.flags &&& PF_W ≠ 0
  · have hwrite : p.writable = true := by simp [Elf32Phdr.writable, hload, hflag]
    have hfree : segs.rw = false := by
      rw [hwrite] at hw
      cases hrw : segs.rw with
      | false => rfl
      | true =>
        rw [hrw] at hw
        cases hw
        contradiction
    rw [if_pos hflag, if_neg (by rw [hfree]; decide)]
    exact ⟨_, _, rfl⟩
  · have hread : p.readOnly = true := by
      rw [not_not] at hflag
      simp [Elf32Phdr.readOnly, hload, hflag]
    have hfree : segs.ro = false := by
      rw [hread] at hr
      cases hro : segs.ro with
      | false => rfl
      | true =>
        rw [hro] at hr
        cases hr
        contradiction
    rw [if_neg hflag, if_neg (by rw [hfree]; decide)]
    exact ⟨_, _, rfl⟩

theorem length_filter_cons (kind : Elf32Phdr → Bool) (p : Elf32Phdr) (ps : List Elf32Phdr) :
    ((p :: ps).filter kind).length = (kind p).toNat + (ps.filter kind).length := by
  cases hp : kind p with
  | true => simp [hp, Nat.add_comm]
  | false => simp [hp]

/-- What is noted of a list with at most one header of a kind. -/
theorem notedFirst_cons {kind : Elf32Phdr → Bool} {before after : Segment}
    (hafter : after = if kind p then p.noted else before) (hone : ((p :: ps).filter kind).length ≤ 1) :
    notedFirst (ps.filter kind) after = notedFirst ((p :: ps).filter kind) before := by
  rw [length_filter_cons] at hone
  cases hp : kind p with
  | true =>
    rw [hp] at hone hafter
    have hnil : ps.filter kind = [] := List.eq_nil_of_length_eq_zero (by simpa using hone)
    rw [hafter, hnil, List.filter_cons_of_pos hp]
    rfl
  | false =>
    rw [hp] at hafter
    rw [hafter, List.filter_cons_of_neg (by rw [hp]; decide)]
    rfl

/-- **A scan that goes through** has met complete headers of known types, and notes the segments. -/
theorem scanTable_noted : ∀ {table : List (Option Elf32Phdr)} {elf : ElfInfo} {segs : Segs},
    scanTable table elf segs = some (elf', segs') →
    ∃ ps : List Elf32Phdr, table = ps.map some ∧ (∀ p ∈ ps, p.Known) ∧
      segs'.rw.toNat = segs.rw.toNat + (ps.filter Elf32Phdr.writable).length ∧
      segs'.ro.toNat = segs.ro.toNat + (ps.filter Elf32Phdr.readOnly).length ∧
      elf'.entryPoint = elf.entryPoint ∧ elf'.rw = notedFirst (ps.filter Elf32Phdr.writable) elf.rw ∧
      elf'.ro = notedFirst (ps.filter Elf32Phdr.readOnly) elf.ro
  | [], elf, segs, hs => by
    cases hs
    exact ⟨[], rfl, fun p hp => absurd hp List.not_mem_nil, rfl, rfl, rfl, rfl, rfl⟩
  | none :: _, _, _, hs => by cases hs
  | some p :: table, elf, segs, hs => by
    rw [scanTable] at hs
    cases hp : programHeader p elf segs with
    | none =>
      rw [hp] at hs
      cases hs
    | some r =>
      rw [hp] at hs
      obtain ⟨ps, rfl, hknown, hrwCount, hroCount, hentry, hrw, hro⟩ := scanTable_noted hs
      have hnoted := programHeader_noted hp
      have hw : ((p :: ps).filter Elf32Phdr.writable).length ≤ 1 := by
        have hle := segs'.rw.toNat_le
        have hcount := hnoted.rwCount
        rw [length_filter_cons]
        omega
      have hr : ((p :: ps).filter Elf32Phdr.readOnly).length ≤ 1 := by
        have hle := segs'.ro.toNat_le
        have hcount := hnoted.roCount
        rw [length_filter_cons]
        omega
      refine ⟨p :: ps, rfl, fun x hx => ?_, ?_, ?_, hentry.trans hnoted.entry, ?_, ?_⟩
      · rcases List.mem_cons.1 hx with rfl | hx
        · exact hnoted.known
        · exact hknown x hx
      · rw [hrwCount, hnoted.rwCount, length_filter_cons, Nat.add_assoc]
      · rw [hroCount, hnoted.roCount, length_filter_cons, Nat.add_assoc]
      · rw [hrw]
        exact notedFirst_cons hnoted.rw hw
      · rw [hro]
        exact notedFirst_cons hnoted.ro hr

theorem scanTable_some : ∀ {ps : List Elf32Phdr} {elf : ElfInfo} {segs : Segs}, (∀ p ∈ ps, p.Known) →
    segs.rw.toNat + (ps.filter Elf32Phdr.writable).length ≤ 1 →
    segs.ro.toNat + (ps.filter Elf32Phdr.readOnly).length ≤ 1 →
    ∃ elf' segs', scanTable (ps.map some) elf segs = some (elf', segs')
  | [], elf, segs, _, _, _ => ⟨elf, segs, rfl⟩
  | p :: ps, elf, segs, hknown, hw, hr => by
    rw [length_filter_cons] at hw hr
    obtain ⟨elf1, segs1, hp⟩ := @programHeader_some p elf segs (hknown p List.mem_cons_self)
      (show segs.rw.toNat + p.writable.toNat ≤ 1 by omega) (show segs.ro.toNat + p.readOnly.toNat ≤ 1 by omega)
    have hnoted := programHeader_noted hp
    have hrwCount := hnoted.rwCount
    have hroCount := hnoted.roCount
    obtain ⟨elf', segs', hs⟩ := @scanTable_some ps elf1 segs1 (fun x hx => hknown x (List.mem_cons_of_mem p hx))
      (show segs1.rw.toNat + (ps.filter Elf32Phdr.writable).length ≤ 1 by omega)
      (show segs1.ro.toNat + (ps.filter Elf32Phdr.readOnly).length ≤ 1 by omega)
    refine ⟨elf', segs', ?_⟩
    rw [List.map_cons, scanTable, hp]
    exact hs

/-- **What an accepted file looks like**, and what is noted of it. -/
theorem elfParseHeader_noted (hs : (elfParseHeader ⟨content, 0⟩).1 = some elf) :
    ∃ h ps, headerOf content = some h ∧ h.Required ∧ AcceptsTable (readTable content h) ps ∧ elf.entryPoint = h.entry ∧
      elf.rw = notedFirst (ps.filter Elf32Phdr.writable) ⟨0, 0, 0, 0⟩ ∧
      elf.ro = notedFirst (ps.filter Elf32Phdr.readOnly) ⟨0, 0, 0, 0⟩ := by
  rw [elfParseHeader_scan] at hs
  split at hs
  · cases hs
  rename_i h hh
  split at hs
  swap
  · cases hs
  rename_i hacc
  split at hs
  · cases hs
  rename_i elf1 segs1 hscan
  split at hs
  swap
  · cases hs
  rename_i hsome
  cases hs
  obtain ⟨ps, htable, hknown, hrwCount, hroCount, hentry, hrw, hro⟩ := scanTable_noted hscan
  simp only [Bool.toNat_false, Nat.zero_add] at hrwCount hroCount
  refine ⟨h, ps, hh, (required_iff h).1 hacc, ⟨htable, hknown, ?_, ?_, ?_⟩, hentry, hrw, hro⟩
  · rw [← hrwCount]
    exact segs1.rw.toNat_le
  · rw [← hroCount]
    exact segs1.ro.toNat_le
  · rw [← hrwCount, ← hroCount]
    cases hro : segs1.ro with
    | true => simp
    | false =>
      cases hrw : segs1.rw with
      | true => simp
      | false =>
        rw [hro, hrw] at hsome
        cases hsome

theorem elfParseHeader_some (hh : headerOf content = some h) (hreq : h.Required)
    (hps : AcceptsTable (readTable content h) ps) : ∃ elf, (elfParseHeader ⟨content, 0⟩).1 = some elf := by
  obtain ⟨htable, hknown, hw, hr, hone⟩ := hps
  obtain ⟨elf, segs, hscan⟩ := @scanTable_some ps (.zeroed h.entry) ⟨false, false⟩ hknown (by simpa using hw)
    (by simpa using hr)
  have hnoted := hscan
  rw [← htable] at hscan
  obtain ⟨ps', hps', -, hrwCount, hroCount, -⟩ := scanTable_noted hnoted
  have hsame : ps = ps' := List.map_injective_iff.2 (Option.some_injective _) hps'
  rw [← hsame] at hrwCount hroCount
  simp only [Bool.toNat_false, Nat.zero_add] at hrwCount hroCount
  have hsome : (segs.ro || segs.rw) = true := by
    cases hro : segs.ro with
    | true => rfl
    | false =>
      cases hrw : segs.rw with
      | true => rfl
      | false =>
        rw [hrw] at hrwCount
        rw [hro] at hroCount
        simp only [Bool.toNat_false] at hrwCount hroCount
        omega
  refine ⟨elf, ?_⟩
  rw [elfParseHeader_scan, hh]
  simp only [(required_iff h).2 hreq, hscan, hsome, if_true]

end Spec

/-! ## The property and its condition -/

/-- The file is an executable whose table is acceptable. -/
def Valid (content : List UInt8) : Prop :=
  ∃ h ps, headerOf content = some h ∧ h.Required ∧ AcceptsTable (programTable content h) ps

/-- The segment is that of the headers of the kind, and all of it is 0 where there is none. -/
def Describes (kind : Elf32Phdr → Bool) (ps : List Elf32Phdr) (noted : Segment) : Prop :=
  (∀ p ∈ ps, kind p = true → noted = p.segment) ∧ ((∀ p ∈ ps, kind p = false) → noted = ⟨0, 0, 0, 0⟩)

/-- The noted information is that of the headers in the table. -/
def NotesRight (content : List UInt8) (elf : ElfInfo) : Prop :=
  ∀ h ps, headerOf content = some h → AcceptsTable (programTable content h) ps →
    elf.entryPoint = h.entry ∧ Describes Elf32Phdr.writable ps elf.rw ∧ Describes Elf32Phdr.readOnly ps elf.ro

/-- `elf_parse_header` accepts just the valid files, and notes what is in their headers. -/
def ParsesRight (content : List UInt8) : Prop :=
  ((elfParseHeader ⟨content, 0⟩).1.isSome = true ↔ Valid content) ∧
  ∀ elf, (elfParseHeader ⟨content, 0⟩).1 = some elf → NotesRight content elf

/-- The header `q` has the segment of `p`, whose number of pages is not cut off. -/
structure SameSegment (q p : Elf32Phdr) : Prop where
  offset : q.offset = p.offset
  filesz : q.filesz = p.filesz
  vaddr : q.vaddr = p.vaddr
  pages : pagesOf q.memsz = p.memsz ⌈/⌉ PAGE_SIZE

/-- The header describes a segment of which all is 0, its number of pages included. -/
structure NoSegment (p : Elf32Phdr) (pages : ℕ) : Prop where
  offset : p.offset = 0
  filesz : p.filesz = 0
  vaddr : p.vaddr = 0
  pages : pages = 0

/-- A header of the kind has the segment of `p`, or none is of the kind and `p` has none either. -/
def Matches (kind : Elf32Phdr → Bool) (rs : List Elf32Phdr) (p : Elf32Phdr) : Prop :=
  (∃ q ∈ rs, kind q = true ∧ SameSegment q p) ∨ (∀ q ∈ rs, kind q = false) ∧ NoSegment p (p.memsz ⌈/⌉ PAGE_SIZE)

/-- The headers of the kind match, and where the table has none, those that are read have no segment. -/
def SameKind (kind : Elf32Phdr → Bool) (rs ps : List Elf32Phdr) : Prop :=
  (∀ p ∈ ps, kind p = true → Matches kind rs p) ∧
    ((∀ p ∈ ps, kind p = false) → ∀ q ∈ rs, kind q = true → NoSegment q (pagesOf q.memsz))

/-- The table that is read and the one in the file are both acceptable or both not, and have the same segments. -/
def SameTable (read table : List (Option Elf32Phdr)) : Prop :=
  ((∃ rs, AcceptsTable read rs) ↔ ∃ ps, AcceptsTable table ps) ∧
  ∀ rs ps, AcceptsTable read rs → AcceptsTable table ps →
    SameKind Elf32Phdr.writable rs ps ∧ SameKind Elf32Phdr.readOnly rs ps

/-- The file is refused for its ELF header, or the table is as good as the one that is read. -/
def Faithful (content : List UInt8) : Prop :=
  ∀ h, headerOf content = some h → h.Required → SameTable (readTable content h) (programTable content h)

/-- The entries are where the code reads them: of 32 bytes each, or just one, and not behind 2 GiB. -/
def Elf32Ehdr.Standard (h : Elf32Ehdr) : Prop := (h.phentsize = 32 ∨ h.phnum = 1) ∧ h.phoff < 2 ^ 31

section Exact

variable {content : List UInt8} {h : Elf32Ehdr} {p : Elf32Phdr} {ps rs : List Elf32Phdr}

theorem accepts_unique {table : List (Option Elf32Phdr)} (h1 : AcceptsTable table ps) (h2 : AcceptsTable table rs) :
    ps = rs :=
  List.map_injective_iff.2 (Option.some_injective _) (h1.1.symm.trans h2.1)

/-- There is no header of the kind and nothing is noted, or there is one, which is noted. -/
theorem notedFirst_cases {kind : Elf32Phdr → Bool} (hone : (rs.filter kind).length ≤ 1) :
    ((∀ q ∈ rs, kind q = false) ∧ notedFirst (rs.filter kind) ⟨0, 0, 0, 0⟩ = ⟨0, 0, 0, 0⟩) ∨
    ∃ q ∈ rs, kind q = true ∧ (∀ q' ∈ rs, kind q' = true → q' = q) ∧
      notedFirst (rs.filter kind) ⟨0, 0, 0, 0⟩ = q.noted := by
  have hmem : ∀ q, q ∈ rs.filter kind ↔ q ∈ rs ∧ kind q = true := fun q => List.mem_filter
  cases hf : rs.filter kind with
  | nil =>
    refine Or.inl ⟨fun q hq => ?_, rfl⟩
    by_contra hk
    have hin := (hmem q).2 ⟨hq, by simpa using hk⟩
    rw [hf] at hin
    exact absurd hin List.not_mem_nil
  | cons q qs =>
    have hnil : qs = [] := by
      rw [hf, List.length_cons] at hone
      exact List.eq_nil_of_length_eq_zero (by omega)
    rw [hf, hnil] at hmem
    obtain ⟨hq, hk⟩ := (hmem q).1 List.mem_cons_self
    exact Or.inr ⟨q, hq, hk, fun q' hq' hk' => List.mem_singleton.1 ((hmem q').2 ⟨hq', hk'⟩), rfl⟩

/-- **What is noted of a kind is the segment of a header** just when they match. -/
theorem notedFirst_iff {kind : Elf32Phdr → Bool} (hone : (rs.filter kind).length ≤ 1) :
    notedFirst (rs.filter kind) ⟨0, 0, 0, 0⟩ = p.segment ↔ Matches kind rs p := by
  unfold Elf32Phdr.segment
  rcases notedFirst_cases hone with ⟨hnone, hzero⟩ | ⟨q, hq, hk, hone, hnoted⟩
  · rw [hzero, Segment.mk.injEq]
    constructor
    · rintro ⟨h1, h2, h3, h4⟩
      exact Or.inr ⟨hnone, h1.symm, h2.symm, h3.symm, h4.symm⟩
    · rintro (⟨q, hq, hk, -⟩ | ⟨-, h1, h2, h3, h4⟩)
      · rw [hnone q hq] at hk
        cases hk
      · exact ⟨h1.symm, h2.symm, h3.symm, h4.symm⟩
  · rw [hnoted, Elf32Phdr.noted, Segment.mk.injEq]
    constructor
    · rintro ⟨h1, h2, h3, h4⟩
      exact Or.inl ⟨q, hq, hk, h1, h2, h3, h4⟩
    · rintro (⟨q', hq', hk', h1, h2, h3, h4⟩ | ⟨hnone, -⟩)
      · rw [hone q' hq' hk'] at h1 h2 h3 h4
        exact ⟨h1, h2, h3, h4⟩
      · rw [hnone q hq] at hk
        cases hk

/-- Nothing is noted of a kind just when the headers of the kind have no segment. -/
theorem notedFirst_zero_iff {kind : Elf32Phdr → Bool} (hone : (rs.filter kind).length ≤ 1) :
    notedFirst (rs.filter kind) ⟨0, 0, 0, 0⟩ = ⟨0, 0, 0, 0⟩ ↔
      ∀ q ∈ rs, kind q = true → NoSegment q (pagesOf q.memsz) := by
  rcases notedFirst_cases hone with ⟨hnone, hzero⟩ | ⟨q, hq, hk, hone, hnoted⟩
  · refine iff_of_true hzero fun q hq hk => ?_
    rw [hnone q hq] at hk
    cases hk
  · rw [hnoted, Elf32Phdr.noted, Segment.mk.injEq]
    constructor
    · rintro ⟨h1, h2, h3, h4⟩ q' hq' hk'
      rw [hone q' hq' hk']
      exact ⟨h1, h2, h3, h4⟩
    · intro hno
      obtain ⟨h1, h2, h3, h4⟩ := hno q hq hk
      exact ⟨h1, h2, h3, h4⟩

/-- **What is noted of a kind is right** just when the tables agree on it. -/
theorem describes_iff {kind : Elf32Phdr → Bool} (hone : (rs.filter kind).length ≤ 1) :
    Describes kind ps (notedFirst (rs.filter kind) ⟨0, 0, 0, 0⟩) ↔ SameKind kind rs ps := by
  unfold Describes SameKind
  simp only [notedFirst_iff hone, notedFirst_zero_iff hone]

/-- A file that is refused for its ELF header. -/
theorem parse_isSome_iff (hh : headerOf content = some h) (hreq : h.Required) :
    (elfParseHeader ⟨content, 0⟩).1.isSome = true ↔ ∃ rs, AcceptsTable (readTable content h) rs := by
  rw [Option.isSome_iff_exists]
  constructor
  · rintro ⟨elf, hs⟩
    obtain ⟨h', rs, hh', -, hacc, -⟩ := elfParseHeader_noted hs
    rw [hh] at hh'
    cases hh'
    exact ⟨rs, hacc⟩
  · rintro ⟨rs, hacc⟩
    exact elfParseHeader_some hh hreq hacc

theorem valid_iff (hh : headerOf content = some h) (hreq : h.Required) :
    Valid content ↔ ∃ ps, AcceptsTable (programTable content h) ps := by
  constructor
  · rintro ⟨h', ps, hh', -, hacc⟩
    rw [hh] at hh'
    cases hh'
    exact ⟨ps, hacc⟩
  · rintro ⟨ps, hacc⟩
    exact ⟨h, ps, hh, hreq, hacc⟩

/-- What is noted of a file is right just when the tables have the same segments. -/
theorem notesRight_iff {elf : ElfInfo} (hh : headerOf content = some h) (hacc : AcceptsTable (readTable content h) rs)
    (hs : (elfParseHeader ⟨content, 0⟩).1 = some elf) :
    NotesRight content elf ↔ ∀ ps, AcceptsTable (programTable content h) ps →
      SameKind Elf32Phdr.writable rs ps ∧ SameKind Elf32Phdr.readOnly rs ps := by
  obtain ⟨h', rs', hh', -, hacc', hentry, hrw, hro⟩ := elfParseHeader_noted hs
  rw [hh] at hh'
  cases hh'
  rw [← accepts_unique hacc hacc'] at hrw hro
  have hkinds : ∀ ps, Describes Elf32Phdr.writable ps elf.rw ∧ Describes Elf32Phdr.readOnly ps elf.ro ↔
      SameKind Elf32Phdr.writable rs ps ∧ SameKind Elf32Phdr.readOnly rs ps := by
    intro ps
    rw [hrw, hro, describes_iff hacc.2.writable, describes_iff hacc.2.readOnly]
  constructor
  · exact fun hright ps hps => (hkinds ps).1 (hright h ps hh hps).2
  · intro hsame h' ps hh' hps
    rw [hh] at hh'
    cases hh'
    exact ⟨hentry, (hkinds ps).2 (hsame ps hps)⟩

theorem parsesRight_iff (content : List UInt8) : ParsesRight content ↔ Faithful content := by
  constructor
  · rintro ⟨hverdict, hnotes⟩ h hh hreq
    rw [parse_isSome_iff hh hreq, valid_iff hh hreq] at hverdict
    refine ⟨hverdict, fun rs ps hrs hps => ?_⟩
    obtain ⟨elf, hs⟩ := elfParseHeader_some hh hreq hrs
    exact (notesRight_iff hh hrs hs).1 (hnotes elf hs) ps hps
  · intro hfaithful
    have hrefused : (∀ h, headerOf content = some h → ¬ h.Required) → ParsesRight content := by
      intro hno
      have hnone : ∀ elf, (elfParseHeader ⟨content, 0⟩).1 ≠ some elf := by
        intro elf hs
        obtain ⟨h, -, hh, hreq, -⟩ := elfParseHeader_noted hs
        exact hno h hh hreq
      refine ⟨⟨fun hsome => ?_, ?_⟩, fun elf hs => absurd hs (hnone elf)⟩
      · obtain ⟨elf, hs⟩ := Option.isSome_iff_exists.1 hsome
        exact absurd hs (hnone elf)
      · rintro ⟨h, -, hh, hreq, -⟩
        exact absurd hreq (hno h hh)
    by_cases hex : ∃ h, headerOf content = some h ∧ h.Required
    · obtain ⟨h, hh, hreq⟩ := hex
      obtain ⟨hverdict, hsegments⟩ := hfaithful h hh hreq
      refine ⟨?_, fun elf hs => ?_⟩
      · rw [parse_isSome_iff hh hreq, valid_iff hh hreq]
        exact hverdict
      · obtain ⟨h', rs, hh', -, hrs, -⟩ := elfParseHeader_noted hs
        rw [hh] at hh'
        cases hh'
        exact (notesRight_iff hh hrs hs).2 fun ps hps => hsegments rs ps hrs hps
    · exact hrefused fun h hh hreq => hex ⟨h, hh, hreq⟩

/-! ## Standard tables -/

/-- A standard table is read where it is. -/
theorem readTable_standard (hstd : h.Standard) : readTable content h = programTable content h := by
  obtain ⟨hsize, hoff⟩ := hstd
  refine List.map_congr_left fun i hi => ?_
  have hlt : i < h.phnum := by
    have hmem := (List.mem_range'_1.1 hi).2
    omega
  have hint : toInt h.phoff = h.phoff := if_pos hoff
  have hpos : readPosition h i = h.phoff + i * h.phentsize := by
    unfold readPosition
    rw [hint, if_pos (by omega)]
    rcases hsize with hsize | hsize
    · rw [hsize]
      omega
    · have hzero : i = 0 := by omega
      rw [hzero]
      simp
  rw [hpos]

/-- **The number of pages** is not cut off just when the size in memory is not within a page of 4 GiB. -/
theorem pagesOf_eq_iff (p : Elf32Phdr) : pagesOf p.memsz = p.memsz ⌈/⌉ PAGE_SIZE ↔ p.memsz ≤ 2 ^ 32 - PAGE_SIZE := by
  have hlt : p.memsz < 2 ^ 32 := p.word_lt 20
  rw [Nat.ceilDiv_eq_add_pred_div]
  unfold pagesOf u32 PAGE_SIZE
  omega

example : pagesOf 0xffffffff = 0 := by decide

/-- The table against itself: only the numbers of pages matter. -/
theorem sameTable_self {table : List (Option Elf32Phdr)} :
    SameTable table table ↔
      ∀ ps, AcceptsTable table ps → ∀ p ∈ ps, p.type = PT_LOAD → p.memsz ≤ 2 ^ 32 - PAGE_SIZE := by
  have hload : ∀ p : Elf32Phdr, p.type = PT_LOAD ↔ p.writable = true ∨ p.readOnly = true := by
    intro p
    unfold Elf32Phdr.writable Elf32Phdr.readOnly
    simp only [decide_eq_true_eq]
    tauto
  -- a header of a kind matches itself, as no other one is of the kind
  have hself : ∀ {kind : Elf32Phdr → Bool} {ps : List Elf32Phdr}, (ps.filter kind).length ≤ 1 → ∀ p ∈ ps,
      kind p = true → (Matches kind ps p ↔ p.memsz ≤ 2 ^ 32 - PAGE_SIZE) := by
    intro kind ps hone p hp hk
    rw [← pagesOf_eq_iff]
    constructor
    · rintro (⟨q, hq, hkq, hsame⟩ | ⟨hnone, -⟩)
      · have heq : q = p := by
          obtain ⟨x, hx⟩ := List.length_eq_one_iff.1
            (le_antisymm hone (List.length_pos_of_mem (List.mem_filter.2 ⟨hp, hk⟩)))
          have hqx := List.mem_filter.2 ⟨hq, hkq⟩
          have hpx := List.mem_filter.2 ⟨hp, hk⟩
          rw [hx, List.mem_singleton] at hqx hpx
          rw [hqx, hpx]
        rw [heq] at hsame
        exact hsame.pages
      · rw [hnone p hp] at hk
        cases hk
    · exact fun hpages => Or.inl ⟨p, hp, hk, rfl, rfl, rfl, hpages⟩
  constructor
  · rintro ⟨-, hsegments⟩ ps hps p hp htype
    obtain ⟨⟨hw, -⟩, ⟨hr, -⟩⟩ := hsegments ps ps hps hps
    rcases (hload p).1 htype with hk | hk
    · exact (hself hps.2.writable p hp hk).1 (hw p hp hk)
    · exact (hself hps.2.readOnly p hp hk).1 (hr p hp hk)
  · intro hmem
    have hkind : ∀ {kind : Elf32Phdr → Bool} {ps : List Elf32Phdr}, (ps.filter kind).length ≤ 1 →
        (∀ p ∈ ps, kind p = true → p.memsz ≤ 2 ^ 32 - PAGE_SIZE) → SameKind kind ps ps := fun hone hsize =>
      ⟨fun p hp hk => (hself hone p hp hk).2 (hsize p hp hk), fun hnone q hq hk => by
        rw [hnone q hq] at hk
        cases hk⟩
    refine ⟨Iff.rfl, fun rs ps hrs hps => ?_⟩
    rw [accepts_unique hrs hps]
    exact ⟨hkind hps.2.writable fun p hp hk => hmem ps hps p hp ((hload p).2 (Or.inl hk)),
      hkind hps.2.readOnly fun p hp hk => hmem ps hps p hp ((hload p).2 (Or.inr hk))⟩

/-- **Which ELF files are parsed right**: those that are refused for their ELF header, and those whose table of
program headers and the one that is read at steps of 32 bytes have the same verdict and the same segments.  For a
standard table this says that no size in memory is within a page of 4 GiB. -/
theorem elfParseHeader_exact (content : List UInt8) :
    (ParsesRight content ↔ Faithful content) ∧
      ∀ h, headerOf content = some h → h.Required → h.Standard →
        (ParsesRight content ↔ ∀ ps, AcceptsTable (programTable content h) ps →
          ∀ p ∈ ps, p.type = PT_LOAD → p.memsz ≤ 2 ^ 32 - PAGE_SIZE) := by
  refine ⟨parsesRight_iff content, fun h hh hreq hstd => ?_⟩
  rw [parsesRight_iff, ← sameTable_self]
  constructor
  · intro hfaithful
    have hsame := hfaithful h hh hreq
    rwa [readTable_standard hstd] at hsame
  · intro hsame h' hh' hreq'
    rw [hh] at hh'
    cases hh'
    rw [readTable_standard hstd]
    exact hsame

end Exact

section Programs

/-- The ELF header of an executable with `phnum` program headers of `phentsize` bytes, right behind it. -/
def tableHeader (phentsize phnum : UInt8) : List UInt8 :=
  [0x7f, 0x45, 0x4c, 0x46, 1, 2, 1] ++ List.replicate 9 0 ++ [0, 2, 0, 8, 0, 0, 0, 1] ++ be32 0x10001000 ++ be32 52 ++
    List.replicate 10 0 ++ [0, phentsize, 0, phnum] ++ List.replicate 6 0

/-- The program header of a segment to load. -/
def loadHeader (vaddr memsz flags : ℕ) : List UInt8 :=
  be32 1 ++ be32 0 ++ be32 vaddr ++ be32 0 ++ be32 16 ++ be32 memsz ++ be32 flags ++ be32 0

/-- An executable with one segment, of `memsz` bytes. -/
def oneSegment (memsz : ℕ) : List UInt8 := tableHeader 32 1 ++ loadHeader 0x10001000 memsz 0

/-- An executable with two segments, whose program headers are 64 bytes long. -/
def wideEntries : List UInt8 :=
  tableHeader 64 2 ++ loadHeader 0x10001000 16 0 ++ List.replicate 32 0 ++ loadHeader 0x10003000 16 2

def headerBuf (content : List UInt8) : Elf32Ehdr := (Buf.const 52 0).store 0 (content.take 52)

def phdrBuf (bytes : List UInt8) : Elf32Phdr := (Buf.const 32 0).store 0 bytes

theorem elfParseHeader_exact_oneSegment : ParsesRight (oneSegment 16) := by
  have hfacts : 52 ≤ (oneSegment 16).length ∧ (headerBuf (oneSegment 16)).accepted = true ∧
      ((headerBuf (oneSegment 16)).phentsize = 32 ∧ (headerBuf (oneSegment 16)).phoff < 2 ^ 31) ∧
      ((programTable (oneSegment 16) (headerBuf (oneSegment 16))).all fun e =>
        e.all fun p => decide (p.memsz ≤ 2 ^ 32 - PAGE_SIZE)) = true := by decide +kernel
  obtain ⟨hlen, hacc, ⟨hsize, hoff⟩, hall⟩ := hfacts
  have hh : headerOf (oneSegment 16) = some (headerBuf (oneSegment 16)) := if_pos hlen
  refine ((elfParseHeader_exact (oneSegment 16)).2 _ hh ((required_iff _).1 hacc) ⟨Or.inl hsize, hoff⟩).2 ?_
  intro ps hps p hp _
  have hin : some p ∈ programTable (oneSegment 16) (headerBuf (oneSegment 16)) := by
    rw [hps.1]
    exact List.mem_map_of_mem hp
  exact of_decide_eq_true (List.all_eq_true.1 hall _ hin)

/-- A program header in the middle of a file. -/
theorem headerAt_append {before bytes after : List UInt8} (hlen : bytes.length = 32) :
    headerAt (before ++ bytes ++ after) before.length = some (phdrBuf bytes) := by
  have htake : ((before ++ bytes ++ after).drop before.length).take 32 = bytes := by
    rw [List.append_assoc, List.drop_left, ← hlen, List.take_left]
  unfold headerAt phdrBuf
  rw [htake, if_pos (by simp only [List.length_append]; omega)]

theorem wideEntries_table : programTable wideEntries (headerBuf wideEntries) =
    [phdrBuf (loadHeader 0x10001000 16 0), phdrBuf (loadHeader 0x10003000 16 2)].map some := by
  have hhead : (tableHeader 64 2).length = 52 := rfl
  have hfirst : headerAt wideEntries 52 = some (phdrBuf (loadHeader 0x10001000 16 0)) := by
    have happ := @headerAt_append (tableHeader 64 2) (loadHeader 0x10001000 16 0)
      (List.replicate 32 0 ++ loadHeader 0x10003000 16 2) rfl
    rw [hhead, ← List.append_assoc] at happ
    exact happ
  have hsecond : headerAt wideEntries 116 = some (phdrBuf (loadHeader 0x10003000 16 2)) := by
    have happ := @headerAt_append (tableHeader 64 2 ++ loadHeader 0x10001000 16 0 ++ List.replicate 32 0)
      (loadHeader 0x10003000 16 2) [] rfl
    rw [List.append_nil] at happ
    exact happ
  have hsizes : (headerBuf wideEntries).phoff = 52 ∧ (headerBuf wideEntries).phentsize = 64 ∧
      (headerBuf wideEntries).phnum = 2 := by decide +kernel
  obtain ⟨hoff, hsize, hnum⟩ := hsizes
  unfold programTable
  rw [hoff, hsize, hnum]
  show [headerAt wideEntries 52, headerAt wideEntries 116] = _
  rw [hfirst, hsecond]
  rfl

/-- Entries of 64 bytes are read in halves, so that the writable segment is lost. -/
theorem wideEntries_parsed :
    (elfParseHeader ⟨wideEntries, 0⟩).1 = some ⟨0x10001000, 0, 16, 1, 0x10001000, 0, 0, 0, 0⟩ := by
  decide +kernel

theorem wideEntries_loadable :
    Loadable [phdrBuf (loadHeader 0x10001000 16 0), phdrBuf (loadHeader 0x10003000 16 2)] := by
  have hfacts : (phdrBuf (loadHeader 0x10001000 16 0)).type = PT_LOAD ∧
      (phdrBuf (loadHeader 0x10003000 16 2)).type = PT_LOAD ∧
      ([phdrBuf (loadHeader 0x10001000 16 0), phdrBuf (loadHeader 0x10003000 16 2)].filter
        Elf32Phdr.writable).length = 1 ∧
      ([phdrBuf (loadHeader 0x10001000 16 0), phdrBuf (loadHeader 0x10003000 16 2)].filter
        Elf32Phdr.readOnly).length = 1 := by decide +kernel
  obtain ⟨hfirst, hsecond, hw, hr⟩ := hfacts
  refine ⟨fun p hp => ?_, hw.le, hr.le, by rw [hw]; omega⟩
  rcases List.mem_pair.1 hp with rfl | rfl
  · exact Or.inr (Or.inr (Or.inr hfirst))
  · exact Or.inr (Or.inr (Or.inr hsecond))

/-- A file with entries of 64 bytes is not parsed right. -/
theorem wideEntries_misread : ¬ ParsesRight wideEntries := by
  rintro ⟨-, hnotes⟩
  have hh : headerOf wideEntries = some (headerBuf wideEntries) := if_pos (by decide +kernel)
  obtain ⟨-, hw, -⟩ := hnotes _ wideEntries_parsed _ _ hh ⟨wideEntries_table, wideEntries_loadable⟩
  have hrw := congrArg Segment.vaddr (hw.1 _ (List.mem_cons_of_mem _ List.mem_cons_self) (by decide +kernel))
  exact absurd hrw (by decide +kernel)

end Programs

end Buenos.Proc
