import Buenos.Proc.Preparing
import Buenos.Vm.PagetableMap

/-!
# Loading a program

Where `process_start` writes while it zeroes and loads the segments and the stack, for every content of the
executable.

* `LoadConfined` — every address that is written is below the segments of the kernel, on a page that the call has
  mapped, and the exception handler of the TLB accepts it.
* `ElfInfo.Fits` — a range of addresses all of whose pages are among those that the call maps.
* `copiedBytes`, `ReadsAll` — how much of a segment is read from the file, and whether the call goes on.
* `LoadFits` — the ranges of a header.

Principal result: `loader_confined`.
-/

namespace Buenos.Proc

open Bytes Buenos.Vm
open Buenos.Fs (VFS_OK VFS_ERROR)

/-- Every address that is written while the segments are loaded is below `0x80000000`, lies in a page that the
call has mapped, and is accepted by the exception handler of the TLB. -/
def LoadConfined (s : StartState) : Prop :=
  ∀ pt, s.world.pagetable = some pt → ∀ r ∈ (loadSegments s.elf s.openFile).1, ∀ a ∈ r.addrs,
    a < 0x80000000 ∧ (pt.mapping (a / PAGE_SIZE)).isSome = true ∧ fillable pt a true = true

/-- The range is empty, or it starts at 4096 or above, ends at 0x80000000 or below, and the call maps each of its
pages. -/
def ElfInfo.Fits (elf : ElfInfo) (vaddr length : ℕ) : Prop :=
  length = 0 ∨ PAGE_SIZE ≤ vaddr ∧ vaddr + length ≤ 0x80000000 ∧
    ∀ page, vaddr / PAGE_SIZE ≤ page → page ≤ (vaddr + length - 1) / PAGE_SIZE →
      page ∈ elf.addrs.map (· / PAGE_SIZE)

/-- The number of bytes that are read for a segment from a file of `len` bytes. -/
def copiedBytes (size vaddr location len : ℕ) : ℕ :=
  if vaddr < PAGE_SIZE ∨ 2 ^ 31 ≤ location ∨ 2 ^ 31 ≤ size ∨ len < location then 0 else min size (len - location)

/-- The call goes on after a segment: it has been read, or its size as an `int` is the result of the refused read. -/
def ReadsAll (size vaddr location len : ℕ) : Prop :=
  size = 0 ∨ PAGE_SIZE ≤ vaddr ∧ location < 2 ^ 31 ∧ (size = 0xfffffffe ∨ size < 2 ^ 31 ∧ location + size ≤ len)

/-- What the header asks for fits into the pages that the call maps. -/
structure LoadFits (elf : ElfInfo) (len : ℕ) : Prop where
  zeroRo : elf.Fits elf.roVaddr (zeroedBytes elf.roPages)
  zeroRw : elf.Fits elf.rwVaddr (zeroedBytes elf.rwPages)
  copyRo : elf.Fits elf.roVaddr (copiedBytes elf.roSize elf.roVaddr elf.roLocation len)
  copyRw : ReadsAll elf.roSize elf.roVaddr elf.roLocation len →
    elf.Fits elf.rwVaddr (copiedBytes elf.rwSize elf.rwVaddr elf.rwLocation len)

section Writable

variable {pt : Pagetable} {t vaddr length : ℕ} {vaddrs : List ℕ} {elf : ElfInfo}

/-- **Where a new process can write.** -/
theorem Maps.writable_iff (h : Maps pt t vaddrs) {a : ℕ} :
    (a < 0x80000000 ∧ (pt.mapping (a / PAGE_SIZE)).isSome = true ∧ fillable pt a true = true) ↔
      4096 ≤ a ∧ a < 0x80000000 ∧ a / PAGE_SIZE ∈ vaddrs.map (· / PAGE_SIZE) := by
  rw [h.mapped]
  constructor
  · rintro ⟨hlt, hmem, hfill⟩
    refine ⟨?_, hlt, hmem⟩
    by_contra hlow
    rw [fillable, vmGetEntryByVaddr, if_pos (by omega)] at hfill
    cases hfill
  · rintro ⟨hlow, hlt, hmem⟩
    refine ⟨hlt, hmem, ?_⟩
    obtain ⟨m, hm⟩ := Option.isSome_iff_exists.1 ((h.mapped _).2 hmem)
    obtain ⟨i, hi, hv, hhalf⟩ := (PagetableMap.mapping_some h.wf).1 hm
    have hodd : onOddPage a = decide (a / PAGE_SIZE % 2 = 1) := rfl
    have hfind : pt.findEntry (vpn2Of a) = some i := by
      rw [vpn2Of_eq, ← hv]
      exact h.wf.findEntry_eq hi
    rw [fillable, vmGetEntryByVaddr, if_neg (by omega), hfind, Option.any_some, hodd, hhalf, Half.canFill,
      h.dirty _ m hm]
    rfl

/-- **A range that fits** is one that can be written byte by byte. -/
theorem Maps.span_iff (h : Maps pt t elf.addrs) (hvaddr : vaddr < 2 ^ 32) (hlength : length ≤ 2 ^ 31) :
    (∀ a ∈ (⟨vaddr, length⟩ : Span).addrs,
      a < 0x80000000 ∧ (pt.mapping (a / PAGE_SIZE)).isSome = true ∧ fillable pt a true = true) ↔
      elf.Fits vaddr length := by
  simp only [h.writable_iff, Span.addrs, List.forall_mem_map, List.mem_range]
  constructor
  · intro hall
    rcases Nat.eq_zero_or_pos length with hzero | hpos
    · exact Or.inl hzero
    · have hin : ∀ i < length, vaddr + i < 0x80000000 := by
        intro i hi
        induction i with
        | zero =>
          have hfirst := (hall 0 hpos).2.1
          unfold u32 at hfirst
          omega
        | succ i ih =>
          have hbefore := ih (by omega)
          have hnext := (hall (i + 1) hi).2.1
          unfold u32 at hnext
          omega
      have hu : ∀ i < length, u32 (vaddr + i) = vaddr + i := fun i hi => by
        have hlt := hin i hi
        unfold u32
        omega
      refine Or.inr ⟨?_, ?_, fun page hlow hhigh => ?_⟩
      · have hfirst := (hall 0 hpos).1
        rw [hu 0 hpos] at hfirst
        exact hfirst
      · have hlast := hin (length - 1) (by omega)
        omega
      · -- the first byte of the page, or of the range
        have hbyte : max (page * PAGE_SIZE) vaddr - vaddr < length := by
          unfold PAGE_SIZE at *
          omega
        have hmem := (hall _ hbyte).2.2
        rw [hu _ hbyte] at hmem
        have hpage : (vaddr + (max (page * PAGE_SIZE) vaddr - vaddr)) / PAGE_SIZE = page := by
          unfold PAGE_SIZE at *
          omega
        rwa [hpage] at hmem
  · rintro (rfl | ⟨hlow, hhigh, hpages⟩) i hi
    · exact absurd hi (Nat.not_lt_zero i)
    · have hu : u32 (vaddr + i) = vaddr + i := by
        unfold u32
        omega
      rw [hu]
      refine ⟨hlow.trans (Nat.le_add_right _ _), by omega, hpages _ ?_ ?_⟩
      · exact Nat.div_le_div_right (Nat.le_add_right _ _)
      · exact Nat.div_le_div_right (by omega)

end Writable

section Segments

variable {size vaddr location : ℕ} {file : OpenFile}

theorem vfsSeek_toInt (hlocation : location < 2 ^ 32) : vfsSeek file (toInt location) =
    if location < 2 ^ 31 then (VFS_OK, ⟨file.content, location⟩) else (VFS_ERROR, file) := by
  unfold vfsSeek toInt
  by_cases hlow : location < 2 ^ 31
  · rw [if_pos hlow, if_pos hlow, if_pos (Int.natCast_nonneg _), Int.toNat_natCast]
  · rw [if_neg hlow, if_neg hlow, if_neg (by omega)]

/-- `vfs_read` of a size from the header. -/
theorem vfsRead_toInt (hsize : size < 2 ^ 32) :
    ∃ file', vfsRead ⟨file.content, location⟩ (toInt size) = if 2 ^ 31 ≤ size ∨ file.content.length < location then
        (VFS_ERROR, [], file')
      else (((min size (file.content.length - location) : ℕ) : ℤ), (file.content.drop location).take size, file') := by
  unfold vfsRead toInt
  by_cases hbig : 2 ^ 31 ≤ size
  · refine ⟨⟨file.content, location⟩, ?_⟩
    rw [if_neg (not_lt.2 hbig), if_pos (by omega), if_pos (Or.inl hbig)]
  · rw [if_pos (not_le.1 hbig), if_neg (by omega)]
    by_cases hpast : file.content.length < location
    · refine ⟨⟨file.content, location⟩, ?_⟩
      rw [if_pos hpast, if_pos (Or.inr hpast)]
    · refine ⟨⟨file.content, location + ((file.content.drop location).take size).length⟩, ?_⟩
      rw [if_neg hpast, if_neg (not_or.2 ⟨hbig, hpast⟩)]
      simp only [OpenFile.available, Int.toNat_natCast, List.length_take, List.length_drop]

theorem copySegment_content : (copySegment size vaddr location file).2.1.content = file.content := by
  unfold copySegment
  split
  · rfl
  · split
    · rfl
    · simp only
      split
      · exact vfsSeek_content _ _
      · exact (vfsRead_content _ _).trans (vfsSeek_content _ _)

/-- **What the reading of a segment writes**, and when the call goes on. -/
theorem copySegment_spec (hsize : size < 2 ^ 32) (hlocation : location < 2 ^ 32) :
    ∃ spans file' goesOn, copySegment size vaddr location file = (spans, file', goesOn) ∧
      (goesOn = true ↔ ReadsAll size vaddr location file.content.length) ∧
      ∀ P : ℕ → Prop, (∀ r ∈ spans, ∀ a ∈ r.addrs, P a) ↔
        ∀ a ∈ (⟨vaddr, copiedBytes size vaddr location file.content.length⟩ : Span).addrs, P a := by
  have hnothing : copiedBytes size vaddr location file.content.length = 0 → ∀ P : ℕ → Prop,
      (∀ r ∈ ([] : List Span), ∀ a ∈ r.addrs, P a) ↔
        ∀ a ∈ (⟨vaddr, copiedBytes size vaddr location file.content.length⟩ : Span).addrs, P a := by
    intro hzero P
    rw [hzero]
    exact iff_of_true (fun r hr => absurd hr List.not_mem_nil) fun a ha => absurd ha List.not_mem_nil
  unfold copySegment ReadsAll
  by_cases hzero : size = 0
  · rw [if_pos hzero]
    refine ⟨[], file, true, rfl, iff_of_true rfl (Or.inl hzero), hnothing ?_⟩
    rw [copiedBytes, hzero, Nat.zero_min, ite_self]
  rw [if_neg hzero]
  by_cases hlow : vaddr < PAGE_SIZE
  · rw [if_pos hlow]
    refine ⟨[], file, false, rfl, iff_of_false (by simp) ?_, hnothing (if_pos (Or.inl hlow))⟩
    rintro (h | ⟨h, -⟩)
    · exact hzero h
    · exact absurd hlow (not_lt.2 h)
  rw [if_neg hlow]
  simp only [vfsSeek_toInt hlocation]
  by_cases hloc : location < 2 ^ 31
  swap
  · rw [if_neg hloc]
    refine ⟨[], file, false, rfl, iff_of_false (by simp) ?_, hnothing (if_pos (Or.inr (Or.inl (not_lt.1 hloc))))⟩
    rintro (h | ⟨-, h, -⟩)
    · exact hzero h
    · exact hloc h
  rw [if_pos hloc]
  obtain ⟨file', hread⟩ := @vfsRead_toInt size location file hsize
  have hok : ¬ VFS_OK ≠ VFS_OK := fun h => h rfl
  simp only [if_neg hok, hread]
  by_cases hfails : 2 ^ 31 ≤ size ∨ file.content.length < location
  · rw [if_pos hfails]
    refine ⟨[⟨vaddr, 0⟩], file', _, rfl, ?_, fun P => ?_⟩
    · rw [decide_eq_true_iff]
      unfold toInt VFS_ERROR
      constructor
      · intro hsame
        refine Or.inr ⟨not_lt.1 hlow, hloc, Or.inl ?_⟩
        split at hsame <;> omega
      · rintro (h | ⟨-, -, rfl | ⟨h1, h2⟩⟩)
        · exact absurd h hzero
        · rfl
        · omega
    · rw [copiedBytes, if_pos (Or.inr (Or.inr hfails))]
      exact ⟨fun h => h _ List.mem_cons_self, fun h r hr => by rwa [List.mem_singleton.1 hr]⟩
  · rw [if_neg hfails]
    obtain ⟨hsmall, hlen⟩ := not_or.1 hfails
    refine ⟨[⟨vaddr, ((file.content.drop location).take size).length⟩], file', _, rfl, ?_, fun P => ?_⟩
    · rw [decide_eq_true_iff, toInt, if_pos (not_le.1 hsmall)]
      constructor
      · intro hsame
        exact Or.inr ⟨not_lt.1 hlow, hloc, Or.inr ⟨not_le.1 hsmall, by omega⟩⟩
      · rintro (h | ⟨-, -, rfl | ⟨-, hall⟩⟩)
        · exact absurd h hzero
        · exact absurd (by decide) hsmall
        · rw [min_eq_left (by omega)]
    · have hlength : ((file.content.drop location).take size).length =
          copiedBytes size vaddr location file.content.length := by
        rw [copiedBytes, if_neg, List.length_take, List.length_drop]
        rintro (h | h | h)
        · exact hlow h
        · exact absurd hloc (not_lt.2 h)
        · exact hfails h
      rw [hlength]
      exact ⟨fun h => h _ List.mem_cons_self, fun h r hr => by rwa [List.mem_singleton.1 hr]⟩

end Segments

section Confinement

variable {c : StartCall} {w : World} {s : StartState} {pt : Pagetable} {pool : Pool} {elf : ElfInfo} {t : ℕ}

theorem zeroedBytes_le (pages : ℕ) : zeroedBytes pages ≤ 2 ^ 31 := by
  have hlt : u32 (pages * PAGE_SIZE) < 2 ^ 32 := Nat.mod_lt _ (by decide)
  unfold zeroedBytes toInt
  split <;> omega

theorem copiedBytes_le (size vaddr location len : ℕ) : copiedBytes size vaddr location len ≤ 2 ^ 31 := by
  unfold copiedBytes
  split
  · exact Nat.zero_le _
  · rename_i h
    have hsize := (not_or.1 (not_or.1 (not_or.1 h).2).2).1
    exact (min_le_left _ _).trans (not_le.1 hsize).le

/-- The stack is always zeroed in its page. -/
theorem stack_fits (elf : ElfInfo) : elf.Fits stackBottom (zeroedBytes CONFIG_USERLAND_STACK_SIZE) := by
  have hbottom : stackBottom = 0x7fffe000 := rfl
  have hbytes : zeroedBytes CONFIG_USERLAND_STACK_SIZE = 4096 := rfl
  rw [hbottom, hbytes]
  refine Or.inr ⟨by decide, by decide, fun page hlow hhigh => ?_⟩
  have hpage : page = pageStart USERLAND_STACK_TOP / PAGE_SIZE := by
    have htop : pageStart USERLAND_STACK_TOP / PAGE_SIZE = 0x7fffe := rfl
    unfold PAGE_SIZE at hlow hhigh
    omega
  rw [hpage]
  exact List.mem_map.2 ⟨pageStart USERLAND_STACK_TOP, List.mem_append_left _ (List.mem_append_left _
    (List.mem_append_left _ List.mem_cons_self)), rfl⟩

/-- **What is written for a header.** -/
theorem loadSegments_forall (hb : elf.Bounded) (file : OpenFile) (P : ℕ → Prop) :
    (∀ r ∈ (loadSegments elf file).1, ∀ a ∈ r.addrs, P a) ↔
      (∀ r ∈ elf.zeroedSpans, ∀ a ∈ r.addrs, P a) ∧
      (∀ a ∈ (⟨elf.roVaddr, copiedBytes elf.roSize elf.roVaddr elf.roLocation file.content.length⟩ : Span).addrs, P a) ∧
      (ReadsAll elf.roSize elf.roVaddr elf.roLocation file.content.length →
        ∀ a ∈ (⟨elf.rwVaddr, copiedBytes elf.rwSize elf.rwVaddr elf.rwLocation file.content.length⟩ : Span).addrs,
          P a) := by
  obtain ⟨ro, file1, goesOn, hro, hgoes, hroP⟩ := @copySegment_spec elf.roSize elf.roVaddr elf.roLocation file hb.roSize
    hb.roLocation
  have hcontent : file1.content = file.content := by
    have h := @copySegment_content elf.roSize elf.roVaddr elf.roLocation file
    rw [hro] at h
    exact h
  obtain ⟨rw', file2, goesOn2, hrw, -, hrwP⟩ := @copySegment_spec elf.rwSize elf.rwVaddr elf.rwLocation file1 hb.rwSize
    hb.rwLocation
  rw [hcontent] at hrwP
  unfold loadSegments
  rw [hro]
  cases goesOn with
  | false =>
    have hno : ¬ ReadsAll elf.roSize elf.roVaddr elf.roLocation file.content.length := fun h => by
      cases hgoes.2 h
    simp only [List.forall_mem_append, hroP, hno, false_implies, and_true]
  | true =>
    simp only [hrw, List.forall_mem_append, hroP, hrwP, hgoes.1 rfl, true_implies, and_assoc]

/-- **Where a loading call writes**, when it has mapped its pages. -/
theorem loadConfined_iff (h : Taken pool t s.world pt s.elf.addrs none) (hb : s.elf.Bounded) :
    LoadConfined s ↔ LoadFits s.elf s.openFile.content.length := by
  have hpt : LoadConfined s ↔ ∀ r ∈ (loadSegments s.elf s.openFile).1, ∀ a ∈ r.addrs,
      a < 0x80000000 ∧ (pt.mapping (a / PAGE_SIZE)).isSome = true ∧ fillable pt a true = true := by
    refine ⟨fun hall => hall pt h.pagetable, fun hall pt' hpt' => ?_⟩
    rw [h.pagetable] at hpt'
    cases hpt'
    exact hall
  have hstack := (h.maps.span_iff (show stackBottom < 2 ^ 32 by decide) (zeroedBytes_le _)).2 (stack_fits s.elf)
  rw [hpt, loadSegments_forall hb]
  simp only [ElfInfo.zeroedSpans, List.forall_mem_cons, List.not_mem_nil, false_implies, implies_true, and_true,
    h.maps.span_iff hb.roVaddr (zeroedBytes_le _), h.maps.span_iff hb.rwVaddr (zeroedBytes_le _),
    h.maps.span_iff hb.roVaddr (copiedBytes_le _ _ _ _), h.maps.span_iff hb.rwVaddr (copiedBytes_le _ _ _ _)]
  constructor
  · rintro ⟨⟨hzeroRo, hzeroRw, -⟩, hcopyRo, hcopyRw⟩
    exact ⟨hzeroRo, hzeroRw, hcopyRo, hcopyRw⟩
  · rintro ⟨hzeroRo, hzeroRw, hcopyRo, hcopyRw⟩
    exact ⟨⟨hzeroRo, hzeroRw, hstack⟩, hcopyRo, hcopyRw⟩

/-- When both segments are read. -/
theorem loadSegments_ok (hb : elf.Bounded) (file : OpenFile) :
    (loadSegments elf file).2.2 = true ↔
      ReadsAll elf.roSize elf.roVaddr elf.roLocation file.content.length ∧
      ReadsAll elf.rwSize elf.rwVaddr elf.rwLocation file.content.length := by
  obtain ⟨ro, file1, goesOn, hro, hgoes, -⟩ := @copySegment_spec elf.roSize elf.roVaddr elf.roLocation file hb.roSize
    hb.roLocation
  have hcontent : file1.content = file.content := by
    have h := @copySegment_content elf.roSize elf.roVaddr elf.roLocation file
    rw [hro] at h
    exact h
  obtain ⟨rw', file2, goesOn2, hrw, hgoes2, -⟩ := @copySegment_spec elf.rwSize elf.rwVaddr elf.rwLocation file1
    hb.rwSize hb.rwLocation
  rw [hcontent] at hgoes2
  unfold loadSegments
  rw [hro, ← hgoes, ← hgoes2]
  cases goesOn with
  | false => simp
  | true => simp [hrw]

theorem setFile_elf (s : StartState) (file : OpenFile) : (s.setFile file).elf = s.elf := by
  unfold StartState.setFile
  split
  · rfl
  · rfl

/-- A confined call whose segments are read goes on. -/
theorem load_of_confined (hpt : s.world.pagetable = some pt) (h : LoadConfined s)
    (hread : (loadSegments s.elf s.openFile).2.2 = true) :
    load s = .ok (s.setFile (loadSegments s.elf s.openFile).2.1) := by
  have hall : (loadSegments s.elf s.openFile).1.all fun r => r.addrs.all (writable pt) := by
    simp only [List.all_eq_true]
    intro r hr a ha
    obtain ⟨hlt, hmapped, hfill⟩ := h pt hpt r hr a ha
    simp [writable, hlt, hmapped, hfill]
  unfold load
  rw [hpt]
  simp only [hall, hread, if_true]

/-- **When a call goes to userland**: its pages are mapped, it is confined, its segments are read and its read-only
pages are found. -/
theorem processStart_of_load (hs : prepare c { w with data := c.parentPid.map fun _ => execpData } = .ok s)
    (h : Taken pool t s.world pt s.elf.addrs none) (hconfined : LoadConfined s)
    (hread : (loadSegments s.elf s.openFile).2.2 = true)
    (hprotect : protectPages (pageAddrs s.elf.roVaddr s.elf.roPages) pt = some pt') :
    ∃ w', processStart c w = some (.started w') := by
  obtain ⟨w', hend⟩ : ∃ w', startUserland (s.setFile (loadSegments s.elf s.openFile).2.1) = some w' := by
    rw [startUserland, (h.setFile _).pagetable, setFile_elf]
    simp only [hprotect, Option.map_some]
    exact ⟨_, rfl⟩
  refine ⟨w', ?_⟩
  have hrun : prepare c { w with data := c.parentPid.map fun _ => execpData } >>= load =
      .ok (s.setFile (loadSegments s.elf s.openFile).2.1) := by
    rw [hs]
    exact load_of_confined h.pagetable hconfined hread
  unfold processStart
  rw [hrun]
  simp only [hend, Option.map_some]

/-- A call that gets to the loading has mapped the pages of its header. -/
theorem loads_of_prepare (hpool : PoolWf w.pool) (h : prepare c w = .ok s) :
    Loads c w s.openFile.content s.elf ∧ ∃ pt, Taken w.pool c.thread s.world pt s.elf.addrs none := by
  have hresult := prepare_result c hpool
  rw [h] at hresult
  cases hresult with
  | ready hi hacc hfree hcan hs h => exact ⟨⟨hacc, hfree, hcan⟩, _, h⟩

/-- **When the call gets to the loading.** -/
theorem prepare_of_loads {content : List UInt8} (hpool : PoolWf w.pool) (h : Loads c w content elf) :
    ∃ s, prepare c w = .ok s ∧ s.elf = elf ∧ s.openFile.content = content := by
  have hresult := prepare_result c hpool
  generalize prepare c w = r at hresult
  cases hresult with
  | early hheader =>
    exfalso
    cases hheader with
    | noSlot hno => exact h.accepts.slot hno
    | hasTable hi hpt =>
      rw [h.accepts.fresh] at hpt
      cases hpt
    | noPage hi hnone hfree =>
      have hroom := h.frames
      omega
    | refused hi hnone hno hs ht => exact hno content elf h.accepts
  | @noFrame i s k heapVaddr pt hi hacc hk hfree hcan hheap hs ht =>
    obtain ⟨-, helf⟩ := hacc.unique h.accepts
    have hroom := h.frames
    rw [helf] at hroom
    omega
  | @refused i s k heapVaddr f pt hi hacc hk hfree hcan hheap hs ht =>
    obtain ⟨-, helf⟩ := hacc.unique h.accepts
    have hall := h.canMap
    rw [helf, ← List.take_append_drop (k + 1) s.elf.addrs] at hall
    exact absurd hall.prefix hcan
  | @ready i s pt hi hacc hfree hcan hs ht =>
    obtain ⟨hcontent, helf⟩ := hacc.unique h.accepts
    exact ⟨s, rfl, helf.symm, hcontent.symm⟩

/-- **Where the loader writes**, for every content of the executable: below the kernel and to pages that the call
has mapped exactly when the ranges of the header fit, in case the call gets to the loading at all. -/
theorem loader_confined (c : StartCall) (hpool : PoolWf w.pool) :
    (∀ s, prepare c w = .ok s → LoadConfined s) ↔
      ∀ content elf, Loads c w content elf → LoadFits elf content.length := by
  constructor
  · intro hall content elf hloads
    obtain ⟨s, hs, rfl, rfl⟩ := prepare_of_loads hpool hloads
    obtain ⟨-, pt, h⟩ := loads_of_prepare hpool hs
    exact (loadConfined_iff h (elfParseHeader_bounded hloads.accepts.header)).1 (hall s hs)
  · intro hall s hs
    obtain ⟨hloads, pt, h⟩ := loads_of_prepare hpool hs
    exact (loadConfined_iff h (elfParseHeader_bounded hloads.accepts.header)).2 (hall _ _ hloads)

end Confinement

/-! ## Two programs -/

section Programs

/-- An executable with one segment, read-only and of one page, that is to be loaded to `vaddr`. -/
def smallProgram (vaddr : ℕ) : List UInt8 :=
  [0x7f, 0x45, 0x4c, 0x46, 1, 2, 1] ++ List.replicate 9 0 ++ [0, 2, 0, 8, 0, 0, 0, 1] ++ be32 0x10001000 ++ be32 52 ++
    List.replicate 12 0 ++ [0, 1] ++ List.replicate 6 0 ++
    be32 1 ++ be32 0 ++ be32 vaddr ++ be32 0 ++ be32 16 ++ be32 16 ++ be32 0 ++ be32 0

def smallElf (vaddr : ℕ) : ElfInfo := ⟨0x10001000, 0, 16, 1, vaddr, 0, 0, 0, 0⟩

/-- A kernel without a process. -/
def freshWorld : World :=
  ⟨fun _ => ⟨freeEntry, "foobar", 0, fun _ => none⟩, none, none, smallPool, fun _ => none, none⟩

/-- The first process is started. -/
def smallCall (vaddr : ℕ) : StartCall :=
  ⟨1, none, some (smallProgram vaddr), fun _ => ⟨0, 0, ⟨0, false, false⟩, ⟨0, false, false⟩⟩, 16⟩

theorem smallCall_loads {vaddr : ℕ} (hheader : (elfParseHeader ⟨smallProgram vaddr, 0⟩).1 = some (smallElf vaddr))
    (hcan : CanMap (smallElf vaddr).addrs) : Loads (smallCall vaddr) freshWorld (smallProgram vaddr) (smallElf vaddr) := by
  refine ⟨⟨by decide, rfl, ⟨⟨0, by decide⟩, rfl⟩, rfl, hheader, ?_, ?_⟩, ?_, hcan⟩
  · show PAGE_SIZE ≤ 0x10001000
    decide
  · show 1 + 0 + CONFIG_USERLAND_STACK_SIZE ≤ 16
    decide
  · show ((3 : ℕ) + 1 : ℤ) ≤ 14
    decide

/-- The header at 0x10001000, its pages, and the lengths of what is zeroed and copied there. -/
theorem smallElf_facts :
    ((elfParseHeader ⟨smallProgram 0x10001000, 0⟩).1 = some (smallElf 0x10001000) ∧ CanMap (smallElf 0x10001000).addrs) ∧
    0x10001 ∈ (smallElf 0x10001000).addrs.map (· / PAGE_SIZE) ∧ 16 ≤ (smallProgram 0x10001000).length ∧
    zeroedBytes (smallElf 0x10001000).roPages ≤ 4096 ∧ zeroedBytes (smallElf 0x10001000).rwPages = 0 ∧
    copiedBytes 16 0x10001000 0 (smallProgram 0x10001000).length ≤ 4096 ∧
    copiedBytes 0 0 0 (smallProgram 0x10001000).length = 0 := by
  decide +kernel

theorem smallCall_loads_fits :
    Loads (smallCall 0x10001000) freshWorld (smallProgram 0x10001000) (smallElf 0x10001000) :=
  smallCall_loads smallElf_facts.1.1 smallElf_facts.1.2

/-- Up to a page fits at 0x10001000. -/
theorem smallElf_fits {length : ℕ} (hlength : length ≤ 4096) : (smallElf 0x10001000).Fits 0x10001000 length := by
  rcases Nat.eq_zero_or_pos length with hzero | hpos
  · exact Or.inl hzero
  · refine Or.inr ⟨by decide, by omega, fun page hlow hhigh => ?_⟩
    have hsame : page = 0x10001 := by
      unfold PAGE_SIZE at hlow hhigh
      omega
    rw [hsame]
    exact smallElf_facts.2.1

theorem smallElf_loadFits : LoadFits (smallElf 0x10001000) (smallProgram 0x10001000).length := by
  obtain ⟨-, -, -, hzeroRo, hzeroRw, hcopyRo, hcopyRw⟩ := smallElf_facts
  exact ⟨smallElf_fits hzeroRo, Or.inl hzeroRw, smallElf_fits hcopyRo, fun _ => Or.inl hcopyRw⟩

/-- A program at 0x10001000 is loaded into its page. -/
theorem loader_confined_smallProgram : (∃ s, prepare (smallCall 0x10001000) freshWorld = .ok s) ∧
    ∀ s, prepare (smallCall 0x10001000) freshWorld = .ok s → LoadConfined s := by
  obtain ⟨s, hs, -, -⟩ := prepare_of_loads smallPool_wf smallCall_loads_fits
  refine ⟨⟨s, hs⟩, (loader_confined (smallCall 0x10001000) smallPool_wf).2 fun content elf h => ?_⟩
  obtain ⟨rfl, rfl⟩ := smallCall_loads_fits.accepts.unique h.accepts
  exact smallElf_loadFits

/-- The program at 0x10001000 is started. -/
theorem smallCall_started : ∃ w', processStart (smallCall 0x10001000) freshWorld = some (.started w') := by
  obtain ⟨s, hs, helf, hcontent⟩ := prepare_of_loads smallPool_wf smallCall_loads_fits
  obtain ⟨hloads, pt, h⟩ := loads_of_prepare smallPool_wf hs
  have hb := elfParseHeader_bounded hloads.accepts.header
  have hconfined : LoadConfined s := by
    rw [loadConfined_iff h hb, helf, hcontent]
    exact smallElf_loadFits
  have hread : (loadSegments s.elf s.openFile).2.2 = true := by
    rw [loadSegments_ok hb, helf, hcontent]
    exact ⟨Or.inr ⟨by decide, by decide, Or.inr ⟨by decide, smallElf_facts.2.2.1⟩⟩, Or.inl rfl⟩
  have hmapped : (pt.mapping (0x10001000 / PAGE_SIZE)).isSome = true := by
    rw [h.maps.mapped, helf]
    exact smallElf_facts.2.1
  obtain ⟨pt', hset⟩ := vmSetDirty_some hmapped false
  have hpages : pageAddrs s.elf.roVaddr s.elf.roPages = [0x10001000] := by
    rw [helf]
    decide
  have hprotect : protectPages (pageAddrs s.elf.roVaddr s.elf.roPages) pt = some pt' := by
    simp only [hpages, protectPages, hset]
  exact processStart_of_load hs h hconfined hread hprotect

/-- A program that is to be loaded to 0x80001000 is zeroed in the memory of the kernel. -/
theorem loader_writes_kernel : ∃ s, prepare (smallCall 0x80001000) freshWorld = .ok s ∧ ¬ LoadConfined s := by
  have hloads : Loads (smallCall 0x80001000) freshWorld (smallProgram 0x80001000) (smallElf 0x80001000) :=
    smallCall_loads (by decide +kernel) (by decide +kernel)
  obtain ⟨s, hs, helf, -⟩ := prepare_of_loads smallPool_wf hloads
  obtain ⟨-, pt, h⟩ := loads_of_prepare smallPool_wf hs
  refine ⟨s, hs, fun hconfined => ?_⟩
  have hspan : (⟨0x80001000, 4096⟩ : Span) ∈ (smallElf 0x80001000).zeroedSpans := by decide +kernel
  have hzero : (⟨0x80001000, 4096⟩ : Span) ∈ (loadSegments s.elf s.openFile).1 := by
    rw [helf]
    unfold loadSegments
    split
    · exact List.mem_append_left _ hspan
    · exact List.mem_append_left _ (List.mem_append_left _ hspan)
  have hfirst : (0x80001000 : ℕ) ∈ (⟨0x80001000, 4096⟩ : Span).addrs := by decide +kernel
  exact absurd (hconfined pt h.pagetable _ hzero _ hfirst).1 (by decide)

end Programs

end Buenos.Proc
