import Buenos.Lib.Libc
import Buenos.Proc.Loading
import Buenos.Vm.Translation

/-!
# The memory that a process starts with

`process_start` with the bytes that it stores, in the physical memory behind the page table of the new process.

* `loadStores` — the stores of `memoryset` and `vfs_read`, in order.
* `processStartMemory` — the call, with the memory.
* `ElfInfo.image` — the bytes that an executable asks for.
* `HoldsImage` — the pages of a process hold these bytes, and nothing else has changed.

Principal results: `processStartMemory_fst`, that the stores go through when the addresses do, and `process_image`.
-/

namespace Buenos.Proc

open Buenos.Vm AddressSpace
open Buenos.Fs (VFS_OK)

/-! ## Stores -/

/-- The bytes are stored from `vaddr` on. -/
def stores (vaddr : ℕ) : List UInt8 → List (ℕ × UInt8)
  | [] => []
  | b :: bs => (u32 vaddr, b) :: stores (vaddr + 1) bs

/-- The stores of `memoryset`. -/
def ElfInfo.zeroStores (elf : ElfInfo) : List (ℕ × UInt8) :=
  elf.zeroedSpans.flatMap fun r => stores r.vaddr (List.replicate r.length 0)

/-- The stores in the reading of a segment, the file, and whether the call goes on. -/
def copyStores (size vaddr location : ℕ) (file : OpenFile) : List (ℕ × UInt8) × OpenFile × Bool :=
  if size = 0 then ([], file, true)
  else if vaddr < PAGE_SIZE then ([], file, false)
  else match vfsSeek file (toInt location) with
    | (ret, file) =>
      if ret ≠ VFS_OK then ([], file, false)
      else match vfsRead file (toInt size) with
        | (ret, bytes, file) => (stores vaddr bytes, file, decide (ret = toInt size))

/-- All the stores, the file, and whether the call goes on. -/
def loadStores (elf : ElfInfo) (file : OpenFile) : List (ℕ × UInt8) × OpenFile × Bool :=
  match copyStores elf.roSize elf.roVaddr elf.roLocation file with
  | (ro, file, false) => (elf.zeroStores ++ ro, file, false)
  | (ro, file, true) =>
    match copyStores elf.rwSize elf.rwVaddr elf.rwLocation file with
    | (rw, file, ok) => (elf.zeroStores ++ ro ++ rw, file, ok)

/-- The place that a store goes to; `none` when it does not go to a mapped page of the process. -/
def storePlace (pt : Pagetable) (vaddr : ℕ) : Option ℕ := if writable pt vaddr then physOf pt vaddr else none

/-- `process_start` up to the arguments, with the physical memory; the page of the page table is not in it. -/
def processStartMemory (c : StartCall) (w : World) (mem : Memory) : Option (StartOutcome × Memory) :=
  match prepare c { w with data := c.parentPid.map fun _ => execpData } with
  | .panics => none
  | .fails s => (restoreProcess s).map fun w => (.failed w, mem)
  | .ok s =>
    match s.world.pagetable with
    | none => none
    | some pt =>
      match loadStores s.elf s.openFile with
      | (xs, file, ok) =>
        (storeAll (storePlace pt) mem xs).bind fun mem =>
          if ok then (startUserland (s.setFile file)).map fun w => (.started w, mem)
          else (restoreProcess (s.setFile file)).map fun w => (.failed w, mem)

/-! ## The image -/

/-- The bytes of a segment in the executable; a size that is negative as an `int` reads nothing. -/
def segmentBytes (size location : ℕ) (content : List UInt8) : List UInt8 :=
  if size < 2 ^ 31 then (content.drop location).take size else []

/-- The byte at an address when `bytes` are at `vaddr`. -/
def byteAt (vaddr : ℕ) (bytes : List UInt8) (a : ℕ) : Option UInt8 := if vaddr ≤ a then bytes[a - vaddr]? else none

/-- **What an executable asks for** at an address: the byte of the data segment, or else of the code segment, or else
zero in the pages of the segments and of the stack. -/
def ElfInfo.image (elf : ElfInfo) (content : List UInt8) (a : ℕ) : Option UInt8 :=
  (byteAt elf.rwVaddr (segmentBytes elf.rwSize elf.rwLocation content) a).or <|
    (byteAt elf.roVaddr (segmentBytes elf.roSize elf.roLocation content) a).or <|
      if elf.zeroedSpans.any fun r => r.vaddr ≤ a && a < r.vaddr + r.length then some 0 else none

/-- **The pages hold the image**: where there is none, a place is as it was before. -/
structure HoldsImage (pt : Pagetable) (elf : ElfInfo) (content : List UInt8) (mem mem' : Memory) : Prop where
  bytes : ∀ a p, physOf pt a = some p → mem' p = (elf.image content a).getD (mem p)
  mapped : ∀ a, (elf.image content a).isSome = true → (physOf pt a).isSome = true
  elsewhere : ∀ p, (∀ a, physOf pt a ≠ some p) → mem' p = mem p
  readOnly : ∀ page m, pt.mapping page = some m →
    (m.dirty = false ↔ page ∈ (pageAddrs elf.roVaddr elf.roPages).map (· / PAGE_SIZE))

/-! ## The stores and the addresses -/

section Stores

variable {size vaddr location a : ℕ} {file : OpenFile} {bytes : List UInt8} {elf : ElfInfo} {pt : Pagetable}

theorem stores_addrs (vaddr : ℕ) (bytes : List UInt8) :
    (stores vaddr bytes).map Prod.fst = (⟨vaddr, bytes.length⟩ : Span).addrs := by
  induction bytes generalizing vaddr with
  | nil => rfl
  | cons b bs ih =>
    rw [stores, List.map_cons, ih, Span.addrs, Span.addrs, List.length_cons, List.range_succ_eq_map, List.map_cons,
      List.map_map]
    simp [Function.comp_def, Nat.add_assoc, Nat.add_comm 1]

theorem zeroStores_addrs (elf : ElfInfo) : elf.zeroStores.map Prod.fst = elf.zeroedSpans.flatMap Span.addrs := by
  simp [ElfInfo.zeroStores, List.map_flatMap, stores_addrs]

/-- The stores of a segment are at the addresses that are written. -/
theorem copyStores_addrs (size vaddr location : ℕ) (file : OpenFile) :
    (copyStores size vaddr location file).1.map Prod.fst =
        (copySegment size vaddr location file).1.flatMap Span.addrs ∧
      (copyStores size vaddr location file).2 = (copySegment size vaddr location file).2 := by
  unfold copyStores copySegment
  split
  · exact ⟨rfl, rfl⟩
  · split
    · exact ⟨rfl, rfl⟩
    · simp only
      split
      · exact ⟨rfl, rfl⟩
      · simp [stores_addrs]

theorem loadStores_addrs (elf : ElfInfo) (file : OpenFile) :
    (loadStores elf file).1.map Prod.fst = (loadSegments elf file).1.flatMap Span.addrs ∧
      (loadStores elf file).2 = (loadSegments elf file).2 := by
  obtain ⟨hro, hro2⟩ := copyStores_addrs elf.roSize elf.roVaddr elf.roLocation file
  unfold loadStores loadSegments
  rcases hcopy : copyStores elf.roSize elf.roVaddr elf.roLocation file with ⟨ro, file1, goesOn⟩
  rcases hseg : copySegment elf.roSize elf.roVaddr elf.roLocation file with ⟨ro', file1', goesOn'⟩
  rw [hcopy, hseg] at hro hro2
  cases hro2
  obtain ⟨hrw, hrw2⟩ := copyStores_addrs elf.rwSize elf.rwVaddr elf.rwLocation file1
  cases goesOn with
  | false => simp [zeroStores_addrs, ← hro]
  | true =>
    rcases hcopy2 : copyStores elf.rwSize elf.rwVaddr elf.rwLocation file1 with ⟨rw1, file2, ok⟩
    rcases hseg2 : copySegment elf.rwSize elf.rwVaddr elf.rwLocation file1 with ⟨rw1', file2', ok'⟩
    rw [hcopy2, hseg2] at hrw hrw2
    cases hrw2
    simp only [hcopy2, hseg2] at hro hrw ⊢
    simp [zeroStores_addrs, ← hro, ← hrw]

theorem storePlace_isSome : (storePlace pt a).isSome = true ↔ writable pt a = true := by
  unfold storePlace
  split
  · rename_i h
    rw [writable, Bool.and_eq_true, Bool.and_eq_true] at h
    simp [physOf_isSome, h, writable]
  · rename_i h
    simp [h]

/-- The stores go through when all of the addresses can be written. -/
theorem storeAll_load (pt : Pagetable) (elf : ElfInfo) (file : OpenFile) (mem : Memory) :
    (storeAll (storePlace pt) mem (loadStores elf file).1).isSome =
      (loadSegments elf file).1.all fun r => r.addrs.all (writable pt) := by
  rw [Bool.eq_iff_iff, storeAll_isSome]
  have haddrs : (∀ x ∈ (loadStores elf file).1, (storePlace pt x.1).isSome = true) ↔
      ∀ a ∈ (loadStores elf file).1.map Prod.fst, writable pt a = true := by
    simp only [List.forall_mem_map, storePlace_isSome]
  rw [haddrs, (loadStores_addrs elf file).1]
  simp only [List.mem_flatMap, forall_exists_index, and_imp, List.all_eq_true]
  exact ⟨fun h r hr a ha => h a r hr ha, fun h a r hr ha => h r hr a ha⟩

/-- **The call with the memory** ends as the call without it. -/
theorem processStartMemory_fst (c : StartCall) (w : World) (mem : Memory) :
    (processStartMemory c w mem).map Prod.fst = processStart c w := by
  unfold processStartMemory processStart
  cases prepare c { w with data := c.parentPid.map fun _ => execpData } with
  | panics => rfl
  | fails s => simp [Function.comp_def]
  | ok s =>
    simp only [Start.ok_bind, load]
    cases s.world.pagetable with
    | none => rfl
    | some pt =>
      have hall := storeAll_load pt s.elf s.openFile mem
      obtain ⟨-, hrest⟩ := loadStores_addrs s.elf s.openFile
      rcases hstores : loadStores s.elf s.openFile with ⟨xs, file, ok⟩
      rcases hspans : loadSegments s.elf s.openFile with ⟨spans, file', ok'⟩
      rw [hstores, hspans] at hall hrest
      cases hrest
      simp only at hall ⊢
      cases hmem : storeAll (storePlace pt) mem xs with
      | none =>
        rw [hmem, Option.isSome_none] at hall
        rw [← hall]
        rfl
      | some mem' =>
        rw [hmem, Option.isSome_some] at hall
        rw [← hall, if_pos rfl]
        cases ok <;> simp [Function.comp_def]

end Stores

/-! ## What the stores come to -/

section Image

variable {size vaddr location a t : ℕ} {file : OpenFile} {content bytes : List UInt8} {elf : ElfInfo} {pt pt' : Pagetable}

theorem byteAt_cons (b : UInt8) (bs : List UInt8) :
    byteAt vaddr (b :: bs) a = (byteAt (vaddr + 1) bs a).or (if vaddr = a then some b else none) := by
  unfold byteAt
  rcases lt_trichotomy vaddr a with hlt | rfl | hgt
  · have hsub : a - vaddr = a - (vaddr + 1) + 1 := by omega
    rw [if_pos hlt.le, if_pos (Nat.succ_le_of_lt hlt), if_neg hlt.ne, hsub, List.getElem?_cons_succ, Option.or_none]
  · rw [if_pos (le_refl _), if_neg (by omega), if_pos rfl, Nat.sub_self]
    rfl
  · rw [if_neg (by omega), if_neg (by omega), if_neg (by omega)]
    rfl

/-- **The last bytes** that are stored are the bytes, when their addresses do not wrap around. -/
theorem lastAt_stores (h : vaddr + bytes.length ≤ 2 ^ 32) (a : ℕ) : lastAt (stores vaddr bytes) a = byteAt vaddr bytes a := by
  induction bytes generalizing vaddr with
  | nil => simp [stores, lastAt, byteAt]
  | cons b bs ih =>
    rw [List.length_cons] at h
    have hu : u32 vaddr = vaddr := Nat.mod_eq_of_lt (by omega)
    rw [stores, lastAt, ih (by omega), byteAt_cons, hu]

theorem byteAt_replicate (n : ℕ) :
    byteAt vaddr (List.replicate n 0) a = if vaddr ≤ a ∧ a < vaddr + n then some 0 else none := by
  unfold byteAt
  by_cases hle : vaddr ≤ a
  · rw [if_pos hle, List.getElem?_replicate]
    by_cases hlt : a < vaddr + n
    · rw [if_pos (by omega), if_pos ⟨hle, hlt⟩]
    · rw [if_neg (by omega), if_neg fun h => hlt h.2]
  · rw [if_neg hle, if_neg fun h => hle h.1]

/-- Stores that go through do not wrap around. -/
theorem Maps.room (h : Maps pt t elf.addrs) (hvaddr : vaddr < 2 ^ 32) (hlength : bytes.length ≤ 2 ^ 31)
    (hstores : ∀ x ∈ stores vaddr bytes, (storePlace pt x.1).isSome = true) : vaddr + bytes.length ≤ 2 ^ 32 := by
  have hfits : elf.Fits vaddr bytes.length := by
    apply (h.span_iff hvaddr hlength).1
    rw [← stores_addrs, List.forall_mem_map]
    intro x hx
    have hw := storePlace_isSome.1 (hstores x hx)
    rw [writable, Bool.and_eq_true, Bool.and_eq_true, decide_eq_true_iff] at hw
    exact ⟨hw.1.1, hw.1.2, hw.2⟩
  rcases hfits with hzero | ⟨-, hend, -⟩ <;> omega

/-- The stores of several zeroed ranges. -/
theorem lastAt_zeroes {spans : List Span} (h : ∀ r ∈ spans, r.vaddr + r.length ≤ 2 ^ 32) (a : ℕ) :
    lastAt (spans.flatMap fun r => stores r.vaddr (List.replicate r.length 0)) a =
      if spans.any fun r => r.vaddr ≤ a && a < r.vaddr + r.length then some 0 else none := by
  induction spans with
  | nil => rfl
  | cons r spans ih =>
    obtain ⟨hr, hrest⟩ := List.forall_mem_cons.1 h
    rw [List.flatMap_cons, lastAt_append, ih hrest, lastAt_stores (by rwa [List.length_replicate]), byteAt_replicate,
      List.any_cons]
    by_cases hin : r.vaddr ≤ a ∧ a < r.vaddr + r.length
    · rw [if_pos hin]
      split <;> simp [hin]
    · rw [if_neg hin, Option.or_none]
      have hout : (decide (r.vaddr ≤ a) && decide (a < r.vaddr + r.length)) = false := by
        simpa using hin
      rw [hout, Bool.false_or]

theorem segmentBytes_length (size location : ℕ) (content : List UInt8) :
    (segmentBytes size location content).length ≤ 2 ^ 31 := by
  unfold segmentBytes
  split
  · rw [List.length_take]
    omega
  · exact Nat.zero_le _

/-- A segment that is read is stored as it is in the executable. -/
theorem copyStores_bytes (hsize : size < 2 ^ 32) (hlocation : location < 2 ^ 32) {xs : List (ℕ × UInt8)}
    {file' : OpenFile} (h : copyStores size vaddr location file = (xs, file', true)) :
    xs = stores vaddr (segmentBytes size location file.content) ∧ file'.content = file.content := by
  have hcontent := @copySegment_content size vaddr location file
  rw [← (copyStores_addrs size vaddr location file).2, h] at hcontent
  refine ⟨?_, hcontent⟩
  unfold copyStores at h
  by_cases hzero : size = 0
  · rw [if_pos hzero] at h
    cases h
    simp [segmentBytes, hzero, stores]
  rw [if_neg hzero] at h
  split at h
  · cases h
  obtain ⟨file1, hread⟩ := @vfsRead_toInt size location file hsize
  simp only [vfsSeek_toInt hlocation] at h
  by_cases hloc : location < 2 ^ 31
  swap
  · rw [if_neg hloc] at h
    cases h
  rw [if_pos hloc] at h
  simp only [hread, ne_eq, not_true_eq_false, if_false] at h
  by_cases hfails : 2 ^ 31 ≤ size ∨ file.content.length < location
  · rw [if_pos hfails] at h
    obtain ⟨rfl, hrest⟩ := Prod.mk.inj h
    -- the refused read answers with the size
    have hbig : ¬ size < 2 ^ 31 := by
      intro hsmall
      have hret := of_decide_eq_true (Prod.mk.inj hrest).2
      rw [toInt, if_pos hsmall] at hret
      exact absurd hret (by unfold Fs.VFS_ERROR; omega)
    rw [segmentBytes, if_neg hbig]
  · rw [if_neg hfails] at h
    obtain ⟨rfl, -⟩ := Prod.mk.inj h
    rw [segmentBytes, if_pos (by omega)]

/-- **The last bytes that are stored** when both segments are read are those of the image. -/
theorem lastAt_load (hm : Maps pt t elf.addrs) (hb : elf.Bounded) (hok : (loadStores elf file).2.2 = true)
    (hplaces : ∀ x ∈ (loadStores elf file).1, (storePlace pt x.1).isSome = true) (a : ℕ) :
    lastAt (loadStores elf file).1 a = elf.image file.content a := by
  rcases hro : copyStores elf.roSize elf.roVaddr elf.roLocation file with ⟨ro, file1, goesOn⟩
  unfold loadStores at hok hplaces ⊢
  rw [hro] at hok hplaces ⊢
  cases goesOn with
  | false => cases hok
  | true =>
    obtain ⟨rfl, hcontent⟩ := copyStores_bytes hb.roSize hb.roLocation hro
    rcases hrw : copyStores elf.rwSize elf.rwVaddr elf.rwLocation file1 with ⟨rw1, file2, ok⟩
    simp only [hrw] at hok hplaces ⊢
    subst hok
    obtain ⟨rfl, -⟩ := copyStores_bytes hb.rwSize hb.rwLocation hrw
    rw [hcontent] at hplaces ⊢
    obtain ⟨hfirst, hrwPlaces⟩ := List.forall_mem_append.1 hplaces
    obtain ⟨hzero, hroPlaces⟩ := List.forall_mem_append.1 hfirst
    have hspans : ∀ r ∈ elf.zeroedSpans, r.vaddr + r.length ≤ 2 ^ 32 := by
      intro r hr
      have hbounds : r.vaddr < 2 ^ 32 ∧ r.length ≤ 2 ^ 31 := by
        simp only [ElfInfo.zeroedSpans, List.mem_cons, List.not_mem_nil, or_false] at hr
        rcases hr with rfl | rfl | rfl
        · exact ⟨hb.roVaddr, zeroedBytes_le _⟩
        · exact ⟨hb.rwVaddr, zeroedBytes_le _⟩
        · exact ⟨by decide, by decide⟩
      have hroom : r.vaddr + (List.replicate r.length (0 : UInt8)).length ≤ 2 ^ 32 :=
        hm.room hbounds.1 (by simpa using hbounds.2) fun x hx => hzero x (List.mem_flatMap.2 ⟨r, hr, hx⟩)
      simpa using hroom
    rw [lastAt_append, lastAt_append, ElfInfo.zeroStores, lastAt_zeroes hspans,
      lastAt_stores (hm.room hb.roVaddr (segmentBytes_length _ _ _) hroPlaces),
      lastAt_stores (hm.room hb.rwVaddr (segmentBytes_length _ _ _) hrwPlaces)]
    rfl

/-- **The read-only pages are protected**: their frames stay, and only their dirty bits are cleared. -/
theorem protectPages_mapping {vaddrs : List ℕ} (hw : pt.Wf t) (h : protectPages vaddrs pt = some pt') (page : ℕ) :
    pt'.mapping page = (pt.mapping page).map fun m =>
      if page ∈ vaddrs.map (· / PAGE_SIZE) then { m with dirty := false } else m := by
  induction vaddrs generalizing pt with
  | nil =>
    cases h
    simp
  | cons vaddr vaddrs ih =>
    rw [protectPages] at h
    split at h
    · cases h
    · rename_i pt1 hset
      obtain ⟨hw1, m, hm, hmap⟩ := vmSetDirty_mapping hw hset
      rw [ih hw1 h, hmap]
      by_cases hp : page = vaddr / PAGE_SIZE
      · rw [hp, Function.update_self, hm]
        simp
      · rw [Function.update_of_ne hp]
        simp [hp]

theorem protectPages_physOf {vaddrs : List ℕ} (hw : pt.Wf t) (h : protectPages vaddrs pt = some pt') :
    physOf pt' = physOf pt := by
  funext a
  rw [physOf, physOf, protectPages_mapping hw h]
  cases pt.mapping (a / PAGE_SIZE) with
  | none => rfl
  | some m =>
    simp only [Option.map_some]
    split <;> rfl

end Image

/-! ## Principal result -/

section Principal

variable {pool : Pool} {t : ℕ} {c : StartCall} {w w' : World} {pt : Pagetable} {vaddrs : List ℕ} {s : StartState}
  {mem mem' : Memory} {file : OpenFile} {r : StartOutcome}

/-- **The places of a new process** are different for different addresses, and in frames that were free. -/
theorem Taken.places (h : Taken pool t w pt vaddrs none) :
    OneToOne (physOf pt) ∧ ∀ a p, physOf pt a = some p → pool.used (p / PAGE_SIZE) = false := by
  obtain ⟨frame, hframes, howns, -, hother⟩ := h.owners
  have howner : ∀ {a p}, physOf pt a = some p → frame (.page (a / PAGE_SIZE)) = some (p / PAGE_SIZE) := by
    intro a p hp
    rw [howns.page]
    exact (physOf_eq_some.1 hp).2
  refine ⟨fun a a' p hp hp' => ?_, fun a p hp => ?_⟩
  · apply physOf_same hp hp'
    intro _ _
    exact howns.inj (hframes.once _ _ _ (howner hp) (howner hp'))
  · apply eq_false_of_ne_true
    intro hused
    by_cases hstatic : pool.staticEnd ≤ p / PAGE_SIZE
    · have hsame : frame (.other (p / PAGE_SIZE)) = some (p / PAGE_SIZE) := by
        rw [hother, othersFrame, if_pos ⟨hstatic, hused⟩]
      cases hframes.once _ _ _ (howner hp) hsame
    · have hle := (hframes.owned _ _ (howner hp)).1
      rw [h.static] at hle
      exact hstatic hle

/-- The stores of a call, in its pages. -/
theorem Taken.stores (h : Taken pool t w pt vaddrs none) {xs : List (ℕ × UInt8)}
    (hs : storeAll (storePlace pt) mem xs = some mem') :
    (∀ p, pool.used (p / PAGE_SIZE) = true → mem' p = mem p) ∧
      (∀ a p, physOf pt a = some p → mem' p = (lastAt xs a).getD (mem p)) ∧
      (∀ a, (lastAt xs a).isSome = true → (physOf pt a).isSome = true) ∧
      ∀ p, (∀ a, physOf pt a ≠ some p) → mem' p = mem p := by
  obtain ⟨hone, hfree⟩ := h.places
  have hphys : ∀ a p, storePlace pt a = some p → physOf pt a = some p := by
    intro a p hp
    unfold storePlace at hp
    split at hp
    · exact hp
    · cases hp
  have hstores := storeAll_mono hphys hs
  refine ⟨fun p hp => ?_, fun a p hp => storeAll_at hone hstores hp, fun a ha => ?_, fun p hp => ?_⟩
  · apply storeAll_elsewhere hstores
    intro x _ hx
    rw [hfree x.1 p hx] at hp
    cases hp
  · by_contra hno
    have hnone : lastAt xs a = none := lastAt_none.2 fun x hx hxa => by
      have hplace := storeAll_isSome.1 (by rw [hstores, Option.isSome_some]) x hx
      rw [hxa] at hplace
      exact hno hplace
    rw [hnone] at ha
    cases ha
  · exact storeAll_elsewhere hstores fun x _ => hp x.1

/-- **The image of a process that goes to userland.** -/
theorem Taken.holdsImage (h : Taken pool t s.world pt s.elf.addrs none) (hb : s.elf.Bounded)
    (hok : (loadStores s.elf s.openFile).2.2 = true)
    (hs : storeAll (storePlace pt) mem (loadStores s.elf s.openFile).1 = some mem')
    (hstart : startUserland (s.setFile file) = some w') :
    ∃ pt', w'.pagetable = some pt' ∧ HoldsImage pt' s.elf s.openFile.content mem mem' := by
  obtain ⟨-, hat, hmapped, helse⟩ := h.stores hs
  have hlast : ∀ a, lastAt (loadStores s.elf s.openFile).1 a = s.elf.image s.openFile.content a :=
    lastAt_load h.maps hb hok (storeAll_isSome.1 (by rw [hs, Option.isSome_some]))
  rw [startUserland, (h.setFile file).pagetable, setFile_elf] at hstart
  obtain ⟨pt', hprotect, rfl⟩ := Option.map_eq_some_iff.1 hstart
  have hphys := protectPages_physOf h.maps.wf hprotect
  refine ⟨pt', ?_, ?_, ?_, ?_, ?_⟩
  · unfold closeFile
    split <;> rfl
  · intro a p hp
    rw [hphys] at hp
    rw [hat a p hp, hlast]
  · intro a ha
    rw [hphys]
    exact hmapped a (by rwa [hlast])
  · intro p hp
    rw [hphys] at hp
    exact helse p hp
  · intro page m hm
    rw [protectPages_mapping h.maps.wf hprotect] at hm
    obtain ⟨m0, hm0, rfl⟩ := Option.map_eq_some_iff.1 hm
    have hdirty := h.maps.dirty page m0 hm0
    split
    · rename_i hpage
      exact iff_of_true rfl hpage
    · rename_i hpage
      exact iff_of_false (by simp [hdirty]) hpage

/-- **`process_start` loads the program and nothing else**: whatever the executable is, the call leaves the memory
in every frame that was in use, and a process that goes to userland has the image of its executable in its pages, and
what was there before where the executable asks for nothing, with the pages of the code segment read-only. -/
theorem process_image (hpool : PoolWf w.pool) (mem : Memory) (hr : processStart c w = some r) :
    ∃ mem', processStartMemory c w mem = some (r, mem') ∧
      (∀ p, w.pool.used (p / PAGE_SIZE) = true → mem' p = mem p) ∧
      ∀ w', r = .started w' → ∃ content elf pt, c.executable = some content ∧
        (elfParseHeader ⟨content, 0⟩).1 = some elf ∧ w'.pagetable = some pt ∧ HoldsImage pt elf content mem mem' := by
  obtain ⟨x, hx, rfl⟩ := Option.map_eq_some_iff.1 ((processStartMemory_fst c w mem).trans hr)
  refine ⟨x.2, hx, ?_⟩
  unfold processStartMemory at hx
  cases hprepare : prepare c { w with data := c.parentPid.map fun _ => execpData } with
  | panics =>
    rw [hprepare] at hx
    cases hx
  | fails s =>
    rw [hprepare] at hx
    obtain ⟨w', -, rfl⟩ := Option.map_eq_some_iff.1 hx
    exact ⟨fun _ _ => rfl, fun w' hw' => by cases hw'⟩
  | ok s =>
    have hpool' : PoolWf ({ w with data := c.parentPid.map fun _ => execpData } : World).pool := hpool
    obtain ⟨hloads, pt, h⟩ := loads_of_prepare hpool' hprepare
    rw [hprepare] at hx
    simp only [h.pagetable] at hx
    obtain ⟨mem', hmem, hend⟩ := Option.bind_eq_some_iff.1 hx
    have hused := (h.stores hmem).1
    split at hend
    · rename_i hok
      obtain ⟨w', hstart, rfl⟩ := Option.map_eq_some_iff.1 hend
      refine ⟨hused, fun w1 hw1 => ?_⟩
      cases hw1
      obtain ⟨pt', hpt', himage⟩ := h.holdsImage (elfParseHeader_bounded hloads.accepts.header) hok hmem hstart
      exact ⟨_, _, pt', hloads.accepts.executable, hloads.accepts.header, hpt', himage⟩
    · obtain ⟨w', -, rfl⟩ := Option.map_eq_some_iff.1 hend
      exact ⟨hused, fun w1 hw1 => by cases hw1⟩

/-- The program at 0x10001000, in memory that is full of sevens. -/
theorem process_image_smallProgram : ∃ w' mem' pt,
    processStartMemory (smallCall 0x10001000) freshWorld (fun _ => 7) = some (.started w', mem') ∧
    w'.pagetable = some pt ∧ HoldsImage pt (smallElf 0x10001000) (smallProgram 0x10001000) (fun _ => 7) mem' := by
  obtain ⟨w', hstart⟩ := smallCall_started
  obtain ⟨mem', hmem, -, himage⟩ := process_image smallPool_wf (fun _ => 7) hstart
  obtain ⟨content, elf, pt, hexe, hheader, hpt, hholds⟩ := himage w' rfl
  cases hexe
  have helf : some (smallElf 0x10001000) = some elf := smallElf_facts.1.1.symm.trans hheader
  cases helf
  exact ⟨w', mem', pt, hmem, hpt, hholds⟩

end Principal

end Buenos.Proc
