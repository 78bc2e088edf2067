import Buenos.Proc.UserMemory
import Buenos.Vm.PagetableMap

/-!
# Copying from and to user memory

The helpers of `proc/syscall_helpers.c` with the bytes that they copy, for every size.  The loops take a
number of rounds; a loop that makes no progress hangs whatever the number is.

* `readDataFromVm`, `writeDataToVm`, `readStringFromVm` — the helpers: the addresses that they touch, the
  memory that they write to, and what they return.
* `Mapped` — an address at or above 4096 in a mapped page.
* `ReadDataExact`, `WriteDataExact`, `ReadStringExact` — what the helpers are for.
* `DataCopyable`, `StringCopyable` — when they do it.

Principal result: `userCopy_exact`.
-/

namespace Buenos.Proc.UserCopy

open Buenos.Vm Buenos.Vm.PagetableMap Buenos.Transition

/-! ## The helpers -/

section Helpers

variable {σ : Type}

/-- The `for` loop of `read_data_from_vm` and `write_data_to_vm`, with `left` bytes to `size`; `put i` copies
byte number `i`. -/
def copyPage (put : ℕ → σ → σ) (address vaddr pageEnd : ℕ) : ℕ → ℕ → σ → List ℕ × ℕ × σ
  | 0, i, s => ([], i, s)
  | left + 1, i, s =>
    if u32 (vaddr + i) < pageEnd then
      let r := copyPage put address vaddr pageEnd left (i + 1) (put i s)
      (u32 (address + i) :: r.1, r.2)
    else ([], i, s)

/-- The `while` loop of `read_data_from_vm` and `write_data_to_vm`. -/
def copyRounds (pt : Pagetable) (put : ℕ → σ → σ) (address size : ℕ) : ℕ → ℕ → σ → List ℕ × σ × Answer
  | 0, i, s => ([], s, .hangs (some (u32 (address + i))))
  | rounds + 1, i, s =>
    if i < size then
      match vmGetVaddrPageOffsets pt (u32 (address + i)) with
      | none => ([], s, .nok)
      | some (_, start) =>
        let page := copyPage put address (u32 (address + i)) (u32 (start + PAGE_SIZE)) (size - i) i s
        let r := copyRounds pt put address size rounds page.2.1 page.2.2
        (page.1 ++ r.1, r.2)
    else ([], s, .ok size)

end Helpers

/-- `physical_target[i] = virtual_source[i]`. -/
def putTarget (mem : UserMemory) (source i : ℕ) (target : ℕ → UInt8) : ℕ → UInt8 :=
  Function.update target i (mem (u32 (source + i)))

/-- `virtual_target[i] = physical_source[i]`. -/
def putVirtual (source : ℕ → UInt8) (target i : ℕ) (mem : UserMemory) : UserMemory :=
  Function.update mem (u32 (target + i)) (source i)

/-- `read_data_from_vm`. -/
def readDataFromVm (pt : Pagetable) (mem : UserMemory) (source size rounds : ℕ) (target : ℕ → UInt8) :
    List ℕ × (ℕ → UInt8) × Answer :=
  copyRounds pt (putTarget mem source) source size rounds 0 target

/-- `write_data_to_vm`. -/
def writeDataToVm (pt : Pagetable) (source : ℕ → UInt8) (target size rounds : ℕ) (mem : UserMemory) :
    List ℕ × UserMemory × Answer :=
  copyRounds pt (putVirtual source target) target size rounds 0 mem

/-- The `for` loop of `read_string_from_vm`, with `left` bytes to `max_length`. -/
def copyStringPage (mem : UserMemory) (source vaddr pageEnd left i : ℕ) (target : ℕ → UInt8) :
    List ℕ × (ℕ → UInt8) × (ℕ ⊕ Answer) :=
  if u32 (vaddr + i) < pageEnd then
    match left with
    | 0 => ([], target, .inr .nok)
    | left + 1 =>
      let target := putTarget mem source i target
      if target i = 0 then ([u32 (source + i)], target, .inr (.ok (i + 1)))
      else
        let r := copyStringPage mem source vaddr pageEnd left (i + 1) target
        (u32 (source + i) :: r.1, r.2)
  else ([], target, .inl i)

/-- The `while` loop of `read_string_from_vm`. -/
def copyStringRounds (pt : Pagetable) (mem : UserMemory) (source maxLength : ℕ) :
    ℕ → ℕ → (ℕ → UInt8) → List ℕ × (ℕ → UInt8) × Answer
  | 0, i, target => ([], target, .hangs (some (u32 (source + i))))
  | rounds + 1, i, target =>
    match vmGetVaddrPageOffsets pt (u32 (source + i)) with
    | none => ([], target, .nok)
    | some (_, start) =>
      match copyStringPage mem source (u32 (source + i)) (u32 (start + PAGE_SIZE)) (maxLength - i) i target with
      | (as, target, .inr r) => (as, target, r)
      | (as, target, .inl j) =>
        let r := copyStringRounds pt mem source maxLength rounds j target
        (as ++ r.1, r.2)

/-- `read_string_from_vm`. -/
def readStringFromVm (pt : Pagetable) (mem : UserMemory) (source maxLength rounds : ℕ) (target : ℕ → UInt8) :
    List ℕ × (ℕ → UInt8) × Answer :=
  copyStringRounds pt mem source maxLength rounds 0 target

/-! ## What they are for -/

/-- The address is at or above 4096 and lies in a mapped page. -/
def Mapped (pt : Pagetable) (vaddr : ℕ) : Prop :=
  4096 ≤ vaddr ∧ (pt.mapping (vaddr / PAGE_SIZE)).isSome = true

/-- A data helper returns, it returns OK exactly when all bytes are mapped, and it touches mapped bytes
only. -/
structure DataExact (pt : Pagetable) (address size : ℕ) (touched : List ℕ) (answer : Answer) : Prop where
  returns : ∀ needs, answer ≠ .hangs needs
  ok : answer = .ok size ↔ ∀ j < size, Mapped pt (u32 (address + j))
  nok : answer = .nok ↔ ¬ ∀ j < size, Mapped pt (u32 (address + j))
  mapped : ∀ a ∈ touched, Mapped pt a

/-- `read_data_from_vm` is exact. -/
def ReadDataExact (pt : Pagetable) (mem : UserMemory) (source size : ℕ) : Prop :=
  ∀ target, ∃ rounds touched target' answer,
    readDataFromVm pt mem source size rounds target = (touched, target', answer) ∧
      DataExact pt source size touched answer ∧
      (answer = .ok size → ∀ j < size, target' j = mem (u32 (source + j))) ∧
      ∀ j, size ≤ j → target' j = target j

/-- `write_data_to_vm` is exact. -/
def WriteDataExact (pt : Pagetable) (source : ℕ → UInt8) (target size : ℕ) : Prop :=
  ∀ mem, ∃ rounds touched mem' answer,
    writeDataToVm pt source target size rounds mem = (touched, mem', answer) ∧
      DataExact pt target size touched answer ∧
      (answer = .ok size → ∀ j < size, mem' (u32 (target + j)) = source j) ∧
      ∀ a, (∀ j < size, a ≠ u32 (target + j)) → mem' a = mem a

/-- There is a mapped string of `len` characters, fewer than `max_length`. -/
def StringAt (pt : Pagetable) (mem : UserMemory) (source maxLength len : ℕ) : Prop :=
  len < maxLength ∧ (∀ j < len, mem (u32 (source + j)) ≠ 0) ∧ mem (u32 (source + len)) = 0 ∧
    ∀ j ≤ len, Mapped pt (u32 (source + j))

/-- `read_string_from_vm` is exact. -/
def ReadStringExact (pt : Pagetable) (mem : UserMemory) (source maxLength : ℕ) : Prop :=
  ∀ target, ∃ rounds touched target' answer,
    readStringFromVm pt mem source maxLength rounds target = (touched, target', answer) ∧
      (∀ needs, answer ≠ .hangs needs) ∧
      (∀ n, answer = .ok n ↔ ∃ len, n = len + 1 ∧ StringAt pt mem source maxLength len) ∧
      (answer = .nok ↔ ¬ ∃ len, StringAt pt mem source maxLength len) ∧
      (∀ n, answer = .ok n → ∀ j < n, target' j = mem (u32 (source + j))) ∧
      (∀ a ∈ touched, Mapped pt a) ∧ ∀ j, maxLength ≤ j → target' j = target j

/-! ## When they do it -/

/-- As far as the bytes are accepted one after another, each is mapped, below the last page, and among the
first 4096. -/
def DataCopyable (pt : Pagetable) (address size : ℕ) : Prop :=
  ∀ j < size, (∀ k ≤ j, Accepted pt (u32 (address + k))) →
    j < 4096 ∧ Mapped pt (u32 (address + j)) ∧ u32 (address + j) < 0xfffff000

/-- The same up to the end of the string.  When `max_length` is reached, the loop has to enter the page of the
next byte, or the byte must not be accepted. -/
def StringCopyable (pt : Pagetable) (mem : UserMemory) (source maxLength : ℕ) : Prop :=
  ∀ j ≤ maxLength, (∀ k < j, mem (u32 (source + k)) ≠ 0) → (∀ k ≤ j, Accepted pt (u32 (source + k))) →
    (j < maxLength → j < 4096 ∧ Mapped pt (u32 (source + j)) ∧ u32 (source + j) < 0xfffff000) ∧
    (j = maxLength → Runs pt (u32 (source + j)) ∧ ¬ (j = 4096 ∧ Mapped pt (u32 (source + j))))

/-! ## Lookups -/

section Lookup

variable {pt : Pagetable} {t vaddr vaddr' address i j k : ℕ}

theorem mapped_page (h : vaddr / PAGE_SIZE = vaddr' / PAGE_SIZE) : Mapped pt vaddr ↔ Mapped pt vaddr' := by
  have hlow : 4096 ≤ vaddr ↔ 4096 ≤ vaddr' := by
    unfold PAGE_SIZE at h
    omega
  rw [Mapped, Mapped, h, hlow]

/-- **A lookup** finds nothing, the page of the address, or the odd page after it. -/
theorem lookup_cases (hw : pt.Wf t) (vaddr : ℕ) :
    (vmGetVaddrPageOffsets pt vaddr = none ∧ ¬ Mapped pt vaddr) ∨
      (∃ frame, vmGetVaddrPageOffsets pt vaddr = some (frame, pageStart vaddr) ∧ Mapped pt vaddr) ∨
      ∃ frame, vmGetVaddrPageOffsets pt vaddr = some (frame, pageStart vaddr + PAGE_SIZE) ∧ ¬ Mapped pt vaddr ∧
        vaddr / PAGE_SIZE % 2 = 0 := by
  by_cases hodd : OnOddNeighbour pt vaddr
  · refine Or.inr (Or.inr ?_)
    obtain ⟨hlow, heven, hnone, hnext⟩ := hodd
    have hnot : ¬ Mapped pt vaddr := fun h => by
      rw [Mapped, hnone] at h
      cases h.2
    obtain ⟨x, hx⟩ := Option.isSome_iff_exists.1 hnext
    obtain ⟨i, hi, hv, hhalf⟩ := (mapping_some hw).1 hx
    have hpair : (vaddr / PAGE_SIZE + 1) / 2 = vaddr / PAGE_SIZE / 2 := by omega
    have hpar : decide ((vaddr / PAGE_SIZE + 1) % 2 = 1) = true := decide_eq_true (by omega)
    rw [hpair] at hv
    rw [hpar] at hhalf
    have hfind : pt.findEntry (vpn2Of vaddr) = some i := by
      rw [vpn2Of_eq, ← hv]
      exact hw.findEntry_eq hi
    have hleft : (pt.entries i).half false = (pt.entries i).even := rfl
    have hright : (pt.entries i).odd = ⟨x.frame, x.dirty, true⟩ := hhalf
    have hfree : (pt.entries i).even.v = false := by
      have hmap := hw.mapping_eq hi hv
      rw [hnone, decide_eq_false (show ¬ vaddr / PAGE_SIZE % 2 = 1 by omega), hleft] at hmap
      rw [← Half.mapping_isSome, ← hmap]
      rfl
    refine ⟨x.frame, ?_, hnot, heven⟩
    rw [vmGetVaddrPageOffsets_eq hw hlow, hfind]
    have hstart : vaddr / PAGE_SIZE / 2 * 8192 + 0x1000 = pageStart vaddr + PAGE_SIZE := by
      unfold pageStart PAGE_SIZE at *
      omega
    simp only [hfree, hright, Bool.and_false, Bool.false_eq_true, if_false, if_true, hv, hstart]
  · obtain ⟨hsome, hfound⟩ := (exact_iff hw).2 hodd
    cases hl : vmGetVaddrPageOffsets pt vaddr with
    | none =>
      rw [hl] at hsome
      exact Or.inl ⟨rfl, fun h => by simpa using hsome.2 h⟩
    | some r =>
      obtain ⟨frame, start⟩ := r
      rw [hl] at hsome
      refine Or.inr (Or.inl ⟨frame, ?_, hsome.1 rfl⟩)
      rw [(hfound frame start hl).1]
      rfl

/-- The bytes up to the end of the page of byte number `i`. -/
def toPageEnd (vaddr : ℕ) : ℕ := pageStart vaddr + PAGE_SIZE - vaddr

theorem toPageEnd_bounds (vaddr : ℕ) : 0 < toPageEnd vaddr ∧ toPageEnd vaddr ≤ 4096 ∧
    vaddr + toPageEnd vaddr = pageStart vaddr + PAGE_SIZE := by
  unfold toPageEnd pageStart PAGE_SIZE
  omega

/-- Below the last page, the end of the page and what lies on the page. -/
theorem below_page (hbelow : u32 (address + i) < 0xfffff000) :
    u32 (pageStart (u32 (address + i)) + PAGE_SIZE) = pageStart (u32 (address + i)) + PAGE_SIZE ∧
      (∀ k, i ≤ k → k < i + toPageEnd (u32 (address + i)) →
        u32 (address + k) / PAGE_SIZE = u32 (address + i) / PAGE_SIZE) ∧
      u32 (address + (i + toPageEnd (u32 (address + i)))) % PAGE_SIZE = 0 := by
  unfold toPageEnd pageStart u32 PAGE_SIZE at *
  refine ⟨by omega, fun k h1 h2 => by omega, by omega⟩

end Lookup

/-! ## Rounds -/

section Pages

variable {σ : Type} {put : ℕ → σ → σ} {mem : UserMemory} {address source vaddr pageEnd : ℕ}

/-- The bytes from `i` on are put one after another. -/
def putAll (put : ℕ → σ → σ) (i m : ℕ) (s : σ) : σ := (List.range' i m).foldl (fun s j => put j s) s

/-- The addresses of the bytes from `i` on. -/
def addrsFrom (address i m : ℕ) : List ℕ := (List.range' i m).map fun j => u32 (address + j)

theorem addrsFrom_append (address i m n : ℕ) :
    addrsFrom address i m ++ addrsFrom address (i + m) n = addrsFrom address i (m + n) := by
  rw [addrsFrom, addrsFrom, addrsFrom, ← List.map_append, List.range'_append_1]

theorem putAll_append (put : ℕ → σ → σ) (i m n : ℕ) (s : σ) :
    putAll put (i + m) n (putAll put i m s) = putAll put i (m + n) s := by
  rw [putAll, putAll, putAll, ← List.foldl_append, List.range'_append_1]

/-- The loop over a page copies `m` bytes, as many as there are or up to the end of the page. -/
theorem copyPage_eq {m left i : ℕ} {s : σ} (hm : m ≤ left) (hin : ∀ j, i ≤ j → j < i + m → u32 (vaddr + j) < pageEnd)
    (hout : m = left ∨ ¬ u32 (vaddr + (i + m)) < pageEnd) :
    copyPage put address vaddr pageEnd left i s = (addrsFrom address i m, i + m, putAll put i m s) := by
  induction m generalizing left i s with
  | zero =>
    cases left with
    | zero => rfl
    | succ left =>
      have hout : ¬ u32 (vaddr + i) < pageEnd := hout.resolve_left (Nat.succ_ne_zero left).symm
      rw [copyPage, if_neg hout]
      rfl
  | succ m ih =>
    obtain ⟨left, rfl⟩ : ∃ k, left = k + 1 := ⟨left - 1, by omega⟩
    have hat : i + 1 + m = i + (m + 1) := by omega
    rw [copyPage, if_pos (hin i (le_refl i) (by omega)), ih (by omega) (fun j h1 h2 => hin j (by omega) (by omega))
      (by rw [hat]; exact hout.imp_left (by omega)), hat]
    rfl

/-- The loop of `read_string_from_vm` comes to byte number `i + m` when there is no zero before. -/
theorem copyStringPage_skip {m left i : ℕ} {target : ℕ → UInt8}
    (hin : ∀ j, i ≤ j → j < i + m → u32 (vaddr + j) < pageEnd)
    (hchar : ∀ j, i ≤ j → j < i + m → mem (u32 (source + j)) ≠ 0) :
    copyStringPage mem source vaddr pageEnd (left + m) i target =
      (addrsFrom source i m ++
          (copyStringPage mem source vaddr pageEnd left (i + m) (putAll (putTarget mem source) i m target)).1,
        (copyStringPage mem source vaddr pageEnd left (i + m) (putAll (putTarget mem source) i m target)).2) := by
  induction m generalizing i target with
  | zero => rfl
  | succ m ih =>
    have hat : i + 1 + m = i + (m + 1) := by omega
    have hput : putTarget mem source i target i = mem (u32 (source + i)) := Function.update_self ..
    rw [← Nat.add_assoc, copyStringPage, if_pos (hin i (le_refl i) (by omega))]
    simp only [hput, if_neg (hchar i (le_refl i) (by omega))]
    rw [ih (fun j h1 h2 => hin j (by omega) (by omega)) fun j h1 h2 => hchar j (by omega) (by omega), hat]
    rfl

end Pages

section Rounds

variable {pt : Pagetable} {σ : Type} {put : ℕ → σ → σ} {mem : UserMemory} {t address source size maxLength i n rounds : ℕ}

/-- Where a round can begin: at the first byte, at the start of a page, or at byte 4096. -/
def RoundStart (address i : ℕ) : Prop := i = 0 ∨ u32 (address + i) % PAGE_SIZE = 0 ∨ i = 4096

/-- The byte is mapped, below the last page. -/
def Sound (pt : Pagetable) (vaddr : ℕ) : Prop := Mapped pt vaddr ∧ vaddr < 0xfffff000

/-- A byte of the user segment on a mapped page. -/
def UserByte (pt : Pagetable) (vaddr : ℕ) : Prop := Mapped pt vaddr ∧ vaddr < 0x80000000

theorem UserByte.sound {vaddr : ℕ} (h : UserByte pt vaddr) : Sound pt vaddr := ⟨h.1, h.2.trans (by decide)⟩

theorem Sound.accepted (hw : pt.Wf t) {vaddr : ℕ} (h : Sound pt vaddr) : Accepted pt vaddr := by
  rw [Accepted]
  rcases lookup_cases hw vaddr with ⟨-, hnot⟩ | ⟨frame, hl, -⟩ | ⟨frame, hl, hnot, -⟩
  · exact absurd h.1 hnot
  · rw [hl]
    rfl
  · exact absurd h.1 hnot

theorem Sound.lookup (hw : pt.Wf t) {vaddr : ℕ} (h : Sound pt vaddr) :
    ∃ frame, vmGetVaddrPageOffsets pt vaddr = some (frame, pageStart vaddr) := by
  rcases lookup_cases hw vaddr with ⟨-, hnot⟩ | ⟨frame, hl, -⟩ | ⟨frame, hl, hnot, -⟩
  · exact absurd h.1 hnot
  · exact ⟨frame, hl⟩
  · exact absurd h.1 hnot

/-- Bytes on the page of a sound byte are sound. -/
theorem Sound.page {vaddr vaddr' : ℕ} (h : Sound pt vaddr) (hpage : vaddr' / PAGE_SIZE = vaddr / PAGE_SIZE) :
    Sound pt vaddr' := by
  refine ⟨(mapped_page hpage).2 h.1, ?_⟩
  have hbelow := h.2
  unfold PAGE_SIZE at hpage
  omega

/-- The test of the loops, on the page of byte number `i`. -/
theorem pageTest_iff {j : ℕ} (hbelow : u32 (address + i) < 0xfffff000) (hj : j ≤ 4096) :
    u32 (u32 (address + i) + j) < pageStart (u32 (address + i)) + PAGE_SIZE ↔ j < toPageEnd (u32 (address + i)) := by
  have hsum : u32 (u32 (address + i) + j) = u32 (address + i) + j := Nat.mod_eq_of_lt (by omega)
  have hend := toPageEnd_bounds (u32 (address + i))
  rw [hsum]
  omega

/-- The round copies at least one byte, unless it is at byte 4096. -/
theorem RoundStart.lt (h : RoundStart address i) (hi : i < 4096) : i < toPageEnd (u32 (address + i)) := by
  have hend := toPageEnd_bounds (u32 (address + i))
  rcases h with rfl | haligned | rfl
  · exact hend.1
  · unfold toPageEnd pageStart PAGE_SIZE at *
    omega
  · exact absurd hi (lt_irrefl _)

/-- The next round begins at the end of the page, or at byte 4096. -/
theorem RoundStart.next (h : RoundStart address i) (hbelow : u32 (address + i) < 0xfffff000) :
    RoundStart address (toPageEnd (u32 (address + i))) := by
  rcases h with rfl | haligned | rfl
  · have haligned := (below_page hbelow).2.2
    rw [Nat.zero_add] at haligned
    exact Or.inr (Or.inl haligned)
  · refine Or.inr (Or.inr ?_)
    unfold toPageEnd pageStart PAGE_SIZE at *
    omega
  · by_cases haligned : u32 (address + 4096) % PAGE_SIZE = 0
    · refine Or.inr (Or.inr ?_)
      unfold toPageEnd pageStart PAGE_SIZE at *
      omega
    · refine Or.inr (Or.inl ?_)
      unfold toPageEnd pageStart u32 PAGE_SIZE at *
      omega

/-- **A round** that ends at the end of the page. -/
theorem copyRounds_page (hw : pt.Wf t) (hsound : Sound pt (u32 (address + i)))
    (hlt : i < toPageEnd (u32 (address + i))) (hle : toPageEnd (u32 (address + i)) ≤ size) {s : σ} :
    copyRounds pt put address size (rounds + 1) i s =
      (addrsFrom address i (toPageEnd (u32 (address + i)) - i) ++
          (copyRounds pt put address size rounds (toPageEnd (u32 (address + i)))
            (putAll put i (toPageEnd (u32 (address + i)) - i) s)).1,
        (copyRounds pt put address size rounds (toPageEnd (u32 (address + i)))
          (putAll put i (toPageEnd (u32 (address + i)) - i) s)).2) := by
  obtain ⟨frame, hl⟩ := hsound.lookup hw
  have hend := toPageEnd_bounds (u32 (address + i))
  have hat : i + (toPageEnd (u32 (address + i)) - i) = toPageEnd (u32 (address + i)) := by omega
  have hpage : copyPage put address (u32 (address + i)) (pageStart (u32 (address + i)) + PAGE_SIZE) (size - i) i s =
      (addrsFrom address i (toPageEnd (u32 (address + i)) - i), i + (toPageEnd (u32 (address + i)) - i),
        putAll put i (toPageEnd (u32 (address + i)) - i) s) :=
    copyPage_eq (by omega) (fun j h1 h2 => (pageTest_iff hsound.2 (by omega)).2 (by omega))
      (Or.inr fun h => absurd ((pageTest_iff hsound.2 (by omega)).1 h) (by omega))
  rw [hat] at hpage
  rw [copyRounds, if_pos (by omega), hl]
  simp only [(below_page hsound.2).1, hpage]

theorem copyRounds_done (hi : size ≤ i) (hrounds : 0 < rounds) {s : σ} :
    copyRounds pt put address size rounds i s = ([], s, .ok size) := by
  obtain ⟨k, rfl⟩ : ∃ k, rounds = k + 1 := ⟨rounds - 1, by omega⟩
  rw [copyRounds, if_neg (not_lt.2 hi)]

/-- **The data helpers as far as they should go**: up to the end or up to the first byte that is not accepted. -/
theorem copyRounds_good (hw : pt.Wf t) (hn : n ≤ size) (hfew : n ≤ 4096)
    (hbefore : ∀ k < n, Sound pt (u32 (address + k))) (hend : n = size ∨ ¬ Accepted pt (u32 (address + n))) {s : σ}
    (hi : i ≤ n) (hstart : RoundStart address i) (hrounds : n - i < rounds) :
    copyRounds pt put address size rounds i s =
      (addrsFrom address i (n - i), putAll put i (n - i) s, if n = size then .ok size else .nok) := by
  induction rounds generalizing i s with
  | zero => exact absurd hrounds (Nat.not_lt_zero _)
  | succ rounds ih =>
    rcases Nat.eq_or_lt_of_le hi with rfl | hlt
    · rw [Nat.sub_self]
      by_cases hall : i = size
      · rw [copyRounds_done hall.ge (Nat.succ_pos _), if_pos hall]
        rfl
      · have hnone : vmGetVaddrPageOffsets pt (u32 (address + i)) = none :=
          Option.not_isSome_iff_eq_none.1 (hend.resolve_left hall)
        rw [copyRounds, if_pos (by omega), hnone, if_neg hall]
        rfl
    · have hsound := hbefore i hlt
      have hpos := hstart.lt (by omega)
      by_cases hpage : toPageEnd (u32 (address + i)) ≤ n
      · rw [copyRounds_page hw hsound hpos (hpage.trans hn), ih hpage (hstart.next hsound.2) (by omega)]
        have hat : i + (toPageEnd (u32 (address + i)) - i) = toPageEnd (u32 (address + i)) := by omega
        have hsum : toPageEnd (u32 (address + i)) - i + (n - toPageEnd (u32 (address + i))) = n - i := by omega
        have haddrs := addrsFrom_append address i (toPageEnd (u32 (address + i)) - i)
          (n - toPageEnd (u32 (address + i)))
        have hputs := putAll_append put i (toPageEnd (u32 (address + i)) - i) (n - toPageEnd (u32 (address + i))) s
        rw [hat, hsum] at haddrs hputs
        rw [haddrs, hputs]
      · -- byte `n` would be on the page, so the data ends there
        have hsame := (below_page hsound.2).2.1 n hi (by omega)
        have hall : n = size := hend.resolve_right fun hnot => hnot ((hsound.page hsame).accepted hw)
        obtain ⟨frame, hl⟩ := hsound.lookup hw
        have hle := (toPageEnd_bounds (u32 (address + i))).2.1
        have hat : i + (n - i) = n := by omega
        have hcopy : copyPage put address (u32 (address + i)) (pageStart (u32 (address + i)) + PAGE_SIZE) (size - i) i s =
            (addrsFrom address i (n - i), i + (n - i), putAll put i (n - i) s) :=
          copyPage_eq (by omega) (fun j h1 h2 => (pageTest_iff hsound.2 (by omega)).2 (by omega)) (Or.inl (by omega))
        rw [hat] at hcopy
        rw [copyRounds, if_pos (by omega), hl]
        simp only [(below_page hsound.2).1, hcopy]
        rw [copyRounds_done hall.ge (by omega), List.append_nil, if_pos hall]

/-- A round without a byte is followed by the same round. -/
theorem copyRounds_stuck {frame start : ℕ} (hl : vmGetVaddrPageOffsets pt (u32 (address + i)) = some (frame, start))
    (hi : i < size) (hout : ¬ u32 (u32 (address + i) + i) < u32 (start + PAGE_SIZE)) {s : σ} :
    copyRounds pt put address size rounds i s = ([], s, .hangs (some (u32 (address + i)))) := by
  induction rounds with
  | zero => rfl
  | succ rounds ih =>
    have hpage : copyPage put address (u32 (address + i)) (u32 (start + PAGE_SIZE)) (size - i) i s = ([], i, s) := by
      obtain ⟨left, hleft⟩ : ∃ k, size - i = k + 1 := ⟨size - i - 1, by omega⟩
      rw [hleft, copyPage, if_neg hout]
    rw [copyRounds, if_pos hi, hl]
    simp only [hpage, ih, List.nil_append]

/-- At a byte that is accepted and is not sound, or is byte 4096, a round copies nothing, or the byte itself is
copied although it is not mapped. -/
theorem unsound_lookup (hw : pt.Wf t) (hacc : Accepted pt (u32 (address + i))) (hfew : i ≤ 4096)
    (hbad : ¬ (i < 4096 ∧ Sound pt (u32 (address + i)))) : ∃ frame start,
    vmGetVaddrPageOffsets pt (u32 (address + i)) = some (frame, start) ∧
      (¬ u32 (u32 (address + i) + i) < u32 (start + PAGE_SIZE) ∨ ¬ Mapped pt (u32 (address + i))) := by
  rcases lookup_cases hw (u32 (address + i)) with ⟨hl, -⟩ | ⟨frame, hl, hm⟩ | ⟨frame, hl, hnot, -⟩
  · rw [Accepted, hl] at hacc
    cases hacc
  · refine ⟨frame, _, hl, Or.inl ?_⟩
    by_cases hbelow : u32 (address + i) < 0xfffff000
    · have hi : i = 4096 := by
        by_contra hne
        exact hbad ⟨by omega, hm, hbelow⟩
      rw [(below_page hbelow).1, pageTest_iff hbelow hfew]
      have hend := toPageEnd_bounds (u32 (address + i))
      omega
    · have hzero : u32 (pageStart (u32 (address + i)) + PAGE_SIZE) = 0 := by
        unfold u32 pageStart PAGE_SIZE at *
        omega
      rw [hzero]
      exact Nat.not_lt_zero _
  · exact ⟨frame, _, hl, Or.inr hnot⟩

/-- A page that is followed by a byte which is not sound, or by byte 4096, ends before that byte. -/
theorem toPageEnd_le_bad {j : ℕ} (hsound : Sound pt (u32 (address + i))) (hij : i ≤ j)
    (hbad : ¬ (j < 4096 ∧ Sound pt (u32 (address + j)))) : toPageEnd (u32 (address + i)) ≤ j := by
  by_contra hlt
  have hend := toPageEnd_bounds (u32 (address + i))
  have hsame := (below_page hsound.2).2.1 j hij (by omega)
  exact hbad ⟨by omega, hsound.page hsame⟩

/-- **The data helpers when they go wrong**: they hang or touch a byte that is not mapped. -/
theorem copyRounds_bad (hw : pt.Wf t) {j : ℕ} (hj : j < size) (hfew : j ≤ 4096)
    (hbefore : ∀ k < j, Sound pt (u32 (address + k))) (hacc : Accepted pt (u32 (address + j)))
    (hbad : ¬ (j < 4096 ∧ Sound pt (u32 (address + j)))) (rounds : ℕ) {s : σ} (hi : i ≤ j)
    (hstart : RoundStart address i) :
    (∃ needs, (copyRounds pt put address size rounds i s).2.2 = .hangs needs) ∨
      ∃ a ∈ (copyRounds pt put address size rounds i s).1, ¬ Mapped pt a := by
  induction rounds generalizing i s with
  | zero => exact Or.inl ⟨_, rfl⟩
  | succ rounds ih =>
    rcases Nat.eq_or_lt_of_le hi with rfl | hlt
    · obtain ⟨frame, start, hl, hout | hnot⟩ := unsound_lookup hw hacc hfew hbad
      · rw [copyRounds_stuck hl hj hout]
        exact Or.inl ⟨_, rfl⟩
      · by_cases hin : u32 (u32 (address + i) + i) < u32 (start + PAGE_SIZE)
        · refine Or.inr ⟨u32 (address + i), ?_, hnot⟩
          obtain ⟨left, hleft⟩ : ∃ k, size - i = k + 1 := ⟨size - i - 1, by omega⟩
          rw [copyRounds, if_pos hj, hl]
          simp only [hleft, copyPage, if_pos hin]
          exact List.mem_append_left _ List.mem_cons_self
        · rw [copyRounds_stuck hl hj hin]
          exact Or.inl ⟨_, rfl⟩
    · have hsound := hbefore i hlt
      have hpage := toPageEnd_le_bad hsound hi hbad
      rw [copyRounds_page hw hsound (hstart.lt (by omega)) (by omega)]
      exact (ih hpage (hstart.next hsound.2)).imp_right fun ⟨a, ha, hnot⟩ => ⟨a, List.mem_append_right _ ha, hnot⟩

end Rounds

section Strings

variable {pt : Pagetable} {mem : UserMemory} {t source maxLength i n rounds : ℕ} {target : ℕ → UInt8}

/-- **A round of `read_string_from_vm`** without a zero, that ends at the end of the page. -/
theorem copyStringRounds_page (hw : pt.Wf t) (hsound : Sound pt (u32 (source + i)))
    (hlt : i < toPageEnd (u32 (source + i))) (hle : toPageEnd (u32 (source + i)) ≤ maxLength)
    (hchar : ∀ j, i ≤ j → j < toPageEnd (u32 (source + i)) → mem (u32 (source + j)) ≠ 0) :
    copyStringRounds pt mem source maxLength (rounds + 1) i target =
      (addrsFrom source i (toPageEnd (u32 (source + i)) - i) ++
          (copyStringRounds pt mem source maxLength rounds (toPageEnd (u32 (source + i)))
            (putAll (putTarget mem source) i (toPageEnd (u32 (source + i)) - i) target)).1,
        (copyStringRounds pt mem source maxLength rounds (toPageEnd (u32 (source + i)))
          (putAll (putTarget mem source) i (toPageEnd (u32 (source + i)) - i) target)).2) := by
  obtain ⟨frame, hl⟩ := hsound.lookup hw
  have hend := toPageEnd_bounds (u32 (source + i))
  have hat : i + (toPageEnd (u32 (source + i)) - i) = toPageEnd (u32 (source + i)) := by omega
  have hskip : copyStringPage mem source (u32 (source + i)) (pageStart (u32 (source + i)) + PAGE_SIZE)
      (maxLength - toPageEnd (u32 (source + i)) + (toPageEnd (u32 (source + i)) - i)) i target = _ :=
    copyStringPage_skip (fun j h1 h2 => (pageTest_iff hsound.2 (by omega)).2 (by omega))
      fun j h1 h2 => hchar j h1 (by omega)
  have hout : ¬ u32 (u32 (source + i) + toPageEnd (u32 (source + i))) < pageStart (u32 (source + i)) + PAGE_SIZE :=
    fun h => absurd ((pageTest_iff hsound.2 hend.2.1).1 h) (lt_irrefl _)
  have hleave : ∀ left target', copyStringPage mem source (u32 (source + i))
      (pageStart (u32 (source + i)) + PAGE_SIZE) left (toPageEnd (u32 (source + i))) target' =
        ([], target', .inl (toPageEnd (u32 (source + i)))) := by
    intro left target'
    unfold copyStringPage
    rw [if_neg hout]
  have hleft : maxLength - i = maxLength - toPageEnd (u32 (source + i)) + (toPageEnd (u32 (source + i)) - i) := by
    omega
  rw [copyStringRounds, hl]
  simp only [(below_page hsound.2).1, hleft, hskip, hat, hleave, List.append_nil]

/-- **A round of `read_string_from_vm`** that comes to byte number `n` on its page. -/
theorem copyStringRounds_within (hw : pt.Wf t) (hsound : Sound pt (u32 (source + i))) (hi : i ≤ n)
    (hlt : n < toPageEnd (u32 (source + i))) (hle : n ≤ maxLength)
    (hchar : ∀ j, i ≤ j → j < n → mem (u32 (source + j)) ≠ 0) :
    (n < maxLength → mem (u32 (source + n)) = 0 →
      copyStringRounds pt mem source maxLength (rounds + 1) i target =
        (addrsFrom source i (n + 1 - i), putAll (putTarget mem source) i (n + 1 - i) target, .ok (n + 1))) ∧
    (n = maxLength → copyStringRounds pt mem source maxLength (rounds + 1) i target =
      (addrsFrom source i (n - i), putAll (putTarget mem source) i (n - i) target, .nok)) := by
  obtain ⟨frame, hl⟩ := hsound.lookup hw
  have hend := toPageEnd_bounds (u32 (source + i))
  have hat : i + (n - i) = n := by omega
  have hskip : copyStringPage mem source (u32 (source + i)) (pageStart (u32 (source + i)) + PAGE_SIZE)
      (maxLength - n + (n - i)) i target = _ :=
    copyStringPage_skip (fun j h1 h2 => (pageTest_iff hsound.2 (by omega)).2 (by omega))
      fun j h1 h2 => hchar j h1 (by omega)
  have hin : u32 (u32 (source + i) + n) < pageStart (u32 (source + i)) + PAGE_SIZE :=
    (pageTest_iff hsound.2 (by omega)).2 hlt
  have hleft : maxLength - i = maxLength - n + (n - i) := by omega
  rw [hat] at hskip
  have hround : ∀ as target' r, copyStringPage mem source (u32 (source + i))
      (pageStart (u32 (source + i)) + PAGE_SIZE) (maxLength - n) n (putAll (putTarget mem source) i (n - i) target) =
        (as, target', .inr r) →
      copyStringRounds pt mem source maxLength (rounds + 1) i target =
        (addrsFrom source i (n - i) ++ as, target', r) := by
    intro as target' r hpage
    rw [hpage] at hskip
    rw [copyStringRounds, hl]
    simp only [(below_page hsound.2).1, hleft, hskip]
  refine ⟨fun hmax hzero => ?_, fun hmax => ?_⟩
  · have hlast : n + 1 - i = n - i + 1 := by omega
    have haddrs := addrsFrom_append source i (n - i) 1
    have hputs := putAll_append (putTarget mem source) i (n - i) 1 target
    rw [hat] at haddrs hputs
    rw [hlast, ← haddrs, ← hputs]
    refine hround _ _ _ ?_
    obtain ⟨left, hleft'⟩ : ∃ k, maxLength - n = k + 1 := ⟨maxLength - n - 1, by omega⟩
    rw [hleft']
    unfold copyStringPage
    rw [if_pos hin]
    have hput : putTarget mem source n (putAll (putTarget mem source) i (n - i) target) n = 0 :=
      (Function.update_self ..).trans hzero
    simp only [hput, if_true]
    rfl
  · have h0 : maxLength - n = 0 := by omega
    rw [hround [] _ .nok (by rw [h0, copyStringPage, if_pos hin]), List.append_nil]

/-- **`read_string_from_vm`** finds the end of the string. -/
theorem copyStringRounds_found (hw : pt.Wf t) (hmax : n < maxLength) (hfew : n < 4096)
    (hbefore : ∀ k ≤ n, Sound pt (u32 (source + k))) (hchar : ∀ k < n, mem (u32 (source + k)) ≠ 0)
    (hzero : mem (u32 (source + n)) = 0) (hi : i ≤ n) (hstart : RoundStart source i) (hrounds : n - i < rounds) :
    copyStringRounds pt mem source maxLength rounds i target =
      (addrsFrom source i (n + 1 - i), putAll (putTarget mem source) i (n + 1 - i) target, .ok (n + 1)) := by
  induction rounds generalizing i target with
  | zero => exact absurd hrounds (Nat.not_lt_zero _)
  | succ rounds ih =>
    have hsound := hbefore i hi
    have hpos := hstart.lt (by omega)
    by_cases hpage : toPageEnd (u32 (source + i)) ≤ n
    · rw [copyStringRounds_page hw hsound hpos (by omega) fun j _ h2 => hchar j (by omega),
        ih hpage (hstart.next hsound.2) (by omega)]
      have hat : i + (toPageEnd (u32 (source + i)) - i) = toPageEnd (u32 (source + i)) := by omega
      have hsum : toPageEnd (u32 (source + i)) - i + (n + 1 - toPageEnd (u32 (source + i))) = n + 1 - i := by omega
      have haddrs := addrsFrom_append source i (toPageEnd (u32 (source + i)) - i)
        (n + 1 - toPageEnd (u32 (source + i)))
      have hputs := putAll_append (putTarget mem source) i (toPageEnd (u32 (source + i)) - i)
        (n + 1 - toPageEnd (u32 (source + i))) target
      rw [hat, hsum] at haddrs hputs
      rw [haddrs, hputs]
    · exact (copyStringRounds_within hw hsound hi (not_le.1 hpage) hmax.le fun j _ h2 => hchar j h2).1 hmax hzero

/-- **`read_string_from_vm`** comes to a byte that is not accepted, or to `max_length`. -/
theorem copyStringRounds_none (hw : pt.Wf t) (hmax : n ≤ maxLength) (hfew : n ≤ 4096)
    (hbefore : ∀ k < n, Sound pt (u32 (source + k))) (hchar : ∀ k < n, mem (u32 (source + k)) ≠ 0)
    (hend : Accepted pt (u32 (source + n)) → n = maxLength ∧ Runs pt (u32 (source + n)) ∧
      ¬ (n = 4096 ∧ Mapped pt (u32 (source + n))))
    (hi : i ≤ n) (hstart : RoundStart source i) (hrounds : n - i < rounds) :
    copyStringRounds pt mem source maxLength rounds i target =
      (addrsFrom source i (n - i), putAll (putTarget mem source) i (n - i) target, .nok) := by
  induction rounds generalizing i target with
  | zero => exact absurd hrounds (Nat.not_lt_zero _)
  | succ rounds ih =>
    rcases Nat.eq_or_lt_of_le hi with rfl | hlt
    · rw [Nat.sub_self]
      by_cases hacc : Accepted pt (u32 (source + i))
      · obtain ⟨rfl, ⟨frame, start, hl, hne⟩, hnot⟩ := hend hacc
        have hin : u32 (u32 (source + i) + i) < u32 (start + PAGE_SIZE) := by
          rcases lookup_cases hw (u32 (source + i)) with ⟨hl', -⟩ | ⟨frame', hl', hm⟩ | ⟨frame', hl', -, heven⟩
          · rw [hl'] at hl
            cases hl
          · obtain ⟨-, rfl⟩ := Prod.mk.inj (Option.some.inj (hl'.symm.trans hl))
            have hbelow : u32 (source + i) < 0xfffff000 := by
              have hlt := u32_lt (source + i)
              unfold u32 pageStart PAGE_SIZE at *
              omega
            rw [(below_page hbelow).1, pageTest_iff hbelow hfew]
            refine hstart.lt ?_
            by_contra hge
            exact hnot ⟨by omega, hm⟩
          · obtain ⟨-, rfl⟩ := Prod.mk.inj (Option.some.inj (hl'.symm.trans hl))
            have hlt := u32_lt (source + i)
            unfold u32 pageStart PAGE_SIZE at *
            omega
        have hpage : copyStringPage mem source (u32 (source + i)) (u32 (start + PAGE_SIZE)) (i - i) i target =
            ([], target, .inr .nok) := by
          rw [Nat.sub_self, copyStringPage, if_pos hin]
        rw [copyStringRounds, hl]
        simp only [hpage]
        rfl
      · have hnone : vmGetVaddrPageOffsets pt (u32 (source + i)) = none := Option.not_isSome_iff_eq_none.1 hacc
        rw [copyStringRounds, hnone]
        rfl
    · have hsound := hbefore i hlt
      have hpos := hstart.lt (by omega)
      by_cases hpage : toPageEnd (u32 (source + i)) ≤ n
      · rw [copyStringRounds_page hw hsound hpos (by omega) fun j _ h2 => hchar j (by omega),
          ih hpage (hstart.next hsound.2) (by omega)]
        have hat : i + (toPageEnd (u32 (source + i)) - i) = toPageEnd (u32 (source + i)) := by omega
        have hsum : toPageEnd (u32 (source + i)) - i + (n - toPageEnd (u32 (source + i))) = n - i := by omega
        have haddrs := addrsFrom_append source i (toPageEnd (u32 (source + i)) - i) (n - toPageEnd (u32 (source + i)))
        have hputs := putAll_append (putTarget mem source) i (toPageEnd (u32 (source + i)) - i)
          (n - toPageEnd (u32 (source + i))) target
        rw [hat, hsum] at haddrs hputs
        rw [haddrs, hputs]
      · have hsame := (below_page hsound.2).2.1 n hi (by omega)
        have hall := (hend ((hsound.page hsame).accepted hw)).1
        exact (copyStringRounds_within hw hsound hi (not_le.1 hpage) hmax fun j _ h2 => hchar j h2).2 hall

theorem copyStringRounds_stuck {frame start : ℕ}
    (hl : vmGetVaddrPageOffsets pt (u32 (source + i)) = some (frame, start))
    (hout : ¬ u32 (u32 (source + i) + i) < u32 (start + PAGE_SIZE)) :
    copyStringRounds pt mem source maxLength rounds i target = ([], target, .hangs (some (u32 (source + i)))) := by
  induction rounds with
  | zero => rfl
  | succ rounds ih =>
    have hpage : copyStringPage mem source (u32 (source + i)) (u32 (start + PAGE_SIZE)) (maxLength - i) i target =
        ([], target, .inl i) := by
      unfold copyStringPage
      rw [if_neg hout]
    rw [copyStringRounds, hl]
    simp only [hpage, ih, List.nil_append]

/-- **`read_string_from_vm` when it goes wrong**: it hangs or touches a byte that is not mapped. -/
theorem copyStringRounds_bad (hw : pt.Wf t) {j : ℕ} (hj : j ≤ maxLength) (hfew : j ≤ 4096)
    (hbefore : ∀ k < j, Sound pt (u32 (source + k))) (hchar : ∀ k < j, mem (u32 (source + k)) ≠ 0)
    (hacc : Accepted pt (u32 (source + j)))
    (hbad : (j < maxLength ∧ ¬ (j < 4096 ∧ Sound pt (u32 (source + j)))) ∨
      (j = maxLength ∧ (¬ Runs pt (u32 (source + j)) ∨ j = 4096 ∧ Mapped pt (u32 (source + j)))))
    (rounds : ℕ) (hi : i ≤ j) (hstart : RoundStart source i) :
    (∃ needs, (copyStringRounds pt mem source maxLength rounds i target).2.2 = .hangs needs) ∨
      ∃ a ∈ (copyStringRounds pt mem source maxLength rounds i target).1, ¬ Mapped pt a := by
  have hunsound : ¬ (j < 4096 ∧ Sound pt (u32 (source + j))) := by
    rcases hbad with ⟨-, hnot⟩ | ⟨-, hnot | ⟨h4, -⟩⟩
    · exact hnot
    · rintro ⟨-, hsound⟩
      obtain ⟨frame, hl⟩ := hsound.lookup hw
      refine hnot ⟨frame, _, hl, ?_⟩
      rw [(below_page hsound.2).1]
      exact Nat.succ_ne_zero _
    · exact fun h => absurd h.1 (by omega)
  induction rounds generalizing i target with
  | zero => exact Or.inl ⟨_, rfl⟩
  | succ rounds ih =>
    rcases Nat.eq_or_lt_of_le hi with rfl | hlt
    · obtain ⟨frame, start, hl, hout | hnot⟩ := unsound_lookup hw hacc hfew hunsound
      · rw [copyStringRounds_stuck hl hout]
        exact Or.inl ⟨_, rfl⟩
      · by_cases hin : u32 (u32 (source + i) + i) < u32 (start + PAGE_SIZE)
        · refine Or.inr ⟨u32 (source + i), ?_, hnot⟩
          rcases hbad with ⟨hmax, -⟩ | ⟨-, hruns | ⟨-, hm⟩⟩
          · obtain ⟨left, hleft⟩ : ∃ k, maxLength - i = k + 1 := ⟨maxLength - i - 1, by omega⟩
            rw [copyStringRounds, hl]
            simp only [hleft]
            unfold copyStringPage
            rw [if_pos hin]
            by_cases h0 : putTarget mem source i target i = 0
            · simp only [h0, if_true]
              exact List.mem_cons_self
            · simp only [if_neg h0]
              split
              · rename_i heq
                rw [← (Prod.mk.inj heq).1]
                exact List.mem_cons_self
              · rename_i heq
                rw [← (Prod.mk.inj heq).1]
                exact List.mem_append_left _ List.mem_cons_self
          · refine absurd ⟨frame, start, hl, fun hzero => ?_⟩ hruns
            rw [hzero] at hin
            exact Nat.not_lt_zero _ hin
          · exact absurd hm hnot
        · rw [copyStringRounds_stuck hl hin]
          exact Or.inl ⟨_, rfl⟩
    · have hsound := hbefore i hlt
      have hpage := toPageEnd_le_bad hsound hi hunsound
      rw [copyStringRounds_page hw hsound (hstart.lt (by omega)) (by omega) fun k _ h2 => hchar k (by omega)]
      exact (ih hpage (hstart.next hsound.2)).imp_right fun ⟨a, ha, hnot⟩ => ⟨a, List.mem_append_right _ ha, hnot⟩

end Strings

/-! ## Exactness -/

section Exactness

variable {pt : Pagetable} {σ : Type} {put : ℕ → σ → σ} {mem : UserMemory} {t address source size maxLength n : ℕ}

theorem putAll_target {m i j : ℕ} {target : ℕ → UInt8} : putAll (putTarget mem source) i m target j =
    if i ≤ j ∧ j < i + m then mem (u32 (source + j)) else target j := by
  induction m generalizing i target with
  | zero => rw [if_neg (by omega)]; rfl
  | succ m ih =>
    have hstep : putAll (putTarget mem source) i (m + 1) target =
        putAll (putTarget mem source) (i + 1) m (putTarget mem source i target) := rfl
    rw [hstep, ih]
    by_cases hj : j = i
    · rw [if_neg (by omega), if_pos (by omega), hj]
      exact Function.update_self ..
    · have hiff : (i + 1 ≤ j ∧ j < i + 1 + m) ↔ (i ≤ j ∧ j < i + (m + 1)) := by omega
      have hother : putTarget mem source i target j = target j := Function.update_of_ne hj ..
      simp only [hiff, hother]

/-- The bytes of a buffer in user memory, no longer than a page, are written to different addresses. -/
theorem putAll_virtual {m i : ℕ} {src : ℕ → UInt8} (hm : i + m ≤ 4096) :
    (∀ j, i ≤ j → j < i + m → putAll (putVirtual src address) i m mem (u32 (address + j)) = src j) ∧
      ∀ a, (∀ j, i ≤ j → j < i + m → a ≠ u32 (address + j)) → putAll (putVirtual src address) i m mem a = mem a := by
  induction m generalizing i mem with
  | zero => exact ⟨fun j h1 h2 => by omega, fun a _ => rfl⟩
  | succ m ih =>
    have hstep : putAll (putVirtual src address) i (m + 1) mem =
        putAll (putVirtual src address) (i + 1) m (putVirtual src address i mem) := rfl
    obtain ⟨hin, hout⟩ := @ih (putVirtual src address i mem) (i + 1) (by omega)
    rw [hstep]
    refine ⟨fun j h1 h2 => ?_, fun a ha => ?_⟩
    · by_cases hj : j = i
      · rw [hj, hout _ fun k hk1 hk2 heq => ?_]
        · exact Function.update_self ..
        · unfold u32 at heq
          omega
      · exact hin j (by omega) (by omega)
    · rw [hout a fun j h1 h2 => ha j (by omega) (by omega)]
      exact Function.update_of_ne (ha i (le_refl i) (by omega)) ..

theorem mem_addrsFrom {i m a : ℕ} : a ∈ addrsFrom address i m ↔ ∃ j, i ≤ j ∧ j < i + m ∧ a = u32 (address + j) := by
  rw [addrsFrom, List.mem_map]
  constructor
  · rintro ⟨j, hj, rfl⟩
    have hj := List.mem_range'_1.1 hj
    exact ⟨j, hj.1, hj.2, rfl⟩
  · rintro ⟨j, h1, h2, rfl⟩
    exact ⟨j, List.mem_range'_1.2 ⟨h1, h2⟩, rfl⟩

/-- The first number for which something holds that holds for `n`. -/
theorem exists_first (P : ℕ → Prop) (h : P n) : ∃ k ≤ n, P k ∧ ∀ j < k, ¬ P j := by
  classical
  exact ⟨Nat.find ⟨n, h⟩, Nat.find_min' _ h, Nat.find_spec ⟨n, h⟩, fun j hj => Nat.find_min ⟨n, h⟩ hj⟩

/-- The data helpers, where they work. -/
theorem DataCopyable.exact (hw : pt.Wf t) (h : DataCopyable pt address size) : ∃ n answer,
    (∀ {σ : Type} (put : ℕ → σ → σ) (s : σ), copyRounds pt put address size (size + 1) 0 s =
      (addrsFrom address 0 n, putAll put 0 n s, answer)) ∧
    n ≤ size ∧ n ≤ 4096 ∧ (answer = .ok size → n = size) ∧ DataExact pt address size (addrsFrom address 0 n) answer := by
  obtain ⟨n, hn, hend, hbefore⟩ :=
    exists_first (fun n => n = size ∨ ¬ Accepted pt (u32 (address + n))) (Or.inl rfl : size = size ∨ _)
  have hacc : ∀ k < n, Accepted pt (u32 (address + k)) := fun k hk => by
    by_contra hnot
    exact hbefore k hk (Or.inr hnot)
  have hsound : ∀ k < n, k < 4096 ∧ Sound pt (u32 (address + k)) := fun k hk => by
    obtain ⟨h1, h2, h3⟩ := h k (by omega) fun j hj => hacc j (by omega)
    exact ⟨h1, h2, h3⟩
  have hfew : n ≤ 4096 := by
    by_contra hmore
    exact absurd (hsound 4096 (by omega)).1 (lt_irrefl _)
  refine ⟨n, if n = size then .ok size else .nok, fun put s => ?_, hn, hfew, fun hok => ?_, ?_⟩
  · rw [copyRounds_good hw hn hfew (fun k hk => (hsound k hk).2) hend (Nat.zero_le n) (Or.inl rfl) (by omega), Nat.sub_zero]
  · by_contra hne
    rw [if_neg hne] at hok
    cases hok
  · have hmapped : ∀ a ∈ addrsFrom address 0 n, Mapped pt a := fun a ha => by
      obtain ⟨j, -, hj, rfl⟩ := mem_addrsFrom.1 ha
      exact (hsound j (by omega)).2.1
    by_cases hall : n = size
    · rw [if_pos hall]
      have hevery : ∀ j < size, Mapped pt (u32 (address + j)) := fun j hj => (hsound j (by omega)).2.1
      exact ⟨fun _ hc => (by cases hc), iff_of_true rfl hevery,
        iff_of_false (fun hc => by cases hc) (not_not_intro hevery), hmapped⟩
    · rw [if_neg hall]
      have hnot : ¬ ∀ j < size, Mapped pt (u32 (address + j)) := fun hevery => by
        refine hend.resolve_left hall ?_
        rcases lookup_cases hw (u32 (address + n)) with ⟨-, hno⟩ | ⟨frame, hl, -⟩ | ⟨frame, -, hno, -⟩
        · exact absurd (hevery n (by omega)) hno
        · rw [Accepted, hl]
          rfl
        · exact absurd (hevery n (by omega)) hno
      exact ⟨fun _ hc => (by cases hc), iff_of_false (fun hc => by cases hc) hnot, iff_of_true rfl hnot, hmapped⟩

/-- They do not work elsewhere. -/
theorem DataExact.copyable (hw : pt.Wf t) {rounds : ℕ} {s s' : σ} {touched : List ℕ} {answer : Answer}
    (hcopy : copyRounds pt put address size rounds 0 s = (touched, s', answer))
    (h : DataExact pt address size touched answer) : DataCopyable pt address size := by
  by_contra hno
  simp only [DataCopyable, not_forall] at hno
  obtain ⟨j0, hj0, hacc0, hbad0⟩ := hno
  obtain ⟨j, hj, ⟨hacc, hbad⟩, hbefore⟩ := exists_first (fun j => (∀ k ≤ j, Accepted pt (u32 (address + k))) ∧
    ¬ (j < 4096 ∧ Sound pt (u32 (address + j)))) ⟨hacc0, hbad0⟩
  have hsound : ∀ k < j, k < 4096 ∧ Sound pt (u32 (address + k)) := fun k hk => by
    by_contra hnot
    exact hbefore k hk ⟨fun i hi => hacc i (by omega), hnot⟩
  have hfew : j ≤ 4096 := by
    by_contra hmore
    exact absurd (hsound 4096 (by omega)).1 (lt_irrefl _)
  have hwrong : (∃ needs, (copyRounds pt put address size rounds 0 s).2.2 = .hangs needs) ∨
      ∃ a ∈ (copyRounds pt put address size rounds 0 s).1, ¬ Mapped pt a :=
    copyRounds_bad hw (lt_of_le_of_lt hj hj0) hfew (fun k hk => (hsound k hk).2) (hacc j (le_refl j)) hbad rounds
      (Nat.zero_le j) (Or.inl rfl)
  rw [hcopy] at hwrong
  rcases hwrong with ⟨needs, hhangs⟩ | ⟨a, ha, hnot⟩
  · exact h.returns needs hhangs
  · exact hnot (h.mapped a ha)

/-- **`read_data_from_vm`** is exact where the bytes are copyable. -/
theorem readData_iff (hw : pt.Wf t) : ReadDataExact pt mem source size ↔ DataCopyable pt source size := by
  constructor
  · intro h
    obtain ⟨rounds, touched, target', answer, hcopy, hexact, -, -⟩ := h fun _ => 0
    exact hexact.copyable hw hcopy
  · intro h target
    obtain ⟨n, answer, hcopy, hn, -, hall, hexact⟩ := h.exact hw
    refine ⟨size + 1, _, _, answer, hcopy _ target, hexact, fun hok j hj => ?_, fun j hj => ?_⟩
    · rw [putAll_target, if_pos ⟨Nat.zero_le j, by rw [hall hok]; omega⟩]
    · rw [putAll_target, if_neg (by omega)]

/-- **`write_data_to_vm`** is exact where the bytes are copyable. -/
theorem writeData_iff (hw : pt.Wf t) {src : ℕ → UInt8} :
    WriteDataExact pt src address size ↔ DataCopyable pt address size := by
  constructor
  · intro h
    obtain ⟨rounds, touched, mem', answer, hcopy, hexact, -, -⟩ := h fun _ => 0
    exact hexact.copyable hw hcopy
  · intro h mem
    obtain ⟨n, answer, hcopy, hn, hfew, hall, hexact⟩ := h.exact hw
    obtain ⟨hin, hout⟩ := @putAll_virtual mem address n 0 src (by omega)
    refine ⟨size + 1, _, _, answer, hcopy _ mem, hexact, fun hok j hj => ?_, fun a ha => ?_⟩
    · exact hin j (Nat.zero_le j) (by rw [hall hok]; omega)
    · exact hout a fun j _ hj => ha j (by omega)

/-- The end of a string is where its first NUL is. -/
theorem StringAt.eq_first {len : ℕ} (h : StringAt pt mem source maxLength len)
    (hchar : ∀ k < n, mem (u32 (source + k)) ≠ 0) (hzero : mem (u32 (source + n)) = 0) : len = n := by
  obtain ⟨-, hbefore, hend, -⟩ := h
  rcases Nat.lt_trichotomy len n with hlt | heq | hgt
  · exact absurd hend (hchar len hlt)
  · exact heq
  · exact absurd hzero (hbefore n hgt)

theorem Mapped.accepted (hw : pt.Wf t) {vaddr : ℕ} (h : Mapped pt vaddr) : Accepted pt vaddr := by
  rcases lookup_cases hw vaddr with ⟨-, hno⟩ | ⟨frame, hl, -⟩ | ⟨frame, -, hno, -⟩
  · exact absurd h hno
  · rw [Accepted, hl]
    rfl
  · exact absurd h hno

/-- **`read_string_from_vm`, where it works.** -/
theorem StringCopyable.exact (hw : pt.Wf t) (h : StringCopyable pt mem source maxLength) :
    ReadStringExact pt mem source maxLength := by
  intro target
  obtain ⟨n, hn, hend, hbefore⟩ := exists_first (fun n => n = maxLength ∨ ¬ Accepted pt (u32 (source + n)) ∨
    mem (u32 (source + n)) = 0) (Or.inl rfl : maxLength = maxLength ∨ _)
  have hchar : ∀ k < n, mem (u32 (source + k)) ≠ 0 := fun k hk hzero => hbefore k hk (Or.inr (Or.inr hzero))
  have hacc : ∀ k < n, Accepted pt (u32 (source + k)) := fun k hk => by
    by_contra hnot
    exact hbefore k hk (Or.inr (Or.inl hnot))
  have hsound : ∀ k < n, k < 4096 ∧ Sound pt (u32 (source + k)) := fun k hk => by
    obtain ⟨h1, h2, h3⟩ := (h k (by omega) (fun i hi => hchar i (by omega)) fun i hi => hacc i (by omega)).1 (by omega)
    exact ⟨h1, h2, h3⟩
  have hfew : n ≤ 4096 := by
    by_contra hmore
    exact absurd (hsound 4096 (by omega)).1 (lt_irrefl _)
  have hread : ∀ m, ∀ j < m, putAll (putTarget mem source) 0 m target j = mem (u32 (source + j)) := fun m j hj => by
    rw [putAll_target, if_pos (by omega)]
  have hkeep : ∀ m ≤ maxLength, ∀ j, maxLength ≤ j → putAll (putTarget mem source) 0 m target j = target j :=
    fun m hm j hj => by rw [putAll_target, if_neg (by omega)]
  by_cases hfound : n < maxLength ∧ Accepted pt (u32 (source + n)) ∧ mem (u32 (source + n)) = 0
  · obtain ⟨hlt, haccn, hzero⟩ := hfound
    have hhere := (h n hn hchar fun k hk => by
      rcases Nat.eq_or_lt_of_le hk with rfl | hk
      · exact haccn
      · exact hacc k hk).1 hlt
    have hall : ∀ k ≤ n, Sound pt (u32 (source + k)) := fun k hk => by
      rcases Nat.eq_or_lt_of_le hk with rfl | hk
      · exact hhere.2
      · exact (hsound k hk).2
    have hrun : copyStringRounds pt mem source maxLength (n + 1) 0 target = _ :=
      copyStringRounds_found hw hlt hhere.1 hall hchar hzero (Nat.zero_le n) (Or.inl rfl) (Nat.lt_succ_self n)
    have hstring : StringAt pt mem source maxLength n := ⟨hlt, hchar, hzero, fun k hk => (hall k hk).1⟩
    refine ⟨_, _, _, _, hrun, fun _ hc => (by cases hc), fun m => ?_, ?_, fun m hm => ?_, fun a ha => ?_, ?_⟩
    · constructor
      · intro hm
        cases hm
        exact ⟨n, rfl, hstring⟩
      · rintro ⟨len, rfl, hlen⟩
        rw [hlen.eq_first hchar hzero]
    · exact iff_of_false (fun hc => by cases hc) (not_not_intro ⟨n, hstring⟩)
    · cases hm
      exact hread (n + 1)
    · obtain ⟨j, -, hj, rfl⟩ := mem_addrsFrom.1 ha
      exact (hall j (by omega)).1
    · exact hkeep (n + 1) hlt
  · have hnone : Accepted pt (u32 (source + n)) → n = maxLength ∧ Runs pt (u32 (source + n)) ∧
        ¬ (n = 4096 ∧ Mapped pt (u32 (source + n))) := fun haccn => by
      have hmax : n = maxLength := by
        rcases hend with hmax | hnot | hzero
        · exact hmax
        · exact absurd haccn hnot
        · exact hn.lt_or_eq.resolve_left fun hlt => hfound ⟨hlt, haccn, hzero⟩
      refine ⟨hmax, (h n hn hchar fun k hk => ?_).2 hmax⟩
      rcases Nat.eq_or_lt_of_le hk with rfl | hk
      · exact haccn
      · exact hacc k hk
    have hrun : copyStringRounds pt mem source maxLength (n + 1) 0 target = _ :=
      copyStringRounds_none hw hn hfew (fun k hk => (hsound k hk).2) hchar hnone (Nat.zero_le n) (Or.inl rfl)
        (Nat.lt_succ_self n)
    have hno : ¬ ∃ len, StringAt pt mem source maxLength len := by
      rintro ⟨len, hlen, -, hzero, hmapped⟩
      have hle : n ≤ len := by
        by_contra hlt
        exact hchar len (not_le.1 hlt) hzero
      have hmax := (hnone ((hmapped n hle).accepted hw)).1
      omega
    refine ⟨_, _, _, _, hrun, fun _ hc => (by cases hc), fun m => ?_, iff_of_true rfl hno, fun m hm => ?_,
      fun a ha => ?_, hkeep n hn⟩
    · refine iff_of_false (fun hc => by cases hc) ?_
      rintro ⟨len, -, hlen⟩
      exact hno ⟨len, hlen⟩
    · cases hm
    · obtain ⟨j, -, hj, rfl⟩ := mem_addrsFrom.1 ha
      exact (hsound j (by omega)).2.1

/-- **`read_string_from_vm`** is exact where the string is copyable. -/
theorem readString_iff (hw : pt.Wf t) :
    ReadStringExact pt mem source maxLength ↔ StringCopyable pt mem source maxLength := by
  refine ⟨fun h => ?_, fun h => h.exact hw⟩
  by_contra hno
  simp only [StringCopyable, not_forall] at hno
  obtain ⟨j0, hj0, hchar0, hacc0, hbad0⟩ := hno
  obtain ⟨j, hj, ⟨hchar, hacc, hbad⟩, hbefore⟩ := exists_first (fun j =>
    (∀ k < j, mem (u32 (source + k)) ≠ 0) ∧ (∀ k ≤ j, Accepted pt (u32 (source + k))) ∧
    ¬ ((j < maxLength → j < 4096 ∧ Sound pt (u32 (source + j))) ∧
      (j = maxLength → Runs pt (u32 (source + j)) ∧ ¬ (j = 4096 ∧ Mapped pt (u32 (source + j))))))
    ⟨hchar0, hacc0, hbad0⟩
  have hsound : ∀ k < j, k < 4096 ∧ Sound pt (u32 (source + k)) := fun k hk => by
    by_contra hnot
    exact hbefore k hk ⟨fun i hi => hchar i (by omega), fun i hi => hacc i (by omega), fun hgood => hnot (hgood.1 (by omega))⟩
  have hfew : j ≤ 4096 := by
    by_contra hmore
    exact absurd (hsound 4096 (by omega)).1 (lt_irrefl _)
  have hcase : (j < maxLength ∧ ¬ (j < 4096 ∧ Sound pt (u32 (source + j)))) ∨
      (j = maxLength ∧ (¬ Runs pt (u32 (source + j)) ∨ j = 4096 ∧ Mapped pt (u32 (source + j)))) := by
    by_contra hneither
    refine hbad ⟨fun hlt => ?_, fun heq => ?_⟩
    · by_contra hnot
      exact hneither (Or.inl ⟨hlt, hnot⟩)
    · by_contra hnot
      rw [not_and_or, not_not] at hnot
      exact hneither (Or.inr ⟨heq, hnot⟩)
  obtain ⟨rounds, touched, target', answer, hcopy, hreturns, -, -, -, hmapped, -⟩ := h fun _ => 0
  have hwrong : (∃ needs, (copyStringRounds pt mem source maxLength rounds 0 fun _ => 0).2.2 = .hangs needs) ∨
      ∃ a ∈ (copyStringRounds pt mem source maxLength rounds 0 fun _ => 0).1, ¬ Mapped pt a :=
    copyStringRounds_bad hw (hj.trans hj0) hfew (fun k hk => (hsound k hk).2) hchar (hacc j (le_refl j)) hcase rounds
      (Nat.zero_le j) (Or.inl rfl)
  rw [readStringFromVm] at hcopy
  rw [hcopy] at hwrong
  rcases hwrong with ⟨needs, hhangs⟩ | ⟨a, ha, hnot⟩
  · exact hreturns needs hhangs
  · exact hnot (hmapped a ha)

end Exactness

/-! ## Principal result -/

section Principal

variable {pt0 pt : Pagetable} {ops : List Op} {mem : UserMemory} {source : ℕ → UInt8}

/-- **User copies** with every page table that is built by the operations: the helpers are exact where the
bytes are copyable, and nowhere else. -/
theorem userCopy_exact (hempty : pt0.validCount = 0) (hr : run PagetableMap.step pt0 ops = some pt) (address size : ℕ) :
    (ReadDataExact pt mem address size ↔ DataCopyable pt address size) ∧
      (WriteDataExact pt source address size ↔ DataCopyable pt address size) ∧
      (ReadStringExact pt mem address size ↔ StringCopyable pt mem address size) := by
  have hw := wf_of_run hempty hr
  exact ⟨readData_iff hw, writeData_iff hw, readString_iff hw⟩

/-- The pages 4 and 5 are mapped. -/
def twoPages : List Op := [.map 0x8000 0x4000 true, .map 0x9000 0x5000 true]

theorem twoPages_run : ∃ pt, run PagetableMap.step oldPage twoPages = some pt ∧
    ∀ a, 0x4000 ≤ a → a < 0x6000 → Mapped pt a := by
  have hrun : ∃ pt ∈ run PagetableMap.step oldPage twoPages, (pt.mapping 4).isSome = true ∧ (pt.mapping 5).isSome = true := by
    decide +kernel
  obtain ⟨pt, hr, h4, h5⟩ := hrun
  refine ⟨pt, hr, fun a hlow hhigh => ⟨by omega, ?_⟩⟩
  rcases Nat.lt_or_ge a 0x5000 with hlt | hge
  · have hpage : a / PAGE_SIZE = 4 := by
      unfold PAGE_SIZE
      omega
    rw [hpage]
    exact h4
  · have hpage : a / PAGE_SIZE = 5 := by
      unfold PAGE_SIZE
      omega
    rw [hpage]
    exact h5

/-- Sixteen bytes and a string of thirteen characters across the two pages. -/
theorem userCopy_exact_twoPages : ∃ pt, run PagetableMap.step oldPage twoPages = some pt ∧
    ReadDataExact pt (fun a => if a = 0x5005 then 0 else 1) 0x4ff8 16 ∧ WriteDataExact pt (fun _ => 7) 0x4ff8 16 ∧
    ReadStringExact pt (fun a => if a = 0x5005 then 0 else 1) 0x4ff8 16 := by
  obtain ⟨pt, hr, hmapped⟩ := twoPages_run
  obtain ⟨hread, hwrite, hstring⟩ := userCopy_exact (rfl : oldPage.validCount = 0) hr 0x4ff8 16
  have hsound : ∀ j < 16, j < 4096 ∧ Mapped pt (u32 (0x4ff8 + j)) ∧ u32 (0x4ff8 + j) < 0xfffff000 := fun j hj => by
    have hu : u32 (0x4ff8 + j) = 0x4ff8 + j := by
      unfold u32
      omega
    rw [hu]
    exact ⟨by omega, hmapped _ (by omega) (by omega), by omega⟩
  refine ⟨pt, hr, hread.2 fun j hj _ => hsound j hj, hwrite.2 fun j hj _ => hsound j hj,
    hstring.2 fun j hj hchar _ => ⟨hsound j, fun hall => ?_⟩⟩
  exact absurd (show _ = (0 : UInt8) from rfl) (hchar 13 (by omega))

/-- All of 5000 bytes are mapped, and reading them never ends. -/
theorem readData_hangs : ∃ pt, run PagetableMap.step oldPage twoPages = some pt ∧ (∀ j < 5000, Mapped pt (u32 (0x4000 + j))) ∧
    ¬ ReadDataExact pt (fun _ => 7) 0x4000 5000 := by
  obtain ⟨pt, hr, hmapped⟩ := twoPages_run
  have hw := wf_of_run (rfl : oldPage.validCount = 0) hr
  have hall : ∀ j < 5000, Mapped pt (u32 (0x4000 + j)) := fun j hj => by
    have hu : u32 (0x4000 + j) = 0x4000 + j := by
      unfold u32
      omega
    rw [hu]
    exact hmapped _ (by omega) (by omega)
  refine ⟨pt, hr, hall, fun hexact => ?_⟩
  have hcopy := (readData_iff hw).1 hexact 4096 (by omega) fun k hk => (hall k (by omega)).accepted hw
  exact absurd hcopy.1 (lt_irrefl _)

end Principal

end Buenos.Proc.UserCopy
