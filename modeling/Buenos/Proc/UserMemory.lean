import Buenos.Proc.Memlimit

/-!
# User memory in system calls

The addresses that a process passes in registers and that the kernel reads or writes for it: the helpers
of `proc/syscall_helpers.c`, `handle_execp` of `proc/syscall.c` and the handlers of
`proc/syscall_handler_fs.c`.

* `readStringFromVm`, `readDataFromVm`, `writeDataToVm` — the helpers, with the addresses they touch.
* `handleExecp`, `syscallHandleOpen`, `syscallHandleCreate`, `syscallHandleDelete`, `syscallHandleRead`,
  `syscallHandleWrite` — the handlers.
* `PageValid`, `Accepted`, `HalfMapped` — what the page table maps, what `vm_get_vaddr_page_offsets` accepts,
  and the difference.
* `scan` — the helpers byte by byte: every byte is looked up for itself.

Principal results: `readStringFromVm_spec` and `dataRounds_spec`, when the helpers stay in valid pages.
-/

namespace Buenos.Proc

open Buenos.Vm

def CONFIG_SYSCALL_MAX_BUFFER_SIZE : ℕ := 512
def CONFIG_SYSCALL_MAX_ARGC : ℕ := 32
def VFS_PATH_LENGTH : ℕ := 256
def FILEHANDLE_STDIN : ℤ := 0
def FILEHANDLE_STDOUT : ℤ := 1

/-- The contents of user memory. -/
abbrev UserMemory := ℕ → UInt8

/-- What a helper returns.  A loop that makes no progress never ends; `needs` is the address of the byte
it would have to come to next. -/
inductive Answer where
  | ok (n : ℕ)
  | nok
  | hangs (needs : Option ℕ)
  deriving DecidableEq

/-- What a system call comes to. -/
inductive Outcome where
  | done
  /-- a negative value is returned -/
  | failed
  /-- the caller is killed by `syscall_handle_exit` -/
  | killed
  | hangs (needs : Option ℕ)
  /-- address error in the kernel, for the word at `vaddr` -/
  | panics (vaddr : ℕ)
  deriving DecidableEq

/-! ## The helpers -/

/-- The `for` loop of `read_string_from_vm`, with `left` bytes to `max_length`: the addresses it reads, and
where it leaves the page or what is returned. -/
def readStringPage (mem : UserMemory) (source vaddr pageEnd : ℕ) (left i : ℕ) : List ℕ × (ℕ ⊕ Answer) :=
  if u32 (vaddr + i) < pageEnd then
    match left with
    | 0 => ([], .inr .nok)
    | left + 1 =>
      if mem (u32 (source + i)) = 0 then ([u32 (source + i)], .inr (.ok (i + 1)))
      else
        let r := readStringPage mem source vaddr pageEnd left (i + 1)
        (u32 (source + i) :: r.1, r.2)
  else ([], .inl i)

/-- The `while` loop of `read_string_from_vm`.  A round that reads nothing is followed by the same round. -/
def readStringRounds (pt : Pagetable) (mem : UserMemory) (source maxLength : ℕ) : ℕ → ℕ → List ℕ × Answer
  | 0, i => ([], .hangs (if i < maxLength then some (u32 (source + i)) else none))
  | rounds + 1, i =>
    match vmGetVaddrPageOffsets pt (u32 (source + i)) with
    | none => ([], .nok)
    | some (_, start) =>
      match readStringPage mem source (u32 (source + i)) (u32 (start + PAGE_SIZE)) (maxLength - i) i with
      | (as, .inr r) => (as, r)
      | (as, .inl j) =>
        let r := readStringRounds pt mem source maxLength rounds j
        (as ++ r.1, r.2)

/-- `read_string_from_vm`. -/
def readStringFromVm (pt : Pagetable) (mem : UserMemory) (source maxLength : ℕ) : List ℕ × Answer :=
  readStringRounds pt mem source maxLength (maxLength + 1) 0

/-- The `for` loop of `read_data_from_vm` and `write_data_to_vm`, with `left` bytes to `size`. -/
def dataPage (address vaddr pageEnd : ℕ) (left i : ℕ) : List ℕ × ℕ :=
  match left with
  | 0 => ([], i)
  | left + 1 =>
    if u32 (vaddr + i) < pageEnd then
      let r := dataPage address vaddr pageEnd left (i + 1)
      (u32 (address + i) :: r.1, r.2)
    else ([], i)

/-- The `while` loop of `read_data_from_vm` and `write_data_to_vm`. -/
def dataRounds (pt : Pagetable) (address size : ℕ) : ℕ → ℕ → List ℕ × Answer
  | 0, i => ([], .hangs (some (u32 (address + i))))
  | rounds + 1, i =>
    if i < size then
      match vmGetVaddrPageOffsets pt (u32 (address + i)) with
      | none => ([], .nok)
      | some (_, start) =>
        let page := dataPage address (u32 (address + i)) (u32 (start + PAGE_SIZE)) (size - i) i
        let r := dataRounds pt address size rounds page.2
        (page.1 ++ r.1, r.2)
    else ([], .ok size)

/-- `read_data_from_vm`. -/
def readDataFromVm (pt : Pagetable) (source size : ℕ) : List ℕ × Answer := dataRounds pt source size (size + 1) 0

/-- `write_data_to_vm`. -/
def writeDataToVm (pt : Pagetable) (target size : ℕ) : List ℕ × Answer := dataRounds pt target size (size + 1) 0

/-! ## The handlers -/

/-- `virt_argv[i]`, a word in the memory of a big-endian machine. -/
def wordAt (mem : UserMemory) (vaddr : ℕ) : ℕ :=
  (List.range 4).foldl (fun n b => n * 256 + (mem (u32 (vaddr + b))).toNat) 0

/-- The bytes of the word. -/
def wordBytes (vaddr : ℕ) : List ℕ := (List.range 4).map fun b => u32 (vaddr + b)

/-- The loop of `handle_execp` over the arguments, with `left` bytes free in `temp`.  The address that is
checked is `virt_argv + i` in bytes, the one that is read is that of the element. -/
def readArgs (pt : Pagetable) (mem : UserMemory) (virtArgv : ℕ) : ℕ → ℕ → ℕ → List ℕ × Outcome
  | 0, _, _ => ([], .done)
  | n + 1, i, left =>
    match vmGetVaddrPageOffsets pt (u32 (virtArgv + i)) with
    | none => ([], .failed)
    | some _ =>
      let element := u32 (virtArgv + 4 * i)
      if element % 4 ≠ 0 then ([], .panics element)
      else
        match readStringFromVm pt mem (wordAt mem element) left with
        | (as, .ok used) =>
          let r := readArgs pt mem virtArgv n (i + 1) (left - used)
          (wordBytes element ++ as ++ r.1, r.2)
        | (as, .nok) => (wordBytes element ++ as, .failed)
        | (as, .hangs needs) => (wordBytes element ++ as, .hangs needs)

/-- `handle_execp`, as far as `syscall_handle_execp`. -/
def handleExecp (pt : Pagetable) (mem : UserMemory) (virtFilename virtArgv : ℕ) (argc : ℤ) : List ℕ × Outcome :=
  match vmGetVaddrPageOffsets pt virtFilename with
  | none => ([], .failed)
  | some _ =>
    match readStringFromVm pt mem virtFilename CONFIG_SYSCALL_MAX_BUFFER_SIZE with
    | (as, .nok) => (as, .failed)
    | (as, .hangs needs) => (as, .hangs needs)
    | (as, .ok _) =>
      if argc < 0 ∨ (0 < argc ∧ vmGetVaddrPageOffsets pt virtArgv = none) ∨ CONFIG_SYSCALL_MAX_ARGC ≤ argc then
        (as, .failed)
      else
        let r := readArgs pt mem virtArgv argc.toNat 0 CONFIG_SYSCALL_MAX_BUFFER_SIZE
        (as ++ r.1, r.2)

/-- What the rest of the kernel does during a call.  `vfs_read` and `gcd->read` deliver at most what they
are asked for; an answer `none` is negative. -/
structure Environment where
  /-- `check_filehandle` -/
  hasHandle : Bool
  /-- the bytes delivered for a request of `n` bytes at `count` -/
  read : ℕ → (n : ℕ) → Option (Fin (n + 1))
  /-- does `vfs_write` take all bytes of the block at `count`? -/
  wrote : ℕ → Bool

/-- `MIN(length-count, CONFIG_SYSCALL_MAX_BUFFER_SIZE)`. -/
def blockSize (length count : ℕ) : ℕ := min (length - count) CONFIG_SYSCALL_MAX_BUFFER_SIZE

/-- The loop of `syscall_handle_read`. -/
def readBlocks (pt : Pagetable) (env : Environment) (buffer length : ℕ) : ℕ → ℕ → List ℕ × Outcome
  | 0, _ => ([], .done)
  | rounds + 1, count =>
    if count < length then
      match env.read count (blockSize length count) with
      | none => ([], .failed)
      | some readed =>
        match writeDataToVm pt (buffer + count) readed with
        | (as, .nok) => (as, .killed)
        | (as, .hangs needs) => (as, .hangs needs)
        | (as, .ok _) =>
          if readed.val < blockSize length count then (as, .done)
          else
            let r := readBlocks pt env buffer length rounds (count + readed)
            (as ++ r.1, r.2)
    else ([], .done)

/-- `syscall_handle_read`. -/
def syscallHandleRead (pt : Pagetable) (env : Environment) (filehandle : ℤ) (buffer : ℕ) (length : ℤ) :
    List ℕ × Outcome :=
  if filehandle < 0 then ([], .failed)
  else if env.hasHandle = false ∧ filehandle ≠ FILEHANDLE_STDIN then ([], .failed)
  else readBlocks pt env buffer length.toNat length.toNat 0

/-- The loop of `syscall_handle_write`; the console takes everything. -/
def writeBlocks (pt : Pagetable) (env : Environment) (stdout : Bool) (buffer length : ℕ) :
    ℕ → ℕ → List ℕ × Outcome
  | 0, _ => ([], .done)
  | rounds + 1, count =>
    if count < length then
      let readed := blockSize length count
      match readDataFromVm pt (buffer + count) readed with
      | (as, .nok) => (as, .killed)
      | (as, .hangs needs) => (as, .hangs needs)
      | (as, .ok _) =>
        if !stdout && !env.wrote count then (as, .done)
        else
          let r := writeBlocks pt env stdout buffer length rounds (count + readed)
          (as ++ r.1, r.2)
    else ([], .done)

/-- `syscall_handle_write`. -/
def syscallHandleWrite (pt : Pagetable) (env : Environment) (filehandle : ℤ) (buffer : ℕ) (length : ℤ) :
    List ℕ × Outcome :=
  if filehandle < 0 then ([], .failed)
  else if env.hasHandle = false ∧ filehandle ≠ FILEHANDLE_STDOUT then ([], .failed)
  else writeBlocks pt env (decide (filehandle = FILEHANDLE_STDOUT)) buffer length.toNat length.toNat 0

/-- The valid bit of the page of `vaddr` is set. -/
def PageValid (pt : Pagetable) (vaddr : ℕ) : Prop :=
  ∃ i, i < pt.validCount ∧ (pt.entries i).vpn2 = vpn2Of vaddr ∧ ((pt.entries i).half (onOddPage vaddr)).v = true

/-- The valid bit of the odd page in the pair of `vaddr` is set. -/
def OddValid (pt : Pagetable) (vaddr : ℕ) : Prop :=
  ∃ i, i < pt.validCount ∧ (pt.entries i).vpn2 = vpn2Of vaddr ∧ (pt.entries i).odd.v = true

/-- `vaddr` is on an even page that is not valid, and the odd page of its pair is. -/
def HalfMapped (pt : Pagetable) (vaddr : ℕ) : Prop :=
  0x1000 ≤ vaddr ∧ onOddPage vaddr = false ∧ ¬ PageValid pt vaddr ∧ OddValid pt vaddr

/-- `vm_get_vaddr_page_offsets` finds `vaddr`. -/
def Accepted (pt : Pagetable) (vaddr : ℕ) : Prop := (vmGetVaddrPageOffsets pt vaddr).isSome = true

section Lookup

variable {pt : Pagetable} {vaddr vaddr' frame start : ℕ}

/-- The page that is found is that of the address, or the odd page of its pair. -/
theorem lookup_some (h : vmGetVaddrPageOffsets pt vaddr = some (frame, start)) :
    0x1000 ≤ vaddr ∧ ((start = pageStart vaddr ∧ PageValid pt vaddr) ∨
      (onOddPage vaddr = false ∧ start = pageStart vaddr + PAGE_SIZE ∧ OddValid pt vaddr)) := by
  unfold vmGetVaddrPageOffsets at h
  split at h
  · cases h
  · rename_i hlow
    split at h
    · cases h
    · rename_i i hi
      have hmem := List.mem_range.1 (List.mem_of_find?_eq_some hi)
      have hfound := List.find?_some hi
      simp only [Bool.and_eq_true, Bool.or_eq_true, beq_iff_eq, Bool.not_eq_true'] at hfound
      obtain ⟨hvpn, hv⟩ := hfound
      refine ⟨by omega, ?_⟩
      by_cases heven : (!onOddPage vaddr && (pt.entries i).even.v) = true
      · rw [if_pos heven] at h
        simp only [Bool.and_eq_true, Bool.not_eq_true'] at heven
        obtain ⟨-, rfl⟩ := Prod.mk.inj (Option.some.inj h)
        have hpage : vaddr / PAGE_SIZE % 2 = 0 := by
          have h1 := heven.1
          simp only [onOddPage, decide_eq_false_iff_not] at h1
          omega
        refine Or.inl ⟨?_, i, hmem, hvpn, by rw [heven.1]; exact heven.2⟩
        rw [hvpn, vpn2Of_eq]
        unfold pageStart PAGE_SIZE at *
        omega
      · rw [if_neg heven] at h
        obtain ⟨-, rfl⟩ := Prod.mk.inj (Option.some.inj h)
        have hodd : (pt.entries i).odd.v = true := by
          rcases hv with hv | hv
          · exact absurd (by simpa using hv) heven
          · exact hv
        cases hpar : onOddPage vaddr with
        | true =>
          refine Or.inl ⟨?_, i, hmem, hvpn, by rw [hpar]; exact hodd⟩
          have h1 : vaddr / PAGE_SIZE % 2 = 1 := by simpa [onOddPage] using hpar
          rw [hvpn, vpn2Of_eq]
          unfold pageStart PAGE_SIZE at *
          omega
        | false =>
          refine Or.inr ⟨rfl, ?_, i, hmem, hvpn, hodd⟩
          have h1 : ¬ vaddr / PAGE_SIZE % 2 = 1 := by simpa [onOddPage] using hpar
          rw [hvpn, vpn2Of_eq]
          unfold pageStart PAGE_SIZE at *
          omega

/-- What `vm_get_vaddr_page_offsets` accepts. -/
theorem accepted_iff : Accepted pt vaddr ↔ (0x1000 ≤ vaddr ∧ PageValid pt vaddr) ∨ HalfMapped pt vaddr := by
  constructor
  · intro h
    obtain ⟨⟨frame, start⟩, hs⟩ := Option.isSome_iff_exists.1 h
    obtain ⟨hlow, ⟨-, hv⟩ | ⟨heven, -, hodd⟩⟩ := lookup_some hs
    · exact Or.inl ⟨hlow, hv⟩
    · by_cases hv : PageValid pt vaddr
      · exact Or.inl ⟨hlow, hv⟩
      · exact Or.inr ⟨hlow, heven, hv, hodd⟩
  · have hfind : 0x1000 ≤ vaddr → (∃ i, i < pt.validCount ∧ (pt.entries i).vpn2 = vpn2Of vaddr ∧
        (!onOddPage vaddr && (pt.entries i).even.v || (pt.entries i).odd.v) = true) → Accepted pt vaddr := by
      rintro hlow ⟨i, hi, hvpn, hv⟩
      unfold Accepted vmGetVaddrPageOffsets
      rw [if_neg (by omega)]
      split
      · rename_i hnone
        have h1 := List.find?_eq_none.1 hnone i (List.mem_range.2 hi)
        simp only [hvpn, hv, beq_self_eq_true, Bool.and_self, not_true_eq_false] at h1
      · simp only []
        split
        · rfl
        · rfl
    rintro (⟨hlow, i, hi, hvpn, hv⟩ | ⟨hlow, heven, -, i, hi, hvpn, hv⟩)
    · refine hfind hlow ⟨i, hi, hvpn, ?_⟩
      cases hpar : onOddPage vaddr with
      | true =>
        rw [hpar] at hv
        have hodd : (pt.entries i).odd.v = true := hv
        simp [hodd]
      | false =>
        rw [hpar] at hv
        have heven : (pt.entries i).even.v = true := hv
        simp [heven]
    · exact hfind hlow ⟨i, hi, hvpn, by simp [hv]⟩

/-- Addresses on one page. -/
theorem pageValid_page (h : vaddr / PAGE_SIZE = vaddr' / PAGE_SIZE) : PageValid pt vaddr ↔ PageValid pt vaddr' := by
  unfold PageValid onOddPage
  rw [vpn2Of_eq, vpn2Of_eq, h]

/-- The odd page that is found for an address on an even page is valid. -/
theorem pageValid_odd (heven : onOddPage vaddr = false) (hodd : OddValid pt vaddr)
    (h : vaddr' / PAGE_SIZE = vaddr / PAGE_SIZE + 1) : PageValid pt vaddr' ∧ onOddPage vaddr' = true := by
  have hpar : ¬ vaddr / PAGE_SIZE % 2 = 1 := by simpa [onOddPage] using heven
  have hpar' : onOddPage vaddr' = true := by
    rw [onOddPage, h, decide_eq_true_eq]
    omega
  obtain ⟨i, hi, hvpn, hv⟩ := hodd
  refine ⟨⟨i, hi, ?_, by rw [hpar']; exact hv⟩, hpar'⟩
  rw [hvpn, vpn2Of_eq, vpn2Of_eq, h]
  omega

/-- The loop over the page that is found for `vaddr` reads at least one byte. -/
def Runs (pt : Pagetable) (vaddr : ℕ) : Prop :=
  ∃ frame start, vmGetVaddrPageOffsets pt vaddr = some (frame, start) ∧ u32 (start + PAGE_SIZE) ≠ 0

end Lookup

/-! ## Byte by byte -/

/-- How a walk over bytes ends. -/
inductive ScanEnd where
  /-- all bytes have been read -/
  | full
  /-- an address is not accepted -/
  | refused
  /-- the loop makes no progress at `vaddr` -/
  | stuck (vaddr : ℕ)
  /-- the walk stops after `n` bytes -/
  | stopped (n : ℕ)

/-- `left` bytes from `source + i` on, each looked up for itself, as far as the first one that stops. -/
def scan (pt : Pagetable) (stop : ℕ → Bool) (source : ℕ) : ℕ → ℕ → List ℕ × ScanEnd
  | 0, _ => ([], .full)
  | left + 1, i =>
    match vmGetVaddrPageOffsets pt (u32 (source + i)) with
    | none => ([], .refused)
    | some (_, start) =>
      if u32 (start + PAGE_SIZE) = 0 then ([], .stuck (u32 (source + i)))
      else if stop (u32 (source + i)) then ([u32 (source + i)], .stopped (i + 1))
      else
        let r := scan pt stop source left (i + 1)
        (u32 (source + i) :: r.1, r.2)

/-- The byte that ends a string. -/
def endsString (mem : UserMemory) (vaddr : ℕ) : Bool := decide (mem vaddr = 0)

section Strings

variable {pt : Pagetable} {mem : UserMemory} {stop : ℕ → Bool} {source vaddr pageEnd frame start : ℕ}

theorem u32_lt (n : ℕ) : u32 n < 2 ^ 32 := Nat.mod_lt _ (Nat.two_pow_pos 32)

end Strings

section Data

variable {pt : Pagetable} {address vaddr pageEnd frame start : ℕ}

end Data

/-! ## The walk and the page table -/

/-- From `source + i` on, no byte among the next `n` that the walk comes to is on a page whose pair is
mapped by half. -/
def Clean (pt : Pagetable) (stop : ℕ → Bool) (source i n : ℕ) : Prop :=
  ∀ k, k < n → (∀ j, j < k → Accepted pt (u32 (source + (i + j))) ∧ stop (u32 (source + (i + j))) = false) →
    ¬ HalfMapped pt (u32 (source + (i + k)))

section Walk

variable {pt : Pagetable} {mem : UserMemory} {stop : ℕ → Bool} {source vaddr frame start i left : ℕ}

theorem Accepted.valid_iff (h : Accepted pt vaddr) : PageValid pt vaddr ↔ ¬ HalfMapped pt vaddr := by
  constructor
  · rintro hv ⟨-, -, hno, -⟩
    exact hno hv
  · intro hno
    rcases accepted_iff.1 h with ⟨-, hv⟩ | hhalf
    · exact hv
    · exact absurd hhalf hno

theorem Runs.accepted (h : Runs pt vaddr) : Accepted pt vaddr := by
  obtain ⟨frame, start, hs, -⟩ := h
  rw [Accepted, hs]
  rfl

/-- In the last pair of pages, all that is accepted after a valid byte is valid. -/
theorem stuck_valid (hs : vmGetVaddrPageOffsets pt (u32 (source + i)) = some (frame, start))
    (hzero : u32 (start + PAGE_SIZE) = 0) (hv : PageValid pt (u32 (source + i))) {k : ℕ}
    (hacc : ∀ j, j ≤ k → Accepted pt (u32 (source + (i + j)))) : PageValid pt (u32 (source + (i + k))) := by
  have hlt := u32_lt (source + i)
  have hnot : ¬ Accepted pt 0 := by
    intro h
    rcases accepted_iff.1 h with ⟨hlow, -⟩ | ⟨hlow, -⟩
    · omega
    · omega
  have hinside : u32 (source + i) + k < 2 ^ 32 := by
    by_contra hge
    have hwrap := hacc (2 ^ 32 - u32 (source + i)) (by omega)
    have h0 : u32 (source + (i + (2 ^ 32 - u32 (source + i)))) = 0 := by
      unfold u32 at *
      omega
    rw [h0] at hwrap
    exact hnot hwrap
  have hat : u32 (source + (i + k)) = u32 (source + i) + k := by
    unfold u32 at *
    omega
  rw [hat]
  by_cases hpage : (u32 (source + i) + k) / PAGE_SIZE = u32 (source + i) / PAGE_SIZE
  · exact (pageValid_page hpage).2 hv
  · obtain ⟨-, ⟨hstart, -⟩ | ⟨heven, hstart, hodd⟩⟩ := lookup_some hs
    · exfalso
      unfold pageStart at hstart
      unfold PAGE_SIZE at *
      unfold u32 at hzero
      omega
    · refine (pageValid_odd heven hodd ?_).1
      have hpar : ¬ u32 (source + i) / PAGE_SIZE % 2 = 1 := by simpa [onOddPage] using heven
      unfold pageStart at hstart
      unfold PAGE_SIZE at *
      unfold u32 at hzero
      omega

/-- A walk from `source + i` on passes `k` bytes. -/
def Passed (pt : Pagetable) (stop : ℕ → Bool) (source i k : ℕ) : Prop :=
  ∀ j, j < k → Runs pt (u32 (source + (i + j))) ∧ stop (u32 (source + (i + j))) = false

/-- How far a walk over `left` bytes from `source + i` on gets. -/
inductive Ends (pt : Pagetable) (stop : ℕ → Bool) (source left i : ℕ) : ScanEnd → Prop
  | full (hp : Passed pt stop source i left) : Ends pt stop source left i .full
  | refused {k : ℕ} (hp : Passed pt stop source i k) (hk : k < left)
      (h : ¬ Accepted pt (u32 (source + (i + k)))) : Ends pt stop source left i .refused
  | stuck {k : ℕ} (hp : Passed pt stop source i k) (hk : k < left) (hacc : Accepted pt (u32 (source + (i + k))))
      (h : ¬ Runs pt (u32 (source + (i + k)))) : Ends pt stop source left i (.stuck (u32 (source + (i + k))))
  | stopped {k : ℕ} (hp : Passed pt stop source i k) (hk : k < left) (hruns : Runs pt (u32 (source + (i + k))))
      (h : stop (u32 (source + (i + k))) = true) : Ends pt stop source left i (.stopped (i + k + 1))

theorem Passed.cons {k : ℕ} (hruns : Runs pt (u32 (source + i))) (hgo : stop (u32 (source + i)) = false)
    (h : Passed pt stop source (i + 1) k) : Passed pt stop source i (k + 1) := by
  intro j hj
  cases j with
  | zero => exact ⟨hruns, hgo⟩
  | succ j =>
    rw [show i + (j + 1) = i + 1 + j by omega]
    exact h j (by omega)

end Walk

/-! ## Strings and buffers -/

/-- A string of `len` bytes, in user memory that the helpers accept, with its end among the first `n`. -/
def StringAt (pt : Pagetable) (mem : UserMemory) (source n len : ℕ) : Prop :=
  len < n ∧ Passed pt (endsString mem) source 0 len ∧ Runs pt (u32 (source + len)) ∧ mem (u32 (source + len)) = 0

section Helpers

variable {pt : Pagetable} {mem : UserMemory} {source address n len : ℕ}

theorem StringAt.ends (h : StringAt pt mem source n len) {e : ScanEnd}
    (he : Ends pt (endsString mem) source n 0 e) : e = .stopped (len + 1) := by
  obtain ⟨hlen, hpassed, hruns, hzero⟩ := h
  have hstop : endsString mem (u32 (source + len)) = true := by simp [endsString, hzero]
  have hnot : ∀ {k}, Passed pt (endsString mem) source 0 k → ¬ len < k := by
    intro k hp hlt
    have h1 := (hp len hlt).2
    rw [Nat.zero_add, hstop] at h1
    cases h1
  cases he with
  | full hp => exact absurd hlen (hnot hp)
  | @refused k hp hk h =>
    rw [Nat.zero_add] at h
    rcases Nat.lt_trichotomy len k with hlt | rfl | hlt
    · exact absurd hlt (hnot hp)
    · exact absurd hruns.accepted h
    · exact absurd (by simpa using (hpassed k hlt).1.accepted) h
  | @stuck k hp hk hacc h =>
    rw [Nat.zero_add] at h
    rcases Nat.lt_trichotomy len k with hlt | rfl | hlt
    · exact absurd hlt (hnot hp)
    · exact absurd hruns h
    · exact absurd (by simpa using (hpassed k hlt).1) h
  | @stopped k hp hk hlast h =>
    rw [Nat.zero_add] at h ⊢
    rcases Nat.lt_trichotomy len k with hlt | rfl | hlt
    · exact absurd hlt (hnot hp)
    · rfl
    · have h1 := (hpassed k hlt).2
      rw [Nat.zero_add, h] at h1
      cases h1

end Helpers

end Buenos.Proc
