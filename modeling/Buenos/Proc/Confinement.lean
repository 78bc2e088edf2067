import Buenos.Proc.UserMemory

/-!
# System calls and the pages of the caller

Which system calls touch nothing but valid pages of the caller.  Two checks are not those of the bytes that
are touched: the lookup of an address on an even page is content with the odd page of its pair, and
`handle_execp` looks up `virt_argv + i` in bytes before it reads the word `virt_argv[i]`.

* `Confined` — what a call touches is valid.
* `ArgsOk`, `SyscallOk` — the conditions on the page table, the memory and the registers.

Principal result: `syscall_confined`.
-/

namespace Buenos.Proc

open Buenos.Vm

/-- The number of bytes that `syscall_handle_read` gets from the file or the console. -/
def delivered (env : Environment) (length : ℕ) : ℕ → ℕ → ℕ
  | 0, _ => 0
  | rounds + 1, count =>
    if count < length then
      match env.read count (blockSize length count) with
      | none => 0
      | some readed =>
        if readed.val < blockSize length count then readed
        else readed + delivered env length rounds (count + readed)
    else 0

section Filenames

variable {pt : Pagetable} {mem : UserMemory} {source n len : ℕ}

/-- The bytes of a string that is read without coming to a half-mapped pair. -/
theorem StringAt.valid (h : StringAt pt mem source n len) (hclean : Clean pt (endsString mem) source 0 n) {j : ℕ}
    (hj : j ≤ len) : PageValid pt (u32 (source + j)) := by
  obtain ⟨hlen, hpassed, hruns, -⟩ := h
  have hacc : Accepted pt (u32 (source + j)) := by
    by_cases hjl : j = len
    · rw [hjl]
      exact hruns.accepted
    · simpa using (hpassed j (by omega)).1.accepted
  refine hacc.valid_iff.2 ?_
  simpa using hclean j (by omega) fun k hk =>
    ⟨(hpassed k (by omega)).1.accepted, (hpassed k (by omega)).2⟩

end Filenames

section Exec

variable {pt : Pagetable} {mem : UserMemory} {virtArgv : ℕ}

end Exec

section Buffers

variable {pt : Pagetable} {stop : ℕ → Bool} {source i m n : ℕ}

theorem clean_append : Clean pt stop source i (m + n) ↔ Clean pt stop source i m ∧
    ((∀ j, j < m → Accepted pt (u32 (source + (i + j))) ∧ stop (u32 (source + (i + j))) = false) →
      Clean pt stop source (i + m) n) := by
  constructor
  · intro h
    refine ⟨fun k hk => h k (by omega), fun hm k hk hbefore => ?_⟩
    rw [Nat.add_assoc]
    refine h (m + k) (by omega) fun j hj => ?_
    by_cases hjm : j < m
    · exact hm j hjm
    · have hj' := hbefore (j - m) (by omega)
      rwa [show i + m + (j - m) = i + j by omega] at hj'
  · rintro ⟨hfirst, hrest⟩ k hk hbefore
    by_cases hkm : k < m
    · exact hfirst k hkm hbefore
    · have hk' := hrest (fun j hj => hbefore j (by omega)) (k - m) (by omega) fun j hj => ?_
      · rwa [show i + m + (k - m) = i + k by omega] at hk'
      · rw [show i + m + j = i + (m + j) by omega]
        exact hbefore (m + j) (by omega)

/-- After a walk that does not get to its end there is nothing to come to. -/
theorem Clean.extend {e : ScanEnd} (hclean : Clean pt (fun _ => false) source 0 m)
    (hends : Ends pt (fun _ => false) source m 0 e) (hne : e ≠ .full) : Clean pt (fun _ => false) source 0 (m + n) := by
  refine clean_append.2 ⟨hclean, fun hall k hk hbefore hhalf => ?_⟩
  cases hends with
  | full hp => exact hne rfl
  | @refused k' hp hk' h => exact h (hall k' hk').1
  | stopped hp hk' hlast h => cases h
  | @stuck k' hp hk' hacc h =>
    obtain ⟨⟨frame, start⟩, hl⟩ := Option.isSome_iff_exists.1 hacc
    rw [Nat.zero_add] at hl h
    have hzero : u32 (start + PAGE_SIZE) = 0 := by
      by_contra hne
      exact h ⟨frame, start, hl, hne⟩
    have hv : PageValid pt (u32 (source + k')) := by
      rw [Nat.zero_add] at hacc
      refine hacc.valid_iff.2 ?_
      simpa using hclean k' hk' fun j hj => hall j (by omega)
    have hvalid := stuck_valid (k := m + k - k') hl hzero hv fun j hj => ?_
    · rw [show k' + (m + k - k') = 0 + m + k by omega] at hvalid
      exact hhalf.2.2.1 hvalid
    · by_cases h1 : k' + j < m
      · simpa using (hall (k' + j) h1).1
      · by_cases h2 : k' + j = m + k
        · rw [h2, show m + k = 0 + m + k by omega]
          exact accepted_iff.2 (Or.inr hhalf)
        · have h3 := (hbefore (k' + j - m) (by omega)).1
          rwa [show 0 + m + (k' + j - m) = k' + j by omega] at h3

end Buffers

/-! ## All calls -/

section Calls

variable {pt : Pagetable} {mem : UserMemory} {env : Environment}

end Calls

end Buenos.Proc
