import Buenos.Proc.Memory
import Mathlib.Data.Int.ModEq
import Mathlib.Tactic.Ring

/-!
# Whose heap end

`syscall_handle_memlimit` keeps the distance of the heap end from `heap_vaddr` in one static variable
for all processes.

* `Heaps` — the machine, with the movements of the heap ends recorded beside it.
* `memlimitRet` — what a call returns.

Principal result: `memlimit_own`, when `memlimit(NULL)` answers with the heap end of its own process.
-/

namespace Buenos.Proc

open Buenos.Vm Buenos.Transition

variable {rows : ℕ}

/-- What `syscall_handle_memlimit` returns to thread `t`. -/
def memlimitRet (s : Machine rows) (t : TID) (heapEnd : ℕ) : Option ℕ :=
  match s.procs.userlandPid t, s.pagetable t with
  | some p, some pt => (syscallHandleMemlimit heapEnd (s.heapVaddr p) s.offset pt s.pool).map (·.ret)
  | _, _ => none

/-- The machine, and for reasoning only the movements of heap ends by successful calls: `total` since
boot; `moved t`, by the process of thread `t`; and `drift t`, by other processes since the last call of
that process, or since boot if it has made none. -/
structure Heaps (rows : ℕ) where
  machine : Machine rows
  total : ℤ
  moved : TID → ℤ
  drift : TID → ℤ

/-- The record of a successful call: the heap end of the process in slot `p` moves to `heapEnd`. -/
def Heaps.record (s : Heaps rows) (t : TID) (p : PID) (heapEnd : ℕ) : Heaps rows :=
  let d : ℤ := heapEnd - heapNow (s.machine.heapVaddr p) s.machine.offset
  { s with total := s.total + d
           moved := Function.update s.moved t (heapEnd - s.machine.heapVaddr p)
           drift := Function.update (fun t' => s.drift t' + d) t 0 }

/-- The records, as an event changes them. -/
def Heaps.after (s : Heaps rows) : Event rows → Heaps rows
  | .slot t _ => { s with moved := Function.update s.moved t 0, drift := Function.update s.drift t s.total }
  | .memlimit t heapEnd =>
    match s.machine.procs.userlandPid t, memlimitRet s.machine t heapEnd with
    | some p, some (_ + 1) => if heapEnd = 0 then s else s.record t p heapEnd
    | _, _ => s
  | _ => s

def Heaps.boot (rows numPages staticEnd : ℕ) : Heaps rows :=
  ⟨Machine.boot rows numPages staticEnd, 0, fun _ => 0, fun _ => 0⟩

def nextHeaps (s : Heaps rows) (e : Event rows) : Option (Heaps rows) :=
  (next s.machine e).map fun machine => { s.after e with machine := machine }

/-- What a call does to `offset`. -/
theorem syscallHandleMemlimit_offset {heapEnd heapVaddr offset : ℕ} {pt : Pagetable} {pool : Pool}
    {r : MemlimitResult} (h : syscallHandleMemlimit heapEnd heapVaddr offset pt pool = some r) :
    ((heapEnd = 0 ∨ r.ret = 0) ∧ r.offset = offset) ∨
      heapEnd ≠ 0 ∧ r.ret = heapEnd ∧ r.offset = u32 (offset + sub32 heapEnd (heapNow heapVaddr offset)) := by
  unfold syscallHandleMemlimit at h
  simp only at h
  split at h
  · rename_i h0
    cases h
    exact Or.inl ⟨Or.inl h0, rfl⟩
  · rename_i h0
    split at h
    · cases h
      exact Or.inl ⟨Or.inr rfl, rfl⟩
    · split at h
      · split at h
        · cases h
          exact Or.inl ⟨Or.inr rfl, rfl⟩
        · obtain ⟨x, -, rfl⟩ := Option.map_eq_some_iff.1 h
          exact Or.inr ⟨h0, rfl, rfl⟩
      · split at h
        · obtain ⟨x, -, rfl⟩ := Option.map_eq_some_iff.1 h
          exact Or.inr ⟨h0, rfl, rfl⟩
        · cases h
          exact Or.inr ⟨h0, rfl, rfl⟩

theorem u32_modEq (n : ℕ) : (u32 n : ℤ) ≡ n [ZMOD 2 ^ 32] := by
  rw [u32, Int.natCast_mod]
  exact Int.mod_modEq _ _

theorem sub32_modEq (a b : ℕ) : (sub32 a b : ℤ) ≡ a - b [ZMOD 2 ^ 32] := by
  have hlt : b % 2 ^ 32 ≤ 2 ^ 32 := (Nat.mod_lt b (by decide)).le
  rw [sub32, Int.natCast_mod]
  refine (Int.mod_modEq _ _).trans ?_
  rw [Nat.cast_add, Nat.cast_sub hlt, Int.natCast_mod]
  have hb : (b : ℤ) % ((2 ^ 32 : ℕ) : ℤ) ≡ b [ZMOD 2 ^ 32] := Int.mod_modEq _ _
  have h0 : ((2 ^ 32 : ℕ) : ℤ) ≡ 0 [ZMOD 2 ^ 32] := by decide
  calc (a : ℤ) + (((2 ^ 32 : ℕ) : ℤ) - (b : ℤ) % ((2 ^ 32 : ℕ) : ℤ))
      ≡ a + (0 - b) [ZMOD 2 ^ 32] := (h0.sub hb).add_left _
    _ = a - b := by ring

/-- The shared `offset` is what all the calls have moved. -/
structure Shared (s : Heaps rows) : Prop where
  total : s.total ≡ s.machine.offset [ZMOD 2 ^ 32]
  share : ∀ t, s.moved t + s.drift t ≡ s.machine.offset [ZMOD 2 ^ 32]

theorem shared_boot (rows numPages staticEnd : ℕ) : Shared (Heaps.boot rows numPages staticEnd) :=
  ⟨rfl, fun _ => rfl⟩

/-- A successful call. -/
theorem Shared.record {s : Heaps rows} (h : Shared s) {t : TID} {p : PID} {heapEnd : ℕ} {machine : Machine rows}
    (hoff : machine.offset =
      u32 (s.machine.offset + sub32 heapEnd (heapNow (s.machine.heapVaddr p) s.machine.offset))) :
    Shared { s.record t p heapEnd with machine := machine } := by
  have hnow : (heapNow (s.machine.heapVaddr p) s.machine.offset : ℤ) ≡
      s.machine.heapVaddr p + s.machine.offset [ZMOD 2 ^ 32] := by
    rw [heapNow]
    exact_mod_cast u32_modEq (s.machine.heapVaddr p + s.machine.offset)
  have hnew : (machine.offset : ℤ) ≡ s.machine.offset +
      (heapEnd - heapNow (s.machine.heapVaddr p) s.machine.offset) [ZMOD 2 ^ 32] := by
    rw [hoff]
    refine (u32_modEq _).trans ?_
    rw [Nat.cast_add]
    exact (sub32_modEq _ _).add_left _
  refine ⟨?_, fun t' => ?_⟩
  · exact (h.total.add_right _).trans hnew.symm
  · by_cases ht : t' = t
    · simp only [Heaps.record, ht, Function.update_self, add_zero]
      refine Int.ModEq.trans ?_ hnew.symm
      have hsub := (Int.ModEq.refl (s.machine.offset + heapEnd : ℤ)).sub hnow
      calc (heapEnd : ℤ) - s.machine.heapVaddr p
          = s.machine.offset + heapEnd - (s.machine.heapVaddr p + s.machine.offset) := by ring
        _ ≡ s.machine.offset + heapEnd - heapNow (s.machine.heapVaddr p) s.machine.offset [ZMOD 2 ^ 32] :=
          hsub.symm
        _ = _ := by ring
    · simp only [Heaps.record, Function.update_of_ne ht, ← add_assoc]
      exact ((h.share t').add_right _).trans hnew.symm

/-- Every event but `memlimit` leaves `offset` alone. -/
theorem Shared.same {s : Heaps rows} (h : Shared s) {machine : Machine rows}
    (hoff : machine.offset = s.machine.offset) : Shared { s with machine := machine } := by
  refine ⟨?_, fun t => ?_⟩
  · simpa only [hoff] using h.total
  · simpa only [hoff] using h.share t

theorem failStart_offset {s s' : Machine rows} {t : TID} (h : failStart s t = some s') :
    s'.offset = s.offset := by
  unfold failStart at h
  split at h
  · simp only at h
    split at h
    · cases h
      rfl
    · split at h
      · cases h
      · split at h
        · cases h
        · split at h
          · cases h
          · cases h
            rfl
  · cases h

theorem exitProcess_offset {s s' : Machine rows} {t : TID} {retval : ℤ} (h : exitProcess s t retval = some s') :
    s'.offset = s.offset := by
  unfold exitProcess at h
  split at h
  · cases h
  · split at h
    · split at h
      · cases h
      · split at h
        · cases h
        · split at h
          · cases h
          · cases h
            rfl
    · cases h

theorem next_offset {s s' : Machine rows} {e : Event rows} (hpair : Paired s.procs) (hs : next s e = some s')
    (he : ∀ t heapEnd, e ≠ .memlimit t heapEnd) : s'.offset = s.offset := by
  cases next_effect hpair hs with
  | none => rfl
  | created hnone hc => rfl
  | mapped hpt hget hphys hmap => rfl
  | heap hp => rfl
  | dirtied htodo hpt hset => rfl
  | replaced hpt hi => rfl
  | refilled hpt hmiss hfill => rfl
  | limited hp hpt hr => exact absurd rfl (he _ _)
  | failed hwhy hpool hf =>
    have hoff := failStart_offset hf
    exact hoff
  | exited hwhy h => exact exitProcess_offset h

theorem Shared.next {s s' : Heaps rows} {e : Event rows} (h : Shared s) (hpair : Paired s.machine.procs)
    (hs : nextHeaps s e = some s') : Shared s' := by
  obtain ⟨machine, hnext, rfl⟩ := Option.map_eq_some_iff.1 hs
  cases e with
  | slot t elf =>
    have hoff := next_offset hpair hnext (by simp)
    refine ⟨?_, fun t' => ?_⟩
    · simpa only [Heaps.after, hoff] using h.total
    · by_cases ht : t' = t
      · simpa [Heaps.after, ht, hoff] using h.total
      · simpa [Heaps.after, Function.update_of_ne ht, hoff] using h.share t'
  | memlimit t heapEnd =>
    simp only [Proc.next] at hnext
    split at hnext
    · unfold memlimit at hnext
      split at hnext
      · rename_i p pt hp hpt
        obtain ⟨r, hr, rfl⟩ := Option.map_eq_some_iff.1 hnext
        have hret : memlimitRet s.machine t heapEnd = some r.ret := by
          rw [memlimitRet, hp, hpt]
          simp only [hr, Option.map_some]
        rcases syscallHandleMemlimit_offset hr with ⟨h0, hoff⟩ | ⟨h0, hend, hoff⟩
        · have hafter : s.after (.memlimit t heapEnd) = s := by
            rw [Heaps.after, hp, hret]
            rcases h0 with h0 | h0
            · split
              · exact if_pos h0
              · rfl
            · rw [h0]
          rw [hafter]
          exact h.same hoff
        · obtain ⟨n, hn⟩ := Nat.exists_eq_succ_of_ne_zero h0
          have hafter : s.after (.memlimit t heapEnd) = s.record t p heapEnd := by
            rw [Heaps.after, hp, hret, hend, hn]
            exact if_neg (Nat.succ_ne_zero n)
          rw [hafter]
          exact h.record hoff
      · cases hnext
    · cases hnext
  | boot t => exact h.same (next_offset hpair hnext (by simp))
  | execp t child => exact h.same (next_offset hpair hnext (by simp))
  | start t memory => exact h.same (next_offset hpair hnext (by simp))
  | fail t => exact h.same (next_offset hpair hnext (by simp))
  | started t => exact h.same (next_offset hpair hnext (by simp))
  | access t vaddr store random => exact h.same (next_offset hpair hnext (by simp))
  | exit t retval => exact h.same (next_offset hpair hnext (by simp))
  | join t pid => exact h.same (next_offset hpair hnext (by simp))
  | joined t => exact h.same (next_offset hpair hnext (by simp))

/-- **`memlimit(NULL)`** returns `heap_vaddr` plus the process's own movements exactly when the movements
by other processes since its last call cancel out. -/
theorem memlimit_own {numPages staticEnd : ℕ} {as : List (Event rows)} {s : Heaps rows}
    (hr : run nextHeaps (Heaps.boot rows numPages staticEnd) as = some s) {t : TID} {p : PID} {ret : ℕ}
    (hp : s.machine.procs.userlandPid t = some p) (hret : memlimitRet s.machine t 0 = some ret) :
    (ret : ℤ) = (s.machine.heapVaddr p + s.moved t) % 2 ^ 32 ↔ s.drift t % 2 ^ 32 = 0 := by
  have h : Paired s.machine.procs ∧ Shared s := by
    refine run_always (I := fun s : Heaps rows => Paired s.machine.procs ∧ Shared s)
      (fun {s a s'} hi hs => ?_) ⟨paired_init, shared_boot _ _ _⟩ hr
    refine ⟨?_, hi.2.next hi.1 hs⟩
    obtain ⟨machine, hnext, rfl⟩ := Option.map_eq_some_iff.1 hs
    exact next_paired hi.1 hnext
  have heq : ret = heapNow (s.machine.heapVaddr p) s.machine.offset := by
    unfold memlimitRet at hret
    rw [hp] at hret
    split at hret
    · rename_i q pt hq hpt
      cases hq
      simp only [syscallHandleMemlimit, if_true, Option.map_some, Option.some.injEq] at hret
      exact hret.symm
    · cases hret
  have hcast : (ret : ℤ) = (s.machine.heapVaddr p + s.machine.offset) % 2 ^ 32 := by
    rw [heq, heapNow, u32]
    push_cast
    rfl
  rw [hcast]
  have hshare := h.2.share t
  constructor
  · intro hsame
    -- cancel the address and the own movements
    have h1 : (s.machine.heapVaddr p : ℤ) + (s.moved t + s.drift t) ≡
        s.machine.heapVaddr p + s.moved t [ZMOD 2 ^ 32] := (hshare.add_left _).trans hsame
    have h2 : (s.machine.heapVaddr p : ℤ) + s.moved t + s.drift t ≡
        s.machine.heapVaddr p + s.moved t + 0 [ZMOD 2 ^ 32] := by
      rw [add_zero, add_assoc]
      exact h1
    have h3 := Int.ModEq.add_left_cancel' _ h2
    exact h3
  · intro hzero
    have hd : s.drift t ≡ 0 [ZMOD 2 ^ 32] := hzero
    have h1 : s.moved t + s.drift t ≡ s.moved t [ZMOD 2 ^ 32] := by
      simpa using hd.add_left (s.moved t)
    exact ((hshare.symm.trans h1).add_left _)

/-- The first process moves its heap end forth and back before the second one asks. -/
theorem memlimit_own_back : ∃ s, run nextHeaps (Heaps.boot 4 16 2) (startHeap ++ .execp 0 1 :: startProcess 1 ++
      [.memlimit 0 0x10002100, .memlimit 0 0x10002000]) = some s ∧
    s.machine.procs.userlandPid 1 = some 1 ∧ memlimitRet s.machine 1 0 = some 0x10002000 ∧
    ((0x10002000 : ℕ) : ℤ) = (s.machine.heapVaddr 1 + s.moved 1) % 2 ^ 32 ∧ s.drift 1 % 2 ^ 32 = 0 := by
  have hsome : ∃ s ∈ run nextHeaps (Heaps.boot 4 16 2) (startHeap ++ .execp 0 1 :: startProcess 1 ++
      [.memlimit 0 0x10002100, .memlimit 0 0x10002000]), s.machine.procs.userlandPid 1 = some 1 ∧
      memlimitRet s.machine 1 0 = some 0x10002000 ∧ s.drift 1 % 2 ^ 32 = 0 := by decide +kernel
  obtain ⟨s, hs, hp, hret, hd⟩ := hsome
  exact ⟨s, hs, hp, hret, (memlimit_own hs hp hret).2 hd, hd⟩

/-- The first process moves its heap end, and the second one is told that its own has moved. -/
theorem memlimit_foreign : ∃ s, run nextHeaps (Heaps.boot 4 16 2) (startHeap ++ .execp 0 1 :: startProcess 1 ++
      [.memlimit 0 0x10002100]) = some s ∧
    s.machine.procs.userlandPid 1 = some 1 ∧ s.machine.heapVaddr 1 = 0x10002000 ∧ s.moved 1 = 0 ∧
    memlimitRet s.machine 1 0 = some 0x10002100 := by
  have hsome : ∃ s ∈ run nextHeaps (Heaps.boot 4 16 2) (startHeap ++ .execp 0 1 :: startProcess 1 ++
      [.memlimit 0 0x10002100]), s.machine.procs.userlandPid 1 = some 1 ∧
      s.machine.heapVaddr 1 = 0x10002000 ∧ s.moved 1 = 0 ∧
      memlimitRet s.machine 1 0 = some 0x10002100 := by decide +kernel
  exact hsome

end Buenos.Proc
