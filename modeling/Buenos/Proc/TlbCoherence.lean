import Buenos.Proc.Tables

/-!
# The TLB as a cache of the page tables

A refill copies an entry of the page table into a row of the TLB.  What follows it is kept in step by
hand: `exit` invalidates the rows it finds, `process_start` replaces the rows of its read-only pages;
`vm_unmap` and `restore_process_state` do nothing to the TLB, and a refill does not look whether a row
for the pair of pages is there already.

* `RefillsOnce` — refills that find no other row with their pair.
* `Coherent` — every valid half in the TLB is what the page table has.
* `KeepsCache` — the events that take no page away from under a valid half.

Principal results: `tlb_distinct` and `tlb_coherent`, for the runs of such events.
-/

namespace Buenos.Proc

open Buenos.Vm Buenos.Transition

section Rows

variable {rows : ℕ} {s s' : Machine rows} {t : TID} {e : Event rows}

/-! ## One row for a pair -/

/-- A refill finds no row with its pair but the one that it is written to. -/
def RefillsOnce (s : Machine rows) : Event rows → Prop
  | .access t vaddr store random => refills s t vaddr store = true → ∀ r, r ≠ random →
      ∀ e ∈ s.tlb r, e.matches (vpn2Of vaddr) t = false
  | _ => True

instance (s : Machine rows) : ∀ e, Decidable (RefillsOnce s e)
  | .access t vaddr store random => inferInstanceAs (Decidable (refills s t vaddr store = true →
      ∀ r, r ≠ random → ∀ e ∈ s.tlb r, e.matches (vpn2Of vaddr) t = false))
  | .boot _ => isTrue trivial
  | .execp _ _ => isTrue trivial
  | .slot _ _ => isTrue trivial
  | .start _ _ => isTrue trivial
  | .fail _ => isTrue trivial
  | .started _ => isTrue trivial
  | .memlimit _ _ => isTrue trivial
  | .exit _ _ => isTrue trivial
  | .join _ _ => isTrue trivial
  | .joined _ => isTrue trivial

theorem invalidateTlb_pairs (pt : Pagetable) (is : List ℕ) (tlb : Tlb rows) :
    SamePairs tlb (invalidateTlb pt is tlb) := by
  induction is generalizing tlb with
  | nil => exact fun r => rfl
  | cons i is ih => exact (tlbReplaceEntryIfExists_pairs tlb _).trans (ih _)

theorem asid_mod (t : TID) : t.val % 256 = t.val := by
  have hlt : t.val < 32 := t.isLt
  omega

/-- The entry that a refill writes. -/
theorem tryToFill_entry (hw : Tables s) {pt : Pagetable} (hpt : s.pagetable t = some pt) {vaddr : ℕ} {store : Bool}
    {random : Fin rows} {tlb : Tlb rows} (h : tryToFill s.tlb pt vaddr store random = some tlb) :
    ∃ i, i < pt.validCount ∧ (pt.entries i).vpn2 = vpn2Of vaddr ∧ (pt.entries i).asid = t ∧
      tlb = Function.update s.tlb random (some (pt.entries i)) := by
  obtain ⟨-, i, hi, rfl⟩ := tryToFill_some h
  obtain ⟨h1, h2⟩ := findEntry_some hi
  exact ⟨i, h1, h2, ((hw t pt hpt).entryAsid i h1).trans (asid_mod t), rfl⟩

theorem distinct_next (hw : Tables s) (hpair : Paired s.procs) (hd : Distinct s.tlb) (hc : RefillsOnce s e)
    (hs : next s e = some s') : Distinct s'.tlb := by
  cases next_effect hpair hs with
  | none => exact hd
  | created hnone hc => exact hd
  | mapped hpt hget hphys hmap => exact hd
  | heap hp => exact hd
  | dirtied htodo hpt hset => exact hd
  | replaced hpt hi => exact (tlbReplaceEntryIfExists_pairs _ _).distinct hd
  | @refilled t vaddr store random pt tlb hpt hmiss hfill =>
    obtain ⟨i, hi, hv, ha, rfl⟩ := tryToFill_entry hw hpt hfill
    have hrefills : refills s t vaddr store = true := by
      simp [refills, hpt, hmiss, (tryToFill_some hfill).1]
    refine hd.write fun r hr f hf hm => ?_
    have hno := hc hrefills r hr f hf
    rw [← Bool.not_eq_true, matches_iff] at hno
    exact hno ⟨hm.1.trans hv, hm.2.trans ha⟩
  | limited hp hpt hr => exact hd
  | failed hwhy hpool hf =>
    rw [(failStart_tables hf).1]
    exact hd
  | exited hwhy he =>
    obtain ⟨-, pt, pt', -, -, -, htlb⟩ := exitProcess_tables hw he
    rw [htlb]
    exact (invalidateTlb_pairs pt' _ _).distinct hd

/-- **No two rows hold one pair**, as long as no refill adds the second one. -/
theorem tlb_distinct {numPages staticEnd : ℕ} {as : List (Event rows)} {s : Machine rows}
    (hc : Every next RefillsOnce (Machine.boot rows numPages staticEnd) as)
    (hr : run next (Machine.boot rows numPages staticEnd) as = some s) : Distinct s.tlb := by
  have h : Orderly s ∧ Distinct s.tlb := by
    refine run_invariant (I := fun s => Orderly s ∧ Distinct s.tlb) (fun ha hi hs => ?_) ?_ hc hr
    · exact ⟨hi.1.next hs, distinct_next hi.1.tables hi.1.paired hi.2 ha hs⟩
    · refine ⟨orderly_boot _ _ _, fun r r' e e' hr => ?_⟩
      cases hr
  exact h.2

/-! ## Valid halves -/

/-- Every valid half in the TLB is what the page table of its thread has for the page. -/
def Coherent (s : Machine rows) : Prop :=
  ∀ r e odd, s.tlb r = some e → (e.half odd).v = true →
    ∃ (t : TID) (pt : Pagetable), t.val = e.asid ∧ s.pagetable t = some pt ∧
      pt.mapping (2 * e.vpn2 + odd.toNat) = some ⟨(e.half odd).pfn, (e.half odd).d⟩

/-- Does an event unmap a page of its thread, or write-protect one that is marked as `dirty`? -/
def Event.loses (s : Machine rows) (page : ℕ) (dirty : Bool) : Event rows → Bool
  | .memlimit t heapEnd => (s.procs.userlandPid t).any fun p =>
    decide (page ∈ unmappedPages heapEnd (s.heapVaddr p) s.offset)
  | .start t _ =>
    match (s.todo t).head? with
    | some (.setDirty vaddr) => page == vaddr / PAGE_SIZE && dirty
    | _ => false
  | _ => false

/-- No valid half is left behind: a start that fails has none in the TLB, an exit finds the rows of all
of its own, and pages are unmapped or write-protected only when the TLB does not have them. -/
structure KeepsCache (s : Machine rows) (e : Event rows) : Prop where
  fails : e.fails s = true → ∀ r, ∀ x ∈ s.tlb r, x.asid = e.thread → ∀ odd, (x.half odd).v = false
  kills : e.kills s = true → ∀ r, ∀ x ∈ s.tlb r, x.asid = e.thread → ∀ odd, (x.half odd).v = true →
    tlbProbe s.tlb x.vpn2 x.asid = some r
  loses : ∀ r, ∀ x ∈ s.tlb r, x.asid = e.thread → ∀ odd, (x.half odd).v = true →
    e.loses s (2 * x.vpn2 + odd.toNat) (x.half odd).d = false

instance (s : Machine rows) (e : Event rows) : Decidable (KeepsCache s e) :=
  decidable_of_iff
    ((e.fails s = true → ∀ r, ∀ x ∈ s.tlb r, x.asid = e.thread → ∀ odd, (x.half odd).v = false) ∧
      (e.kills s = true → ∀ r, ∀ x ∈ s.tlb r, x.asid = e.thread → ∀ odd, (x.half odd).v = true →
        tlbProbe s.tlb x.vpn2 x.asid = some r) ∧
      ∀ r, ∀ x ∈ s.tlb r, x.asid = e.thread → ∀ odd, (x.half odd).v = true →
        e.loses s (2 * x.vpn2 + odd.toNat) (x.half odd).d = false)
    ⟨fun h => ⟨h.1, h.2.1, h.2.2⟩, fun h => ⟨h.fails, h.kills, h.loses⟩⟩

/-- Changing one page table, where the pages in the TLB keep their mappings. -/
theorem Coherent.set (h : Coherent s) {pt pt' : Option Pagetable} (hpt : s.pagetable t = pt)
    (hs : s'.pagetable = Function.update s.pagetable t pt') (htlb : s'.tlb = s.tlb)
    (hkeep : ∀ r e odd x, s.tlb r = some e → e.asid = t → (e.half odd).v = true → pt = some x →
      x.mapping (2 * e.vpn2 + odd.toNat) = some ⟨(e.half odd).pfn, (e.half odd).d⟩ →
      ∃ x', pt' = some x' ∧
        x'.mapping (2 * e.vpn2 + odd.toNat) = some ⟨(e.half odd).pfn, (e.half odd).d⟩) : Coherent s' := by
  intro r e odd hr hv
  rw [htlb] at hr
  obtain ⟨t', x, ht', hx, hm⟩ := h r e odd hr hv
  by_cases heq : t' = t
  · subst heq
    obtain ⟨x', hx', hm'⟩ := hkeep r e odd x hr ht'.symm hv (hpt.symm.trans hx) hm
    exact ⟨t', x', ht', by rw [hs, Function.update_self, hx'], hm'⟩
  · exact ⟨t', x, ht', by rw [hs, Function.update_of_ne heq, hx], hm⟩

/-- An entry of the page table in a row of the TLB. -/
theorem Coherent.write (h : Coherent s) (hw : Tables s) {pt : Pagetable} (hpt : s.pagetable t = some pt) {i : ℕ}
    (hi : i < pt.validCount) (hs : s'.pagetable = s.pagetable)
    (htlb : ∀ r, s'.tlb r = s.tlb r ∨ s'.tlb r = some (pt.entries i)) : Coherent s' := by
  intro r e odd hr hv
  rw [hs]
  rcases htlb r with hold | hnew
  · exact h r e odd (hold.symm.trans hr) hv
  · rw [hnew] at hr
    cases hr
    refine ⟨t, pt, ((((hw t pt hpt).entryAsid i hi).trans (asid_mod t))).symm, hpt, ?_⟩
    have hdiv : (pt.entries i).vpn2 = (2 * (pt.entries i).vpn2 + odd.toNat) / 2 := by
      cases odd
      · rw [Bool.toNat_false]
        omega
      · rw [Bool.toNat_true]
        omega
    have hodd : decide ((2 * (pt.entries i).vpn2 + odd.toNat) % 2 = 1) = odd := by
      cases odd
      · rw [Bool.toNat_false]
        exact decide_eq_false (by omega)
      · rw [Bool.toNat_true]
        exact decide_eq_true (by omega)
    rw [(hw t pt hpt).mapping_eq hi hdiv, hodd, Half.mapping, if_pos hv]

/-- What `exit` leaves of the rows: the row that a probe for one of the entries finds is dead, and so is
every row that changes. -/
theorem invalidateTlb_row (pt : Pagetable) (is : List ℕ) (tlb : Tlb rows) (r : Fin rows) :
    (invalidateTlb pt is tlb r = tlb r ∨
      ∃ x, invalidateTlb pt is tlb r = some x ∧ ∀ odd, (x.half odd).v = false) ∧
    ((∃ i ∈ is, tlbProbe tlb (pt.entries i).vpn2 (pt.entries i).asid = some r) →
      ∃ x, invalidateTlb pt is tlb r = some x ∧ ∀ odd, (x.half odd).v = false) := by
  have hdead : ∀ (e : TlbEntry) odd, (((e.invalidate false).invalidate true).half odd).v = false := by
    intro e odd
    cases odd <;> rfl
  induction is generalizing tlb with
  | nil => exact ⟨Or.inl rfl, fun h => by obtain ⟨i, hi, -⟩ := h; cases hi⟩
  | cons i is ih =>
    have hpairs := tlbReplaceEntryIfExists_pairs tlb (((pt.entries i).invalidate false).invalidate true)
    obtain ⟨h1, h2⟩ := ih (tlbReplaceEntryIfExists tlb (((pt.entries i).invalidate false).invalidate true))
    constructor
    · rcases h1 with hsame | hnew
      · rcases tlbReplaceEntryIfExists_row tlb (((pt.entries i).invalidate false).invalidate true) r with
          h | ⟨h, -⟩
        · exact Or.inl (hsame.trans h)
        · exact Or.inr ⟨_, hsame.trans h, hdead _⟩
      · exact Or.inr hnew
    · rintro ⟨j, hj, hprobe⟩
      rcases List.mem_cons.1 hj with rfl | hj
      · have hrow : tlbReplaceEntryIfExists tlb (((pt.entries j).invalidate false).invalidate true) r =
            some (((pt.entries j).invalidate false).invalidate true) := by
          rw [tlbReplaceEntryIfExists]
          simp only [invalidate_vpn2, invalidate_asid, hprobe, Function.update_self]
        rcases h1 with hsame | hnew
        · exact ⟨_, hsame.trans hrow, hdead _⟩
        · exact hnew
      · exact h2 ⟨j, hj, by rw [hpairs.probe, hprobe]⟩

theorem coherent_next (hw : Tables s) (hpair : Paired s.procs) (hcoh : Coherent s) (hc : KeepsCache s e)
    (hs : next s e = some s') : Coherent s' := by
  cases next_effect hpair hs with
  | none => exact hcoh
  | created hnone hcr =>
    refine hcoh.set hnone rfl rfl fun r e odd x _ _ _ hx => ?_
    cases hx
  | @mapped t _ pt pt' _ _ _ _ hpt hget hphys hmap =>
    obtain ⟨-, hno, hm⟩ := vmMap_mapping (hw t pt hpt) hmap
    refine hcoh.set hpt rfl rfl fun r e odd x _ _ _ hx hold => ⟨pt', rfl, ?_⟩
    cases hx
    rw [hm, Function.update_of_ne, hold]
    intro heq
    rw [heq, hno] at hold
    cases hold
  | heap hp => exact hcoh
  | @dirtied t _ pt pt' vaddr _ htodo hpt hset =>
    obtain ⟨-, m, hm, hnew⟩ := vmSetDirty_mapping (hw t pt hpt) hset
    refine hcoh.set hpt rfl rfl fun r e odd x hr ha hv hx hold => ⟨pt', rfl, ?_⟩
    cases hx
    have hloses := hc.loses r e hr ha odd hv
    simp only [Event.loses, htodo] at hloses
    rw [hnew]
    by_cases hpage : 2 * e.vpn2 + odd.toNat = vaddr / PAGE_SIZE
    · rw [hpage] at hold ⊢
      rw [hm] at hold
      cases hold
      rw [Function.update_self]
      rw [hpage] at hloses
      simp only [beq_self_eq_true, Bool.true_and] at hloses
      rw [hloses]
    · rw [Function.update_of_ne hpage, hold]
  | @replaced t _ pt i _ hpt hi =>
    refine hcoh.write hw hpt hi rfl fun r => ?_
    rcases tlbReplaceEntryIfExists_row s.tlb (pt.entries i) r with h | ⟨h, -⟩
    · exact Or.inl h
    · exact Or.inr h
  | @refilled t vaddr store random pt tlb hpt hmiss hfill =>
    obtain ⟨i, hi, -, -, rfl⟩ := tryToFill_entry hw hpt hfill
    refine hcoh.write hw hpt hi rfl fun r => ?_
    by_cases hr : r = random
    · exact Or.inr (by rw [hr]; exact Function.update_self _ _ _)
    · exact Or.inl (Function.update_of_ne hr _ _)
  | @limited t heapEnd p pt res hp hpt hr =>
    obtain ⟨-, hm⟩ := syscallHandleMemlimit_mapping (hw t pt hpt) hr
    refine hcoh.set hpt rfl rfl fun r e odd x hrow ha hv hx hold => ⟨res.pagetable, rfl, ?_⟩
    cases hx
    have hloses := hc.loses r e hrow ha odd hv
    simp only [Event.loses, hp, Option.any_some, decide_eq_false_iff_not] at hloses
    exact hm _ _ hloses hold
  | failed hwhy hpool hf =>
    obtain ⟨htlb, hpts⟩ := failStart_tables hf
    refine hcoh.set rfl hpts htlb fun r x odd pt hr ha hv hx _ => ?_
    rcases hwhy with hfails | hnone
    · rw [hc.fails hfails r x hr ha odd] at hv
      cases hv
    · rw [hx] at hnone
      cases hnone
  | exited hwhy he =>
    obtain ⟨hpts, pt, pt', hpt, hw', hfind, htlb⟩ := exitProcess_tables hw he
    intro r x odd hr hv
    rw [htlb] at hr
    obtain ⟨hrow, hfound⟩ := invalidateTlb_row pt' (List.range pt'.validCount) s.tlb r
    rcases hrow with hsame | ⟨y, hy, hdead⟩
    · obtain ⟨t', pt1, ht', hpt1, hm⟩ := hcoh r x odd (hsame.symm.trans hr) hv
      by_cases heq : t' = e.thread
      · -- a valid half of the process that exits is in the row that is found
        have hdiv : (2 * x.vpn2 + odd.toNat) / 2 = x.vpn2 := by
          cases odd
          · rw [Bool.toNat_false]
            omega
          · rw [Bool.toNat_true]
            omega
        have hentry : ∃ i, pt'.findEntry x.vpn2 = some i := by
          rw [heq, hpt] at hpt1
          cases hpt1
          rw [Pagetable.mapping, hdiv] at hm
          rw [hfind]
          split at hm
          · cases hm
          · rename_i i hi
            exact ⟨i, hi⟩
        obtain ⟨i, hi⟩ := hentry
        obtain ⟨h1, h2⟩ := findEntry_some hi
        have hasid : (pt'.entries i).asid = x.asid := by
          rw [hw'.entryAsid i h1, asid_mod, ← heq, ht']
        have hprobe := hc.kills hwhy r x (hsame.symm.trans hr) (by rw [← heq]; exact ht'.symm) odd hv
        obtain ⟨y, hy, hdead⟩ := hfound ⟨i, List.mem_range.2 h1, by rw [h2, hasid]; exact hprobe⟩
        rw [hr] at hy
        cases hy
        rw [hdead odd] at hv
        cases hv
      · exact ⟨t', pt1, ht', by rw [hpts, Function.update_of_ne heq, hpt1], hm⟩
    · rw [hr] at hy
      cases hy
      rw [hdead odd] at hv
      cases hv

/-- **The TLB is coherent**, as long as no event leaves a valid half behind. -/
theorem tlb_coherent {numPages staticEnd : ℕ} {as : List (Event rows)} {s : Machine rows}
    (hc : Every next KeepsCache (Machine.boot rows numPages staticEnd) as)
    (hr : run next (Machine.boot rows numPages staticEnd) as = some s) : Coherent s := by
  have h : Orderly s ∧ Coherent s := by
    refine run_invariant (I := fun s => Orderly s ∧ Coherent s) (fun ha hi hs => ?_) ?_ hc hr
    · exact ⟨hi.1.next hs, coherent_next hi.1.tables hi.1.paired hi.2 ha hs⟩
    · refine ⟨orderly_boot _ _ _, fun r e odd hr => ?_⟩
      cases hr
  exact h.2

end Rows

/-- The heap grows into the odd page of its pair, and the refill hits the row of the even page. -/
theorem tlb_distinct_heap : ∃ s, run next (Machine.boot 4 16 2) (startHeap ++
      [.access 0 0x10002000 true 0, .memlimit 0 0x10003000, .access 0 0x10003000 true 0]) = some s ∧
    Distinct s.tlb := by
  have hsome : (run next (Machine.boot 4 16 2) (startHeap ++ [.access 0 0x10002000 true 0,
      .memlimit 0 0x10003000, .access 0 0x10003000 true 0])).isSome = true := by decide +kernel
  obtain ⟨s, hs⟩ := Option.isSome_iff_exists.1 hsome
  exact ⟨s, hs, tlb_distinct (by decide +kernel) hs⟩

/-- The refill of the odd page hits another row. -/
theorem tlb_duplicate_heap : ∃ s, run next (Machine.boot 4 16 2) (startHeap ++
      [.access 0 0x10002000 true 0, .memlimit 0 0x10003000, .access 0 0x10003000 true 1]) = some s ∧
    ¬ Distinct s.tlb := by
  have hsome : ∃ s ∈ run next (Machine.boot 4 16 2) (startHeap ++ [.access 0 0x10002000 true 0,
      .memlimit 0 0x10003000, .access 0 0x10003000 true 1]), ∃ e ∈ s.tlb 0, ∃ e' ∈ s.tlb 1,
      e.vpn2 = e'.vpn2 ∧ e.asid = e'.asid := by decide +kernel
  obtain ⟨s, hs, e, he, e', he', hv, ha⟩ := hsome
  refine ⟨s, hs, fun hd => ?_⟩
  have h01 := hd 0 1 e e' he he' hv ha
  revert h01
  decide

/-- A heap page is unmapped after its row has been taken by the stack. -/
theorem tlb_coherent_heap : ∃ s, run next (Machine.boot 4 16 2) (startHeap ++
      [.memlimit 0 0x10003000, .access 0 0x10003000 true 0, .access 0 0x7fffe000 true 0,
       .memlimit 0 0x10002000, .access 0 0x10002000 true 1]) = some s ∧ Coherent s := by
  have hsome : (run next (Machine.boot 4 16 2) (startHeap ++ [.memlimit 0 0x10003000,
      .access 0 0x10003000 true 0, .access 0 0x7fffe000 true 0, .memlimit 0 0x10002000,
      .access 0 0x10002000 true 1])).isSome = true := by decide +kernel
  obtain ⟨s, hs⟩ := Option.isSome_iff_exists.1 hsome
  exact ⟨s, hs, tlb_coherent (by decide +kernel) hs⟩

/-- A heap page is unmapped while the TLB has it. -/
theorem tlb_stale_heap : ∃ s, run next (Machine.boot 4 16 2) (startHeap ++
      [.memlimit 0 0x10003000, .access 0 0x10003000 true 0, .memlimit 0 0x10002000]) = some s ∧
    ¬ Coherent s := by
  have hsome : ∃ s ∈ run next (Machine.boot 4 16 2) (startHeap ++ [.memlimit 0 0x10003000,
      .access 0 0x10003000 true 0, .memlimit 0 0x10002000]), ∃ e ∈ s.tlb 0, e.vpn2 = 0x8001 ∧ e.odd.v = true ∧
      ∀ t, ∀ pt ∈ s.pagetable t, pt.mapping 0x10003 = none := by decide +kernel
  obtain ⟨s, hs, e, he, hvpn, hv, hno⟩ := hsome
  refine ⟨s, hs, fun hcoh => ?_⟩
  obtain ⟨t, pt, -, hpt, hm⟩ := hcoh 0 e true he hv
  rw [hvpn, Bool.toNat_true, hno t pt hpt] at hm
  cases hm

end Buenos.Proc
