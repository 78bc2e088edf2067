import Buenos.Lib.Libc
import Buenos.Proc.Frames
import Buenos.Proc.TlbCoherence
import Buenos.Vm.Translation

/-!
# The memory of a process is its own

The processes of `Buenos.Proc.Memory` with the physical memory that their accesses go to through the TLB.  What a
process sees at an address is the byte at the place that its page table gives.

* `Computer`, `Occurrence`, `Computer.step` — the processes and the memory, and what happens.
* `Computer.seen` — what the processes see.
* `Computer.label` — what an occurrence is for private memories.
* `Private` — the invariant: the frames have one owner each, and the TLB has what the page tables have.

Principal results: `Private.step`, one step, and `processes_private`, every run.
-/

namespace Buenos.Proc

open Buenos.Vm Buenos.Transition AddressSpace

/-! ## The processes and the memory -/

structure Computer (rows : ℕ) where
  machine : Machine rows
  memory : Memory

/-- What happens next. -/
inductive Occurrence (rows : ℕ) where
  /-- an event, in which a store is one of the byte `value` -/
  | event (e : Event rows) (value : UInt8)
  /-- the kernel stores a byte in its own memory or in a page table -/
  | kernel (place : ℕ) (value : UInt8)

section Step

variable {rows : ℕ}

/-- Does the frame belong to the kernel, or to a page table? -/
def Machine.kernelFrame (s : Machine rows) (f : ℕ) : Bool :=
  decide (f < s.pool.staticEnd) ||
    decide (∃ t, ∃ pt ∈ s.pagetable t, pt.addr / PAGE_SIZE = f)

/-- The place that an access goes to. -/
def Event.place (s : Machine rows) : Event rows → Option ℕ
  | .access t vaddr store _ => (s.pagetable t).bind fun pt => tlbPlace s.tlb (pt.asid % 256) vaddr store
  | _ => none

def Event.isStore : Event rows → Bool
  | .access _ _ store _ => store
  | _ => false

/-- The memory after an event. -/
def Event.memory (s : Machine rows) (e : Event rows) (value : UInt8) (mem : Memory) : Memory :=
  match e.place s with
  | none => mem
  | some p => if e.isStore then Function.update mem p value else mem

def Computer.step (c : Computer rows) : Occurrence rows → Option (Computer rows)
  | .event e value => (next c.machine e).map fun machine => ⟨machine, e.memory c.machine value c.memory⟩
  | .kernel place value =>
    if c.machine.kernelFrame (place / PAGE_SIZE) then some { c with memory := Function.update c.memory place value }
    else none

/-- A computer that has booted, with whatever is in its memory. -/
def Computer.boot (rows numPages staticEnd : ℕ) (memory : Memory) : Computer rows :=
  ⟨Machine.boot rows numPages staticEnd, memory⟩

/-! ## What the processes see -/

/-- The place that belongs to an address of a thread. -/
def Machine.place (s : Machine rows) (t : TID) (vaddr : ℕ) : Option ℕ :=
  (s.pagetable t).bind fun pt => physOf pt vaddr

/-- **What a process sees** at an address. -/
def Computer.seen (c : Computer rows) (t : TID) : ℕ → Option UInt8 := view (c.machine.place t) c.memory

/-- Can the page go away from the thread of an event? -/
def Event.takes (s : Machine rows) (e : Event rows) (page : ℕ) : Bool :=
  e.fails s || e.kills s || e.loses s page false

/-- **What an occurrence is** for private memories: a read, a write, or a change of the pages of a thread. -/
def Computer.label (c : Computer rows) : Occurrence rows → Label TID ℕ UInt8
  | .kernel _ _ => .silent
  | .event e value =>
    match e, e.place c.machine with
    | .access t vaddr store _, some p => if store then .writes t vaddr value else .reads t vaddr (c.memory p)
    | e, _ => .remaps e.thread fun vaddr => e.takes c.machine (vaddr / PAGE_SIZE) = true

/-- What happens in a run. -/
def Computer.labels (c : Computer rows) : List (Occurrence rows) → List (Label TID ℕ UInt8)
  | [] => []
  | o :: os => c.label o :: match c.step o with
    | none => []
    | some c' => c'.labels os

/-- The pages that are mapped and unmapped are those that are meant, and the TLB is kept in step. -/
def KeepsPages (c : Computer rows) : Occurrence rows → Prop
  | .event e _ => KeepsFrames c.machine e ∧ KeepsCache c.machine e
  | .kernel _ _ => True

instance (c : Computer rows) : ∀ o, Decidable (KeepsPages c o)
  | .event e _ => inferInstanceAs (Decidable (KeepsFrames c.machine e ∧ KeepsCache c.machine e))
  | .kernel _ _ => isTrue trivial

end Step

/-! ## One step -/

section Private

variable {rows : ℕ} {s s' : Machine rows} {c c' : Computer rows} {e : Event rows} {o : Occurrence rows} {t : TID}
  {pt pt' : Pagetable} {vaddr p : ℕ}

/-- **The invariant.** -/
structure Private (s : Machine rows) : Prop where
  orderly : Orderly s
  owners : Frames (frames s.pagetable) s.pool
  coherent : Coherent s

theorem Machine.place_some (hpt : s.pagetable t = some pt) : s.place t vaddr = physOf pt vaddr := by
  rw [Machine.place, hpt, Option.bind_some]

/-- The page of an address owns the frame of its place. -/
theorem Machine.place_owner (h : s.place t vaddr = some p) :
    frames s.pagetable (.page t (vaddr / PAGE_SIZE)) = some (p / PAGE_SIZE) := by
  obtain ⟨pt, hpt, hp⟩ := Option.bind_eq_some_iff.1 h
  rw [frames, hpt, Option.bind_some]
  exact (physOf_eq_some.1 hp).2

/-- **The processes have different places.** -/
theorem Private.separate (h : Private s) : Separate s.place := by
  intro t t' vaddr vaddr' p hp hp'
  have hsame := h.owners.once _ _ _ (Machine.place_owner hp) (Machine.place_owner hp')
  obtain ⟨rfl, hpage⟩ := Owner.page.inj hsame
  obtain ⟨pt, hpt, hphys⟩ := Option.bind_eq_some_iff.1 hp
  rw [Machine.place_some hpt] at hp'
  exact ⟨rfl, physOf_same hphys hp' fun _ _ => hpage⟩

/-- A frame of the kernel or of a page table is no place of a process. -/
theorem Private.kernel (h : Private s) (hk : s.kernelFrame (p / PAGE_SIZE) = true) (t : TID) (vaddr : ℕ) :
    s.place t vaddr ≠ some p := by
  intro hp
  have howner := Machine.place_owner hp
  rw [Machine.kernelFrame, Bool.or_eq_true, decide_eq_true_iff, decide_eq_true_iff] at hk
  rcases hk with hlow | ⟨t', pt, hpt, haddr⟩
  · exact absurd (h.owners.owned _ _ howner).1 (not_le.2 hlow)
  · have htable : frames s.pagetable (.table t') = some (p / PAGE_SIZE) := by
      rw [frames, Option.mem_def.1 hpt, Option.map_some, haddr]
    cases h.owners.once _ _ _ howner htable

/-- **An access goes to the place of its address.** -/
theorem Private.place (h : Private s) {store : Bool} {random : Fin rows}
    (hp : (Event.access t vaddr store random).place s = some p) : s.place t vaddr = some p := by
  obtain ⟨pt, hpt, hplace⟩ := Option.bind_eq_some_iff.1 hp
  obtain ⟨r, e, hr, hv, ha, hvalid, rfl⟩ := tlbPlace_row hplace
  obtain ⟨t', pt', ht', hpt', hm⟩ := h.coherent r e (onOddPage vaddr) hr hvalid
  have htt' : t' = t := by
    rw [ha, (h.orderly.tables t pt hpt).asid, asid_mod] at ht'
    exact Fin.ext ht'
  subst htt'
  have hpage : 2 * e.vpn2 + (onOddPage vaddr).toNat = vaddr / PAGE_SIZE := by
    rw [hv, vpn2Of_eq, onOddPage]
    rcases Nat.mod_two_eq_zero_or_one (vaddr / PAGE_SIZE) with hodd | hodd
    · simp only [hodd, Nat.zero_ne_one, decide_false, Bool.toNat_false]
      omega
    · simp only [hodd, decide_true, Bool.toNat_true]
      omega
  rw [hpage] at hm
  rw [Machine.place_some hpt', physOf, hm, Option.map_some]

/-- **The page tables after an event**: those of the other threads stay, and so do the frames of the pages that are
not taken from its own. -/
theorem Private.pages (h : Private s) (hs : next s e = some s') :
    (∀ t, t ≠ e.thread → s'.pagetable t = s.pagetable t) ∧
      ∀ page f, e.takes s page = false → frames s.pagetable (.page e.thread page) = some f →
        frames s'.pagetable (.page e.thread page) = some f := by
  have hw := h.orderly.tables
  have hset : ∀ {pt'}, (∀ t, t ≠ e.thread → Function.update s.pagetable e.thread pt' t = s.pagetable t) :=
    fun t ht => Function.update_of_ne ht _ _
  cases next_effect h.orderly.paired hs with
  | none => exact ⟨fun _ _ => rfl, fun _ _ _ hf => hf⟩
  | created hnone hcr =>
    refine ⟨fun t ht => hset t ht, fun page f _ hf => ?_⟩
    simp only [Event.thread, frames, hnone, Option.bind_none] at hf
    cases hf
  | @mapped t _ pt pt' _ _ _ _ hpt hget hphys hmap =>
    obtain ⟨-, hno, hm⟩ := vmMap_mapping (hw t pt hpt) hmap
    refine ⟨fun t ht => hset t ht, fun page f _ hf => ?_⟩
    simp only [Event.thread, frames, hpt, Option.bind_some] at hf
    simp only [Event.thread, frames, Function.update_self, Option.bind_some, hm]
    rw [Function.update_of_ne, hf]
    rintro rfl
    rw [hno] at hf
    cases hf
  | heap hp => exact ⟨fun _ _ => rfl, fun _ _ _ hf => hf⟩
  | @dirtied t _ pt pt' vaddr _ htodo hpt hdirty =>
    obtain ⟨-, m, hm, hnew⟩ := vmSetDirty_mapping (hw t pt hpt) hdirty
    refine ⟨fun t ht => hset t ht, fun page f _ hf => ?_⟩
    simp only [Event.thread, frames, hpt, Option.bind_some] at hf
    simp only [Event.thread, frames, Function.update_self, Option.bind_some, hnew]
    by_cases hp : page = vaddr / PAGE_SIZE
    · rw [hp, hm] at hf
      rw [hp, Function.update_self, ← hf, Option.map_some, Option.map_some]
    · rw [Function.update_of_ne hp, hf]
  | replaced hpt hi => exact ⟨fun _ _ => rfl, fun _ _ _ hf => hf⟩
  | refilled hpt hmiss hfill => exact ⟨fun _ _ => rfl, fun _ _ _ hf => hf⟩
  | @limited t heapEnd q pt r hq hpt hr =>
    obtain ⟨-, hm⟩ := syscallHandleMemlimit_mapping (hw t pt hpt) hr
    refine ⟨fun t ht => hset t ht, fun page f htakes hf => ?_⟩
    simp only [Event.takes, Event.loses, hq, Option.any_some, Bool.or_eq_false_iff, decide_eq_false_iff_not] at htakes
    simp only [Event.thread, frames, hpt, Option.bind_some] at hf
    obtain ⟨m, hpage, rfl⟩ := Option.map_eq_some_iff.1 hf
    simp only [Event.thread, frames, Function.update_self, Option.bind_some, hm page m htakes.2 hpage, Option.map_some]
  | failed hwhy hpool hf =>
    have hpts : s'.pagetable = Function.update s.pagetable e.thread none := (failStart_tables hf).2
    rw [hpts]
    refine ⟨fun t ht => hset t ht, fun page f htakes hf => ?_⟩
    simp only [Event.takes, Bool.or_eq_false_iff] at htakes
    rcases hwhy with hfails | hnone
    · rw [htakes.1.1] at hfails
      cases hfails
    · simp only [frames, hnone, Option.bind_none] at hf
      cases hf
  | exited hwhy he =>
    rw [(exitProcess_tables hw he).1]
    refine ⟨fun t ht => hset t ht, fun page f htakes hf => ?_⟩
    simp only [Event.takes, Bool.or_eq_false_iff] at htakes
    rw [htakes.1.2] at hwhy
    cases hwhy

/-- An access that goes through changes nothing but the memory. -/
theorem next_of_place {store : Bool} {random : Fin rows} (hp : (Event.access t vaddr store random).place s = some p)
    (hs : next s (.access t vaddr store random) = some s') : s' = s := by
  obtain ⟨pt, hpt, hplace⟩ := Option.bind_eq_some_iff.1 hp
  have hdone : tlbAccess s.tlb (pt.asid % 256) vaddr store = .done :=
    tlbPlace_isSome.1 (by rw [hplace, Option.isSome_some])
  unfold next at hs
  simp only at hs
  split at hs
  · unfold accessMemory at hs
    simp only [hpt, hdone] at hs
    cases hs
    rfl
  · cases hs

/-- Where the memory and the page tables of the others stay, the others see what they saw. -/
theorem Private.remaps (h : Private c.machine) (hs : next c.machine e = some s') :
    Step c.seen (Computer.seen ⟨s', c.memory⟩)
      (.remaps e.thread fun vaddr => e.takes c.machine (vaddr / PAGE_SIZE) = true) := by
  obtain ⟨hothers, hown⟩ := h.pages hs
  refine ⟨fun t ht => ?_, fun vaddr hvaddr b hb => ?_⟩
  · have hplace : s'.place t = c.machine.place t := by
      funext vaddr
      rw [Machine.place, Machine.place, hothers t ht]
    unfold Computer.seen
    rw [hplace]
  · obtain ⟨p, hp, rfl⟩ := Option.map_eq_some_iff.1 hb
    have htakes : e.takes c.machine (vaddr / PAGE_SIZE) = false := eq_false_of_ne_true hvaddr
    have hframe := hown _ _ htakes (Machine.place_owner hp)
    have hplace : s'.place e.thread vaddr = some p := by
      obtain ⟨pt, hpt, hphys⟩ := Option.bind_eq_some_iff.1 hp
      simp only [frames] at hframe
      obtain ⟨pt', hpt', hm⟩ := Option.bind_eq_some_iff.1 hframe
      rw [Machine.place_some hpt', physOf_eq_some]
      exact ⟨(physOf_eq_some.1 hphys).1, hm⟩
    exact view_some hplace

/-- **One step.** -/
theorem Private.step (h : Private c.machine) (hc : KeepsPages c o) (hs : c.step o = some c') :
    Private c'.machine ∧ Step c.seen c'.seen (c.label o) := by
  cases o with
  | kernel place value =>
    rw [Computer.step] at hs
    split at hs
    · rename_i hk
      cases hs
      exact ⟨h, view_store_outside (h.kernel hk) value⟩
    · cases hs
  | event e value =>
    obtain ⟨s', hnext, rfl⟩ := Option.map_eq_some_iff.1 hs
    refine ⟨⟨h.orderly.next hnext, frames_next h.orderly h.owners hc.1 hnext,
      coherent_next h.orderly.tables h.orderly.paired h.coherent hc.2 hnext⟩, ?_⟩
    cases hp : e.place c.machine with
    | none =>
      have hlabel : c.label (.event e value) =
          .remaps e.thread fun vaddr => e.takes c.machine (vaddr / PAGE_SIZE) = true := by
        unfold Computer.label
        simp only [hp]
      have hmem : e.memory c.machine value c.memory = c.memory := by
        unfold Event.memory
        simp only [hp]
      rw [hlabel, hmem]
      exact h.remaps hnext
    | some p =>
      cases e with
      | access t vaddr store random =>
        have hsame := next_of_place hp hnext
        subst hsame
        have hplace := h.place hp
        cases store with
        | false =>
          have hmem : (Event.access t vaddr false random).memory c.machine value c.memory = c.memory := by
            unfold Event.memory
            simp only [hp]
            rfl
          have hlabel : c.label (.event (.access t vaddr false random) value) = .reads t vaddr (c.memory p) := by
            unfold Computer.label
            simp only [hp]
            rfl
          rw [hmem, hlabel]
          exact ⟨rfl, view_some hplace⟩
        | true =>
          have hmem : (Event.access t vaddr true random).memory c.machine value c.memory =
              Function.update c.memory p value := by
            unfold Event.memory
            simp only [hp]
            rfl
          have hlabel : c.label (.event (.access t vaddr true random) value) = .writes t vaddr value := by
            unfold Computer.label
            simp only [hp]
            rfl
          rw [hmem, hlabel]
          refine ⟨?_, h.separate.view_store hplace value⟩
          unfold Computer.seen
          rw [view_some hplace, Option.isSome_some]
      | _ => cases hp

end Private

/-! ## Every run -/

section Runs

variable {rows : ℕ} {c c' : Computer rows} {os : List (Occurrence rows)}

theorem private_boot {numPages staticEnd : ℕ} (hpos : 0 < staticEnd) (hle : staticEnd ≤ numPages) :
    Private (Machine.boot rows numPages staticEnd) :=
  ⟨orderly_boot _ _ _, frames_boot hpos hle, fun r e odd hr => by cases hr⟩

/-- **A run is a run of private memories.** -/
theorem Private.run (h : Private c.machine) (hc : Every Computer.step KeepsPages c os)
    (hr : Transition.run Computer.step c os = some c') : Run c.seen (c.labels os) c'.seen := by
  induction os generalizing c with
  | nil =>
    cases hr
    exact .nil
  | cons o os ih =>
    rw [Transition.run] at hr
    rw [Every] at hc
    rw [Computer.labels]
    cases hs : c.step o with
    | none =>
      rw [hs] at hr
      cases hr
    | some c1 =>
      rw [hs] at hr hc
      obtain ⟨h1, hstep⟩ := h.step hc.1 hs
      exact .cons hstep (ih h1 hc.2 hr)

/-- **Processes have private memories**: in every run in which the pages and the TLB are kept in order, a process
reads at an address what it stored there last, whatever the others do. -/
theorem processes_private {numPages staticEnd : ℕ} (hpos : 0 < staticEnd) (hle : staticEnd ≤ numPages)
    {memory : Memory} (hc : Every Computer.step KeepsPages (Computer.boot rows numPages staticEnd memory) os)
    (hr : Transition.run Computer.step (Computer.boot rows numPages staticEnd memory) os = some c) :
    Run (fun _ _ => none) ((Computer.boot rows numPages staticEnd memory).labels os) c.seen ∧
    ∀ ls1 ls2 ls3 t vaddr b b',
      (Computer.boot rows numPages staticEnd memory).labels os =
        ls1 ++ .writes t vaddr b :: (ls2 ++ .reads t vaddr b' :: ls3) →
      (∀ l ∈ ls2, Leaves t vaddr l) → b' = b := by
  have hrun : Run (fun _ _ => none) ((Computer.boot rows numPages staticEnd memory).labels os) c.seen :=
    Private.run (private_boot hpos hle) hc hr
  refine ⟨hrun, fun ls1 ls2 ls3 t vaddr b b' hls hl => ?_⟩
  rw [hls] at hrun
  exact hrun.read_back hl

end Runs

/-- Two processes store a byte at the start of their heaps, after a refill each, and the first one reads it. -/
def twoHeaps : List (Occurrence 4) :=
  (startHeap ++ Event.execp 0 1 :: startProcess 1).map (Occurrence.event · 0) ++
    [.event (.access 0 0x10002000 true 0) 1, .event (.access 0 0x10002000 true 0) 1,
      .event (.access 1 0x10002000 true 1) 2, .event (.access 1 0x10002000 true 1) 2,
      .event (.access 0 0x10002000 false 0) 0]

theorem processes_private_twoHeaps : ∃ c,
    Transition.run Computer.step (Computer.boot 4 16 2 fun _ => 0) twoHeaps = some c ∧
    c.seen 0 0x10002000 = some 1 ∧ c.seen 1 0x10002000 = some 2 ∧
    Run (fun _ _ => none) ((Computer.boot 4 16 2 fun _ => 0).labels twoHeaps) c.seen ∧
    ∀ ls1 ls2 ls3 t vaddr b b',
      (Computer.boot 4 16 2 fun _ => 0).labels twoHeaps =
        ls1 ++ .writes t vaddr b :: (ls2 ++ .reads t vaddr b' :: ls3) →
      (∀ l ∈ ls2, Leaves t vaddr l) → b' = b := by
  have hsome : ∃ c ∈ Transition.run Computer.step (Computer.boot 4 16 2 fun _ => 0) twoHeaps,
      c.seen 0 0x10002000 = some 1 ∧ c.seen 1 0x10002000 = some 2 := by decide +kernel
  obtain ⟨c, hc, h0, h1⟩ := hsome
  exact ⟨c, hc, h0, h1, processes_private (by decide) (by decide) (by decide +kernel) hc⟩

end Buenos.Proc
