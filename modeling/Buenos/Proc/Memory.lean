import Buenos.Proc.Memlimit
import Buenos.Proc.Table
import Buenos.Vm.Tlb

/-!
# Processes and their memory

The processes of `Buenos.Proc.Table` with what they hold of the memory: the page tables, the page pool,
the TLB, `heap_vaddr` of the slots and the static `offset` of `syscall_handle_memlimit`.

* `StartStep`, `processStartSteps` — what `process_start` does to the memory once it has its slot.
* `releasePagetable` — the loop of `restore_process_state` and of `syscall_handle_exit`.
* `failStart`, `exitProcess` — the two ways a process gives its memory back.
* `Machine`, `Event`, `next` — the interleavings.  Sections with interrupts disabled are single events,
  and so are the steps of `process_start` between which other threads can run.

Principal result: `next_effect`, what an event can do to the memory.
-/

namespace Buenos.Proc

open Buenos.Vm

def PROCESS_EXIT_STATUS_EXCEPTION_TLBS : ℤ := 653012

/-- The fields of `elf_info_t` that say where the segments go. -/
structure Segments where
  roVaddr : ℕ
  roPages : ℕ
  rwVaddr : ℕ
  rwPages : ℕ

/-- A step of `process_start`. -/
inductive StartStep where
  /-- `vm_create_pagetable` -/
  | create
  /-- the test that so many pages fit into the TLB -/
  | check (pages : ℕ)
  /-- `pagepool_get_phys_page` and `vm_map` -/
  | map (vaddr : ℕ)
  /-- `heap_vaddr` is set -/
  | heap (vaddr : ℕ)
  /-- the segments and the stack are zeroed and read -/
  | load
  /-- `vm_set_dirty(.., 0)` -/
  | setDirty (vaddr : ℕ)
  /-- `tlb_replace_entry_if_exists` -/
  | replace (vaddr : ℕ)
  deriving DecidableEq

/-- The addresses of `pages` pages from `vaddr` on. -/
def pageAddrs (vaddr pages : ℕ) : List ℕ := (List.range pages).map fun i => u32 (vaddr + i * PAGE_SIZE)

/-- The steps of `process_start` for an executable with such segments. -/
def processStartSteps (elf : Segments) : List StartStep :=
  let heapVaddr := u32 (elf.rwVaddr + elf.rwPages * PAGE_SIZE)
  [StartStep.create, StartStep.check (elf.roPages + elf.rwPages + CONFIG_USERLAND_STACK_SIZE)] ++
  (List.range CONFIG_USERLAND_STACK_SIZE).map
    (fun i => StartStep.map (sub32 (pageStart USERLAND_STACK_TOP) (i * PAGE_SIZE))) ++
  (pageAddrs elf.roVaddr elf.roPages).map StartStep.map ++
  (pageAddrs elf.rwVaddr elf.rwPages).map StartStep.map ++
  [StartStep.heap heapVaddr, StartStep.map heapVaddr, StartStep.load] ++
  (pageAddrs elf.roVaddr elf.roPages).map StartStep.setDirty ++
  (pageAddrs elf.roVaddr elf.roPages).map StartStep.replace

/-- The processes and the memory.  `todo` is what is left of `process_start` in each thread. -/
structure Machine (rows : ℕ) where
  procs : Procs
  tlb : Tlb rows
  pagetable : TID → Option Pagetable
  heapVaddr : PID → ℕ
  offset : ℕ
  pool : Pool
  todo : TID → List StartStep

/-- A machine that has booted with so many pages, the first of them in use by the kernel. -/
def Machine.boot (rows numPages staticEnd : ℕ) : Machine rows where
  procs := Procs.init
  tlb := fun _ => none
  pagetable := fun _ => none
  heapVaddr := fun _ => 0
  offset := 0
  pool := ⟨numPages, staticEnd, fun i => decide (i < staticEnd), (numPages : ℤ) - staticEnd⟩
  todo := fun _ => []

section Release

/-- Free the frame of a valid half. -/
def freeHalf (h : Half) (pool : Pool) : Option Pool :=
  if h.v then pagepoolFreePhysPage pool (h.pfn * PAGE_SIZE) else some pool

/-- The loop that frees the frames of a page table. -/
def releasePagetable (pt : Pagetable) : List ℕ → Pool → Option Pool
  | [], pool => some pool
  | i :: is, pool =>
    match freeHalf (pt.entries i).even pool with
    | none => none
    | some pool =>
      match freeHalf (pt.entries i).odd pool with
      | none => none
      | some pool => releasePagetable pt is pool

/-- The loop of `syscall_handle_exit` that takes the pages out of the TLB. -/
def invalidateTlb {rows : ℕ} (pt : Pagetable) (is : List ℕ) (tlb : Tlb rows) : Tlb rows :=
  is.foldl (fun tlb i => tlbReplaceEntryIfExists tlb (((pt.entries i).invalidate false).invalidate true)) tlb

end Release

section Machine

variable {rows : ℕ}

/-- `restore_process_state` of thread `t`; `release_page_table` is always 1. -/
def failStart (s : Machine rows) (t : TID) : Option (Machine rows) :=
  match s.procs.code t with
  | .load data p =>
    let procs := restoreProcessState s.procs t data p
    match s.pagetable t with
    | none => some { s with procs := procs, heapVaddr := Function.update s.heapVaddr p 0
                            todo := Function.update s.todo t [] }
    | some pt =>
      -- `free_process_heap`
      match if s.heapVaddr p = 0 then some (pt, s.pool) else vmUnmap pt (s.heapVaddr p) s.pool with
      | none => none
      | some (pt, pool) =>
        match releasePagetable pt (List.range pt.validCount) pool with
        | none => none
        | some pool =>
          match vmDestroyPagetable pt pool with
          | none => none
          | some pool =>
            some { s with procs := procs, heapVaddr := Function.update s.heapVaddr p 0, pool := pool
                          pagetable := Function.update s.pagetable t none
                          todo := Function.update s.todo t [] }
  | _ => none

/-- `syscall_handle_exit` of thread `t`. -/
def exitProcess (s : Machine rows) (t : TID) (retval : ℤ) : Option (Machine rows) :=
  match s.procs.userlandPid t with
  | none => none
  | some p =>
    match processExit s.procs t p retval, s.pagetable t with
    | some procs, some pt =>
      match vmUnmap pt (s.heapVaddr p) s.pool with
      | none => none
      | some (pt, pool) =>
        match releasePagetable pt (List.range pt.validCount) pool with
        | none => none
        | some pool =>
          match vmDestroyPagetable pt pool with
          | none => none
          | some pool =>
            some { s with procs := procs, pool := pool
                          tlb := invalidateTlb pt (List.range pt.validCount) s.tlb
                          pagetable := Function.update s.pagetable t none
                          todo := Function.update s.todo t [] }
    | _, _ => none

/-- The next step of `process_start` in thread `t`.  A new page table is in a page with the contents
`memory`. -/
def startStep (s : Machine rows) (t : TID) (memory : ℕ → TlbEntry) : Option (Machine rows) :=
  match s.todo t, s.procs.code t with
  | step :: rest, .load _ p =>
    let todo := Function.update s.todo t rest
    match step, s.pagetable t with
    | .create, some _ => failStart s t
    | .create, none =>
      match vmCreatePagetable s.pool t memory with
      | none => none
      | some (none, pool) => failStart { s with pool := pool } t
      | some (some pt, pool) =>
        some { s with pool := pool, todo := todo, pagetable := Function.update s.pagetable t (some pt) }
    | .check pages, _ => if rows < pages then failStart s t else some { s with todo := todo }
    | .map vaddr, some pt =>
      match pagepoolGetPhysPage s.pool with
      | none => none
      | some (physPage, pool) =>
        if physPage = 0 then failStart { s with pool := pool } t
        else match vmMap pt physPage vaddr true with
          | none => failStart { s with pool := pool } t
          | some pt =>
            some { s with pool := pool, todo := todo, pagetable := Function.update s.pagetable t (some pt) }
    | .heap vaddr, _ => some { s with heapVaddr := Function.update s.heapVaddr p vaddr, todo := todo }
    | .load, _ => some { s with todo := todo }
    | .setDirty vaddr, some pt =>
      match vmSetDirty pt vaddr false with
      | none => none
      | some pt => some { s with todo := todo, pagetable := Function.update s.pagetable t (some pt) }
    | .replace vaddr, some pt =>
      match vmGetEntryByVaddr pt vaddr with
      | none => none
      | some i => some { s with todo := todo, tlb := tlbReplaceEntryIfExists s.tlb (pt.entries i) }
    | _, none => none
  | _, _ => none

/-- Is the thread in user code, in a system call of its own, or loading its segments? -/
def accesses (s : Machine rows) (t : TID) : Bool :=
  match s.procs.code t with
  | .user => true
  | .load _ _ => (s.todo t).head? == some .load
  | _ => false

/-- An access of thread `t` to an address that goes through the TLB; `random` is the row that a refill
is written to. -/
def accessMemory (s : Machine rows) (t : TID) (vaddr : ℕ) (store : Bool) (random : Fin rows) :
    Option (Machine rows) :=
  match s.pagetable t with
  | none => none
  | some pt =>
    match tlbAccess s.tlb (pt.asid % 256) vaddr store with
    | .done => some s
    | .modified => exitProcess s t PROCESS_EXIT_STATUS_EXCEPTION_TLBS
    | .miss =>
      match tryToFill s.tlb pt vaddr store random with
      | some tlb => some { s with tlb := tlb }
      | none => exitProcess s t PROCESS_EXIT_STATUS_EXCEPTION_TLBS

/-- `syscall_handle_memlimit` of thread `t`. -/
def memlimit (s : Machine rows) (t : TID) (heapEnd : ℕ) : Option (Machine rows) :=
  match s.procs.userlandPid t, s.pagetable t with
  | some p, some pt =>
    (syscallHandleMemlimit heapEnd (s.heapVaddr p) s.offset pt s.pool).map fun r =>
      { s with offset := r.offset, pool := r.pool, pagetable := Function.update s.pagetable t (some r.pagetable) }
  | _, _ => none

/-- What happens next. -/
inductive Event (rows : ℕ) where
  | boot (t : TID)
  | execp (t child : TID)
  /-- `process_start` takes a slot; the executable has these segments -/
  | slot (t : TID) (elf : Segments)
  | start (t : TID) (memory : ℕ → TlbEntry)
  /-- `process_start` fails on the file or on the segments' contents -/
  | fail (t : TID)
  | started (t : TID)
  | access (t : TID) (vaddr : ℕ) (store : Bool) (random : Fin rows)
  | memlimit (t : TID) (heapEnd : ℕ)
  | exit (t : TID) (retval : ℤ)
  | join (t : TID) (pid : ℤ)
  | joined (t : TID)

/-- A step of the process table that does not touch the memory. -/
def procsOnly (s : Machine rows) (a : Action) : Option (Machine rows) :=
  (step s.procs a).map fun procs => { s with procs := procs }

def next (s : Machine rows) : Event rows → Option (Machine rows)
  | .boot t => procsOnly s (.boot t)
  | .execp t child => procsOnly s (.execp t child)
  | .slot t elf =>
    (step s.procs (.slot t)).map fun procs =>
      { s with procs := procs, todo := Function.update s.todo t (processStartSteps elf) }
  | .start t memory => startStep s t memory
  | .fail t => if .load ∈ s.todo t then failStart s t else none
  | .started t => if s.todo t = [] then procsOnly s (.started t) else none
  | .access t vaddr store random => if accesses s t then accessMemory s t vaddr store random else none
  | .memlimit t heapEnd => if s.procs.code t = .user ∧ heapEnd < 2 ^ 32 then memlimit s t heapEnd else none
  | .exit t retval => if s.procs.code t = .user then exitProcess s t retval else none
  | .join t pid => procsOnly s (.join t pid)
  | .joined t => procsOnly s (.joined t)

/-! ## The process table in the machine -/

section Pairs

variable {s s' : Machine rows} {t : TID}

theorem failStart_paired (h : Paired s.procs) (hf : failStart s t = some s') : Paired s'.procs := by
  unfold failStart at hf
  split at hf
  · rename_i data p hcode
    have hfail := h.fail hcode
    simp only at hf
    split at hf
    · cases hf
      exact hfail
    · split at hf
      · cases hf
      · split at hf
        · cases hf
        · split at hf
          · cases hf
          · cases hf
            exact hfail
  · cases hf

theorem exitProcess_paired (h : Paired s.procs) (hcode : (s.procs.code t).canExit = true) {retval : ℤ}
    (he : exitProcess s t retval = some s') : Paired s'.procs := by
  unfold exitProcess at he
  split at he
  · cases he
  · rename_i p hp
    split at he
    · rename_i procs pt hexit hpt
      have hexited := h.exit hcode hp hexit
      split at he
      · cases he
      · split at he
        · cases he
        · split at he
          · cases he
          · cases he
            exact hexited
    · cases he

theorem procsOnly_paired (h : Paired s.procs) {a : Action} (ha : procsOnly s a = some s') : Paired s'.procs := by
  obtain ⟨procs, hs, rfl⟩ := Option.map_eq_some_iff.1 ha
  exact h.step hs

theorem accesses_canExit (h : accesses s t = true) : (s.procs.code t).canExit = true := by
  unfold accesses at h
  split at h
  · rename_i hc
    rw [hc]
    rfl
  · rename_i hc
    rw [hc]
    rfl
  · cases h

theorem startStep_paired (h : Paired s.procs) {memory : ℕ → TlbEntry} (hs : startStep s t memory = some s') :
    Paired s'.procs := by
  unfold startStep at hs
  split at hs
  · simp only at hs
    split at hs
    · exact failStart_paired h hs
    · split at hs
      · cases hs
      · refine failStart_paired ?_ hs
        exact h
      · cases hs
        exact h
    · split at hs
      · exact failStart_paired h hs
      · cases hs
        exact h
    · split at hs
      · cases hs
      · split at hs
        · refine failStart_paired ?_ hs
          exact h
        · split at hs
          · refine failStart_paired ?_ hs
            exact h
          · cases hs
            exact h
    · cases hs
      exact h
    · cases hs
      exact h
    · split at hs
      · cases hs
      · cases hs
        exact h
    · split at hs
      · cases hs
      · cases hs
        exact h
    · cases hs
  · cases hs

/-- **Slots and threads stay paired** in the machine. -/
theorem next_paired (h : Paired s.procs) {e : Event rows} (hs : next s e = some s') : Paired s'.procs := by
  cases e with
  | boot t => exact procsOnly_paired h hs
  | execp t child => exact procsOnly_paired h hs
  | slot t elf =>
    obtain ⟨procs, hstep, rfl⟩ := Option.map_eq_some_iff.1 hs
    exact h.step hstep
  | start t memory => exact startStep_paired h hs
  | fail t =>
    simp only [next] at hs
    split at hs
    · exact failStart_paired h hs
    · cases hs
  | started t =>
    simp only [next] at hs
    split at hs
    · exact procsOnly_paired h hs
    · cases hs
  | access t vaddr store random =>
    simp only [next] at hs
    split at hs
    · rename_i ha
      unfold accessMemory at hs
      split at hs
      · cases hs
      · split at hs
        · cases hs
          exact h
        · exact exitProcess_paired h (accesses_canExit ha) hs
        · split at hs
          · cases hs
            exact h
          · exact exitProcess_paired h (accesses_canExit ha) hs
    · cases hs
  | memlimit t heapEnd =>
    simp only [next] at hs
    split at hs
    · unfold memlimit at hs
      split at hs
      · obtain ⟨r, -, rfl⟩ := Option.map_eq_some_iff.1 hs
        exact h
      · cases hs
    · cases hs
  | exit t retval =>
    simp only [next] at hs
    split at hs
    · rename_i hc
      exact exitProcess_paired h (by rw [hc]; rfl) hs
    · cases hs
  | join t pid => exact procsOnly_paired h hs
  | joined t => exact procsOnly_paired h hs

end Pairs

/-! ## What an event does to the memory -/

/-- The thread whose memory an event is about. -/
def Event.thread : Event rows → TID
  | .boot t => t
  | .execp t _ => t
  | .slot t _ => t
  | .start t _ => t
  | .fail t => t
  | .started t => t
  | .access t _ _ _ => t
  | .memlimit t _ => t
  | .exit t _ => t
  | .join t _ => t
  | .joined t => t

/-- Does the next step of `process_start` fail with a page table in place? -/
def startFails (s : Machine rows) (t : TID) : Bool :=
  match (s.todo t).head?, s.pagetable t with
  | some .create, some _ => true
  | some (.check pages), _ => decide (rows < pages)
  | some (.map vaddr), some pt =>
    (pagepoolGetPhysPage s.pool).any (fun page => page.1 == 0) || (vmMap pt 0 vaddr true).isNone
  | _, _ => false

/-- Does `vm_map` take the frame that the next step of `process_start` gets? -/
def mapsFrame (s : Machine rows) (t : TID) : Bool :=
  match (s.todo t).head?, s.pagetable t, pagepoolGetPhysPage s.pool with
  | some (.map vaddr), some pt, some (physPage, _) => physPage == 0 || (vmMap pt physPage vaddr true).isSome
  | _, _, _ => true

/-- Does an event end a start that fails? -/
def Event.fails (s : Machine rows) : Event rows → Bool
  | .start t _ => startFails s t
  | .fail _ => true
  | _ => false

/-- Does an access miss in the TLB although the page table has the page? -/
def refills (s : Machine rows) (t : TID) (vaddr : ℕ) (store : Bool) : Bool :=
  (s.pagetable t).any fun pt => tlbAccess s.tlb (pt.asid % 256) vaddr store == .miss && fillable pt vaddr store

/-- Does an event end its process? -/
def Event.kills (s : Machine rows) : Event rows → Bool
  | .exit _ _ => true
  | .access t vaddr store _ => (s.pagetable t).any fun pt =>
    tlbAccess s.tlb (pt.asid % 256) vaddr store != .done && !refills s t vaddr store
  | _ => false

/-- Whether `vm_map` succeeds does not depend on the frame. -/
theorem vmMap_isNone {pt : Pagetable} {physaddr physaddr' vaddr : ℕ} {dirty : Bool}
    (h : vmMap pt physaddr vaddr dirty = none) : vmMap pt physaddr' vaddr dirty = none := by
  unfold vmMap at h ⊢
  simp only at h ⊢
  split at h
  · split at h
    · rename_i hv
      rw [if_pos hv]
    · cases h
  · split at h
    · rename_i hfull
      rw [if_pos hfull]
    · cases h

/-- The ways an event can change the memory. -/
inductive Effect (s : Machine rows) : Event rows → Machine rows → Prop
  | none {e : Event rows} {procs : Procs} {todo : TID → List StartStep} :
      Effect s e { s with procs := procs, todo := todo }
  | created {t : TID} {memory : ℕ → TlbEntry} {pt : Pagetable} {pool : Pool} {todo : TID → List StartStep}
      (hnone : s.pagetable t = none) (hc : vmCreatePagetable s.pool t memory = some (some pt, pool)) :
      Effect s (.start t memory)
        { s with pool := pool, todo := todo, pagetable := Function.update s.pagetable t (some pt) }
  | mapped {t : TID} {memory : ℕ → TlbEntry} {pt pt' : Pagetable} {pool : Pool} {physPage vaddr : ℕ}
      {todo : TID → List StartStep} (hpt : s.pagetable t = some pt)
      (hget : pagepoolGetPhysPage s.pool = some (physPage, pool)) (hphys : physPage ≠ 0)
      (hmap : vmMap pt physPage vaddr true = some pt') :
      Effect s (.start t memory)
        { s with pool := pool, todo := todo, pagetable := Function.update s.pagetable t (some pt') }
  | heap {t : TID} {memory : ℕ → TlbEntry} {p : PID} {vaddr : ℕ} {todo : TID → List StartStep}
      (hp : s.procs.userlandPid t = some p) :
      Effect s (.start t memory) { s with heapVaddr := Function.update s.heapVaddr p vaddr, todo := todo }
  | dirtied {t : TID} {memory : ℕ → TlbEntry} {pt pt' : Pagetable} {vaddr : ℕ} {todo : TID → List StartStep}
      (htodo : (s.todo t).head? = some (.setDirty vaddr)) (hpt : s.pagetable t = some pt)
      (hset : vmSetDirty pt vaddr false = some pt') :
      Effect s (.start t memory)
        { s with todo := todo, pagetable := Function.update s.pagetable t (some pt') }
  | replaced {t : TID} {memory : ℕ → TlbEntry} {pt : Pagetable} {i : ℕ} {todo : TID → List StartStep}
      (hpt : s.pagetable t = some pt) (hi : i < pt.validCount) :
      Effect s (.start t memory) { s with todo := todo, tlb := tlbReplaceEntryIfExists s.tlb (pt.entries i) }
  | refilled {t : TID} {vaddr : ℕ} {store : Bool} {random : Fin rows} {pt : Pagetable} {tlb : Tlb rows}
      (hpt : s.pagetable t = some pt) (hmiss : tlbAccess s.tlb (pt.asid % 256) vaddr store = .miss)
      (hfill : tryToFill s.tlb pt vaddr store random = some tlb) :
      Effect s (.access t vaddr store random) { s with tlb := tlb }
  | limited {t : TID} {heapEnd : ℕ} {p : PID} {pt : Pagetable} {r : MemlimitResult}
      (hp : s.procs.userlandPid t = some p) (hpt : s.pagetable t = some pt)
      (hr : syscallHandleMemlimit heapEnd (s.heapVaddr p) s.offset pt s.pool = some r) :
      Effect s (.memlimit t heapEnd) { s with
        offset := r.offset, pool := r.pool, pagetable := Function.update s.pagetable t (some r.pagetable) }
  | failed {e : Event rows} {s' : Machine rows} {pool : Pool}
      (hwhy : e.fails s = true ∨ s.pagetable e.thread = none)
      (hpool : pool = s.pool ∨ pagepoolGetPhysPage s.pool = some (0, pool) ∨
        (∃ memory, e = .start e.thread memory) ∧ mapsFrame s e.thread = false)
      (hf : failStart { s with pool := pool } e.thread = some s') : Effect s e s'
  | exited {e : Event rows} {s' : Machine rows} {retval : ℤ} (hwhy : e.kills s = true)
      (he : exitProcess s e.thread retval = some s') : Effect s e s'

theorem procsOnly_effect {s s' : Machine rows} {a : Action} {e : Event rows} (h : procsOnly s a = some s') :
    Effect s e s' := by
  obtain ⟨procs, -, rfl⟩ := Option.map_eq_some_iff.1 h
  exact @Effect.none _ s e procs s.todo

/-- What a thread that starts has to do next is done with a slot. -/
theorem startStep_effect {s s' : Machine rows} (hpair : Paired s.procs) {t : TID} {memory : ℕ → TlbEntry}
    (h : startStep s t memory = some s') : Effect s (.start t memory) s' := by
  unfold startStep at h
  split at h
  · rename_i st rest data p htodo hcode
    have hp : s.procs.userlandPid t = some p := by
      have hf := hpair.fits t
      rwa [hcode] at hf
    simp only at h
    split at h
    · rename_i pt hpt
      refine @Effect.failed _ s _ _ s.pool (Or.inl ?_) (Or.inl rfl) h
      rw [Event.fails, startFails, htodo, hpt]
      rfl
    · rename_i hnone
      split at h
      · cases h
      · rename_i pool hc
        unfold vmCreatePagetable at hc
        split at hc
        · cases hc
        · rename_i addr pool' hget
          split at hc
          · rename_i hzero
            cases hc
            rw [hzero] at hget
            exact .failed (Or.inr hnone) (Or.inr (Or.inl hget)) h
          · cases hc
      · rename_i pt pool hc
        cases h
        exact .created hnone hc
    · split at h
      · rename_i hrows
        refine @Effect.failed _ s _ _ s.pool (Or.inl ?_) (Or.inl rfl) h
        simp [Event.fails, startFails, htodo, hrows]
      · cases h
        exact @Effect.none _ s _ s.procs _
    · rename_i vaddr pt hpt
      split at h
      · cases h
      · rename_i physPage pool hget
        split at h
        · rename_i hzero
          rw [hzero] at hget
          refine .failed (Or.inl ?_) (Or.inr (Or.inl hget)) h
          simp [Event.fails, startFails, htodo, hpt, hget]
        · rename_i hphys
          split at h
          · rename_i hmap
            refine .failed (Or.inl ?_) (Or.inr (Or.inr ⟨⟨memory, rfl⟩, ?_⟩)) h
            · simp [Event.fails, startFails, htodo, hpt, vmMap_isNone hmap]
            · simp [mapsFrame, Event.thread, htodo, hpt, hget, hphys, hmap]
          · rename_i pt' hmap
            cases h
            exact .mapped hpt hget hphys hmap
    · cases h
      exact .heap hp
    · cases h
      exact @Effect.none _ s _ s.procs _
    · rename_i vaddr pt hpt
      split at h
      · cases h
      · rename_i pt' hset
        cases h
        exact .dirtied (by rw [htodo]; rfl) hpt hset
    · rename_i vaddr pt hpt
      split at h
      · cases h
      · rename_i i hi
        cases h
        unfold vmGetEntryByVaddr at hi
        split at hi
        · cases hi
        · exact .replaced hpt (findEntry_some hi).1
    · cases h
  · cases h

/-- **What an event does to the memory.** -/
theorem next_effect {s s' : Machine rows} (hpair : Paired s.procs) {e : Event rows} (h : next s e = some s') :
    Effect s e s' := by
  cases e with
  | boot t => exact procsOnly_effect h
  | execp t child => exact procsOnly_effect h
  | slot t elf =>
    obtain ⟨procs, -, rfl⟩ := Option.map_eq_some_iff.1 h
    exact .none
  | start t memory => exact startStep_effect hpair h
  | fail t =>
    simp only [next] at h
    split at h
    · exact @Effect.failed _ s _ _ s.pool (Or.inl rfl) (Or.inl rfl) h
    · cases h
  | started t =>
    simp only [next] at h
    split at h
    · exact procsOnly_effect h
    · cases h
  | access t vaddr store random =>
    simp only [next] at h
    split at h
    · unfold accessMemory at h
      split at h
      · cases h
      · rename_i pt hpt
        split at h
        · cases h
          exact @Effect.none _ s _ s.procs s.todo
        · rename_i hmod
          refine .exited ?_ h
          simp [Event.kills, refills, hpt, hmod]
        · rename_i hmiss
          split at h
          · rename_i tlb hfill
            cases h
            exact .refilled hpt hmiss hfill
          · rename_i hfill
            refine .exited ?_ h
            simp [Event.kills, refills, hpt, hmiss, tryToFill_none hfill]
    · cases h
  | memlimit t heapEnd =>
    simp only [next] at h
    split at h
    · unfold memlimit at h
      split at h
      · rename_i p pt hp hpt
        obtain ⟨r, hr, rfl⟩ := Option.map_eq_some_iff.1 h
        exact .limited hp hpt hr
      · cases h
    · cases h
  | exit t retval =>
    simp only [next] at h
    split at h
    · exact .exited rfl h
    · cases h
  | join t pid => exact procsOnly_effect h
  | joined t => exact procsOnly_effect h

end Machine

/-- A page that has never been written. -/
def emptyPage : ℕ → TlbEntry := fun _ => ⟨0, 0, ⟨0, false, false⟩, ⟨0, false, false⟩⟩

/-- `process_start` in thread `t` for an executable with one page of data and no code, up to userland. -/
def startProcess {rows : ℕ} (t : TID) : List (Event rows) :=
  .slot t ⟨0, 0, 0x10001000, 1⟩ :: List.replicate 7 (.start t emptyPage) ++ [.started t]

/-- The first process starts, with its heap at 0x10002000, on a machine with a TLB of four rows. -/
def startHeap : List (Event 4) := .boot 0 :: startProcess 0

end Buenos.Proc
