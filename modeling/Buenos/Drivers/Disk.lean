import Buenos.Base.Chain
import Buenos.Base.Transition
import Mathlib.Data.Fintype.Card
import Mathlib.Data.List.Perm.Basic

/-!
# The request queue of the disk driver

The functions `disk_submit_request`, `disk_next_request` and `disk_interrupt_handle` of `drivers/disk.c` with
`disksched_schedule` of `drivers/disksched.c`, used by any number of threads at once. The requests are nodes
of the callers' memory, linked through their field `next`.

* `State` — the memory, the two pointers of a `disk_real_device_t`, the device, the semaphores and the
  threads, with the history of what was submitted, given to the device and completed.
* `Action` — a step of a thread, of the device or of the interrupt handler. The sections of
  `disk_submit_request` under the spinlock are one step; the handler is two, so that a caller can reuse its
  node as soon as its semaphore is raised.
* `inUse`, `own` — the nodes that belong to a request, and the semaphores of synchronous ones. What the
  callers owe the driver is that they leave these alone.
* `Queue`, `Calls` — the invariant: the nodes of the queue, and where the threads are.

Principal result: `disk_queue`.
-/

namespace Buenos.Disk

open Linked Transition

/-! ## Model -/

abbrev Addr := UInt32

abbrev Sem := ℕ

def NULL : Addr := 0

/-- A loop along a list of nodes meets one of them again after so many rounds. -/
def ROUNDS : ℕ := 2 ^ 32 + 1

/-- `gbd_operation_t`. -/
inductive Operation where
  | read
  | write
  deriving DecidableEq

/-- `gbd_request_t`. -/
structure Request where
  block : UInt32
  buf : UInt32
  sem : Option Sem
  operation : Operation
  next : Addr
  returnValue : ℤ
  deriving DecidableEq

/-- A request as it was filled in, and its node. -/
structure Entry where
  node : Addr
  block : UInt32
  buf : UInt32
  sem : Option Sem
  operation : Operation
  deriving DecidableEq

/-- The request in node `a`. -/
def entry (mem : Addr → Request) (a : Addr) : Entry :=
  ⟨a, (mem a).block, (mem a).buf, (mem a).sem, (mem a).operation⟩

/-- The field `next` of node `a`. -/
def next (mem : Addr → Request) (a : Addr) : Addr := (mem a).next

/-- Where a thread is in `disk_submit_request`. -/
inductive Pc where
  | outside
  /-- Before `semaphore_create`. -/
  | creating (a : Addr)
  /-- Before the spinlock; `sync` is the local variable `sem_null`. -/
  | scheduling (a : Addr) (sync : Bool)
  /-- Before `semaphore_P`. -/
  | waiting (a : Addr)
  deriving DecidableEq

/-- The node of a thread's request. -/
def Pc.node : Pc → Option Addr
  | .outside => none
  | .creating a | .scheduling a _ | .waiting a => some a

structure State (τ : Type) where
  mem : Addr → Request
  /-- `request_queue`. -/
  queue : Addr
  /-- `request_served`. -/
  served : Addr
  /-- `RBUSY` or `WBUSY`. -/
  busy : Bool
  /-- `RIRQ` or `WIRQ`. -/
  irq : Bool
  /-- The interrupt handler holds the spinlock and has raised the semaphore. -/
  handling : Bool
  /-- The values of the semaphores that exist. -/
  sems : Sem → Option ℕ
  pc : τ → Pc
  /-- An assertion has failed, a `NULL` was followed or a loop does not end. -/
  failed : Bool
  submitted : List Entry
  given : List Entry
  completed : List Entry
  /-- What synchronous calls have returned. -/
  returned : List ℤ
  inUse : List Addr
  own : List Sem

inductive Action (τ : Type) where
  /-- A caller writes a node that is not in use. -/
  | fillIn (a : Addr) (r : Request)
  /-- Callers use semaphores of their own. -/
  | semaphoreCreate (x : Sem) (value : ℕ)
  | semaphoreP (x : Sem)
  | semaphoreV (x : Sem)
  | semaphoreDestroy (x : Sem)
  /-- `disk_read_block` or `disk_write_block`. -/
  | submit (t : τ) (a : Addr) (operation : Operation)
  /-- The `semaphore_create` of a synchronous request; it may fail. -/
  | create (t : τ) (x : Option Sem)
  | schedule (t : τ)
  | finish (t : τ)
  /-- The device completes its command and raises the interrupt. -/
  | complete
  | interrupt
  | interruptNext

namespace State

variable {τ : Type} (s : State τ)

/-- `disk_init`. -/
def init (τ : Type) : State τ where
  mem := fun _ => ⟨0, 0, none, .read, NULL, 0⟩
  queue := NULL
  served := NULL
  busy := false
  irq := false
  handling := false
  sems := fun _ => none
  pc := fun _ => .outside
  failed := false
  submitted := []
  given := []
  completed := []
  returned := []
  inUse := []
  own := []

def setMem (a : Addr) (r : Request) : State τ := { s with mem := Function.update s.mem a r }

def setPc [DecidableEq τ] (t : τ) (p : Pc) : State τ := { s with pc := Function.update s.pc t p }

/-- `disksched_schedule`; `none` if its loop does not end. -/
def diskschedSchedule (request : Addr) : Option (State τ) :=
  if s.queue ≠ NULL then
    match walk (next s.mem) (fun q => decide (next s.mem q ≠ NULL)) ROUNDS NULL s.queue with
    | none => none
    | some (_, q) => some (s.setMem q { s.mem q with next := request })
  else some { s with queue := request }

/-- `disk_next_request`. -/
def diskNextRequest : State τ :=
  if s.busy = true ∨ s.served ≠ NULL then { s with failed := true }
  else if s.queue = NULL then s
  else
    { s with
      queue := (s.mem s.queue).next
      mem := Function.update s.mem s.queue { s.mem s.queue with next := NULL }
      served := s.queue
      busy := true
      given := s.given ++ [entry s.mem s.queue] }

/-- The section of `disk_submit_request` under the spinlock. -/
def diskSubmit (a : Addr) : State τ :=
  match s.diskschedSchedule a with
  | none => { s with failed := true }
  | some s1 =>
    let s2 := { s1 with submitted := s1.submitted ++ [entry s1.mem a] }
    if s2.served = NULL then s2.diskNextRequest else s2

/-- `disk_interrupt_handle` up to `semaphore_V`. -/
def diskInterrupt : State τ :=
  if s.served = NULL then { s with failed := true }
  else
    match (s.mem s.served).sem with
    | none => { s with failed := true }
    | some x =>
      { s with
        irq := false
        mem := Function.update s.mem s.served { s.mem s.served with returnValue := 0 }
        sems := Function.update s.sems x ((s.sems x).map (· + 1))
        completed := s.completed ++ [entry s.mem s.served]
        handling := true
        -- The node of an asynchronous request is its caller's again.
        inUse := if x ∈ s.own then s.inUse else s.inUse.erase s.served }

/-- The end of `disk_submit_request` for a synchronous request, from `semaphore_P` on. -/
def diskFinish (a : Addr) (x : Sem) : State τ :=
  { s with
    sems := Function.update s.sems x none
    mem := Function.update s.mem a { s.mem a with sem := none }
    returned := s.returned ++ [if (s.mem a).returnValue = 0 then 1 else 0]
    inUse := s.inUse.erase a
    own := s.own.erase x }

end State

variable {τ : Type}

/-- One step of a machine that has not panicked. -/
def act [DecidableEq τ] (s : State τ) : Action τ → Option (State τ)
  | .fillIn a r => if a ∈ s.inUse then none else some (s.setMem a r)
  | .semaphoreCreate x value =>
    if s.sems x = none then some { s with sems := Function.update s.sems x (some value) } else none
  | .semaphoreP x =>
    match s.sems x with
    | some (v + 1) => if x ∈ s.own then none else some { s with sems := Function.update s.sems x (some v) }
    | _ => none
  | .semaphoreV x =>
    match s.sems x with
    | some v => if x ∈ s.own then none else some { s with sems := Function.update s.sems x (some (v + 1)) }
    | none => none
  | .semaphoreDestroy x =>
    if x ∈ s.own ∨ ∃ a ∈ s.inUse, (s.mem a).sem = some x then none
    else some { s with sems := Function.update s.sems x none }
  | .submit t a operation =>
    if s.pc t = .outside ∧ a ≠ NULL ∧ a ∉ s.inUse then
      let r : Request := { s.mem a with operation := operation, next := NULL, returnValue := -1 }
      match (s.mem a).sem with
      | none => some ({ s.setMem a r with inUse := a :: s.inUse }.setPc t (.creating a))
      | some x =>
        if x ∉ s.own ∧ s.sems x ≠ none then
          some ({ s.setMem a r with inUse := a :: s.inUse }.setPc t (.scheduling a false))
        else none
    else none
  | .create t x =>
    match s.pc t, x with
    | .creating a, none => some ({ s with inUse := s.inUse.erase a }.setPc t .outside)
    | .creating a, some x =>
      if s.sems x = none then
        some ({ s.setMem a { s.mem a with sem := some x } with
          sems := Function.update s.sems x (some 0), own := x :: s.own }.setPc t (.scheduling a true))
      else none
    | _, _ => none
  | .schedule t =>
    match s.pc t with
    | .scheduling a sync =>
      if s.handling then none
      else some ((s.diskSubmit a).setPc t (if sync then .waiting a else .outside))
    | _ => none
  | .finish t =>
    match s.pc t with
    | .waiting a =>
      match (s.mem a).sem with
      | none => none
      | some x =>
        match s.sems x with
        | some (_ + 1) => some ((s.diskFinish a x).setPc t .outside)
        | _ => none
    | _ => none
  | .complete => if s.busy then some { s with busy := false, irq := true } else none
  | .interrupt =>
    if s.handling then none
    else if s.irq then some s.diskInterrupt
    else some s
  | .interruptNext =>
    if s.handling then some { { s with served := NULL }.diskNextRequest with handling := false } else none

/-- One step; a machine that has panicked makes none. -/
def step [DecidableEq τ] (s : State τ) (a : Action τ) : Option (State τ) :=
  if s.failed then none else act s a

/-! ## Invariant -/

/-- The node of the request that the device is working on. -/
def current (s : State τ) : List Addr := if s.handling = true ∨ s.served = NULL then [] else [s.served]

/-- The queue links the nodes `q`. What was submitted is what was completed, the request that the device
is working on and the requests of the queue, in this order. -/
structure Queue (s : State τ) (q : List Addr) : Prop where
  chain : Chain (next s.mem) NULL s.queue q
  submitted : s.submitted = s.completed ++ (current s ++ q).map (entry s.mem)
  given : s.given = s.completed ++ (current s).map (entry s.mem)
  nodup : (current s ++ q).Nodup
  device : s.busy.toNat + s.irq.toNat = (current s).length
  idle : s.handling = false → s.served = NULL → q = []
  failed : s.failed = false

/-- What holds of the request of a thread, where the nodes `P` are submitted and not completed. The
semaphore of a synchronous request has been raised once if the request is completed. -/
def At (s : State τ) (P : List Addr) : Pc → Prop
  | .outside => True
  | .creating a => a ∈ s.inUse ∧ a ∉ P ∧ (s.mem a).next = NULL ∧ (s.mem a).returnValue = -1 ∧ (s.mem a).sem = none
  | .scheduling a sync => a ∈ s.inUse ∧ a ∉ P ∧ (s.mem a).next = NULL ∧ (s.mem a).returnValue = -1 ∧
      ∃ x, (s.mem a).sem = some x ∧ (x ∈ s.own ↔ sync = true) ∧ (x ∈ s.own → s.sems x = some 0)
  | .waiting a => a ∈ s.inUse ∧ ∃ x, (s.mem a).sem = some x ∧ x ∈ s.own ∧
      (a ∈ P ∧ s.sems x = some 0 ∨ a ∉ P ∧ (s.mem a).returnValue = 0 ∧ s.sems x = some 1)

/-- The threads, their nodes and their semaphores, where the nodes `P` are submitted and not completed. -/
structure Calls (s : State τ) (P : List Addr) : Prop where
  places : ∀ t, At s P (s.pc t)
  unique : ∀ {t u a}, (s.pc t).node = some a → (s.pc u).node = some a → t = u
  ne_null : NULL ∉ s.inUse
  pending : ∀ a ∈ P, a ∈ s.inUse ∧ ∃ x, (s.mem a).sem = some x ∧ (x ∈ s.own → ∃ t, s.pc t = .waiting a)
  allocated : ∀ a ∈ s.inUse, ∀ {x}, (s.mem a).sem = some x → s.sems x ≠ none
  alone : ∀ a ∈ s.inUse, ∀ b ∈ s.inUse, ∀ {x}, x ∈ s.own → (s.mem a).sem = some x →
    (s.mem b).sem = some x → a = b
  results : ∀ v ∈ s.returned, v = 1
  unanswered : ∀ a ∈ P, (s.mem a).returnValue = -1

/-- **The invariant.** -/
structure Inv (s : State τ) : Prop where
  exists_queue : ∃ q, Queue s q ∧ Calls s (current s ++ q)

theorem inv_init : Inv (State.init τ) := by
  refine ⟨[], ⟨chain_empty _ _, rfl, rfl, List.nodup_nil, rfl, fun _ _ => rfl, rfl⟩, ?_⟩
  exact {
    places := fun _ => trivial
    unique := fun h => nomatch h
    ne_null := List.not_mem_nil
    pending := fun _ h => nomatch h
    allocated := fun _ h => nomatch h
    alone := fun _ h => nomatch h
    results := fun _ h => nomatch h
    unanswered := fun _ h => nomatch h }

/-! ## Frame rules -/

section Frame

variable {s s' : State τ} {q P P' : List Addr} {p : Pc} {a : Addr}

/-- The queue depends on the callers' memory only at its own nodes. -/
theorem Queue.frame (h : Queue s q) {mem : Addr → Request}
    (hmem : ∀ a ∈ current s ++ q, entry mem a = entry s.mem a ∧ next mem a = next s.mem a)
    (sems : Sem → Option ℕ) (pc : τ → Pc) (returned : List ℤ) (inUse : List Addr) (own : List Sem) :
    Queue { s with mem := mem, sems := sems, pc := pc, returned := returned, inUse := inUse, own := own } q where
  chain := h.chain.congr fun a ha => (hmem a (List.mem_append_right _ ha)).2
  submitted := by
    have hmap : (current s ++ q).map (entry mem) = (current s ++ q).map (entry s.mem) :=
      List.map_congr_left fun a ha => (hmem a ha).1
    show s.submitted = s.completed ++ (current s ++ q).map (entry mem)
    rw [hmap]
    exact h.submitted
  given := by
    have hmap : (current s).map (entry mem) = (current s).map (entry s.mem) :=
      List.map_congr_left fun a ha => (hmem a (List.mem_append_left _ ha)).1
    show s.given = s.completed ++ (current s).map (entry mem)
    rw [hmap]
    exact h.given
  nodup := h.nodup
  device := h.device
  idle := h.idle
  failed := h.failed

/-- A write to a node outside the queue. -/
theorem Queue.write (h : Queue s q) (ha : a ∉ current s ++ q) (r : Request) (sems : Sem → Option ℕ)
    (pc : τ → Pc) (returned : List ℤ) (inUse : List Addr) (own : List Sem) :
    Queue { s with
      mem := Function.update s.mem a r, sems := sems, pc := pc, returned := returned, inUse := inUse,
      own := own } q := by
  apply h.frame
  intro b hb
  have hne : b ≠ a := by
    rintro rfl
    exact ha hb
  unfold entry next
  rw [Function.update_of_ne hne]
  exact ⟨rfl, rfl⟩

/-- A place depends on the thread's own node and semaphore. -/
theorem At.frame (h : At s P p)
    (hn : ∀ a, p.node = some a → a ∈ s'.inUse ∧ (a ∈ P' ↔ a ∈ P) ∧ (s'.mem a).sem = (s.mem a).sem ∧
      (s'.mem a).returnValue = (s.mem a).returnValue ∧ (a ∉ P → (s'.mem a).next = (s.mem a).next) ∧
      ∀ {x}, (s.mem a).sem = some x → (x ∈ s'.own ↔ x ∈ s.own) ∧ (x ∈ s.own → s'.sems x = s.sems x)) :
    At s' P' p := by
  cases p with
  | outside => trivial
  | creating a =>
    obtain ⟨-, hP, hnext, hret, hsem⟩ := h
    obtain ⟨huse, hiff, hsem', hret', hnext', -⟩ := hn a rfl
    exact ⟨huse, fun hm => hP (hiff.1 hm), (hnext' hP).trans hnext, hret'.trans hret, hsem'.trans hsem⟩
  | scheduling a sync =>
    obtain ⟨-, hP, hnext, hret, x, hsem, hown, hzero⟩ := h
    obtain ⟨huse, hiff, hsem', hret', hnext', hx⟩ := hn a rfl
    refine ⟨huse, fun hm => hP (hiff.1 hm), (hnext' hP).trans hnext, hret'.trans hret, x, hsem'.trans hsem,
      (hx hsem).1.trans hown, fun hmem => ?_⟩
    have hmem := (hx hsem).1.1 hmem
    rw [(hx hsem).2 hmem]
    exact hzero hmem
  | waiting a =>
    obtain ⟨-, x, hsem, hown, hdone⟩ := h
    obtain ⟨huse, hiff, hsem', hret, -, hx⟩ := hn a rfl
    refine ⟨huse, x, hsem'.trans hsem, (hx hsem).1.2 hown, ?_⟩
    rw [(hx hsem).2 hown, hret, hiff]
    exact hdone

theorem At.mem_inUse (h : At s P p) (hp : p.node = some a) : a ∈ s.inUse := by
  cases p with
  | outside => cases hp
  | creating b =>
    cases hp
    exact h.1
  | scheduling b sync =>
    cases hp
    exact h.1
  | waiting b =>
    cases hp
    exact h.1

end Frame

/-! ## Steps of the callers -/

section Callers

variable {s s' : State τ} {q P P' : List Addr} {p : Pc} {a : Addr} {t : τ}

/-- The callers leave the nodes in use and the semaphores of requests alone. -/
theorem Calls.env (hc : Calls s P) (mem : Addr → Request) {sems : Sem → Option ℕ}
    (hmem : ∀ a ∈ s.inUse, mem a = s.mem a)
    (hsems : ∀ a ∈ s.inUse, ∀ {x}, (s.mem a).sem = some x → (x ∈ s.own → sems x = s.sems x) ∧ sems x ≠ none) :
    Calls { s with mem := mem, sems := sems } P where
  places := by
    intro t
    refine (hc.places t).frame fun a ha => ?_
    have huse := (hc.places t).mem_inUse ha
    show a ∈ s.inUse ∧ (a ∈ P ↔ a ∈ P) ∧ (mem a).sem = (s.mem a).sem ∧
      (mem a).returnValue = (s.mem a).returnValue ∧ (a ∉ P → (mem a).next = (s.mem a).next) ∧ _
    rw [hmem a huse]
    exact ⟨huse, Iff.rfl, rfl, rfl, fun _ => rfl, fun hx => ⟨Iff.rfl, (hsems a huse hx).1⟩⟩
  unique := hc.unique
  ne_null := hc.ne_null
  pending := by
    intro a ha
    obtain ⟨huse, hx⟩ := hc.pending a ha
    show a ∈ s.inUse ∧ ∃ x, (mem a).sem = some x ∧ _
    rw [hmem a huse]
    exact ⟨huse, hx⟩
  allocated := by
    intro a ha x hx
    have hx : (mem a).sem = some x := hx
    rw [hmem a ha] at hx
    exact (hsems a ha hx).2
  alone := by
    intro a ha b hb x hx hax hbx
    have hax : (mem a).sem = some x := hax
    have hbx : (mem b).sem = some x := hbx
    rw [hmem a ha] at hax
    rw [hmem b hb] at hbx
    exact hc.alone a ha b hb hx hax hbx
  results := hc.results
  unanswered := by
    intro a ha
    show (mem a).returnValue = -1
    rw [hmem a (hc.pending a ha).1]
    exact hc.unanswered a ha

/-- A caller changes a semaphore of its own. -/
theorem Calls.setSem (hc : Calls s P) {x : Sem} {v : Option ℕ}
    (hx : ∀ a ∈ s.inUse, (s.mem a).sem = some x → x ∉ s.own ∧ v ≠ none) :
    Calls { s with sems := Function.update s.sems x v } P := by
  refine hc.env s.mem (fun _ _ => rfl) fun a ha y hy => ?_
  obtain rfl | hne := eq_or_ne y x
  · obtain ⟨hown, hv⟩ := hx a ha hy
    refine ⟨fun hm => absurd hm hown, ?_⟩
    rw [Function.update_self]
    exact hv
  · rw [Function.update_of_ne hne]
    exact ⟨fun _ => rfl, hc.allocated a ha hy⟩

variable [DecidableEq τ]

/-- One thread moves; the others rely on their own nodes and semaphores only. -/
theorem Calls.places_update (hc : Calls s P) (hpc : s'.pc = Function.update s.pc t p) (hAt : At s' P' p)
    (hother : ∀ u, u ≠ t → ∀ a, (s.pc u).node = some a → a ∈ s'.inUse ∧ (a ∈ P' ↔ a ∈ P) ∧
      (s'.mem a).sem = (s.mem a).sem ∧ (s'.mem a).returnValue = (s.mem a).returnValue ∧
      (a ∉ P → (s'.mem a).next = (s.mem a).next) ∧
      ∀ {x}, (s.mem a).sem = some x → (x ∈ s'.own ↔ x ∈ s.own) ∧ (x ∈ s.own → s'.sems x = s.sems x)) :
    ∀ u, At s' P' (s'.pc u) := by
  intro u
  rw [hpc]
  obtain rfl | hu := eq_or_ne u t
  · rw [Function.update_self]
    exact hAt
  · rw [Function.update_of_ne hu]
    exact (hc.places u).frame (hother u hu)

theorem Calls.unique_update (hc : Calls s P) (hpc : s'.pc = Function.update s.pc t p)
    (hnode : ∀ {u a}, p.node = some a → (s.pc u).node = some a → u = t) {u v : τ}
    (hu : (s'.pc u).node = some a) (hv : (s'.pc v).node = some a) : u = v := by
  rw [hpc] at hu hv
  obtain rfl | hut := eq_or_ne u t
  · obtain rfl | hvt := eq_or_ne v u
    · rfl
    · rw [Function.update_self] at hu
      rw [Function.update_of_ne hvt] at hv
      exact (hnode hu hv).symm
  · rw [Function.update_of_ne hut] at hu
    obtain rfl | hvt := eq_or_ne v t
    · rw [Function.update_self] at hv
      exact hnode hv hu
    · rw [Function.update_of_ne hvt] at hv
      exact hc.unique hu hv

/-- A thread outside of the driver submits a node that is not in use. -/
theorem Calls.submit (hc : Calls s P) (ht : s.pc t = .outside) (ha : a ≠ NULL) (huse : a ∉ s.inUse)
    {r : Request}
    (hAt : At ({ s.setMem a r with inUse := a :: s.inUse }.setPc t p) P p)
    (hp : ∀ {b}, p.node = some b → b = a) (hsem : ∀ {x}, r.sem = some x → x ∉ s.own ∧ s.sems x ≠ none) :
    Calls ({ s.setMem a r with inUse := a :: s.inUse }.setPc t p) P := by
  have hne : ∀ {b}, b ∈ s.inUse → b ≠ a := by
    rintro b hb rfl
    exact huse hb
  have hmem : ∀ {b}, b ∈ s.inUse → Function.update s.mem a r b = s.mem b :=
    fun hb => Function.update_of_ne (hne hb) _ _
  have hself : Function.update s.mem a r a = r := Function.update_self _ _ _
  refine ⟨hc.places_update rfl hAt fun u hu b hb => ?_, hc.unique_update rfl fun hpb hub => ?_, ?_,
    fun b hb => ?_, fun b hb x hx => ?_, fun b hb c hd x hx hbx hcx => ?_, hc.results, fun b hb => ?_⟩
  · have huse := (hc.places u).mem_inUse hb
    show b ∈ a :: s.inUse ∧ (b ∈ P ↔ b ∈ P) ∧ (Function.update s.mem a r b).sem = (s.mem b).sem ∧
      (Function.update s.mem a r b).returnValue = (s.mem b).returnValue ∧
      (b ∉ P → (Function.update s.mem a r b).next = (s.mem b).next) ∧ _
    rw [hmem huse]
    exact ⟨List.mem_cons_of_mem _ huse, Iff.rfl, rfl, rfl, fun _ => rfl, fun _ => ⟨Iff.rfl, fun _ => rfl⟩⟩
  · rw [hp hpb] at hub
    exact absurd ((hc.places _).mem_inUse hub) huse
  · intro hnull
    obtain h | h := List.mem_cons.1 hnull
    · exact ha h.symm
    · exact hc.ne_null h
  · obtain ⟨hb', x, hx, hown⟩ := hc.pending b hb
    refine ⟨List.mem_cons_of_mem _ hb', x, ?_, fun hm => ?_⟩
    · show (Function.update s.mem a r b).sem = some x
      rw [hmem hb']
      exact hx
    · obtain ⟨u, hu⟩ := hown hm
      refine ⟨u, ?_⟩
      have hut : u ≠ t := by
        rintro rfl
        rw [ht] at hu
        cases hu
      exact (Function.update_of_ne hut _ _).trans hu
  · have hx : (Function.update s.mem a r b).sem = some x := hx
    obtain rfl | hb := List.mem_cons.1 hb
    · rw [hself] at hx
      exact (hsem hx).2
    · rw [hmem hb] at hx
      exact hc.allocated b hb hx
  · have hbx : (Function.update s.mem a r b).sem = some x := hbx
    have hcx : (Function.update s.mem a r c).sem = some x := hcx
    have hx : x ∈ s.own := hx
    obtain rfl | hb := List.mem_cons.1 hb
    · rw [hself] at hbx
      exact absurd hx (hsem hbx).1
    · obtain rfl | hd := List.mem_cons.1 hd
      · rw [hself] at hcx
        exact absurd hx (hsem hcx).1
      · rw [hmem hb] at hbx
        rw [hmem hd] at hcx
        exact hc.alone b hb c hd hx hbx hcx
  · show (Function.update s.mem a r b).returnValue = -1
    rw [hmem (hc.pending b hb).1]
    exact hc.unanswered b hb

end Callers

section Synchronous

variable [DecidableEq τ] {s : State τ} {P : List Addr} {a : Addr} {t : τ} {x : Sem}

/-- Somebody still waits for the request in `a` when another thread moves. -/
theorem waits_update (pc : τ → Pc) (p : Pc) (hw : pc t ≠ .waiting a) (hx : ∃ u, pc u = .waiting a) :
    ∃ u, Function.update pc t p u = .waiting a := by
  obtain ⟨u, hu⟩ := hx
  refine ⟨u, ?_⟩
  rw [Function.update_of_ne, hu]
  rintro rfl
  exact hw hu

/-- `semaphore_create` fails. -/
theorem Calls.createFailed (hc : Calls s P) (ht : s.pc t = .creating a) :
    Calls ({ s with inUse := s.inUse.erase a }.setPc t .outside) P := by
  have hAt := hc.places t
  rw [ht] at hAt
  have hmem : ∀ {b}, b ∈ s.inUse.erase a → b ∈ s.inUse := fun h => List.mem_of_mem_erase h
  refine ⟨hc.places_update rfl trivial fun u hu b hb => ?_,
    hc.unique_update rfl (fun h => (Option.some_ne_none _ h.symm).elim),
    fun h => hc.ne_null (hmem h), fun b hb => ?_, fun b hb x hx => hc.allocated b (hmem hb) hx,
    fun b hb c hd x hx => hc.alone b (hmem hb) c (hmem hd) hx, hc.results, hc.unanswered⟩
  · have hne : b ≠ a := by
      rintro rfl
      exact hu (hc.unique hb (by rw [ht]; rfl))
    exact ⟨(List.mem_erase_of_ne hne).2 ((hc.places u).mem_inUse hb), Iff.rfl, rfl, rfl, fun _ => rfl,
      fun _ => ⟨Iff.rfl, fun _ => rfl⟩⟩
  · have hne : b ≠ a := by
      rintro rfl
      exact hAt.2.1 hb
    obtain ⟨huse, x, hx, hown⟩ := hc.pending b hb
    exact ⟨(List.mem_erase_of_ne hne).2 huse, x, hx, fun hm =>
      waits_update s.pc _ (by rw [ht]; exact Pc.noConfusion) (hown hm)⟩

/-- `semaphore_create` succeeds. -/
theorem Calls.created (hc : Calls s P) (ht : s.pc t = .creating a) (hx : s.sems x = none) :
    Calls ({ s.setMem a { s.mem a with sem := some x } with
      sems := Function.update s.sems x (some 0), own := x :: s.own }.setPc t (.scheduling a true)) P := by
  obtain ⟨huse, hP, hnext, hret, hsem⟩ : At s P (.creating a) := ht ▸ hc.places t
  let r : Request := { s.mem a with sem := some x }
  have hself : Function.update s.mem a r a = r := Function.update_self _ _ _
  have hmem : ∀ {b}, b ≠ a → Function.update s.mem a r b = s.mem b := fun hb => Function.update_of_ne hb _ _
  -- The new semaphore belongs to no request.
  have hfresh : ∀ {b y}, b ∈ s.inUse → (s.mem b).sem = some y → y ≠ x := by
    rintro b y hb hy rfl
    exact hc.allocated b hb hy hx
  have hcons : ∀ {y}, y ≠ x → (y ∈ x :: s.own ↔ y ∈ s.own) := by
    intro y hy
    rw [List.mem_cons]
    exact or_iff_right hy
  refine ⟨hc.places_update rfl ?_ fun u hu b hb => ?_, hc.unique_update rfl fun hb hu => ?_, hc.ne_null,
    fun b hb => ?_, fun b hb y hy => ?_, fun b hb c hd y hy hby hcy => ?_, hc.results, fun b hb => ?_⟩
  · refine ⟨huse, hP, ?_, ?_, x, ?_, ?_, fun _ => Function.update_self _ _ _⟩
    · show (Function.update s.mem a r a).next = NULL
      rw [hself]
      exact hnext
    · show (Function.update s.mem a r a).returnValue = -1
      rw [hself]
      exact hret
    · show (Function.update s.mem a r a).sem = some x
      rw [hself]
    · exact iff_of_true List.mem_cons_self rfl
  · have hne : b ≠ a := by
      rintro rfl
      exact hu (hc.unique hb (by rw [ht]; rfl))
    have hb' := (hc.places u).mem_inUse hb
    show b ∈ s.inUse ∧ (b ∈ P ↔ b ∈ P) ∧ (Function.update s.mem a r b).sem = (s.mem b).sem ∧
      (Function.update s.mem a r b).returnValue = (s.mem b).returnValue ∧
      (b ∉ P → (Function.update s.mem a r b).next = (s.mem b).next) ∧ _
    rw [hmem hne]
    refine ⟨hb', Iff.rfl, rfl, rfl, fun _ => rfl, fun hy => ⟨hcons (hfresh hb' hy), fun _ => ?_⟩⟩
    exact Function.update_of_ne (hfresh hb' hy) _ _
  · cases hb
    exact hc.unique hu (by rw [ht]; rfl)
  · have hne : b ≠ a := by
      rintro rfl
      exact hP hb
    obtain ⟨hb', y, hy, hown⟩ := hc.pending b hb
    refine ⟨hb', y, ?_, fun hm => ?_⟩
    · show (Function.update s.mem a r b).sem = some y
      rw [hmem hne]
      exact hy
    · refine waits_update s.pc _ ?_ (hown ((hcons (hfresh hb' hy)).1 hm))
      rw [ht]
      exact Pc.noConfusion
  · have hy : (Function.update s.mem a r b).sem = some y := hy
    show Function.update s.sems x (some 0) y ≠ none
    obtain rfl | hne := eq_or_ne b a
    · rw [hself] at hy
      cases hy
      rw [Function.update_self]
      exact Option.some_ne_none 0
    · rw [hmem hne] at hy
      rw [Function.update_of_ne (hfresh hb hy)]
      exact hc.allocated b hb hy
  · have hby : (Function.update s.mem a r b).sem = some y := hby
    have hcy : (Function.update s.mem a r c).sem = some y := hcy
    obtain rfl | hne := eq_or_ne y x
    · have hself' : ∀ {d}, d ∈ s.inUse → (Function.update s.mem a r d).sem = some y → d = a := by
        intro d hd hdy
        by_contra hda
        rw [hmem hda] at hdy
        exact hfresh hd hdy rfl
      rw [hself' hb hby, hself' hd hcy]
    · have hother : ∀ {d}, (Function.update s.mem a r d).sem = some y → d ≠ a := by
        rintro d hdy rfl
        rw [hself] at hdy
        exact hne (Option.some.inj hdy).symm
      rw [hmem (hother hby)] at hby
      rw [hmem (hother hcy)] at hcy
      exact hc.alone b hb c hd ((hcons hne).1 hy) hby hcy
  · show (Function.update s.mem a r b).returnValue = -1
    have hne : b ≠ a := by
      rintro rfl
      exact hP hb
    rw [hmem hne]
    exact hc.unanswered b hb

/-- The semaphore of a waiting thread is raised: its request is completed, and the call returns 1. -/
theorem Calls.finish (hc : Calls s P) (ht : s.pc t = .waiting a) (hx : (s.mem a).sem = some x) {v : ℕ}
    (hv : s.sems x = some (v + 1)) : a ∉ P ∧ Calls ((s.diskFinish a x).setPc t .outside) P := by
  obtain ⟨huse, y, hy, hown, hdone⟩ : At s P (.waiting a) := ht ▸ hc.places t
  obtain rfl : x = y := Option.some.inj (hx.symm.trans hy)
  obtain ⟨-, h0⟩ | ⟨hP, hret, -⟩ := hdone
  · rw [hv] at h0
    cases h0
  refine ⟨hP, ?_⟩
  let r : Request := { s.mem a with sem := none }
  have hself : Function.update s.mem a r a = r := Function.update_self _ _ _
  have hmem : ∀ {b}, b ≠ a → Function.update s.mem a r b = s.mem b := fun hb => Function.update_of_ne hb _ _
  have herase : ∀ {b}, b ∈ s.inUse.erase a → b ∈ s.inUse := fun h => List.mem_of_mem_erase h
  -- No other request has this semaphore.
  have hother : ∀ {b z}, b ∈ s.inUse → b ≠ a → (s.mem b).sem = some z → z ≠ x := by
    rintro b z hb hne hz rfl
    exact hne (hc.alone b hb a huse hown hz hx)
  have hsem : ∀ {b z}, (Function.update s.mem a r b).sem = some z → b ≠ a := by
    rintro b z hz rfl
    rw [hself] at hz
    cases hz
  refine ⟨hc.places_update rfl trivial fun u hu b hb => ?_,
    hc.unique_update rfl (fun h => (Option.some_ne_none _ h.symm).elim),
    fun h => hc.ne_null (herase h), fun b hb => ?_, fun b hb z hz => ?_, fun b hb c hd z hz hbz hcz => ?_,
    fun w hw => ?_, fun b hb => ?_⟩
  · have hne : b ≠ a := by
      rintro rfl
      exact hu (hc.unique hb (by rw [ht]; rfl))
    have hb' := (hc.places u).mem_inUse hb
    show b ∈ s.inUse.erase a ∧ (b ∈ P ↔ b ∈ P) ∧ (Function.update s.mem a r b).sem = (s.mem b).sem ∧
      (Function.update s.mem a r b).returnValue = (s.mem b).returnValue ∧
      (b ∉ P → (Function.update s.mem a r b).next = (s.mem b).next) ∧ _
    rw [hmem hne]
    refine ⟨(List.mem_erase_of_ne hne).2 hb', Iff.rfl, rfl, rfl, fun _ => rfl, fun hz => ?_⟩
    exact ⟨List.mem_erase_of_ne (hother hb' hne hz), fun _ => Function.update_of_ne (hother hb' hne hz) _ _⟩
  · have hne : b ≠ a := by
      rintro rfl
      exact hP hb
    obtain ⟨hb', z, hz, hown'⟩ := hc.pending b hb
    refine ⟨(List.mem_erase_of_ne hne).2 hb', z, ?_, fun hm => ?_⟩
    · show (Function.update s.mem a r b).sem = some z
      rw [hmem hne]
      exact hz
    · refine waits_update s.pc _ ?_ (hown' (List.mem_of_mem_erase hm))
      rw [ht]
      intro h
      exact hne (Pc.waiting.inj h).symm
  · have hz : (Function.update s.mem a r b).sem = some z := hz
    have hne := hsem hz
    rw [hmem hne] at hz
    show Function.update s.sems x none z ≠ none
    rw [Function.update_of_ne (hother (herase hb) hne hz)]
    exact hc.allocated b (herase hb) hz
  · have hbz : (Function.update s.mem a r b).sem = some z := hbz
    have hcz : (Function.update s.mem a r c).sem = some z := hcz
    rw [hmem (hsem hbz)] at hbz
    rw [hmem (hsem hcz)] at hcz
    exact hc.alone b (herase hb) c (herase hd) (List.mem_of_mem_erase hz) hbz hcz
  · obtain hw | hw := List.mem_append.1 hw
    · exact hc.results w hw
    · rw [List.mem_singleton.1 hw, if_pos hret]
  · show (Function.update s.mem a r b).returnValue = -1
    have hne : b ≠ a := by
      rintro rfl
      exact hP hb
    rw [hmem hne]
    exact hc.unanswered b hb

end Synchronous

/-! ## Steps of the driver -/

section Driver

variable {s s' : State τ} {q P : List Addr} {a : Addr} {x : Sem}

theorem current_idle (h : s.served = NULL) : current s = [] := if_pos (.inr h)

theorem current_handling (h : s.handling = true) : current s = [] := if_pos (.inl h)

theorem current_served (hh : s.handling = false) (h : s.served ≠ NULL) : current s = [s.served] := by
  apply if_neg
  rw [hh]
  exact fun hor => hor.elim Bool.noConfusion h

/-- Without a current request the device is idle. -/
theorem Queue.device_idle (h : Queue s q) (hcur : current s = []) : s.busy = false ∧ s.irq = false := by
  have hdev := h.device
  rw [hcur, List.length_nil] at hdev
  cases hb : s.busy <;> cases hi : s.irq <;> simp_all

/-- Without a current request everything is completed. -/
theorem Queue.all_completed {q : List Addr} (h : Queue s q) (hh : s.handling = false)
    (hcur : current s = []) : s.completed = s.submitted := by
  have hserved : s.served = NULL := by
    by_contra hne
    rw [current_served hh hne] at hcur
    cases hcur
  have hsub := h.submitted
  rw [hcur, h.idle hh hserved] at hsub
  exact (hsub.trans (List.append_nil _)).symm

/-- A write to the field `next` changes no request. -/
theorem entry_setNext (mem : Addr → Request) (a n b : Addr) :
    entry (Function.update mem a { mem a with next := n }) b = entry mem b := by
  unfold entry
  obtain rfl | hb := eq_or_ne b a
  · rw [Function.update_self]
  · rw [Function.update_of_ne hb]

theorem next_setNext (mem : Addr → Request) (a n : Addr) :
    next (Function.update mem a { mem a with next := n }) = Function.update (next mem) a n := by
  funext b
  unfold next
  obtain rfl | hb := eq_or_ne b a
  · rw [Function.update_self, Function.update_self]
  · rw [Function.update_of_ne hb, Function.update_of_ne hb]

/-- The callers see of a change of the links only that of their own submitted nodes. -/
theorem Calls.relink (hc : Calls s P) (hsem : ∀ b, (s'.mem b).sem = (s.mem b).sem)
    (hret : ∀ b, (s'.mem b).returnValue = (s.mem b).returnValue)
    (hnext : ∀ b, b ∉ P → (s'.mem b).next = (s.mem b).next) (hsems : s'.sems = s.sems) (hpc : s'.pc = s.pc)
    (hown : s'.own = s.own) (huse : s'.inUse = s.inUse) (hres : s'.returned = s.returned) : Calls s' P where
  places := by
    intro t
    rw [hpc]
    refine (hc.places t).frame fun b hb => ⟨huse ▸ (hc.places t).mem_inUse hb, Iff.rfl, hsem b, hret b,
      hnext b, fun _ => ?_⟩
    rw [hown, hsems]
    exact ⟨Iff.rfl, fun _ => rfl⟩
  unique := by
    rw [hpc]
    exact hc.unique
  ne_null := huse ▸ hc.ne_null
  pending := by
    intro b hb
    rw [huse, hown, hpc, hsem]
    exact hc.pending b hb
  allocated := by
    intro b hb y hy
    rw [hsem] at hy
    rw [hsems]
    exact hc.allocated b (huse ▸ hb) hy
  alone := by
    intro b hb c hd y hy hby hcy
    rw [hsem] at hby hcy
    exact hc.alone b (huse ▸ hb) c (huse ▸ hd) (hown ▸ hy) hby hcy
  results := hres ▸ hc.results
  unanswered := fun b hb => (hret b).trans (hc.unanswered b hb)

/-- The state in which `disk_next_request` finds a request in the queue. -/
def taken (s : State τ) : State τ :=
  { s with
    queue := (s.mem s.queue).next
    mem := Function.update s.mem s.queue { s.mem s.queue with next := NULL }
    served := s.queue
    busy := true
    given := s.given ++ [entry s.mem s.queue] }

theorem diskNextRequest_empty (hb : s.busy = false) (hs : s.served = NULL) (hq : s.queue = NULL) :
    s.diskNextRequest = s := by
  unfold State.diskNextRequest
  rw [if_neg, if_pos hq]
  rw [hb, hs]
  simp

theorem diskNextRequest_taken (hb : s.busy = false) (hs : s.served = NULL) (hq : s.queue ≠ NULL) :
    s.diskNextRequest = taken s := by
  unfold State.diskNextRequest
  rw [if_neg, if_neg hq]
  · rfl
  · rw [hb, hs]
    simp

/-- **`disk_next_request`** on an idle device: the first request of the queue, if there is one, is given to
the device, and nothing is lost. -/
theorem next_spec (hchain : Chain (next s.mem) NULL s.queue q) (hb : s.busy = false) (hi : s.irq = false)
    (hs : s.served = NULL) (hf : s.failed = false)
    (hsub : s.submitted = s.completed ++ q.map (entry s.mem)) (hgiven : s.given = s.completed)
    (hc : Calls s q) :
    ∃ q', Queue { s.diskNextRequest with handling := false } q' ∧
      current { s.diskNextRequest with handling := false } ++ q' = q ∧
      Calls { s.diskNextRequest with handling := false } q := by
  cases q with
  | nil =>
    have hq : s.queue = NULL := hchain.seg
    rw [diskNextRequest_empty hb hs hq]
    have hcur : current { s with handling := false } = [] := current_idle hs
    refine ⟨[], ⟨hchain, ?_, ?_, ?_, ?_, fun _ _ => rfl, hf⟩, ?_, ?_⟩
    · rw [hcur]
      exact hsub
    · rw [hcur]
      exact hgiven.trans (List.append_nil _).symm
    · rw [hcur]
      exact List.nodup_nil
    · rw [hcur]
      show s.busy.toNat + s.irq.toNat = 0
      rw [hb, hi]
      rfl
    · rw [hcur]
      rfl
    · exact hc.relink (fun _ => rfl) (fun _ => rfl) (fun _ _ => rfl) rfl rfl rfl rfl rfl
  | cons a q' =>
    obtain rfl : s.queue = a := hchain.seg.1
    have hne : s.queue ≠ NULL := fun h => hchain.end_notMem (h ▸ List.mem_cons_self)
    have hnotin : s.queue ∉ q' := (List.nodup_cons.1 hchain.nodup).1
    rw [diskNextRequest_taken hb hs hne]
    have hcur : current { taken s with handling := false } = [s.queue] := current_served rfl hne
    have hentry : entry (taken s).mem = entry s.mem := funext fun b => entry_setNext s.mem s.queue NULL b
    refine ⟨q', ⟨?_, ?_, ?_, ?_, ?_, fun _ h => absurd h hne, hf⟩, ?_, ?_⟩
    · show Chain (next (Function.update s.mem s.queue { s.mem s.queue with next := NULL })) NULL
        (next s.mem s.queue) q'
      rw [next_setNext]
      exact hchain.tail.update hnotin
    · rw [hcur]
      show s.submitted = s.completed ++ ([s.queue] ++ q').map (entry (taken s).mem)
      rw [hentry]
      exact hsub
    · rw [hcur]
      show s.given ++ [entry s.mem s.queue] = s.completed ++ [s.queue].map (entry (taken s).mem)
      rw [hentry, hgiven]
      rfl
    · rw [hcur]
      exact hchain.nodup
    · rw [hcur]
      show true.toNat + s.irq.toNat = 1
      rw [hi]
      rfl
    · rw [hcur]
      rfl
    · refine hc.relink (fun b => ?_) (fun b => ?_) (fun b hb => ?_) rfl rfl rfl rfl rfl
      · exact congrArg Entry.sem (entry_setNext s.mem s.queue NULL b)
      · show (Function.update s.mem s.queue _ b).returnValue = _
        obtain rfl | hb := eq_or_ne b s.queue
        · rw [Function.update_self]
        · rw [Function.update_of_ne hb]
      · show (Function.update s.mem s.queue _ b).next = _
        rw [Function.update_of_ne]
        rintro rfl
        exact hb List.mem_cons_self

/-- **The rest of the interrupt handler.** -/
theorem Queue.interruptNext (h : Queue s q) (hh : s.handling = true) (hc : Calls s q) :
    ∃ q', Queue { { s with served := NULL }.diskNextRequest with handling := false } q' ∧
      Calls { { s with served := NULL }.diskNextRequest with handling := false }
        (current { { s with served := NULL }.diskNextRequest with handling := false } ++ q') := by
  have hcur := current_handling hh
  have hsub := h.submitted
  have hgiven := h.given
  rw [hcur] at hsub hgiven
  obtain ⟨hbusy, hirq⟩ := h.device_idle hcur
  obtain ⟨q', hq', hP, hc'⟩ := next_spec (s := { s with served := NULL }) h.chain hbusy hirq rfl h.failed
    hsub (hgiven.trans (List.append_nil _))
    (hc.relink (fun _ => rfl) (fun _ => rfl) (fun _ _ => rfl) rfl rfl rfl rfl rfl)
  exact ⟨q', hq', hP ▸ hc'⟩

/-- The state after `semaphore_V` of the handler, where `x` is the semaphore of the request. -/
def raised (s : State τ) (x : Sem) : State τ :=
  { s with
    irq := false
    mem := Function.update s.mem s.served { s.mem s.served with returnValue := 0 }
    sems := Function.update s.sems x ((s.sems x).map (· + 1))
    completed := s.completed ++ [entry s.mem s.served]
    handling := true
    inUse := if x ∈ s.own then s.inUse else s.inUse.erase s.served }

theorem diskInterrupt_raised (hne : s.served ≠ NULL) (hx : (s.mem s.served).sem = some x) :
    s.diskInterrupt = raised s x := by
  unfold State.diskInterrupt
  rw [if_neg hne, hx]
  rfl

/-- A write to the field `return_value` changes neither requests nor links. -/
theorem raised_entry (x : Sem) : entry (raised s x).mem = entry s.mem ∧ next (raised s x).mem = next s.mem := by
  constructor
  · funext b
    show entry (Function.update s.mem s.served _) b = _
    unfold entry
    obtain rfl | hb := eq_or_ne b s.served
    · rw [Function.update_self]
    · rw [Function.update_of_ne hb]
  · funext b
    show next (Function.update s.mem s.served _) b = _
    unfold next
    obtain rfl | hb := eq_or_ne b s.served
    · rw [Function.update_self]
    · rw [Function.update_of_ne hb]

theorem raised_sem (x : Sem) (b : Addr) : ((raised s x).mem b).sem = (s.mem b).sem :=
  congrArg Entry.sem (congrFun (raised_entry x).1 b)

/-- Where an interrupt is raised, a request is served and the device is not busy. -/
theorem Queue.device_irq (h : Queue s q) (hh : s.handling = false) (hi : s.irq = true) :
    s.served ≠ NULL ∧ s.busy = false := by
  have hdev := h.device
  rw [hi] at hdev
  have hne : s.served ≠ NULL := by
    intro h0
    rw [current_idle h0] at hdev
    simp at hdev
  refine ⟨hne, ?_⟩
  rw [current_served hh hne] at hdev
  cases hb : s.busy with
  | false => rfl
  | true =>
    rw [hb] at hdev
    simp at hdev

/-- The request that the device was working on is completed. -/
theorem Queue.raised (h : Queue s q) (hh : s.handling = false) (hi : s.irq = true) (x : Sem) :
    Queue (raised s x) q := by
  obtain ⟨hne, hbusy⟩ := h.device_irq hh hi
  obtain ⟨hentry, hnext⟩ := raised_entry (s := s) x
  have hnd := h.nodup
  have hsub := h.submitted
  have hgiven := h.given
  rw [current_served hh hne] at hnd hsub hgiven
  refine ⟨hnext ▸ h.chain, ?_, hgiven.trans (List.append_nil _).symm, hnd.of_cons, ?_,
    fun h => Bool.noConfusion h, h.failed⟩
  · show s.submitted = (s.completed ++ [entry s.mem s.served]) ++ q.map (entry (Disk.raised s x).mem)
    rw [hentry, List.append_assoc]
    exact hsub
  · show s.busy.toNat + false.toNat = 0
    rw [hbusy]
    rfl

/-- The caller of that request finds its semaphore raised, and the other callers notice nothing. -/
theorem At.raised {t : τ} (hc : Calls s (s.served :: q)) (hnotin : s.served ∉ q)
    (hx : (s.mem s.served).sem = some x) (huse : ∀ {b}, b ∈ s.inUse → (b = s.served → x ∈ s.own) →
      b ∈ (raised s x).inUse) : At (raised s x) q (s.pc t) := by
  have hAt := hc.places t
  have hserved : s.served ∈ s.inUse := (hc.pending s.served List.mem_cons_self).1
  -- Another request with this semaphore is asynchronous.
  have hother : ∀ {b y}, b ∈ s.inUse → b ≠ s.served → (s.mem b).sem = some y → y ∈ s.own → y ≠ x := by
    rintro b y hb hbs hy hown rfl
    exact hbs (hc.alone b hb s.served hserved hown hy hx)
  by_cases hnode : (s.pc t).node = some s.served
  · cases hp : s.pc t with
    | outside =>
      rw [hp] at hnode
      cases hnode
    | creating b =>
      rw [hp] at hnode hAt
      cases hnode
      exact absurd List.mem_cons_self hAt.2.1
    | scheduling b sync =>
      rw [hp] at hnode hAt
      cases hnode
      exact absurd List.mem_cons_self hAt.2.1
    | waiting b =>
      rw [hp] at hnode hAt
      cases hnode
      obtain ⟨-, y, hy, hown, hdone⟩ := hAt
      obtain rfl : x = y := Option.some.inj (hx.symm.trans hy)
      obtain ⟨-, h0⟩ | ⟨hnot, -, -⟩ := hdone
      · refine ⟨huse hserved fun _ => hown, x, (raised_sem x _).trans hx, hown, .inr ⟨hnotin, ?_, ?_⟩⟩
        · show (Function.update s.mem s.served _ s.served).returnValue = 0
          rw [Function.update_self]
        · show Function.update s.sems x ((s.sems x).map (· + 1)) x = some 1
          rw [Function.update_self, h0]
          rfl
      · exact absurd List.mem_cons_self hnot
  · refine hAt.frame fun b hb => ?_
    have hbs : b ≠ s.served := by
      rintro rfl
      exact hnode hb
    have hmem : (Disk.raised s x).mem b = s.mem b := Function.update_of_ne hbs _ _
    have hb' := hAt.mem_inUse hb
    rw [hmem]
    refine ⟨huse hb' fun he => absurd he hbs, ?_, rfl, rfl, fun _ => rfl, fun hy => ⟨Iff.rfl, fun hown =>
      Function.update_of_ne (hother hb' hbs hy hown) _ _⟩⟩
    exact (or_iff_right hbs).symm.trans List.mem_cons.symm

theorem Calls.raised (hc : Calls s (s.served :: q)) (hnotin : s.served ∉ q)
    (hx : (s.mem s.served).sem = some x) : Calls (raised s x) q := by
  have hkeep : ∀ {b}, b ∈ s.inUse → (b = s.served → x ∈ s.own) → b ∈ (Disk.raised s x).inUse := by
    intro b hb hbs
    show b ∈ if x ∈ s.own then s.inUse else s.inUse.erase s.served
    split
    · exact hb
    · rename_i hown
      exact (List.mem_erase_of_ne fun he => hown (hbs he)).2 hb
  have hold : ∀ {b}, b ∈ (Disk.raised s x).inUse → b ∈ s.inUse := by
    intro b hb
    have hb : b ∈ if x ∈ s.own then s.inUse else s.inUse.erase s.served := hb
    split at hb
    · exact hb
    · exact List.mem_of_mem_erase hb
  refine ⟨fun t => At.raised hc hnotin hx hkeep, hc.unique, fun h => hc.ne_null (hold h), fun b hb => ?_,
    fun b hb y hy => ?_, fun b hb c hd y hy hby hcy => ?_, hc.results, fun b hb => ?_⟩
  · obtain ⟨hb', y, hy, hown⟩ := hc.pending b (List.mem_cons_of_mem _ hb)
    have hbs : b ≠ s.served := by
      rintro rfl
      exact hnotin hb
    exact ⟨hkeep hb' fun he => absurd he hbs, y, (raised_sem x b).trans hy, hown⟩
  · rw [raised_sem] at hy
    have hall := hc.allocated b (hold hb) hy
    show Function.update s.sems x ((s.sems x).map (· + 1)) y ≠ none
    obtain rfl | hyx := eq_or_ne y x
    · rw [Function.update_self]
      exact fun h => hall (Option.map_eq_none_iff.1 h)
    · rw [Function.update_of_ne hyx]
      exact hall
  · rw [raised_sem] at hby hcy
    exact hc.alone b (hold hb) c (hold hd) hy hby hcy
  · have hbs : b ≠ s.served := by
      rintro rfl
      exact hnotin hb
    show (Function.update s.mem s.served _ b).returnValue = -1
    rw [Function.update_of_ne hbs]
    exact hc.unanswered b (List.mem_cons_of_mem _ hb)

/-- **`disk_interrupt_handle` up to `semaphore_V`.** -/
theorem Queue.interrupt (h : Queue s q) (hc : Calls s (current s ++ q)) (hh : s.handling = false)
    (hi : s.irq = true) : ∃ x, s.diskInterrupt = Disk.raised s x ∧ Queue (Disk.raised s x) q ∧
      Calls (Disk.raised s x) q := by
  obtain ⟨hne, -⟩ := h.device_irq hh hi
  have hnd := h.nodup
  rw [current_served hh hne] at hnd hc
  obtain ⟨-, x, hx, -⟩ := hc.pending s.served List.mem_cons_self
  exact ⟨x, diskInterrupt_raised hne hx, h.raised hh hi x, hc.raised (List.nodup_cons.1 hnd).1 hx⟩

/-- A loop along the queue ends. -/
theorem length_lt_rounds {link : Addr → Addr} (h : Chain link NULL a q) : q.length < ROUNDS := by
  have hnd : (q.map UInt32.toNat).Nodup := h.nodup.map fun _ _ he => UInt32.toNat_inj.1 he
  have hsub : (q.map UInt32.toNat).toFinset ⊆ Finset.range (2 ^ 32) := by
    intro k hk
    obtain ⟨b, -, rfl⟩ := List.mem_map.1 (List.mem_toFinset.1 hk)
    exact Finset.mem_range.2 b.toNat_lt
  have hle := Finset.card_le_card hsub
  rw [List.toFinset_card_of_nodup hnd, List.length_map, Finset.card_range] at hle
  exact Nat.lt_succ_of_le hle

/-- **`disksched_schedule`** puts the request behind the queue. -/
theorem schedule_spec (hchain : Chain (next s.mem) NULL s.queue q) (ha : a ∉ q) (hne : a ≠ NULL)
    (hnext : (s.mem a).next = NULL) :
    ∃ (mem : Addr → Request) (queue : Addr), s.diskschedSchedule a = some { s with mem := mem, queue := queue } ∧
      Chain (next mem) NULL queue (q ++ [a]) ∧ (∀ b, entry mem b = entry s.mem b) ∧
      (∀ b, (mem b).returnValue = (s.mem b).returnValue) ∧ ∀ b, b ∉ q → (mem b).next = (s.mem b).next := by
  unfold State.diskschedSchedule
  cases hq : q.reverse with
  | nil =>
    obtain rfl : q = [] := List.reverse_eq_nil_iff.1 hq
    have hnull : s.queue = NULL := hchain.seg
    rw [if_neg (not_not.2 hnull)]
    refine ⟨s.mem, a, rfl, ⟨⟨rfl, hnext⟩, ?_⟩, fun _ => rfl, fun _ => rfl, fun _ _ => rfl⟩
    exact fun h => hne (List.mem_singleton.1 h).symm
  | cons p rest =>
    obtain rfl : q = rest.reverse ++ [p] := by
      rw [← List.reverse_reverse q, hq, List.reverse_cons]
    have hqne : s.queue ≠ NULL := by
      intro h0
      have hhead := hchain.head
      rw [h0] at hhead
      cases hr : rest.reverse with
      | nil =>
        rw [hr] at hhead hchain
        exact hchain.end_notMem (by rw [hhead]; exact List.mem_cons_self)
      | cons y ys =>
        rw [hr] at hhead hchain
        exact hchain.end_notMem (by rw [hhead]; exact List.mem_cons_self)
    have hlen := length_lt_rounds hchain
    rw [List.length_append] at hlen
    obtain ⟨prev, hw⟩ := walk_last ROUNDS NULL hchain (by omega)
    rw [if_pos hqne, hw]
    refine ⟨_, _, rfl, ?_, fun b => entry_setNext s.mem p a b, fun b => ?_, fun b hb => ?_⟩
    · rw [next_setNext]
      exact hchain.snoc ha hne hnext
    · show (Function.update s.mem p _ b).returnValue = _
      obtain rfl | hb := eq_or_ne b p
      · rw [Function.update_self]
      · rw [Function.update_of_ne hb]
    · show (Function.update s.mem p _ b).next = _
      rw [Function.update_of_ne]
      rintro rfl
      exact hb (List.mem_append_right _ (List.mem_singleton_self _))

theorem diskNextRequest_handling (h : s.handling = false) :
    { s.diskNextRequest with handling := false } = s.diskNextRequest := by
  have hsame : s.diskNextRequest.handling = false := by
    unfold State.diskNextRequest
    split
    · exact h
    · split <;> exact h
  conv_rhs => rw [show s.diskNextRequest = { s.diskNextRequest with handling := s.diskNextRequest.handling } from rfl]
  rw [hsame]

variable [DecidableEq τ] {t : τ} {sync : Bool}

/-- A prepared request is submitted; a synchronous caller waits for it. -/
theorem Calls.scheduled (hc : Calls s P) (ht : s.pc t = .scheduling a sync)
    (hentry : ∀ b, entry s'.mem b = entry s.mem b)
    (hret : ∀ b, (s'.mem b).returnValue = (s.mem b).returnValue)
    (hnext : ∀ b, b ∉ P → (s'.mem b).next = (s.mem b).next)
    (hpc : s'.pc = Function.update s.pc t (if sync then .waiting a else .outside)) (hsems : s'.sems = s.sems)
    (hown : s'.own = s.own) (huse : s'.inUse = s.inUse) (hres : s'.returned = s.returned) :
    Calls s' (P ++ [a]) := by
  have hsem : ∀ b, (s'.mem b).sem = (s.mem b).sem := fun b => congrArg Entry.sem (hentry b)
  obtain ⟨ha, hP, -, hminus, x, hx, hsync, hzero⟩ : At s P (.scheduling a sync) := ht ▸ hc.places t
  have hnode : ∀ {u b}, (s.pc u).node = some b → u ≠ t → b ≠ a := by
    rintro u b hb hu rfl
    exact hu (hc.unique hb (by rw [ht]; rfl))
  refine ⟨hc.places_update hpc ?_ fun u hu b hb => ?_, hc.unique_update hpc fun hb hu => ?_,
    huse ▸ hc.ne_null, fun b hb => ?_, fun b hb y hy => ?_, fun b hb c hd y hy hby hcy => ?_,
    hres ▸ hc.results, fun b hb => (hret b).trans ?_⟩
  · cases sync with
    | false => trivial
    | true =>
      have hxown := hsync.2 rfl
      refine ⟨huse ▸ ha, x, (hsem a).trans hx, hown ▸ hxown, .inl ⟨List.mem_append_right _ ?_, ?_⟩⟩
      · exact List.mem_singleton_self a
      · rw [hsems]
        exact hzero hxown
  · have hne := hnode hb hu
    refine ⟨huse ▸ (hc.places u).mem_inUse hb, ?_, hsem b, hret b, hnext b, fun _ => ?_⟩
    · rw [List.mem_append, List.mem_singleton]
      exact or_iff_left hne
    · rw [hown, hsems]
      exact ⟨Iff.rfl, fun _ => rfl⟩
  · cases sync with
    | false => cases hb
    | true =>
      cases hb
      by_contra hut
      exact hnode hu hut rfl
  · obtain hb | hb := List.mem_append.1 hb
    · obtain ⟨hb', y, hy, hw⟩ := hc.pending b hb
      rw [huse, hown, hpc, hsem]
      refine ⟨hb', y, hy, fun hm => waits_update s.pc _ ?_ (hw hm)⟩
      rw [ht]
      exact Pc.noConfusion
    · obtain rfl := List.mem_singleton.1 hb
      rw [huse, hown, hpc, hsem]
      refine ⟨ha, x, hx, fun hm => ⟨t, ?_⟩⟩
      rw [Function.update_self, hsync.1 hm]
      rfl
  · rw [hsem] at hy
    rw [hsems]
    exact hc.allocated b (huse ▸ hb) hy
  · rw [hsem] at hby hcy
    exact hc.alone b (huse ▸ hb) c (huse ▸ hd) (hown ▸ hy) hby hcy
  · obtain hb | hb := List.mem_append.1 hb
    · exact hc.unanswered b hb
    · rw [List.mem_singleton.1 hb]
      exact hminus

theorem diskNextRequest_setPc (p : Pc) : s.diskNextRequest.setPc t p = (s.setPc t p).diskNextRequest := by
  unfold State.diskNextRequest
  show State.setPc (if _ then _ else if _ then _ else _) t p = if s.busy = true ∨ s.served ≠ NULL then _ else
    if s.queue = NULL then _ else _
  split
  · rfl
  · split <;> rfl

/-- **The section of `disk_submit_request`**: the request joins the queue, and if the device was idle it is
given to it at once. -/
theorem Queue.submit (h : Queue s q) (hc : Calls s (current s ++ q)) (hh : s.handling = false)
    (ht : s.pc t = .scheduling a sync) :
    ∃ q', Queue ((s.diskSubmit a).setPc t (if sync then .waiting a else .outside)) q' ∧
      Calls ((s.diskSubmit a).setPc t (if sync then .waiting a else .outside))
        (current ((s.diskSubmit a).setPc t (if sync then .waiting a else .outside)) ++ q') := by
  generalize hp : (if sync then Pc.waiting a else Pc.outside) = p
  obtain ⟨ha, hP, hnext, -⟩ : At s (current s ++ q) (.scheduling a sync) := ht ▸ hc.places t
  have haq : a ∉ q := fun hm => hP (List.mem_append_right _ hm)
  have hane : a ≠ NULL := fun h0 => hc.ne_null (h0 ▸ ha)
  obtain ⟨mem, queue, hsched, hchain, hentry, hret, hlinks⟩ := schedule_spec h.chain haq hane hnext
  -- The state before `disk_next_request`.
  let s2 : State τ := { s with mem := mem, queue := queue, submitted := s.submitted ++ [entry mem a] }
  have hsubmit : s.diskSubmit a = if s.served = NULL then s2.diskNextRequest else s2 := by
    unfold State.diskSubmit
    rw [hsched]
  have hc2 : Calls (s2.setPc t p) (current s ++ q ++ [a]) := by
    refine hc.scheduled ht hentry hret (fun b hb => hlinks b fun hm => hb (List.mem_append_right _ hm)) ?_
      rfl rfl rfl rfl
    rw [hp]
    rfl
  have hmap : ∀ l : List Addr, l.map (entry mem) = l.map (entry s.mem) :=
    fun l => List.map_congr_left fun b _ => hentry b
  have hsub : s.submitted ++ [entry mem a] = s.completed ++ (current s ++ (q ++ [a])).map (entry mem) := by
    have hassoc : current s ++ (q ++ [a]) = (current s ++ q) ++ [a] := (List.append_assoc _ _ _).symm
    rw [hmap, hassoc, List.map_append, h.submitted, hentry, List.append_assoc]
    rfl
  rw [hsubmit]
  split
  · rename_i h0
    have hcur := current_idle h0
    rw [hcur] at hsub hc2
    obtain rfl : q = [] := h.idle hh h0
    obtain ⟨hbusy, hirq⟩ := h.device_idle hcur
    have hgiven := h.given
    rw [hcur] at hgiven
    obtain ⟨q', hq', hP', hc'⟩ := next_spec (s := s2.setPc t p) hchain hbusy hirq h0 h.failed hsub
      (hgiven.trans (List.append_nil _)) hc2
    rw [diskNextRequest_setPc]
    rw [diskNextRequest_handling (s := s2.setPc t p) hh] at hq' hP' hc'
    exact ⟨q', hq', hP' ▸ hc'⟩
  · rename_i hne
    have hcur : current (s2.setPc t p) = current s := rfl
    refine ⟨q ++ [a], ⟨hchain, hsub, ?_, ?_, h.device, fun _ h0 => absurd h0 hne, h.failed⟩, ?_⟩
    · show s.given = s.completed ++ (current s).map (entry mem)
      rw [hmap]
      exact h.given
    · rw [hcur, ← List.append_assoc]
      exact List.nodup_append.2 ⟨h.nodup, List.nodup_singleton a, fun b hb c hca => by
        rintro rfl
        rw [List.mem_singleton.1 hca] at hb
        exact hP hb⟩
    · rw [hcur, ← List.append_assoc]
      exact hc2

end Driver

/-! ## Runs -/

section Runs

variable [DecidableEq τ] {s s' : State τ}

theorem step_eq (h : s.failed = false) (a : Action τ) : step s a = act s a :=
  if_neg (Bool.eq_false_iff.1 h)

/-- **Every step keeps the invariant.** -/
theorem Inv.step {a : Action τ} (hi : Inv s) (hs : step s a = some s') : Inv s' := by
  obtain ⟨q, hq, hc⟩ := hi.exists_queue
  rw [step_eq hq.failed] at hs
  have hin : ∀ {b}, b ∉ s.inUse → b ∉ current s ++ q := fun hb hm => hb (hc.pending _ hm).1
  cases a with
  | fillIn a r =>
    simp only [act] at hs
    split at hs <;> cases hs
    rename_i ha
    refine ⟨q, hq.write (hin ha) r _ _ _ _ _, hc.env _ (fun b hb => ?_) fun b hb x hx => ?_⟩
    · apply Function.update_of_ne
      rintro rfl
      exact ha hb
    · exact ⟨fun _ => rfl, hc.allocated b hb hx⟩
  | semaphoreCreate x value =>
    simp only [act] at hs
    split at hs <;> cases hs
    rename_i hx
    refine ⟨q, hq.frame (fun _ _ => ⟨rfl, rfl⟩) _ _ _ _ _, hc.setSem fun b hb hbx => ?_⟩
    exact absurd hx (hc.allocated b hb hbx)
  | semaphoreP x =>
    simp only [act] at hs
    split at hs
    · split at hs <;> cases hs
      rename_i hown
      exact ⟨q, hq.frame (fun _ _ => ⟨rfl, rfl⟩) _ _ _ _ _,
        hc.setSem fun _ _ _ => ⟨hown, Option.some_ne_none _⟩⟩
    · cases hs
  | semaphoreV x =>
    simp only [act] at hs
    split at hs
    · split at hs <;> cases hs
      rename_i hown
      exact ⟨q, hq.frame (fun _ _ => ⟨rfl, rfl⟩) _ _ _ _ _,
        hc.setSem fun _ _ _ => ⟨hown, Option.some_ne_none _⟩⟩
    · cases hs
  | semaphoreDestroy x =>
    simp only [act] at hs
    split at hs <;> cases hs
    rename_i hx
    refine ⟨q, hq.frame (fun _ _ => ⟨rfl, rfl⟩) _ _ _ _ _, hc.setSem fun b hb hbx => ?_⟩
    exact absurd (.inr ⟨b, hb, hbx⟩) hx
  | submit t a operation =>
    simp only [act] at hs
    split at hs
    · rename_i hpre
      obtain ⟨ht, hne, huse⟩ := hpre
      have hself : ∀ r : Request, Function.update s.mem a r a = r := fun r => Function.update_self _ _ _
      cases hx : (s.mem a).sem with
      | none =>
        rw [hx] at hs
        cases hs
        refine ⟨q, hq.write (hin huse) _ _ _ _ _ _, hc.submit ht hne huse ?_ (fun h => ?_) fun h => ?_⟩
        · refine ⟨List.mem_cons_self, hin huse, ?_, ?_, ?_⟩
          · exact congrArg Request.next (hself _)
          · exact congrArg Request.returnValue (hself _)
          · exact (congrArg Request.sem (hself _)).trans rfl
        · exact (Option.some.inj h).symm
        · cases h
      | some x =>
        rw [hx] at hs
        simp only [] at hs
        split at hs <;> cases hs
        rename_i hown
        refine ⟨q, hq.write (hin huse) _ _ _ _ _ _, hc.submit ht hne huse ?_ (fun h => ?_) fun h => ?_⟩
        · refine ⟨List.mem_cons_self, hin huse, ?_, ?_, x, ?_, ?_, fun hm => absurd hm hown.1⟩
          · exact congrArg Request.next (hself _)
          · exact congrArg Request.returnValue (hself _)
          · exact (congrArg Request.sem (hself _)).trans rfl
          · exact iff_of_false hown.1 Bool.noConfusion
        · exact (Option.some.inj h).symm
        · cases h
          exact hown
    · cases hs
  | create t x =>
    simp only [act] at hs
    split at hs
    · rename_i ht
      cases hs
      exact ⟨q, hq.frame (fun _ _ => ⟨rfl, rfl⟩) _ _ _ _ _, hc.createFailed ht⟩
    · rename_i a x ht
      split at hs <;> cases hs
      rename_i hx
      have hP : a ∉ current s ++ q := (ht ▸ hc.places t : At s (current s ++ q) (.creating a)).2.1
      exact ⟨q, hq.write hP _ _ _ _ _ _, hc.created ht hx⟩
    · cases hs
  | schedule t =>
    simp only [act] at hs
    split at hs
    · rename_i a sync ht
      split at hs <;> cases hs
      rename_i hh
      exact ⟨hq.submit hc (Bool.eq_false_iff.2 hh) ht⟩
    · cases hs
  | finish t =>
    simp only [act] at hs
    split at hs
    · rename_i a ht
      split at hs
      · cases hs
      · rename_i x hx
        split at hs
        · rename_i v hv
          cases hs
          obtain ⟨hP, hc'⟩ := hc.finish ht hx hv
          exact ⟨q, hq.write hP _ _ _ _ _ _, hc'⟩
        · cases hs
    · cases hs
  | complete =>
    simp only [act] at hs
    split at hs <;> cases hs
    rename_i hb
    refine ⟨q, ⟨hq.chain, hq.submitted, hq.given, hq.nodup, ?_, hq.idle, hq.failed⟩,
      hc.relink (fun _ => rfl) (fun _ => rfl) (fun _ _ => rfl) rfl rfl rfl rfl rfl⟩
    have hdev := hq.device
    have hle : (current s).length ≤ 1 := by
      unfold current
      split <;> simp
    rw [hb] at hdev
    show 0 + 1 = (current s).length
    rw [Bool.toNat_true] at hdev
    omega
  | interrupt =>
    simp only [act] at hs
    split at hs
    · cases hs
    · rename_i hh
      split at hs <;> cases hs
      · rename_i hirq
        obtain ⟨x, hx, hq', hc'⟩ := hq.interrupt hc (Bool.eq_false_iff.2 hh) hirq
        rw [hx]
        exact ⟨q, hq', hc'⟩
      · exact hi
  | interruptNext =>
    simp only [act] at hs
    split at hs <;> cases hs
    rename_i hh
    rw [current_handling hh] at hc
    exact ⟨hq.interruptNext hh hc⟩

/-- A step of the device or of the interrupt handler. -/
def OfDevice : Action τ → Prop
  | .complete | .interrupt | .interruptNext => True
  | _ => False

/-- What was submitted and is not completed, in this order. -/
def pending (s : State τ) : List Entry := s.submitted.drop s.completed.length

/-- A request is completed: its `return_value` is set to 0 and its semaphore `x` is raised, and nothing else. -/
structure CompletesRequest (s s' : State τ) (e : Entry) (x : Sem) : Prop where
  first : (pending s).head? = some e
  completed : s'.completed = s.completed ++ [e]
  answered : s'.mem = Function.update s.mem e.node { s.mem e.node with returnValue := 0 }
  sem : e.sem = some x
  raised : ∃ v, s.sems x = some v ∧ s'.sems = Function.update s.sems x (some (v + 1))

/-- The first pending request is completed, or none: then a semaphore is raised only by a caller that owns it. -/
def Completes (s : State τ) (a : Action τ) (s' : State τ) : Prop :=
  (∃ e x, CompletesRequest s s' e x) ∨
  s'.completed = s.completed ∧ ∀ x v w, s.sems x = some v → s'.sems x = some w → w ≤ v ∨ a = .semaphoreV x

/-- The requests are given to the device one at a time and in the order of their submission, and completed
in this order; no assertion fails; outside the sections under the spinlock nothing is queued while nothing
is served. A request stays in its node, unanswered, until the step that completes it; a synchronous caller
sleeps until then, finds its request answered and its semaphore raised once, and returns 1. When the device and
the handler go on, every request that was submitted is completed. -/
structure DiskOk [DecidableEq τ] (s : State τ) : Prop where
  in_order : s.given <+: s.submitted
  completed_in_order : s.completed <+: s.given
  one_at_a_time : s.given.length ≤ s.completed.length + 1
  asserted : s.failed = false
  never_idle : s.handling = false → s.served = NULL → s.queue = NULL
  all_completed : s.handling = false → s.busy = false → s.irq = false → s.completed = s.submitted
  unanswered : ∀ e ∈ pending s, entry s.mem e.node = e ∧ (s.mem e.node).returnValue = -1 ∧
    ∃ x, e.sem = some x ∧ s.sems x ≠ none
  completes : ∀ a s', step s a = some s' → Completes s a s'
  waiting : ∀ t a, s.pc t = .waiting a → ∃ x, (s.mem a).sem = some x ∧
    (entry s.mem a ∈ pending s ∧ s.sems x = some 0 ∨
      entry s.mem a ∉ pending s ∧ (s.mem a).returnValue = 0 ∧ s.sems x = some 1)
  returned : ∀ v ∈ s.returned, v = 1
  eventually : ∃ as s', (∀ a ∈ as, OfDevice a) ∧ run step s as = some s' ∧ s'.submitted = s.submitted ∧
    s'.completed = s.submitted

omit [DecidableEq τ] in
/-- `disk_next_request` completes nothing. -/
theorem diskNextRequest_kept (s : State τ) : s.diskNextRequest.submitted = s.submitted ∧
    s.diskNextRequest.completed = s.completed ∧ s.diskNextRequest.sems = s.sems := by
  unfold State.diskNextRequest
  split
  · exact ⟨rfl, rfl, rfl⟩
  · split <;> exact ⟨rfl, rfl, rfl⟩

omit [DecidableEq τ] in
/-- Nor does the section of `disk_submit_request`. -/
theorem diskSubmit_kept (s : State τ) (a : Addr) :
    (s.diskSubmit a).completed = s.completed ∧ (s.diskSubmit a).sems = s.sems := by
  have hsched : ∀ s1, s.diskschedSchedule a = some s1 → s1.completed = s.completed ∧ s1.sems = s.sems := by
    intro s1 h
    unfold State.diskschedSchedule at h
    split at h
    · split at h <;> cases h
      exact ⟨rfl, rfl⟩
    · cases h
      exact ⟨rfl, rfl⟩
  unfold State.diskSubmit
  split
  · exact ⟨rfl, rfl⟩
  · rename_i s1 h1
    obtain ⟨hcomp, hsems⟩ := hsched s1 h1
    simp only
    split
    · obtain ⟨-, hcomp2, hsems2⟩ := diskNextRequest_kept { s1 with submitted := s1.submitted ++ [entry s1.mem a] }
      exact ⟨hcomp2.trans hcomp, hsems2.trans hsems⟩
    · exact ⟨hcomp, hsems⟩

omit [DecidableEq τ] in
theorem Queue.pending {q : List Addr} (h : Queue s q) : pending s = (current s ++ q).map (entry s.mem) := by
  rw [Disk.pending, h.submitted, List.drop_left]

omit [DecidableEq τ] in
theorem Queue.mem_pending {q : List Addr} (h : Queue s q) {a : Addr} :
    entry s.mem a ∈ Disk.pending s ↔ a ∈ current s ++ q := by
  rw [h.pending, List.mem_map]
  constructor
  · rintro ⟨b, hb, he⟩
    obtain rfl : b = a := congrArg Entry.node he
    exact hb
  · exact fun ha => ⟨a, ha, rfl⟩

/-- **What a step completes**: the interrupt handler answers the request that the device has worked on. -/
theorem Inv.completes {a : Action τ} (hi : Inv s) (hs : Disk.step s a = some s') : Completes s a s' := by
  obtain ⟨q, hq, hc⟩ := hi.exists_queue
  rw [step_eq hq.failed] at hs
  have hsame : ∀ {s'' : State τ}, s''.completed = s.completed → s''.sems = s.sems → Completes s a s'' := by
    intro s'' hcomp hsems
    refine .inr ⟨hcomp, fun x v w hv hw => .inl ?_⟩
    rw [hsems, hv] at hw
    exact (Option.some.inj hw).ge
  -- the value of one semaphore is set
  have hset : ∀ {s'' : State τ} (y : Sem) (value : Option ℕ), s''.completed = s.completed →
      s''.sems = Function.update s.sems y value →
      (∀ v w, s.sems y = some v → value = some w → w ≤ v ∨ a = .semaphoreV y) → Completes s a s'' := by
    intro s'' y value hcomp hsems hvalue
    refine .inr ⟨hcomp, fun x v w hv hw => ?_⟩
    rw [hsems] at hw
    obtain rfl | hne := eq_or_ne x y
    · rw [Function.update_self] at hw
      exact hvalue v w hv hw
    · rw [Function.update_of_ne hne, hv] at hw
      exact .inl (Option.some.inj hw).ge
  cases a with
  | fillIn a r =>
    simp only [act] at hs
    split at hs <;> cases hs
    exact hsame rfl rfl
  | semaphoreCreate x value =>
    simp only [act] at hs
    split at hs <;> cases hs
    rename_i hx
    refine hset x (some value) rfl rfl fun v w hv _ => ?_
    rw [hx] at hv
    cases hv
  | semaphoreP x =>
    simp only [act] at hs
    split at hs
    · rename_i v hx
      split at hs <;> cases hs
      refine hset x (some v) rfl rfl fun u w hu hw => .inl ?_
      cases hw
      rw [hx] at hu
      cases hu
      exact Nat.le_succ v
    · cases hs
  | semaphoreV x =>
    simp only [act] at hs
    split at hs
    · rename_i v hx
      split at hs <;> cases hs
      exact hset x (some (v + 1)) rfl rfl fun _ _ _ _ => .inr rfl
    · cases hs
  | semaphoreDestroy x =>
    simp only [act] at hs
    split at hs <;> cases hs
    exact hset x none rfl rfl fun _ _ _ hw => nomatch hw
  | submit t a operation =>
    simp only [act] at hs
    split at hs
    · split at hs
      · cases hs
        exact hsame rfl rfl
      · split at hs <;> cases hs
        exact hsame rfl rfl
    · cases hs
  | create t x =>
    simp only [act] at hs
    split at hs
    · cases hs
      exact hsame rfl rfl
    · rename_i x ht
      split at hs <;> cases hs
      rename_i hx
      refine hset x (some 0) rfl rfl fun v w hv _ => ?_
      rw [hx] at hv
      cases hv
    · cases hs
  | schedule t =>
    simp only [act] at hs
    split at hs
    · rename_i a sync ht
      split at hs <;> cases hs
      obtain ⟨hcomp, hsems⟩ := diskSubmit_kept s a
      exact hsame hcomp hsems
    · cases hs
  | finish t =>
    simp only [act] at hs
    split at hs
    · split at hs
      · cases hs
      · rename_i x hx
        split at hs <;> cases hs
        exact hset x none rfl rfl fun _ _ _ hw => nomatch hw
    · cases hs
  | complete =>
    simp only [act] at hs
    split at hs <;> cases hs
    exact hsame rfl rfl
  | interrupt =>
    simp only [act] at hs
    split at hs
    · cases hs
    · rename_i hh
      have hh := Bool.eq_false_iff.2 hh
      split at hs <;> cases hs
      · rename_i hirq
        obtain ⟨hne, -⟩ := hq.device_irq hh hirq
        have hcur := current_served hh hne
        obtain ⟨huse, x, hx, -⟩ := hc.pending s.served (by rw [hcur]; exact List.mem_cons_self)
        obtain ⟨v, hv⟩ := Option.ne_none_iff_exists'.1 (hc.allocated _ huse hx)
        refine .inl ⟨entry s.mem s.served, x, ?_⟩
        rw [diskInterrupt_raised hne hx]
        refine ⟨?_, rfl, rfl, hx, v, hv, ?_⟩
        · rw [hq.pending, hcur]
          rfl
        · show Function.update s.sems x ((s.sems x).map (· + 1)) = _
          rw [hv]
          rfl
      · exact hsame rfl rfl
  | interruptNext =>
    simp only [act] at hs
    split at hs <;> cases hs
    obtain ⟨-, hcomp, hsems⟩ := diskNextRequest_kept { s with served := NULL }
    exact hsame hcomp hsems

/-- The handler completes its section. -/
theorem Inv.section_ends (hi : Inv s) (hh : s.handling = true) :
    ∃ s', Disk.step s .interruptNext = some s' ∧ s'.handling = false ∧ s'.submitted = s.submitted ∧
      s'.completed = s.completed := by
  obtain ⟨q, hq, -⟩ := hi.exists_queue
  obtain ⟨hsub, hcomp, -⟩ := diskNextRequest_kept { s with served := NULL }
  refine ⟨{ { s with served := NULL }.diskNextRequest with handling := false }, ?_, rfl, hsub, hcomp⟩
  rw [step_eq hq.failed]
  exact if_pos hh

/-- An interrupt completes one request. -/
theorem Inv.interrupt_completes (hi : Inv s) (hh : s.handling = false) (hirq : s.irq = true) :
    ∃ s', Disk.step s .interrupt = some s' ∧ s'.handling = true ∧ s'.submitted = s.submitted ∧
      s'.completed.length = s.completed.length + 1 := by
  obtain ⟨q, hq, hc⟩ := hi.exists_queue
  obtain ⟨x, hx, -⟩ := hq.interrupt hc hh hirq
  refine ⟨raised s x, ?_, rfl, rfl, List.length_append⟩
  rw [step_eq hq.failed]
  show (if s.handling = true then none else if s.irq = true then some s.diskInterrupt else some s) = _
  rw [if_neg (Bool.eq_false_iff.1 hh), if_pos hirq, hx]

/-- While something is left to do, the device or the handler has one more request completed. -/
theorem Inv.round (hi : Inv s) (hh : s.handling = false) (hleft : s.completed ≠ s.submitted) :
    ∃ as s', (∀ a ∈ as, OfDevice a) ∧ run Disk.step s as = some s' ∧ Inv s' ∧ s'.handling = false ∧
      s'.submitted = s.submitted ∧ s'.completed.length = s.completed.length + 1 := by
  obtain ⟨q, hq, -⟩ := hi.exists_queue
  -- From an interrupt on: the handler's two steps.
  have hirq : ∀ {s : State τ}, Inv s → s.handling = false → s.irq = true →
      ∃ s', run Disk.step s [.interrupt, .interruptNext] = some s' ∧ Inv s' ∧ s'.handling = false ∧
        s'.submitted = s.submitted ∧ s'.completed.length = s.completed.length + 1 := by
    intro s hi hh hirq
    obtain ⟨s1, h1, hh1, hsub1, hlen1⟩ := hi.interrupt_completes hh hirq
    obtain ⟨s2, h2, hh2, hsub2, hcomp2⟩ := (hi.step h1).section_ends hh1
    refine ⟨s2, ?_, (hi.step h1).step h2, hh2, hsub2.trans hsub1, ?_⟩
    · rw [run, h1]
      simp only [run, h2]
    · rw [hcomp2, hlen1]
  cases hir : s.irq with
  | true =>
    obtain ⟨s', hr, hi', hh', hsub, hlen⟩ := hirq hi hh hir
    refine ⟨_, s', ?_, hr, hi', hh', hsub, hlen⟩
    intro a ha
    simp only [List.mem_cons, List.not_mem_nil, or_false] at ha
    obtain rfl | rfl := ha <;> trivial
  | false =>
    have hb : s.busy = true := by
      cases hb : s.busy with
      | true => rfl
      | false =>
        have hdev := hq.device
        rw [hb, hir] at hdev
        exact absurd (hq.all_completed hh (List.length_eq_zero_iff.1 hdev.symm)) hleft
    have h1 : Disk.step s .complete = some { s with busy := false, irq := true } := by
      rw [step_eq hq.failed]
      exact if_pos hb
    obtain ⟨s', hr, hi', hh', hsub, hlen⟩ := hirq (hi.step h1) hh rfl
    refine ⟨[.complete, .interrupt, .interruptNext], s', ?_, ?_, hi', hh', hsub, hlen⟩
    · intro a ha
      simp only [List.mem_cons, List.not_mem_nil, or_false] at ha
      obtain rfl | rfl | rfl := ha <;> trivial
    · rw [run, h1]
      exact hr

/-- The device and the handler complete everything that was submitted. -/
theorem Inv.eventually_outside : ∀ (n : ℕ) {s : State τ}, Inv s → s.handling = false →
    s.submitted.length - s.completed.length ≤ n →
    ∃ as s', (∀ a ∈ as, OfDevice a) ∧ run Disk.step s as = some s' ∧ s'.submitted = s.submitted ∧
      s'.completed = s.submitted := by
  intro n
  induction n with
  | zero =>
    intro s hi hh hn
    by_cases hleft : s.completed = s.submitted
    · exact ⟨[], s, fun _ h => absurd h List.not_mem_nil, rfl, rfl, hleft⟩
    · obtain ⟨q, hq, -⟩ := hi.exists_queue
      refine absurd (List.IsPrefix.eq_of_length_le ⟨_, hq.submitted.symm⟩ ?_) hleft
      omega
  | succ n ih =>
    intro s hi hh hn
    by_cases hleft : s.completed = s.submitted
    · exact ⟨[], s, fun _ h => absurd h List.not_mem_nil, rfl, rfl, hleft⟩
    · obtain ⟨as, s1, has, hr, hi1, hh1, hsub, hlen⟩ := hi.round hh hleft
      obtain ⟨bs, s2, hbs, hr2, hsub2, hcomp2⟩ := ih hi1 hh1 (by rw [hsub, hlen]; omega)
      refine ⟨as ++ bs, s2, ?_, run_append hr hr2, hsub2.trans hsub, hcomp2.trans hsub⟩
      intro a ha
      obtain ha | ha := List.mem_append.1 ha
      · exact has a ha
      · exact hbs a ha

theorem Inv.eventually (hi : Inv s) :
    ∃ as s', (∀ a ∈ as, OfDevice a) ∧ run Disk.step s as = some s' ∧ s'.submitted = s.submitted ∧
      s'.completed = s.submitted := by
  cases hh : s.handling with
  | false => exact Inv.eventually_outside _ hi hh le_rfl
  | true =>
    obtain ⟨s1, h1, hh1, hsub1, -⟩ := hi.section_ends hh
    obtain ⟨as, s2, has, hr, hsub2, hcomp2⟩ := Inv.eventually_outside _ (hi.step h1) hh1 le_rfl
    refine ⟨.interruptNext :: as, s2, ?_, ?_, hsub2.trans hsub1, hcomp2.trans hsub1⟩
    · intro a ha
      obtain rfl | ha := List.mem_cons.1 ha
      · trivial
      · exact has a ha
    · rw [run, h1]
      exact hr

theorem Inv.ok (hi : Inv s) : DiskOk s := by
  obtain ⟨q, hq, hc⟩ := hi.exists_queue
  have hcur : (current s).length ≤ 1 := by
    unfold current
    split <;> simp
  refine ⟨⟨q.map (entry s.mem), ?_⟩, ⟨_, hq.given.symm⟩, ?_, hq.failed, fun hh h0 => ?_,
    fun hh hb hir => ?_, fun e he => ?_, fun _ _ => hi.completes, fun t a ht => ?_, hc.results, hi.eventually⟩
  · rw [hq.submitted, hq.given, List.map_append, List.append_assoc]
  · rw [hq.given, List.length_append, List.length_map]
    omega
  · have hchain := hq.chain
    rw [hq.idle hh h0] at hchain
    exact hchain.seg
  · have hdev := hq.device
    rw [hb, hir] at hdev
    exact hq.all_completed hh (List.length_eq_zero_iff.1 hdev.symm)
  · rw [hq.pending] at he
    obtain ⟨a, ha, rfl⟩ := List.mem_map.1 he
    obtain ⟨huse, x, hx, -⟩ := hc.pending a ha
    exact ⟨rfl, hc.unanswered a ha, x, hx, hc.allocated a huse hx⟩
  · obtain ⟨-, x, hx, -, hdone⟩ : At s (current s ++ q) (.waiting a) := ht ▸ hc.places t
    rw [hq.mem_pending]
    exact ⟨x, hx, hdone⟩

/-- **The disk queue**: in every state that any submissions and interrupts can reach, requests are given to
the device one at a time and in order, each is completed once and in order, by answering it and raising its
semaphore, no assertion fails, and the device does not idle with work queued. -/
theorem disk_queue {as : List (Action τ)} (hr : run step (State.init τ) as = some s) : DiskOk s :=
  (run_always Inv.step inv_init hr).ok

end Runs

/-- A synchronous request by one thread and an asynchronous one by another, which waits in the queue and is
completed second; the first thread has its result when the second request is still being served. -/
def twoRequests : List (Action Bool) :=
  [.semaphoreCreate 7 0, .fillIn 100 ⟨3, 4096, none, .read, NULL, 0⟩, .fillIn 200 ⟨4, 8192, some 7, .read, NULL, 0⟩,
    .submit false 100 .read, .create false (some 8), .schedule false, .submit true 200 .write, .schedule true,
    .complete, .interrupt, .interruptNext, .finish false, .complete, .interrupt]

theorem disk_queue_twoRequests :
    ∃ s, run step (State.init Bool) twoRequests = some s ∧
      s.completed = [⟨100, 3, 4096, some 8, .read⟩, ⟨200, 4, 8192, some 7, .write⟩] ∧ s.returned = [1] ∧
      s.sems 7 = some 1 ∧ DiskOk s := by
  have hrun : ∃ s, run step (State.init Bool) twoRequests = some s ∧
      s.completed = [⟨100, 3, 4096, some 8, .read⟩, ⟨200, 4, 8192, some 7, .write⟩] ∧ s.returned = [1] ∧
      s.sems 7 = some 1 := by decide +kernel
  obtain ⟨s, hr, hcompleted, hreturned, hsem⟩ := hrun
  exact ⟨s, hr, hcompleted, hreturned, hsem, disk_queue hr⟩

end Buenos.Disk
