import Buenos.Base.Transition

/-!
# The network interface driver

The functions `nic_send`, `nic_recv` and `nic_interrupt_handle` of `drivers/nic.c`, called by any number of
threads, over the device that they share.

* `State` — `nic->lock` with its waiters, the queues of the condition variables, the bits of the status port
  and the threads.
* `Action` — a step of a thread is one section under a spinlock; a run of the handler is one step for each
  interrupt that it looks at; the device raises its interrupts at any time.
* `Signalled` — a receiver that was woken for a frame and has not issued `RECEIVE`.
* `Inv` — what holds in every run: who holds the lock, who sleeps where, and the way of a frame.

Principal results: `nic_exclusive` and `nic_overtaken`, when two transfers do not and do meet, and `nic_wakes`
and `nic_strands`, when no wake-up is lost and how one is.
-/

namespace Buenos.Nic

open Transition

/-! ## Model -/

/-- The condition variables of a `nic_real_device_t`. -/
inductive Cond where
  | crxirq
  | crirq
  | csirq
  | csdma
  deriving DecidableEq

/-- `nic->lock`: open, handed to a thread that has been woken for it, or held. -/
inductive Lock (τ : Type) where
  | open
  | reserved (t : τ)
  | held (t : τ)
  deriving DecidableEq

/-- Where a thread is. -/
inductive Pc where
  | outside
  /-- `nic_send`: in `lock_acquire`. -/
  | sendEnter
  /-- At `nic_dmabusy`. -/
  | sendCheck
  /-- Before and in `condition_wait(csdma)`. -/
  | sendBusy
  | sendBusyWait
  /-- At the section that issues `SEND`. -/
  | sendCommand
  /-- Before and in `condition_wait(csirq)`. -/
  | sendIssued
  | sendTransfer
  /-- At `lock_release`. -/
  | sendLeave
  /-- `nic_recv`: in `lock_acquire`. -/
  | recvEnter
  /-- Before and in `condition_wait(crxirq)`. -/
  | recvHeld
  | recvFrameWait
  /-- At the section that issues `RECEIVE`. -/
  | recvCommand
  /-- Before and in `condition_wait(crirq)`. -/
  | recvIssued
  | recvTransfer
  /-- At `lock_release`. -/
  | recvLeave
  deriving DecidableEq

/-- The thread has the lock there. -/
def Pc.holds : Pc → Bool
  | .sendCheck | .sendBusy | .sendCommand | .sendIssued | .sendLeave | .recvHeld | .recvCommand | .recvIssued
  | .recvLeave => true
  | _ => false

/-- The condition variable on which the thread waits there, until it is signalled. -/
def Pc.waits : Pc → Option Cond
  | .sendBusyWait => some .csdma
  | .sendTransfer => some .csirq
  | .recvFrameWait => some .crxirq
  | .recvTransfer => some .crirq
  | _ => none

/-- Where the thread goes on once it has acquired the lock. -/
def Pc.acquired : Pc → Option Pc
  | .sendEnter | .sendBusyWait => some .sendCheck
  | .sendTransfer => some .sendLeave
  | .recvEnter => some .recvHeld
  | .recvFrameWait => some .recvCommand
  | .recvTransfer => some .recvLeave
  | _ => none

/-- The last transfer that a thread has commanded: it goes on, or has completed, or its interrupt has been
acknowledged. -/
inductive Transfer where
  | none
  | sending
  | sent
  | receiving
  | received
  | acknowledged
  deriving DecidableEq

/-- What the interrupt handler looks at next, inside its section. -/
inductive Part where
  | rirq
  | sirq
  deriving DecidableEq

structure State (τ : Type) where
  lock : Lock τ
  lockQueue : List τ
  queues : Cond → List τ
  /-- The interrupt handler holds `nic->slock`. -/
  handler : Option Part
  rbusy : Bool
  sbusy : Bool
  rxbusy : Bool
  rxirq : Bool
  rirq : Bool
  sirq : Bool
  pc : τ → Pc
  transfer : τ → Transfer

inductive Action (τ : Type) where
  | nicSend (t : τ)
  | nicRecv (t : τ)
  /-- `lock_acquire`, also the one at the end of `condition_wait`. -/
  | acquire (t : τ)
  | go (t : τ)
  /-- `nic_interrupt_handle` begins and looks at `RXIRQ`. -/
  | interrupt
  /-- It goes on to `RIRQ` or `SIRQ`. -/
  | interruptNext
  | frameArrives
  | completeReceive
  | completeSend

namespace State

variable {τ : Type} (s : State τ)

/-- `nic_init`. -/
def init (τ : Type) : State τ where
  lock := .open
  lockQueue := []
  queues := fun _ => []
  handler := none
  rbusy := false
  sbusy := false
  rxbusy := false
  rxirq := false
  rirq := false
  sirq := false
  pc := fun _ => .outside
  transfer := fun _ => .none

/-- `nic_dmabusy`. -/
def dmabusy : Bool := s.rbusy || s.sbusy

/-- `condition_signal`: the first waiter, if there is one, no longer waits. -/
def signal (c : Cond) : State τ := { s with queues := Function.update s.queues c (s.queues c).tail }

variable [DecidableEq τ] (t : τ)

def setPc (p : Pc) : State τ := { s with pc := Function.update s.pc t p }

/-- `lock_release`: the lock goes to the thread that has waited longest. -/
def release : State τ :=
  { s with
    lock := match s.lockQueue with
      | [] => .open
      | u :: _ => .reserved u
    lockQueue := s.lockQueue.tail }

/-- `condition_wait` up to its `thread_switch`. -/
def wait (c : Cond) (p : Pc) : State τ :=
  { s.release with queues := Function.update s.queues c (s.queues c ++ [t]) }.setPc t p

/-- `lock_acquire`, after which the thread goes on at `p`. -/
def acquire (p : Pc) : Option (State τ) :=
  match s.lock with
  | .open => some { s.setPc t p with lock := .held t }
  | .reserved u =>
    if u = t then some { s.setPc t p with lock := .held t }
    else if t ∈ s.lockQueue then none
    else some { s with lockQueue := s.lockQueue ++ [t] }
  | .held _ =>
    -- No function of the driver acquires the lock when it has it.
    if t ∈ s.lockQueue then none else some { s with lockQueue := s.lockQueue ++ [t] }

/-- The steps of a thread that has the lock. -/
def go : Option (State τ) :=
  match s.pc t with
  | .sendCheck =>
    if s.handler = none then some (s.setPc t (if s.dmabusy then .sendBusy else .sendCommand)) else none
  | .sendBusy => some (s.wait t .csdma .sendBusyWait)
  | .sendCommand =>
    if s.handler = none then
      some ({ s with sbusy := true, transfer := Function.update s.transfer t .sending }.setPc t .sendIssued)
    else none
  | .sendIssued => some (s.wait t .csirq .sendTransfer)
  | .recvHeld => some (s.wait t .crxirq .recvFrameWait)
  | .recvCommand =>
    if s.handler = none then
      some ({ s with rbusy := true, transfer := Function.update s.transfer t .receiving }.setPc t .recvIssued)
    else none
  | .recvIssued => some (s.wait t .crirq .recvTransfer)
  | .sendLeave | .recvLeave => some (s.release.setPc t .outside)
  | _ => none

end State

/-- The transfers at stage `a` come to stage `b`. -/
def advance {τ : Type} (transfer : τ → Transfer) (a b : Transfer) : τ → Transfer :=
  fun t => if transfer t = a then b else transfer t

namespace State

variable {τ : Type} (s : State τ)

/-- `nic_interrupt_handle`: a frame is ready in the receive buffer. -/
def handleRxirq : State τ :=
  if s.rxirq = true ∧ s.dmabusy = false then { s with rxirq := false }.signal .crxirq else s

/-- The frame has been transferred to memory. -/
def handleRirq : State τ :=
  if s.rirq then
    ({ s with
      rirq := false
      rxbusy := false
      transfer := advance s.transfer .received .acknowledged }.signal .crirq).signal .csdma
  else s

/-- The frame has been transferred to the send buffer. -/
def handleSirq : State τ :=
  if s.sirq then
    ({ s with
      sirq := false
      transfer := advance s.transfer .sent .acknowledged }.signal .csirq).signal .csdma
  else s

end State

variable {τ : Type}

/-- One step. A frame arrives only when the receive buffer is free. -/
def step [DecidableEq τ] (s : State τ) : Action τ → Option (State τ)
  | .nicSend t => if s.pc t = .outside then some (s.setPc t .sendEnter) else none
  | .nicRecv t => if s.pc t = .outside then some (s.setPc t .recvEnter) else none
  | .acquire t =>
    match (s.pc t).acquired with
    | none => none
    | some p => if ∃ c ∈ (s.pc t).waits, t ∈ s.queues c then none else s.acquire t p
  | .go t => s.go t
  | .interrupt => if s.handler = none then some { s.handleRxirq with handler := some .rirq } else none
  | .interruptNext =>
    match s.handler with
    | none => none
    | some .rirq => some { s.handleRirq with handler := some .sirq }
    | some .sirq => some { s.handleSirq with handler := none }
  | .frameArrives => if s.rxbusy then none else some { s with rxbusy := true, rxirq := true }
  | .completeReceive =>
    if s.rbusy then
      some { s with
        rbusy := false, rirq := true
        transfer := advance s.transfer .receiving .received }
    else none
  | .completeSend =>
    if s.sbusy then
      some { s with
        sbusy := false, sirq := true
        transfer := advance s.transfer .sending .sent }
    else none

/-! ## Every run -/

/-- A receiver that was woken for a frame and has not issued `RECEIVE`. -/
def Signalled (s : State τ) (t : τ) : Prop :=
  s.pc t = .recvFrameWait ∧ t ∉ s.queues .crxirq ∨ s.pc t = .recvCommand

/-- What holds in every run: whoever is between `lock_acquire` and `lock_release` has the lock, the queues
hold the threads that wait there, a thread that is to issue `SEND` has seen an idle device, and a frame has
one receiver, from `RXIRQ` over `RBUSY` to `RIRQ`. -/
structure Inv (s : State τ) : Prop where
  holds : ∀ {t}, (s.pc t).holds = true → s.lock = .held t
  asleep : ∀ {c t}, t ∈ s.queues c → (s.pc t).waits = some c
  nodup : ∀ c, (s.queues c).Nodup
  command : ∀ {t}, s.pc t = .sendCommand → s.rbusy = false ∧ s.sbusy = false
  one : ∀ {t u}, Signalled s t → Signalled s u → t = u
  signalled : ∀ {t}, Signalled s t → s.rxbusy = true ∧ s.rxirq = false ∧ s.rbusy = false ∧ s.rirq = false
  rxirq : s.rxirq = true → s.rxbusy = true ∧ s.rbusy = false ∧ s.rirq = false
  rbusy : s.rbusy = true → s.rxbusy = true ∧ s.rirq = false
  rirq : s.rirq = true → s.rxbusy = true

theorem inv_init : Inv (State.init τ) where
  holds := fun h => Bool.noConfusion h
  asleep := fun h => absurd h List.not_mem_nil
  nodup := fun _ => List.nodup_nil
  command := fun h => Pc.noConfusion h
  one := fun h => h.elim (fun h => Pc.noConfusion h.1) fun h => Pc.noConfusion h
  signalled := fun h => h.elim (fun h => Pc.noConfusion h.1) fun h => Pc.noConfusion h
  rxirq := fun h => Bool.noConfusion h
  rbusy := fun h => Bool.noConfusion h
  rirq := fun h => Bool.noConfusion h

/-- The invariant holds afterwards, and nobody has been woken for a frame. -/
structure Quiet (s s' : State τ) : Prop where
  inv : Inv s'
  signalled : ∀ {u}, Signalled s' u → Signalled s u

section Threads

variable {s s' : State τ} {t : τ}

/-- A thread that does not wait is in no queue. -/
theorem Inv.not_mem (hi : Inv s) (h : (s.pc t).waits = none) (c : Cond) : t ∉ s.queues c := by
  intro hm
  rw [hi.asleep hm] at h
  cases h

/-- **The frame rule**: a step of `t` that leaves the device alone. No other thread has the lock while it
changes hands, and nobody becomes signalled. -/
theorem Inv.thread (hi : Inv s) (hpc : ∀ u, u ≠ t → s'.pc u = s.pc u)
    (hlock : s'.lock = s.lock ∨ ∀ u, s.lock = .held u → u = t)
    (hheld : (s'.pc t).holds = true → s'.lock = .held t)
    (hqueues : ∀ c, (s'.queues c = s.queues c ∧ t ∉ s.queues c) ∨
      (s'.queues c = s.queues c ++ [t] ∧ t ∉ s.queues c ∧ (s'.pc t).waits = some c) ∨
      (s'.queues c = s.queues c ∧ s'.pc t = s.pc t))
    (hcommand : s'.pc t = .sendCommand → s.rbusy = false ∧ s.sbusy = false)
    (hsignalled : Signalled s' t → Signalled s t) (hrbusy : s'.rbusy = s.rbusy) (hsbusy : s'.sbusy = s.sbusy)
    (hrxbusy : s'.rxbusy = s.rxbusy) (hrxirq : s'.rxirq = s.rxirq) (hrirq : s'.rirq = s.rirq) : Quiet s s' := by
  have hmem : ∀ {c u}, u ≠ t → (u ∈ s'.queues c ↔ u ∈ s.queues c) := by
    intro c u hu
    obtain ⟨hq, -⟩ | ⟨hq, -⟩ | ⟨hq, -⟩ := hqueues c
    · rw [hq]
    · rw [hq, List.mem_append, List.mem_singleton]
      exact or_iff_left hu
    · rw [hq]
  have hback : ∀ {u}, Signalled s' u → Signalled s u := by
    intro u h
    obtain rfl | hu := eq_or_ne u t
    · exact hsignalled h
    · unfold Signalled at h ⊢
      rw [hpc u hu, hmem hu] at h
      exact h
  refine ⟨⟨fun {u} hu => ?_, fun {c u} hu => ?_, fun c => ?_, fun {u} hu => ?_,
    fun h h' => hi.one (hback h) (hback h'), fun h => ?_, ?_, ?_, ?_⟩, hback⟩
  · obtain rfl | hne := eq_or_ne u t
    · exact hheld hu
    · rw [hpc u hne] at hu
      have hold := hi.holds hu
      obtain hsame | honly := hlock
      · rw [hsame, hold]
      · exact absurd (honly u hold) hne
  · obtain rfl | hne := eq_or_ne u t
    · obtain ⟨hq, hnot⟩ | ⟨-, -, hw⟩ | ⟨hq, hsame⟩ := hqueues c
      · rw [hq] at hu
        exact absurd hu hnot
      · exact hw
      · rw [hq] at hu
        rw [hsame]
        exact hi.asleep hu
    · rw [hpc u hne]
      exact hi.asleep ((hmem hne).1 hu)
  · obtain ⟨hq, -⟩ | ⟨hq, hnot, -⟩ | ⟨hq, -⟩ := hqueues c
    · rw [hq]
      exact hi.nodup c
    · rw [hq]
      exact List.nodup_append.2 ⟨hi.nodup c, List.nodup_singleton t, fun x hx y hy => by
        rintro rfl
        rw [List.mem_singleton.1 hy] at hx
        exact hnot hx⟩
    · rw [hq]
      exact hi.nodup c
  · rw [hrbusy, hsbusy]
    obtain rfl | hne := eq_or_ne u t
    · exact hcommand hu
    · rw [hpc u hne] at hu
      exact hi.command hu
  · rw [hrxbusy, hrxirq, hrbusy, hrirq]
    exact hi.signalled (hback h)
  · rw [hrxbusy, hrxirq, hrbusy, hrirq]
    exact hi.rxirq
  · rw [hrxbusy, hrbusy, hrirq]
    exact hi.rbusy
  · rw [hrxbusy, hrirq]
    exact hi.rirq

/-- Two threads that have the lock are one. -/
theorem Inv.exclusive (hi : Inv s) {u : τ} (ht : (s.pc t).holds = true) (hu : (s.pc u).holds = true) :
    u = t := by
  have h := hi.holds hu
  rw [hi.holds ht] at h
  exact (Lock.held.inj h).symm

variable [DecidableEq τ] {p : Pc} {c : Cond}

theorem setPc_self : (s.setPc t p).pc t = p := by
  simp [State.setPc]

theorem setPc_ne {u : τ} (hu : u ≠ t) : (s.setPc t p).pc u = s.pc u := by
  simp [State.setPc, Function.update_of_ne hu]

/-- A thread that has the lock goes on. -/
theorem Inv.setPc (hi : Inv s) (ht : (s.pc t).waits = none) (hh : p.holds = true → s.lock = .held t)
    (hcommand : p = .sendCommand → s.rbusy = false ∧ s.sbusy = false)
    (hframe : p ≠ .recvFrameWait ∧ p ≠ .recvCommand) : Quiet s (s.setPc t p) := by
  have hself : (s.setPc t p).pc t = p := setPc_self
  refine hi.thread (fun u hu => setPc_ne hu) (.inl rfl) ?_ (fun c => .inl ⟨rfl, hi.not_mem ht c⟩) ?_ ?_
    rfl rfl rfl rfl rfl
  · rw [hself]
    exact hh
  · rw [hself]
    exact hcommand
  · rintro (⟨h, -⟩ | h)
    · exact absurd (hself.symm.trans h) hframe.1
    · exact absurd (hself.symm.trans h) hframe.2

/-- `condition_wait`. -/
theorem Inv.wait (hi : Inv s) (ht : (s.pc t).waits = none) (hl : s.lock = .held t) (hp : p.waits = some c)
    (hh : p.holds = false) (hcommand : p ≠ .sendCommand) (hframe : p ≠ .recvCommand)
    (hcond : p = .recvFrameWait → c = .crxirq) : Quiet s (s.wait t c p) := by
  have hself : (s.wait t c p).pc t = p := setPc_self
  refine hi.thread (t := t) (fun u hu => setPc_ne hu) (.inr fun u hu => ?_) ?_ (fun d => ?_) ?_ ?_
    rfl rfl rfl rfl rfl
  · rw [hl] at hu
    cases hu
    rfl
  · rw [hself, hh]
    exact fun h => Bool.noConfusion h
  · obtain rfl | hd := eq_or_ne d c
    · exact .inr (.inl ⟨Function.update_self _ _ _, hi.not_mem ht d, by rw [hself, hp]⟩)
    · exact .inl ⟨Function.update_of_ne hd _ _, hi.not_mem ht d⟩
  · rw [hself]
    exact fun h => absurd h hcommand
  · rintro (⟨h, hnot⟩ | h)
    · rw [hself] at h
      refine absurd ?_ hnot
      rw [← hcond h]
      show t ∈ Function.update s.queues c (s.queues c ++ [t]) c
      rw [Function.update_self]
      exact List.mem_append_right _ (List.mem_singleton_self t)
    · exact absurd (hself.symm.trans h) hframe

/-- `lock_release`, and the thread leaves the driver. -/
theorem Inv.leave (hi : Inv s) (ht : (s.pc t).waits = none) (hl : s.lock = .held t) :
    Quiet s (s.release.setPc t .outside) := by
  have hself : (s.release.setPc t .outside).pc t = .outside := setPc_self
  refine hi.thread (t := t) (fun u hu => setPc_ne hu) (.inr fun u hu => ?_) ?_
    (fun c => .inl ⟨rfl, hi.not_mem ht c⟩) ?_ ?_ rfl rfl rfl rfl rfl
  · rw [hl] at hu
    cases hu
    rfl
  · rw [hself]
    exact fun h => Bool.noConfusion h
  · rw [hself]
    exact fun h => Pc.noConfusion h
  · rintro (⟨h, -⟩ | h)
    · exact Pc.noConfusion (hself.symm.trans h)
    · exact Pc.noConfusion (hself.symm.trans h)

/-- Where a thread waits or enters, it can acquire the lock. -/
theorem Inv.acquire (hi : Inv s) (hp : (s.pc t).acquired = some p)
    (hq : ¬ ∃ c ∈ (s.pc t).waits, t ∈ s.queues c) (h : s.acquire t p = some s') : Quiet s s' := by
  have hnot : ∀ c, t ∉ s.queues c := fun c hm => hq ⟨c, hi.asleep hm, hm⟩
  have hgot : (∀ u, s.lock = .held u → u = t) → Quiet s { s.setPc t p with lock := .held t } := by
    intro hfree
    have hself : (s.setPc t p).pc t = p := setPc_self
    refine hi.thread (t := t) (fun u hu => setPc_ne hu) (.inr hfree) (fun _ => rfl)
      (fun c => .inl ⟨rfl, hnot c⟩) (fun h => ?_) (fun h => ?_) rfl rfl rfl rfl rfl
    · have h : p = .sendCommand := hself.symm.trans h
      rw [h] at hp
      cases hpc : s.pc t <;> rw [hpc] at hp <;> cases hp
    · obtain ⟨h, -⟩ | h := h
      · have h : p = .recvFrameWait := hself.symm.trans h
        rw [h] at hp
        cases hpc : s.pc t <;> rw [hpc] at hp <;> cases hp
      · have h : p = .recvCommand := hself.symm.trans h
        rw [h] at hp
        refine .inl ⟨?_, hnot _⟩
        cases hpc : s.pc t <;> rw [hpc] at hp <;> cases hp
  have hqueued : Quiet s { s with lockQueue := s.lockQueue ++ [t] } :=
    ⟨⟨hi.holds, hi.asleep, hi.nodup, hi.command, hi.one, hi.signalled, hi.rxirq, hi.rbusy, hi.rirq⟩, id⟩
  unfold State.acquire at h
  split at h
  · rename_i hl
    cases h
    refine hgot fun u hu => ?_
    rw [hl] at hu
    cases hu
  · rename_i u hl
    split at h
    · cases h
      refine hgot fun v hv => ?_
      rw [hl] at hv
      cases hv
    · split at h <;> cases h
      exact hqueued
  · split at h <;> cases h
    exact hqueued

/-- The step that issues `SEND`. -/
theorem Inv.send (hi : Inv s) (ht : s.pc t = .sendCommand) :
    Quiet s ({ s with sbusy := true, transfer := Function.update s.transfer t .sending }.setPc t .sendIssued) := by
  have hholds : (s.pc t).holds = true := by
    rw [ht]
    rfl
  obtain ⟨h1, hquiet⟩ : Quiet s (s.setPc t .sendIssued) :=
    hi.setPc (by rw [ht]; rfl) (fun _ => hi.holds hholds) (fun h => Pc.noConfusion h)
      ⟨Pc.noConfusion, Pc.noConfusion⟩
  refine ⟨⟨h1.holds, h1.asleep, h1.nodup, fun {u} hu => ?_, h1.one, h1.signalled, h1.rxirq, h1.rbusy, h1.rirq⟩,
    hquiet⟩
  have hu : (s.setPc t .sendIssued).pc u = .sendCommand := hu
  obtain rfl | hne := eq_or_ne u t
  · rw [setPc_self] at hu
    cases hu
  · rw [setPc_ne hne] at hu
    exact absurd (hi.exclusive hholds (by rw [hu]; rfl)) hne

/-- The step that issues `RECEIVE`: the frame is on its way, and nobody else has been woken for it. -/
theorem Inv.receive (hi : Inv s) (ht : s.pc t = .recvCommand) :
    Quiet s
      ({ s with rbusy := true, transfer := Function.update s.transfer t .receiving }.setPc t .recvIssued) := by
  have hholds : (s.pc t).holds = true := by
    rw [ht]
    rfl
  obtain ⟨h1, hquiet⟩ : Quiet s (s.setPc t .recvIssued) :=
    hi.setPc (by rw [ht]; rfl) (fun _ => hi.holds hholds) (fun h => Pc.noConfusion h)
      ⟨Pc.noConfusion, Pc.noConfusion⟩
  obtain ⟨hrx, hirq, -, hri⟩ := hi.signalled (.inr ht)
  have hnone : ∀ u, ¬ Signalled (s.setPc t .recvIssued) u := by
    intro u hu
    obtain rfl | hne := eq_or_ne u t
    · unfold Signalled at hu
      rw [setPc_self] at hu
      exact hu.elim (fun h => Pc.noConfusion h.1) fun h => Pc.noConfusion h
    · unfold Signalled at hu
      rw [setPc_ne hne] at hu
      exact hne (hi.one hu (.inr ht))
  refine ⟨⟨h1.holds, h1.asleep, h1.nodup, fun {u} hu => ?_, h1.one, fun {u} hu => absurd hu (hnone u),
    fun h => ?_, fun _ => ⟨hrx, hri⟩, h1.rirq⟩, hquiet⟩
  · have hu : (s.setPc t .recvIssued).pc u = .sendCommand := hu
    obtain rfl | hne := eq_or_ne u t
    · rw [setPc_self] at hu
      cases hu
    · rw [setPc_ne hne] at hu
      exact absurd (hi.exclusive hholds (by rw [hu]; rfl)) hne
  · have h : s.rxirq = true := h
    rw [hirq] at h
    cases h

theorem Inv.goStep (hi : Inv s) (h : s.go t = some s') : Quiet s s' := by
  have hheld : ∀ {p}, s.pc t = p → p.holds = true → s.lock = .held t := fun hp hh => hi.holds (by rw [hp, hh])
  unfold State.go at h
  split at h
  · rename_i ht
    split at h <;> cases h
    split
    · exact hi.setPc (by rw [ht]; rfl) (fun _ => hheld ht rfl) (fun h => Pc.noConfusion h)
        ⟨Pc.noConfusion, Pc.noConfusion⟩
    · rename_i hbusy
      refine hi.setPc (by rw [ht]; rfl) (fun _ => hheld ht rfl) (fun _ => ?_) ⟨Pc.noConfusion, Pc.noConfusion⟩
      exact Bool.or_eq_false_iff.1 (Bool.eq_false_iff.2 hbusy)
  · rename_i ht
    cases h
    exact hi.wait (by rw [ht]; rfl) (hheld ht rfl) rfl rfl Pc.noConfusion Pc.noConfusion fun h => Pc.noConfusion h
  · rename_i ht
    split at h <;> cases h
    exact hi.send ht
  · rename_i ht
    cases h
    exact hi.wait (by rw [ht]; rfl) (hheld ht rfl) rfl rfl Pc.noConfusion Pc.noConfusion fun h => Pc.noConfusion h
  · rename_i ht
    cases h
    exact hi.wait (by rw [ht]; rfl) (hheld ht rfl) rfl rfl Pc.noConfusion Pc.noConfusion fun _ => rfl
  · rename_i ht
    split at h <;> cases h
    exact hi.receive ht
  · rename_i ht
    cases h
    exact hi.wait (by rw [ht]; rfl) (hheld ht rfl) rfl rfl Pc.noConfusion Pc.noConfusion fun h => Pc.noConfusion h
  · rename_i ht
    cases h
    exact hi.leave (by rw [ht]; rfl) (hheld ht rfl)
  · rename_i ht
    cases h
    exact hi.leave (by rw [ht]; rfl) (hheld ht rfl)
  · cases h

end Threads

section Handler

variable {s s' : State τ} {c : Cond}

theorem mem_signal {t : τ} {d : Cond} (h : t ∈ (s.signal c).queues d) : t ∈ s.queues d := by
  have h : t ∈ Function.update s.queues c (s.queues c).tail d := h
  obtain rfl | hd := eq_or_ne d c
  · rw [Function.update_self] at h
    exact List.mem_of_mem_tail h
  · rw [Function.update_of_ne hd] at h
    exact h

theorem nodup_signal (hn : ∀ d, (s.queues d).Nodup) (d : Cond) : ((s.signal c).queues d).Nodup := by
  show (Function.update s.queues c (s.queues c).tail d).Nodup
  obtain rfl | hd := eq_or_ne d c
  · rw [Function.update_self]
    exact (hn d).tail
  · rw [Function.update_of_ne hd]
    exact hn d

theorem signal_signalled (hc : c ≠ .crxirq) {t : τ} : Signalled (s.signal c) t ↔ Signalled s t := by
  have hq : (s.signal c).queues .crxirq = s.queues .crxirq := Function.update_of_ne hc.symm _ _
  unfold Signalled
  rw [hq]
  rfl

/-- A signal on another condition variable than `crxirq`. -/
theorem Inv.signal (hi : Inv s) (hc : c ≠ .crxirq) : Inv (s.signal c) where
  holds := hi.holds
  asleep := fun h => hi.asleep (mem_signal h)
  nodup := nodup_signal hi.nodup
  command := hi.command
  one := fun h h' => hi.one ((signal_signalled hc).1 h) ((signal_signalled hc).1 h')
  signalled := fun h => hi.signalled ((signal_signalled hc).1 h)
  rxirq := hi.rxirq
  rbusy := hi.rbusy
  rirq := hi.rirq

/-- Where `RXIRQ` is set nobody has been woken for the frame. -/
theorem Inv.not_signalled (hi : Inv s) (h : s.rxirq = true) (t : τ) : ¬ Signalled s t := by
  intro ht
  obtain ⟨-, hirq, -⟩ := hi.signalled ht
  rw [h] at hirq
  cases hirq

/-- A thread that is woken for a frame was the first one to wait. -/
theorem Inv.signalled_head (hi : Inv s) (h : s.rxirq = true) {t : τ}
    (ht : Signalled ({ s with rxirq := false }.signal .crxirq) t) : (s.queues .crxirq).head? = some t := by
  have hnot := hi.not_signalled h t
  obtain ⟨hpc, hq⟩ | hpc := ht
  · have hpc : s.pc t = .recvFrameWait := hpc
    have hq : t ∉ Function.update s.queues .crxirq (s.queues .crxirq).tail .crxirq := hq
    rw [Function.update_self] at hq
    have hmem : t ∈ s.queues .crxirq := by
      by_contra hno
      exact hnot (.inl ⟨hpc, hno⟩)
    cases hl : s.queues .crxirq with
    | nil =>
      rw [hl] at hmem
      cases hmem
    | cons u rest =>
      rw [hl] at hmem hq
      obtain rfl | hm := List.mem_cons.1 hmem
      · rfl
      · exact absurd hm hq
  · exact absurd (.inr hpc) hnot

/-- `RXIRQ`. -/
theorem Inv.handleRxirq (hi : Inv s) : Inv s.handleRxirq := by
  unfold State.handleRxirq
  split
  · rename_i h
    obtain ⟨hirq, hbusy⟩ := h
    obtain ⟨hrx, hrb, hri⟩ := hi.rxirq hirq
    refine ⟨hi.holds, fun h => hi.asleep (mem_signal h), nodup_signal hi.nodup, hi.command, fun h h' => ?_,
      fun _ => ⟨hrx, rfl, hrb, hri⟩, fun h => Bool.noConfusion h, hi.rbusy, hi.rirq⟩
    have ht := hi.signalled_head hirq h
    rw [hi.signalled_head hirq h'] at ht
    exact (Option.some.inj ht).symm
  · exact hi

/-- `RIRQ`: the receive buffer is free, and nobody was woken for the frame that was in it. -/
theorem Inv.handleRirq (hi : Inv s) : Quiet s s.handleRirq := by
  unfold State.handleRirq
  split
  · rename_i hri
    have hnone : ∀ t, ¬ Signalled s t := by
      intro t ht
      obtain ⟨-, -, -, h⟩ := hi.signalled ht
      rw [hri] at h
      cases h
    have hrb : s.rbusy = false := by
      cases h : s.rbusy with
      | false => rfl
      | true =>
        obtain ⟨-, hno⟩ := hi.rbusy h
        rw [hri] at hno
        cases hno
    have hrx : s.rxirq = false := by
      cases h : s.rxirq with
      | false => rfl
      | true =>
        obtain ⟨-, -, hno⟩ := hi.rxirq h
        rw [hri] at hno
        cases hno
    have h1 : Inv { s with
        rirq := false, rxbusy := false, transfer := advance s.transfer .received .acknowledged } := by
      refine ⟨hi.holds, hi.asleep, hi.nodup, hi.command, hi.one, fun h => absurd h (hnone _), fun h => ?_,
        fun h => ?_, fun h => Bool.noConfusion h⟩
      · have h : s.rxirq = true := h
        rw [hrx] at h
        cases h
      · have h : s.rbusy = true := h
        rw [hrb] at h
        cases h
    refine ⟨(h1.signal Cond.noConfusion).signal Cond.noConfusion, fun h => ?_⟩
    exact (signal_signalled Cond.noConfusion).1 ((signal_signalled Cond.noConfusion).1 h)
  · exact ⟨hi, id⟩

/-- `SIRQ`. -/
theorem Inv.handleSirq (hi : Inv s) : Quiet s s.handleSirq := by
  unfold State.handleSirq
  split
  · have h1 : Inv { s with sirq := false, transfer := advance s.transfer .sent .acknowledged } :=
      ⟨hi.holds, hi.asleep, hi.nodup, hi.command, hi.one, hi.signalled, hi.rxirq, hi.rbusy, hi.rirq⟩
    refine ⟨(h1.signal Cond.noConfusion).signal Cond.noConfusion, fun h => ?_⟩
    exact (signal_signalled Cond.noConfusion).1 ((signal_signalled Cond.noConfusion).1 h)
  · exact ⟨hi, id⟩

end Handler

theorem Inv.setHandler {s : State τ} (hi : Inv s) (o : Option Part) : Inv { s with handler := o } :=
  ⟨hi.holds, hi.asleep, hi.nodup, hi.command, hi.one, hi.signalled, hi.rxirq, hi.rbusy, hi.rirq⟩

/-- A frame arrives: the receive buffer was free, so nobody is on the way to it. -/
theorem Inv.frameArrives {s : State τ} (hi : Inv s) (hrx : s.rxbusy = false) :
    Quiet s { s with rxbusy := true, rxirq := true } := by
  have hnone : ∀ t, ¬ Signalled s t := by
    intro t ht
    obtain ⟨h, -⟩ := hi.signalled ht
    rw [hrx] at h
    cases h
  have hri : s.rirq = false := by
    cases h : s.rirq with
    | false => rfl
    | true =>
      have := hi.rirq h
      rw [hrx] at this
      cases this
  have hrb : s.rbusy = false := by
    cases h : s.rbusy with
    | false => rfl
    | true =>
      obtain ⟨hno, -⟩ := hi.rbusy h
      rw [hrx] at hno
      cases hno
  exact ⟨⟨hi.holds, hi.asleep, hi.nodup, hi.command, hi.one, fun h => absurd h (hnone _),
    fun _ => ⟨rfl, hrb, hri⟩, fun _ => ⟨rfl, hri⟩, fun _ => rfl⟩, id⟩

/-- A transfer to memory completes. -/
theorem Inv.completeReceive {s : State τ} (hi : Inv s) (hrb : s.rbusy = true) (transfer : τ → Transfer) :
    Quiet s { s with rbusy := false, rirq := true, transfer := transfer } := by
  obtain ⟨hrx, -⟩ := hi.rbusy hrb
  refine ⟨⟨hi.holds, hi.asleep, hi.nodup, fun h => ⟨rfl, (hi.command h).2⟩, hi.one, fun ht => ?_, fun h => ?_,
    fun h => Bool.noConfusion h, fun _ => hrx⟩, id⟩
  · obtain ⟨-, -, h, -⟩ := hi.signalled ht
    rw [hrb] at h
    cases h
  · obtain ⟨-, hno, -⟩ := hi.rxirq h
    rw [hrb] at hno
    cases hno

/-- **Every step but that for `RXIRQ`** keeps the invariant and wakes nobody for a frame. -/
theorem Inv.quiet [DecidableEq τ] {s s' : State τ} {a : Action τ} (hi : Inv s) (h : step s a = some s')
    (ha : a ≠ .interrupt) : Quiet s s' := by
  cases a with
  | nicSend t =>
    simp only [Nic.step] at h
    split at h <;> cases h
    rename_i ht
    exact hi.setPc (by rw [ht]; rfl) (fun h => Bool.noConfusion h) (fun h => Pc.noConfusion h)
      ⟨Pc.noConfusion, Pc.noConfusion⟩
  | nicRecv t =>
    simp only [Nic.step] at h
    split at h <;> cases h
    rename_i ht
    exact hi.setPc (by rw [ht]; rfl) (fun h => Bool.noConfusion h) (fun h => Pc.noConfusion h)
      ⟨Pc.noConfusion, Pc.noConfusion⟩
  | acquire t =>
    simp only [Nic.step] at h
    split at h
    · cases h
    · rename_i p hp
      split at h
      · cases h
      · rename_i hq
        exact hi.acquire hp hq h
  | go t => exact hi.goStep h
  | interrupt => exact absurd rfl ha
  | interruptNext =>
    simp only [Nic.step] at h
    split at h <;> cases h
    · exact ⟨hi.handleRirq.inv.setHandler _, hi.handleRirq.signalled⟩
    · exact ⟨hi.handleSirq.inv.setHandler _, hi.handleSirq.signalled⟩
  | frameArrives =>
    simp only [Nic.step] at h
    split at h <;> cases h
    rename_i hrx
    exact hi.frameArrives (Bool.eq_false_iff.2 hrx)
  | completeReceive =>
    simp only [Nic.step] at h
    split at h <;> cases h
    rename_i hrb
    exact hi.completeReceive hrb _
  | completeSend =>
    simp only [Nic.step] at h
    split at h <;> cases h
    exact ⟨⟨hi.holds, hi.asleep, hi.nodup, fun h => ⟨(hi.command h).1, rfl⟩, hi.one, hi.signalled, hi.rxirq,
      hi.rbusy, hi.rirq⟩, id⟩

/-- **Every step keeps the invariant.** -/
theorem Inv.step [DecidableEq τ] {s s' : State τ} {a : Action τ} (hi : Inv s) (h : step s a = some s') :
    Inv s' := by
  by_cases ha : a = .interrupt
  · subst ha
    simp only [Nic.step] at h
    split at h <;> cases h
    exact hi.handleRxirq.setHandler _
  · exact (hi.quiet h ha).inv

/-! ## Two transfers at once -/

/-- A command is issued to an idle device. -/
def CommandsIdle (s : State τ) : Action τ → Prop
  | .go t => s.pc t = .sendCommand ∨ s.pc t = .recvCommand → s.rbusy = false ∧ s.sbusy = false
  | _ => True

/-- **The condition on a step**: no `SEND` is issued while a receiver has been woken for a frame and has not
issued its `RECEIVE`. -/
def NotOvertaken (s : State τ) : Action τ → Prop
  | .go t => s.pc t = .sendCommand → ∀ u, ¬ Signalled s u
  | _ => True

instance [DecidableEq τ] (s : State τ) (t : τ) : Decidable (Signalled s t) :=
  inferInstanceAs (Decidable (_ ∧ _ ∨ _))

instance [DecidableEq τ] [Fintype τ] (s : State τ) : ∀ a, Decidable (NotOvertaken s a)
  | .go _ => inferInstanceAs (Decidable (_ → ∀ _, _))
  | .nicSend _ | .nicRecv _ | .acquire _ | .interrupt | .interruptNext | .frameArrives | .completeReceive
  | .completeSend => isTrue trivial

instance (s : State τ) : ∀ a, Decidable (CommandsIdle s a)
  | .go _ => inferInstanceAs (Decidable (_ ∨ _ → _ ∧ _))
  | .nicSend _ | .nicRecv _ | .acquire _ | .interrupt | .interruptNext | .frameArrives | .completeReceive
  | .completeSend => isTrue trivial

/-- A receiver that was woken for a frame finds the device idle. -/
structure Idle (s : State τ) : Prop where
  inv : Inv s
  idle : ∀ {t}, Signalled s t → s.sbusy = false

section Exclusive

variable [DecidableEq τ] {s s' : State τ}

/-- Only `SEND` makes the device busy with sending. -/
theorem step_sbusy {a : Action τ} (h : step s a = some s') (ha : ∀ t, a = .go t → s.pc t ≠ .sendCommand)
    (hs : s'.sbusy = true) : s.sbusy = true := by
  cases a with
  | nicSend t =>
    simp only [step] at h
    split at h <;> cases h
    exact hs
  | nicRecv t =>
    simp only [step] at h
    split at h <;> cases h
    exact hs
  | acquire t =>
    simp only [step] at h
    split at h
    · cases h
    · split at h
      · cases h
      · unfold State.acquire at h
        split at h
        · cases h
          exact hs
        · split at h
          · cases h
            exact hs
          · split at h <;> cases h
            exact hs
        · split at h <;> cases h
          exact hs
  | go t =>
    simp only [step, State.go] at h
    split at h
    · split at h <;> cases h
      exact hs
    · cases h
      exact hs
    · rename_i hpc
      exact absurd hpc (ha t rfl)
    · cases h
      exact hs
    · cases h
      exact hs
    · split at h <;> cases h
      exact hs
    · cases h
      exact hs
    · cases h
      exact hs
    · cases h
      exact hs
    · cases h
  | interrupt =>
    simp only [step] at h
    split at h <;> cases h
    have hs : s.handleRxirq.sbusy = true := hs
    unfold State.handleRxirq at hs
    split at hs <;> exact hs
  | interruptNext =>
    simp only [step] at h
    split at h <;> cases h
    · have hs : s.handleRirq.sbusy = true := hs
      unfold State.handleRirq at hs
      split at hs <;> exact hs
    · have hs : s.handleSirq.sbusy = true := hs
      unfold State.handleSirq at hs
      split at hs <;> exact hs
  | frameArrives =>
    simp only [step] at h
    split at h <;> cases h
    exact hs
  | completeReceive =>
    simp only [step] at h
    split at h <;> cases h
    exact hs
  | completeSend =>
    simp only [step] at h
    split at h <;> cases h
    cases hs

/-- A receiver is woken while the device is idle, and no `SEND` overtakes it. -/
theorem Idle.step {a : Action τ} (hi : Idle s) (hc : NotOvertaken s a) (h : step s a = some s') : Idle s' := by
  refine ⟨hi.inv.step h, fun {t} ht => ?_⟩
  cases hs : s'.sbusy with
  | false => rfl
  | true =>
    by_cases ha : a = .interrupt
    · subst ha
      have hold := step_sbusy h (fun t h => by cases h) hs
      simp only [Nic.step] at h
      split at h <;> cases h
      have ht : Signalled s.handleRxirq t := ht
      unfold State.handleRxirq at ht
      split at ht
      · rename_i hrx
        have hsb := (Bool.or_eq_false_iff.1 hrx.2).2
        rw [hold] at hsb
        cases hsb
      · rw [hi.idle ht] at hold
        cases hold
    · have hsig := (hi.inv.quiet h ha).signalled ht
      have hold := step_sbusy h (fun u hu hpc => by
        subst hu
        exact hc hpc t hsig) hs
      rw [hi.idle hsig] at hold
      cases hold

/-- **DMA exclusivity**: in every run in which no `SEND` overtakes a receiver that was woken for a frame,
`SEND` and `RECEIVE` are issued only while neither `RBUSY` nor `SBUSY` is set. -/
theorem nic_exclusive {as : List (Action τ)} (hc : Every step NotOvertaken (State.init τ) as) :
    Every step CommandsIdle (State.init τ) as := by
  refine Every.of_invariant (I := Idle) (fun hc hi h => hi.step hc h) (fun {s a} hc hi => ?_)
    ⟨inv_init, fun h => h.elim (fun h => Pc.noConfusion h.1) fun h => Pc.noConfusion h⟩ hc
  cases a with
  | go t =>
    rintro (ht | ht)
    · exact hi.inv.command ht
    · obtain ⟨-, -, hrb, -⟩ := hi.inv.signalled (.inr ht)
      exact ⟨hrb, hi.idle (.inr ht)⟩
  | _ => trivial

end Exclusive

/-- A receiver takes a frame, and then a sender sends one. -/
def receiveThenSend : List (Action Bool) :=
  [.nicRecv false, .acquire false, .go false, .frameArrives, .interrupt, .interruptNext, .interruptNext,
    .acquire false, .go false, .go false, .nicSend true, .acquire true, .go true, .go true, .completeReceive,
    .interrupt, .interruptNext, .interruptNext, .acquire false, .go false, .acquire true, .go true, .go true]

theorem nic_exclusive_receiveThenSend :
    (∃ s, run step (State.init Bool) receiveThenSend = some s ∧ s.sbusy = true) ∧
      Every step CommandsIdle (State.init Bool) receiveThenSend :=
  ⟨by decide +kernel, nic_exclusive (by decide +kernel)⟩

/-- A frame arrives while thread `true` is about to send: thread `false` is woken for the frame, the other
one issues `SEND` and waits, and then `false` has the lock. -/
def overtakenRun : List (Action Bool) :=
  [.nicRecv false, .acquire false, .go false, .nicSend true, .acquire true, .go true, .frameArrives, .interrupt,
    .interruptNext, .interruptNext, .go true, .go true, .acquire false]

/-- **The receiver does not look at the device again**: it issues `RECEIVE` while `SBUSY` is set. -/
theorem nic_overtaken :
    (∃ s, run step (State.init Bool) overtakenRun = some s ∧ s.pc false = .recvCommand ∧ s.sbusy = true ∧
      (step s (.go false)).isSome = true) ∧
      ¬ Every step CommandsIdle (State.init Bool) (overtakenRun ++ [.go false]) :=
  ⟨by decide +kernel, by decide +kernel⟩

end Buenos.Nic
