import Buenos.Kernel.Lists

/-!
# The ready list is two queues

`scheduler_add_to_ready_list` and `scheduler_remove_first_ready` against two FIFO queues, one for each
priority.

* `ReadyOp`, `Sched` — the two calls, and what happens to threads that are not on the list.
* `Queues` — the specification: a thread goes to the end of the queue of its priority, and the first thread
  of the queue of high priority is taken before the first one of the other queue.
* `Represents` — the ready list holds the two queues one behind the other.

Principal result: `ready_list_queues`.
-/

namespace Buenos.Kernel

open Buenos.Linked Buenos.Transition

/-! ## The list -/

/-- A call of the scheduler's list functions, or a change of a thread: its state, its priority and its link
are set. -/
inductive ReadyOp where
  | add (t : ℤ)
  | removeFirst
  | change (t : ℤ) (s : ThreadState) (p : Priority) (next : ℤ)

/-- The kernel, with what `scheduler_remove_first_ready` has returned so far, the last call first. -/
structure Sched where
  kernel : KernelState
  returned : List ℤ

def Sched.step (s : Sched) : ReadyOp → Option Sched
  | .add t => (schedulerAddToReadyList s.kernel t).map fun k => ⟨k, s.returned⟩
  | .removeFirst => (schedulerRemoveFirstReady s.kernel).map fun (t, k) => ⟨k, t :: s.returned⟩
  | .change t state p next =>
    some ⟨{ s.kernel with state := Function.update s.kernel.state t state
                          priority := Function.update s.kernel.priority t p
                          next := Function.update s.kernel.next t next }, s.returned⟩

def Sched.init : Sched := ⟨KernelState.init, []⟩

/-! ## The specification -/

/-- Two queues of threads. -/
structure Queues where
  state : ℤ → ThreadState
  priority : ℤ → Priority
  high : List ℤ
  normal : List ℤ
  returned : List ℤ

/-- The threads that wait in the queues. -/
def Queues.waiting (q : Queues) : List ℤ := q.high ++ q.normal

/-- At the end of the queue of its priority. -/
def Queues.add (q : Queues) (t : ℤ) : Queues :=
  match q.priority t with
  | .high => { q with high := q.high ++ [t] }
  | .normal => { q with normal := q.normal ++ [t] }

/-- The thread of high priority that has waited longest, or else the other one that has, or else the idle
thread. -/
def Queues.removeFirst (q : Queues) : Queues :=
  match q.high, q.normal with
  | t :: ts, _ => { q with high := ts, returned := t :: q.returned }
  | [], t :: ts => { q with normal := ts, returned := t :: q.returned }
  | [], [] => { q with returned := IDLE_THREAD_TID :: q.returned }

def Queues.step (q : Queues) : ReadyOp → Queues
  | .add t => q.add t
  | .removeFirst => q.removeFirst
  | .change t s p _ => { q with state := Function.update q.state t s, priority := Function.update q.priority t p }

def Queues.init : Queues := ⟨KernelState.init.state, KernelState.init.priority, [], [], []⟩

/-- How the list is used: a thread that is added is not the idle thread, is marked ready and is not on the
list; only threads that are not on the list change. -/
def Proper (q : Queues) : ReadyOp → Prop
  | .add t => Row t ∧ q.state t = .ready ∧ t ∉ q.waiting
  | .removeFirst => True
  | .change t _ _ _ => t ∉ q.waiting

instance (t : ℤ) : Decidable (Row t) := inferInstanceAs (Decidable (_ ∧ _))

instance Proper.decidable (q : Queues) : ∀ op, Decidable (Proper q op)
  | .add _ => inferInstanceAs (Decidable (_ ∧ _ ∧ _))
  | .removeFirst => isTrue trivial
  | .change _ _ _ _ => inferInstanceAs (Decidable (_ ∉ _))

/-! ## The refinement -/

/-- The ready list of the kernel is the queue of high priority and the other one behind it. -/
structure Represents (k : KernelState) (q : Queues) : Prop where
  list : Chain k.next (-1) k.head q.waiting
  tail : k.tail = q.waiting.getLast?.getD (-1)
  state : k.state = q.state
  priority : k.priority = q.priority
  high : ∀ t ∈ q.high, q.priority t = .high
  normal : ∀ t ∈ q.normal, q.priority t = .normal
  rows : ∀ t ∈ q.waiting, Row t ∧ q.state t = .ready
  queues : ∀ h, k.sleepqHashtable h = -1
  sleepers : k.threadNextSleeperId = -1

section

variable {k : KernelState} {q : Queues} {t : ℤ}

/-- The ready list is the only list with threads on it. -/
theorem Represents.lists (h : Represents k q) : Lists k {t | t ∈ q.waiting} (fun _ => ∅) ∅ where
  ready := ⟨q.waiting, h.list, h.tail, fun _ => Iff.rfl⟩
  queue b := by
    refine ⟨[], ?_, by simp⟩
    rw [h.queues b]
    exact chain_empty _ _
  sleepers := by
    refine ⟨[], ?_, by simp⟩
    rw [h.sleepers]
    exact chain_empty _ _
  disjoint _ := Set.notMem_empty _
  queues h := absurd h (Set.notMem_empty _)
  readyRow ht := (h.rows _ ht).1
  queueRow h := absurd h (Set.notMem_empty _)
  sleeperRow h := absurd h (Set.notMem_empty _)

/-- The place of a new thread is at the end of its queue. -/
theorem Represents.insertReady_eq (h : Represents k q) (t : ℤ) :
    insertReady k.priority q.waiting t = (q.add t).waiting := by
  unfold Queues.add Queues.waiting
  rw [h.priority]
  cases hp : q.priority t with
  | high =>
    have hnormal : ∀ y ∈ q.normal.head?, q.priority y ≠ .high := by
      intro y hy
      rw [h.normal y (List.mem_of_mem_head? hy)]
      decide
    rw [insertReady_high hp h.high hnormal]
    simp
  | normal => simp [insertReady, hp]

theorem mem_add : ∀ x, x ∈ (q.add t).waiting ↔ x = t ∨ x ∈ q.waiting := by
  intro x
  unfold Queues.add Queues.waiting
  cases q.priority t with
  | high =>
    simp only [List.mem_append, List.mem_singleton]
    tauto
  | normal =>
    simp only [List.mem_append, List.mem_singleton]
    tauto

theorem add_fields : (q.add t).state = q.state ∧ (q.add t).priority = q.priority ∧
    (q.add t).returned = q.returned := by
  unfold Queues.add
  cases q.priority t with
  | high => exact ⟨rfl, rfl, rfl⟩
  | normal => exact ⟨rfl, rfl, rfl⟩

/-- **`scheduler_add_to_ready_list`** puts the thread at the end of its queue. -/
theorem Represents.add (h : Represents k q) (ht : Row t) (hs : q.state t = .ready) (hnot : t ∉ q.waiting) :
    ∃ k', schedulerAddToReadyList k t = some k' ∧ Represents k' (q.add t) := by
  obtain ⟨next, head, tail, hk, hl, -, hins⟩ := h.lists.addToReadyList ht hnot fun _ => Set.notMem_empty _
  obtain ⟨hstate, hprio, -⟩ := @add_fields q t
  have hchain : Chain next (-1) head (q.add t).waiting := by
    rw [← h.insertReady_eq]
    exact hins _ h.list
  obtain ⟨ys, hys, htail, -⟩ := hl.ready
  refine ⟨_, hk, ⟨hchain, ?_, h.state.trans hstate.symm, h.priority.trans hprio.symm, fun x hx => ?_, fun x hx => ?_,
    fun x hx => ?_, h.queues, h.sleepers⟩⟩
  · rw [← hys.unique hchain]
    exact htail
  · rw [hprio]
    unfold Queues.add at hx
    split at hx
    · rename_i hp
      rcases List.mem_append.1 hx with hx | hx
      · exact h.high x hx
      · rw [List.mem_singleton.1 hx, hp]
    · exact h.high x hx
  · rw [hprio]
    unfold Queues.add at hx
    split at hx
    · exact h.normal x hx
    · rename_i hp
      rcases List.mem_append.1 hx with hx | hx
      · exact h.normal x hx
      · rw [List.mem_singleton.1 hx, hp]
  · rw [hstate]
    rcases (mem_add x).1 hx with rfl | hx
    · exact ⟨ht, hs⟩
    · exact h.rows x hx

end
section

variable {k : KernelState} {q : Queues} {t : ℤ}

/-- The list after its first thread `t` has been taken. -/
theorem Represents.rest {head tail : ℤ} {q' : Queues} (h : Represents k q) (hw : q.waiting = t :: q'.waiting)
    (hc : Chain k.next (-1) head q'.waiting) (htail : tail = q'.waiting.getLast?.getD (-1))
    (hstate : q'.state = q.state) (hprio : q'.priority = q.priority) (hhigh : ∀ x ∈ q'.high, x ∈ q.high)
    (hnormal : ∀ x ∈ q'.normal, x ∈ q.normal) : Represents { k with head := head, tail := tail } q' := by
  refine ⟨hc, htail, h.state.trans hstate.symm, h.priority.trans hprio.symm, fun x hx => ?_, fun x hx => ?_,
    fun x hx => ?_, h.queues, h.sleepers⟩
  · rw [hprio]
    exact h.high x (hhigh x hx)
  · rw [hprio]
    exact h.normal x (hnormal x hx)
  · rw [hstate]
    exact h.rows x (by rw [hw]; exact List.mem_cons_of_mem _ hx)

/-- **`scheduler_remove_first_ready`** takes the thread that the queues give. -/
theorem Represents.removeFirst (h : Represents k q) :
    ∃ t k', schedulerRemoveFirstReady k = some (t, k') ∧ q.removeFirst.returned = t :: q.returned ∧
      Represents k' q.removeFirst := by
  -- the first thread of the list is the first one of the queue of high priority, or else of the other one
  have htaken : ∀ {t : ℤ} {q' : Queues}, q.waiting = t :: q'.waiting → q'.state = q.state → q'.priority = q.priority →
      (∀ x ∈ q'.high, x ∈ q.high) → (∀ x ∈ q'.normal, x ∈ q.normal) →
      ∃ k', schedulerRemoveFirstReady k = some (t, k') ∧ Represents k' q' := by
    intro t q' hw hstate hprio hhigh hnormal
    have hc := h.list
    have htail := h.tail
    rw [hw] at hc htail
    obtain ⟨hrow, hready⟩ := h.rows t (by rw [hw]; exact List.mem_cons_self)
    obtain ⟨head, tail, hk, hc', htail'⟩ := removeFirst_cons hc htail hrow (by rw [h.state]; exact hready)
    exact ⟨_, hk, h.rest hw hc' htail' hstate hprio hhigh hnormal⟩
  unfold Queues.removeFirst
  cases hhigh : q.high with
  | cons t ts =>
    have hw : q.waiting = t :: (ts ++ q.normal) := by
      rw [Queues.waiting, hhigh]
      rfl
    have hsub : ∀ x ∈ ts, x ∈ q.high := fun x hx => by
      rw [hhigh]
      exact List.mem_cons_of_mem _ hx
    obtain ⟨k', hk, hrep⟩ := @htaken t { q with high := ts, returned := t :: q.returned } hw rfl rfl hsub fun _ hx => hx
    exact ⟨t, k', hk, rfl, hrep⟩
  | nil =>
    cases hnormal : q.normal with
    | cons t ts =>
      have hw : q.waiting = t :: (q.high ++ ts) := by
        rw [Queues.waiting, hhigh, hnormal]
        rfl
      have hsub : ∀ x ∈ ts, x ∈ q.normal := fun x hx => by
        rw [hnormal]
        exact List.mem_cons_of_mem _ hx
      obtain ⟨k', hk, hrep⟩ :=
        @htaken t { q with normal := ts, returned := t :: q.returned } hw rfl rfl (fun _ hx => hx) hsub
      refine ⟨t, k', hk, rfl, ?_⟩
      rw [hhigh] at hrep
      exact hrep
    | nil =>
      have hempty : ∀ t, t ∉ {t | t ∈ q.waiting} := by
        intro t ht
        have ht : t ∈ q.waiting := ht
        rw [Queues.waiting, hhigh, hnormal] at ht
        exact absurd ht List.not_mem_nil
      refine ⟨IDLE_THREAD_TID, k, h.lists.removeFirst_empty hempty, rfl, ?_⟩
      have hlist := h.list
      have htail := h.tail
      have hrows := h.rows
      rw [Queues.waiting, hhigh, hnormal] at hlist htail hrows
      exact ⟨hlist, htail, h.state, h.priority, fun x hx => absurd hx List.not_mem_nil,
        fun x hx => absurd hx List.not_mem_nil, hrows, h.queues, h.sleepers⟩

/-- A thread that is not on the list may change. -/
theorem Represents.change (h : Represents k q) (hnot : t ∉ q.waiting) (s : ThreadState) (p : Priority) (next : ℤ) :
    Represents { k with state := Function.update k.state t s
                        priority := Function.update k.priority t p
                        next := Function.update k.next t next } (q.step (.change t s p next)) := by
  have hne : ∀ x ∈ q.waiting, x ≠ t := by
    rintro x hx rfl
    exact hnot hx
  refine ⟨h.list.update hnot, h.tail, ?_, ?_, fun x hx => ?_, fun x hx => ?_, fun x hx => ?_, h.queues, h.sleepers⟩
  · rw [h.state]
    rfl
  · rw [h.priority]
    rfl
  · show Function.update q.priority t p x = _
    rw [Function.update_of_ne (hne x (List.mem_append_left _ hx))]
    exact h.high x hx
  · show Function.update q.priority t p x = _
    rw [Function.update_of_ne (hne x (List.mem_append_right _ hx))]
    exact h.normal x hx
  · show Row x ∧ Function.update q.state t s x = _
    rw [Function.update_of_ne (hne x hx)]
    exact h.rows x hx

end

/-! ## Runs -/

/-- The scheduler and the queues agree: the list holds the queues, and the same threads have been returned. -/
def Agrees (s : Sched) (q : Queues) : Prop := Represents s.kernel q ∧ s.returned = q.returned

theorem agrees_init : Agrees Sched.init Queues.init := by
  refine ⟨⟨chain_empty _ _, rfl, rfl, rfl, ?_, ?_, ?_, fun _ => rfl, rfl⟩, rfl⟩
  · exact fun t ht => absurd ht List.not_mem_nil
  · exact fun t ht => absurd ht List.not_mem_nil
  · exact fun t ht => absurd ht List.not_mem_nil

theorem Agrees.step {s : Sched} {q : Queues} {op : ReadyOp} (hp : Proper q op) (h : Agrees s q) :
    ∃ s', s.step op = some s' ∧ Agrees s' (q.step op) := by
  obtain ⟨hrep, hreturned⟩ := h
  cases op with
  | add t =>
    obtain ⟨hrow, hready, hnot⟩ := hp
    obtain ⟨k', hk, hrep'⟩ := hrep.add hrow hready hnot
    refine ⟨⟨k', s.returned⟩, ?_, hrep', ?_⟩
    · rw [Sched.step, hk, Option.map_some]
    · rw [hreturned]
      exact add_fields.2.2.symm
  | removeFirst =>
    obtain ⟨t, k', hk, hret, hrep'⟩ := hrep.removeFirst
    refine ⟨⟨k', t :: s.returned⟩, ?_, hrep', ?_⟩
    · rw [Sched.step, hk, Option.map_some]
    · rw [hreturned]
      exact hret.symm
  | change t state p next => exact ⟨_, rfl, hrep.change hp state p next, hreturned⟩

/-- **The ready list refines two FIFO queues**: every sequence of calls goes through, returns the threads that the
queues give, and leaves a list that holds the queues and whose tail is its last thread. -/
theorem ready_list_queues (ops : List ReadyOp) (h : Every (fun q op => some (q.step op)) Proper Queues.init ops) :
    ∃ s, run Sched.step Sched.init ops = some s ∧ s.returned = (ops.foldl Queues.step Queues.init).returned ∧
      Represents s.kernel (ops.foldl Queues.step Queues.init) := by
  obtain ⟨s, hs, hrep, hreturned⟩ := run_simulates Agrees.step agrees_init h
  exact ⟨s, hs, hreturned, hrep⟩

/-- Threads 1 and 3 are of normal priority, thread 2 is of high priority. -/
def threeThreads : List ReadyOp :=
  [.change 1 .ready .normal 7, .change 2 .ready .high (-1), .change 3 .ready .normal (-1), .add 1, .add 3, .add 2,
    .removeFirst, .removeFirst, .add 2, .removeFirst, .removeFirst, .removeFirst]

theorem ready_list_queues_three :
    ∃ s, run Sched.step Sched.init threeThreads = some s ∧ s.returned = [0, 3, 2, 1, 2] ∧
      Represents s.kernel (threeThreads.foldl Queues.step Queues.init) := by
  obtain ⟨s, hs, hreturned, hrep⟩ := ready_list_queues threeThreads (by decide)
  exact ⟨s, hs, hreturned, hrep⟩

end Buenos.Kernel
