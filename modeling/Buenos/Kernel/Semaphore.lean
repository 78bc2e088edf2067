import Buenos.Base.Fifo
import Buenos.Base.Transition
import Mathlib.Data.Finset.Card
import Mathlib.Data.List.Nodup

/-!
# Semaphores

`semaphore.c`, for one semaphore and any set of threads.  A step is one section under the semaphore's
spinlock; `semaphore_V` may come at any time, also from an interrupt handler, and threads may wait for
other resources at any time.  The sleep queue is the map of FIFO queues that it refines.

* `semaphoreP`, `semaphoreV` — up to the `thread_switch`.
* `State` — also the threads at the `thread_switch` of `semaphore_P`, and how many calls of
  `semaphore_P` have returned and how many calls of `semaphore_V` there were.
* `granted` — the calls of `semaphore_P` that have returned or whose thread has left the queue.

Principal result: `semaphore_correct` — the length of the queue and the number of grants, computed from
the value.
-/

namespace Buenos.Semaphore

open Transition

/-! ## The functions -/

/-- What a thread can wait for: the semaphore or something else. -/
inductive Resource where
  | sem
  | other (address : UInt32)
  deriving DecidableEq

def INT_MAX : ℤ := 2 ^ 31 - 1
def INT_MIN : ℤ := -2 ^ 31

/-- The value of the semaphore, and the queues of threads. -/
structure Memory (τ : Type) where
  value : ℤ
  queues : Resource → List τ

variable {τ : Type} [DecidableEq τ]

/-- `semaphore_P` up to its `thread_switch`, and whether it returns without it.  Below the least `int`
the value is not defined. -/
def semaphoreP (m : Memory τ) (t : τ) : Option (Memory τ × Bool) :=
  if m.value = INT_MIN then none
  else
    let m := { m with value := m.value - 1 }
    if m.value < 0 then some ({ m with queues := Fifo.apply m.queues (.add .sem t) }, false)
    else some (m, true)

/-- `semaphore_V`.  Above the greatest `int` the value is not defined. -/
def semaphoreV (m : Memory τ) : Option (Memory τ) :=
  if m.value = INT_MAX then none
  else
    let m := { m with value := m.value + 1 }
    if m.value ≤ 0 then some { m with queues := Fifo.apply m.queues (.wake .sem) }
    else some m

/-! ## Threads -/

/-- The shared data, the threads at the `thread_switch` of `semaphore_P`, and the numbers of calls. -/
structure State (τ : Type) where
  mem : Memory τ
  blocked : Finset τ
  returned : ℕ
  raised : ℕ

/-- A semaphore from `semaphore_create`. -/
def State.init (value : ℕ) : State τ where
  mem := { value := value, queues := fun _ => [] }
  blocked := ∅
  returned := 0
  raised := 0

inductive Action (τ : Type) where
  | p (t : τ)
  /-- `semaphore_P` after its `thread_switch` -/
  | wakeup (t : τ)
  | v
  /-- a thread joins or leaves the queue of something else -/
  | other (address : UInt32) (queue : List τ)

/-- One step; `none` if the thread is not there or still waits. -/
def step (s : State τ) : Action τ → Option (State τ)
  | .p t =>
    if t ∈ s.blocked then none
    else match semaphoreP s.mem t with
      | none => none
      | some (m, true) => some { s with mem := m, returned := s.returned + 1 }
      | some (m, false) => some { s with mem := m, blocked := insert t s.blocked }
  | .wakeup t =>
    if t ∈ s.blocked ∧ t ∉ s.mem.queues .sem then
      some { s with blocked := s.blocked.erase t, returned := s.returned + 1 }
    else none
  | .v => match semaphoreV s.mem with
    | none => none
    | some m => some { s with mem := m, raised := s.raised + 1 }
  | .other address queue =>
    some { s with mem := { s.mem with queues := Function.update s.mem.queues (.other address) queue } }

/-- The threads that have been taken out of the queue and have not run since. -/
def woken (blocked : Finset τ) (queue : List τ) : Finset τ := blocked.filter (· ∉ queue)

/-- The calls of `semaphore_P` that have been granted. -/
def granted (s : State τ) : ℕ := s.returned + (woken s.blocked (s.mem.queues .sem)).card

/-! ## The invariant -/

/-- The queue holds threads inside `semaphore_P`, as many as the value is below zero, and every
`semaphore_V` has been taken or is in the value. -/
structure Inv (value : ℕ) (s : State τ) : Prop where
  nodup : (s.mem.queues .sem).Nodup
  inside : ∀ t ∈ s.mem.queues .sem, t ∈ s.blocked
  length : ((s.mem.queues .sem).length : ℤ) = max 0 (-s.mem.value)
  grants : (granted s : ℤ) = value + s.raised - max 0 s.mem.value

section Queue

variable {blocked : Finset τ} {queue : List τ} {t : τ}

/-- A thread that blocks is in the queue. -/
theorem woken_join (ht : t ∉ blocked) : woken (insert t blocked) (queue ++ [t]) = woken blocked queue := by
  ext u
  simp only [woken, Finset.mem_filter, Finset.mem_insert, List.mem_append, List.mem_singleton, not_or]
  constructor
  · rintro ⟨rfl | hu, h1, h2⟩
    · exact absurd rfl h2
    · exact ⟨hu, h1⟩
  · rintro ⟨hu, h1⟩
    refine ⟨Or.inr hu, h1, ?_⟩
    rintro rfl
    exact ht hu

/-- The first of the queue leaves it. -/
theorem card_woken_wake (hnd : (t :: queue).Nodup) (ht : t ∈ blocked) :
    (woken blocked queue).card = (woken blocked (t :: queue)).card + 1 := by
  rw [List.nodup_cons] at hnd
  have hinsert : woken blocked queue = insert t (woken blocked (t :: queue)) := by
    ext u
    simp only [woken, Finset.mem_filter, Finset.mem_insert, List.mem_cons, not_or]
    constructor
    · rintro ⟨hu, hq⟩
      by_cases hut : u = t
      · exact Or.inl hut
      · exact Or.inr ⟨hu, hut, hq⟩
    · rintro (rfl | ⟨hu, -, hq⟩)
      · exact ⟨ht, hnd.1⟩
      · exact ⟨hu, hq⟩
  rw [hinsert, Finset.card_insert_of_notMem]
  simp [woken]

/-- A woken thread runs. -/
theorem card_woken_run (ht : t ∈ blocked) (hq : t ∉ queue) :
    (woken (blocked.erase t) queue).card + 1 = (woken blocked queue).card := by
  have herase : woken (blocked.erase t) queue = (woken blocked queue).erase t := by
    ext u
    simp only [woken, Finset.mem_filter, Finset.mem_erase]
    tauto
  rw [herase, Finset.card_erase_add_one]
  simp [woken, ht, hq]

end Queue

/-- **Every step** keeps the accounts. -/
theorem Inv.step {value : ℕ} {s s' : State τ} (h : Inv value s) {a : Action τ} (hs : step s a = some s') :
    Inv value s' := by
  have hlen := h.length
  have hg := h.grants
  unfold granted at hg
  cases a with
  | p t =>
    simp only [Semaphore.step] at hs
    split at hs
    · cases hs
    rename_i ht
    unfold semaphoreP at hs
    by_cases hmin : s.mem.value = INT_MIN
    · rw [if_pos hmin] at hs
      cases hs
    rw [if_neg hmin] at hs
    by_cases hneg : s.mem.value - 1 < 0
    · simp only [hneg, if_true] at hs
      cases hs
      refine ⟨?_, fun u hu => ?_, ?_, ?_⟩
      · simp only [Fifo.apply, Function.update_self]
        refine List.nodup_append.2 ⟨h.nodup, by simp, fun a ha b hb hab => ?_⟩
        rw [List.mem_singleton] at hb
        exact ht (hb ▸ hab ▸ h.inside a ha)
      · simp only [Fifo.apply, Function.update_self, List.mem_append, List.mem_singleton] at hu
        rcases hu with hu | rfl
        · exact Finset.mem_insert_of_mem (h.inside u hu)
        · exact Finset.mem_insert_self _ _
      · simp only [Fifo.apply, Function.update_self, List.length_append, List.length_singleton]
        push_cast
        omega
      · simp only [granted, Fifo.apply, Function.update_self, woken_join ht]
        omega
    · simp only [hneg, if_false] at hs
      cases hs
      refine ⟨h.nodup, h.inside, ?_, ?_⟩
      · simp only
        omega
      · simp only [granted]
        push_cast at hg ⊢
        omega
  | wakeup t =>
    simp only [Semaphore.step, Option.ite_none_right_eq_some, Option.some.injEq] at hs
    obtain ⟨⟨ht, hq⟩, rfl⟩ := hs
    have hcard := card_woken_run ht hq
    refine ⟨h.nodup, fun u hu => ?_, hlen, ?_⟩
    · refine Finset.mem_erase.2 ⟨?_, h.inside u hu⟩
      rintro rfl
      exact hq hu
    · simp only [granted]
      push_cast at hg ⊢
      omega
  | v =>
    simp only [Semaphore.step] at hs
    unfold semaphoreV at hs
    by_cases hmax : s.mem.value = INT_MAX
    · rw [if_pos hmax] at hs
      cases hs
    rw [if_neg hmax] at hs
    by_cases hle : s.mem.value + 1 ≤ 0
    · simp only [hle, if_true] at hs
      cases hs
      cases hq : s.mem.queues .sem with
      | nil =>
        rw [hq, List.length_nil] at hlen
        omega
      | cons t queue =>
        have hnd := h.nodup
        have hin := h.inside
        rw [hq] at hnd hin hlen hg
        have htail : Fifo.apply s.mem.queues (.wake .sem) .sem = queue := by simp [Fifo.apply, hq]
        have hcard := card_woken_wake hnd (hin t List.mem_cons_self)
        refine ⟨?_, fun u hu => ?_, ?_, ?_⟩
        · simp only [htail]
          exact (List.nodup_cons.1 hnd).2
        · simp only [htail] at hu
          exact hin u (List.mem_cons_of_mem _ hu)
        · simp only [htail]
          rw [List.length_cons] at hlen
          push_cast at hlen
          omega
        · simp only [granted, htail, hcard]
          push_cast at hg ⊢
          omega
    · simp only [hle, if_false] at hs
      cases hs
      refine ⟨h.nodup, h.inside, ?_, ?_⟩
      · simp only
        omega
      · simp only [granted]
        push_cast at hg ⊢
        omega
  | other address queue =>
    cases hs
    exact ⟨h.nodup, h.inside, hlen, hg⟩

theorem inv_init (value : ℕ) : Inv value (State.init value : State τ) := by
  refine ⟨by simp [State.init], by simp [State.init], ?_, ?_⟩
  · simp [State.init]
  · simp [State.init, granted, woken]

/-! ## Runs -/

/-- **Semaphores count.**  In every state of every run the number of queued threads is `max(0, -value)`
and the granted calls of `semaphore_P` are the initial value and the calls of `semaphore_V` less
`max(0, value)`, so that there are never more; and a `semaphore_V` grants one call if a thread waits,
and otherwise none. -/
theorem semaphore_correct (value : ℕ) (as : List (Action τ)) (s : State τ)
    (hr : run step (State.init value) as = some s) :
    ((s.mem.queues .sem).length : ℤ) = max 0 (-s.mem.value) ∧
    (granted s : ℤ) = value + s.raised - max 0 s.mem.value ∧
    granted s ≤ value + s.raised ∧
    ∀ s', step s .v = some s' → granted s' = granted s + if s.mem.queues .sem = [] then 0 else 1 := by
  have hinv := run_always (fun h hs => Inv.step h hs) (inv_init value) hr
  have hg := hinv.grants
  refine ⟨hinv.length, hg, by omega, fun s' hs => ?_⟩
  have hinv' := hinv.step hs
  have hg' := hinv'.grants
  have hlen := hinv.length
  have hv : s'.mem.value = s.mem.value + 1 ∧ s'.raised = s.raised + 1 := by
    simp only [step, semaphoreV] at hs
    split at hs
    · cases hs
    · rename_i m hm
      cases hs
      split at hm
      · cases hm
      · split at hm
        · cases hm
          exact ⟨rfl, rfl⟩
        · cases hm
          exact ⟨rfl, rfl⟩
  rw [hv.1, hv.2] at hg'
  cases hq : s.mem.queues .sem with
  | nil =>
    rw [hq, List.length_nil] at hlen
    rw [if_pos rfl]
    push_cast at hg'
    omega
  | cons t queue =>
    rw [hq, List.length_cons] at hlen
    rw [if_neg (by simp)]
    push_cast at hg' hlen
    omega

/-- Three threads ask for the one unit there is; a unit comes before the second one has been switched
out. -/
theorem semaphore_correct_three :
    ∃ s : State ℕ, run step (State.init 1) [.p 1, .p 2, .p 3, .v, .wakeup 2] = some s ∧
      s.mem.queues .sem = [3] ∧ granted s = 2 ∧ (granted s : ℤ) = (1 : ℕ) + s.raised - max 0 s.mem.value := by
  have hrun : ∃ s : State ℕ, run step (State.init 1) [.p 1, .p 2, .p 3, .v, .wakeup 2] = some s ∧
      s.mem.queues .sem = [3] ∧ granted s = 2 := by decide +kernel
  obtain ⟨s, hs, h1, h2⟩ := hrun
  obtain ⟨-, h3, -⟩ := semaphore_correct 1 _ s hs
  exact ⟨s, hs, h1, h2, h3⟩

end Buenos.Semaphore
