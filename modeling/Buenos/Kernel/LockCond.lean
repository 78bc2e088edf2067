import Buenos.Base.Fifo
import Buenos.Base.Transition
import Mathlib.Data.Fintype.Card
import Mathlib.Data.List.Nodup

/-!
# Locks and condition variables

`lock_cond.c`, for one lock and the condition variables used with it.  A step is one section under a
spinlock, so that the sections of any number of threads may follow each other in any order; the sleep
queue is the map of FIFO queues that it refines, and threads may wait for other resources at any time.

* `lockAcquire`, `lockAcquired` — `lock_acquire` before and after its `thread_switch`.
* `lockRelease`, `conditionWait`, `conditionSignal`, `conditionBroadcast`.
* `Pc` — where in these functions a thread is; `State` — also what the threads have done so far.

Principal results: `lock_correct` — exclusion, counting and order of arrival, as long as the 32-bit
nesting count does not overflow, and `lock_nested_overflow`, what happens when it does.
-/

namespace Buenos.LockCond

open Transition

/-! ## The functions -/

/-- The values of `TID_t` that name a thread. -/
abbrev Tid := Fin (2 ^ 31)

instance Tid.neZero : NeZero (2 ^ 31) := ⟨by decide⟩

/-- The values of `locked_id`: `LOCK_NO_THREAD`, `LOCK_RESERVED_THREAD`, or a thread. -/
inductive LockedId where
  | noThread
  | reserved
  | thread (t : Tid)
  deriving DecidableEq

/-- `lock_t`, without its spinlock. -/
structure Lock where
  lockedId : LockedId
  nestedLockingCount : UInt32
  waitingThreadCount : UInt32
  deriving DecidableEq

/-- What a thread can wait for: the lock, one of the condition variables, or something else. -/
inductive Resource (γ : Type) where
  | lock
  | cond (c : γ)
  | other (address : UInt32)
  deriving DecidableEq

/-- The shared data: the lock, `waiting_thread_count` and spinlock of the condition variables, and the
queues of threads. -/
structure Memory (γ : Type) where
  lock : Lock
  waiting : γ → UInt32
  slock : γ → Bool
  queues : Resource γ → List Tid

variable {γ : Type} [DecidableEq γ]

/-- `lock_acquire`, its first section; whether it returns then. -/
def lockAcquire (m : Memory γ) (t : Tid) : Memory γ × Bool :=
  if m.lock.lockedId = .noThread then
    ({ m with lock := { m.lock with lockedId := .thread t, nestedLockingCount := 1 } }, true)
  else if m.lock.lockedId = .thread t then
    ({ m with lock := { m.lock with nestedLockingCount := m.lock.nestedLockingCount + 1 } }, true)
  else
    ({ m with lock := { m.lock with waitingThreadCount := m.lock.waitingThreadCount + 1 }
              queues := Fifo.apply m.queues (.add .lock t) }, false)

/-- `lock_acquire`, the section after its `thread_switch`. -/
def lockAcquired (m : Memory γ) (t : Tid) : Memory γ :=
  { m with lock := { lockedId := .thread t, nestedLockingCount := 1
                     waitingThreadCount := m.lock.waitingThreadCount - 1 } }

/-- `lock_release`; `none` if its assertion fails. -/
def lockRelease (m : Memory γ) (t : Tid) : Option (Memory γ) :=
  if m.lock.lockedId ≠ .thread t then none
  else if 1 < m.lock.nestedLockingCount then
    some { m with lock := { m.lock with nestedLockingCount := m.lock.nestedLockingCount - 1 } }
  else if 0 < m.lock.waitingThreadCount then
    some { m with lock := { m.lock with lockedId := .reserved, nestedLockingCount := 0 }
                  queues := Fifo.apply m.queues (.wake .lock) }
  else some { m with lock := { m.lock with lockedId := .noThread, nestedLockingCount := 0 } }

/-- `condition_wait` up to its `lock_release`; it then holds the spinlock of the condition variable. -/
def conditionWait (m : Memory γ) (c : γ) (t : Tid) : Memory γ :=
  { m with waiting := Function.update m.waiting c (m.waiting c + 1)
           slock := Function.update m.slock c true
           queues := Fifo.apply m.queues (.add (.cond c) t) }

/-- `condition_signal`. -/
def conditionSignal (m : Memory γ) (c : γ) : Memory γ :=
  if 0 < m.waiting c then
    { m with waiting := Function.update m.waiting c (m.waiting c - 1)
             queues := Fifo.apply m.queues (.wake (.cond c)) }
  else m

/-- `condition_broadcast`. -/
def conditionBroadcast (m : Memory γ) (c : γ) : Memory γ :=
  if 0 < m.waiting c then
    { m with waiting := Function.update m.waiting c 0
             queues := Fifo.apply m.queues (.wakeAll (.cond c)) }
  else m

/-! ## Threads -/

/-- Where a thread is.  `depth` is the nesting count with which it called `condition_wait`. -/
inductive Pc (γ : Type) where
  /-- in none of the functions -/
  | outside
  /-- at the `thread_switch` of `lock_acquire`, called by `condition_wait` or not -/
  | acquiring (depth : Option UInt32)
  /-- at the `lock_release` of `condition_wait` -/
  | entering (c : γ) (depth : UInt32)
  /-- at the `thread_switch` of `condition_wait` -/
  | waiting (c : γ) (depth : UInt32)
  deriving DecidableEq

/-- The shared data, where the threads are, and what happened so far: how many calls of `lock_acquire`
and `lock_release` have returned to each thread, in which order threads asked for the lock while they
did not own it, and in which order they came to own it. -/
structure State (γ : Type) where
  mem : Memory γ
  pc : Tid → Pc γ
  returned : Tid → ℕ
  released : Tid → ℕ
  arrivals : List Tid
  obtained : List Tid

/-- A lock from `lock_create`, and condition variables from `condition_create`. -/
def State.init : State γ where
  mem :=
    { lock := { lockedId := .noThread, nestedLockingCount := 0, waitingThreadCount := 0 }
      waiting := fun _ => 0
      slock := fun _ => false
      queues := fun _ => [] }
  pc := fun _ => .outside
  returned := fun _ => 0
  released := fun _ => 0
  arrivals := []
  obtained := []

/-- The steps: the calls, and the sections that follow inside a call. -/
inductive Action (γ : Type) where
  | acquire (t : Tid)
  /-- `lock_acquire` after its `thread_switch` -/
  | acquired (t : Tid)
  | release (t : Tid)
  | wait (c : γ) (t : Tid)
  /-- `condition_wait`: its `lock_release` -/
  | waitRelease (t : Tid)
  /-- `condition_wait` after its `thread_switch`: its `lock_acquire` -/
  | waitAcquire (t : Tid)
  | signal (c : γ)
  | broadcast (c : γ)
  /-- a thread joins or leaves the queue of something else -/
  | other (address : UInt32) (queue : List Tid)

/-- A call of `lock_acquire`, its first section. -/
def State.acquire (s : State γ) (t : Tid) (depth : Option UInt32) : State γ :=
  let nested := decide (s.mem.lock.lockedId = .thread t)
  let (m, done) := lockAcquire s.mem t
  { s with mem := m
           pc := Function.update s.pc t (if done then .outside else .acquiring depth)
           returned := if done then Function.update s.returned t (s.returned t + 1) else s.returned
           arrivals := if nested then s.arrivals else s.arrivals ++ [t]
           obtained := if done && !nested then s.obtained ++ [t] else s.obtained }

/-- A call of `lock_release`, after which the thread goes on at `pc`. -/
def State.release (s : State γ) (t : Tid) (pc : Pc γ) : Option (State γ) :=
  match lockRelease s.mem t with
  | none => none
  | some m => some { s with mem := m, pc := Function.update s.pc t pc
                            released := Function.update s.released t (s.released t + 1) }

/-- One step; `none` if the thread is not there, still waits, or fails an assertion. -/
def step (s : State γ) : Action γ → Option (State γ)
  | .acquire t => if s.pc t = .outside then some (s.acquire t none) else none
  | .acquired t => match s.pc t with
    | .acquiring _ =>
      if t ∈ s.mem.queues .lock then none
      else some { s with mem := lockAcquired s.mem t, pc := Function.update s.pc t .outside
                         returned := Function.update s.returned t (s.returned t + 1)
                         obtained := s.obtained ++ [t] }
    | _ => none
  | .release t => if s.pc t = .outside then s.release t .outside else none
  | .wait c t =>
    if s.pc t = .outside ∧ s.mem.slock c = false then
      some { s with mem := conditionWait s.mem c t
                    pc := Function.update s.pc t (.entering c s.mem.lock.nestedLockingCount) }
    else none
  | .waitRelease t => match s.pc t with
    | .entering c depth =>
      match s.release t (.waiting c depth) with
      | none => none
      | some s => some { s with mem := { s.mem with slock := Function.update s.mem.slock c false } }
    | _ => none
  | .waitAcquire t => match s.pc t with
    | .waiting c depth => if t ∈ s.mem.queues (.cond c) then none else some (s.acquire t (some depth))
    | _ => none
  | .signal c => if s.mem.slock c then none else some { s with mem := conditionSignal s.mem c }
  | .broadcast c => if s.mem.slock c then none else some { s with mem := conditionBroadcast s.mem c }
  | .other address queue =>
    some { s with mem := { s.mem with queues := Function.update s.mem.queues (.other address) queue } }

/-! ## The queue of the lock -/

/-- The threads at the `thread_switch` of `lock_acquire` are those in the queue and those that have left
it, `way`: one if the lock is reserved.  Who asked for the lock has obtained it or is one of them, in
the order of asking. -/
structure Core (s : State γ) (way : List Tid) : Prop where
  onWay : way.length = if s.mem.lock.lockedId = .reserved then 1 else 0
  counted : s.mem.lock.waitingThreadCount.toNat = (way ++ s.mem.queues .lock).length
  waits : ∀ t, t ∈ way ++ s.mem.queues .lock ↔ ∃ d, s.pc t = .acquiring d
  nodup : (way ++ s.mem.queues .lock).Nodup
  free : s.mem.lock.lockedId = .noThread → s.mem.queues .lock = []
  awake : ∀ t, s.mem.lock.lockedId = .thread t → t ∉ way ++ s.mem.queues .lock
  order : s.arrivals = s.obtained ++ (way ++ s.mem.queues .lock)

section Steps

variable {s s' : State γ} {way : List Tid} {t : Tid}

omit [DecidableEq γ] in
theorem Core.way_nil (h : Core s way) (hr : s.mem.lock.lockedId ≠ .reserved) : way = [] := by
  have := h.onWay
  rw [if_neg hr] at this
  exact List.length_eq_zero_iff.1 this

omit [DecidableEq γ] in
/-- The other data do not matter. -/
theorem Core.frame (h : Core s way) (hid : s'.mem.lock.lockedId = s.mem.lock.lockedId)
    (hw : s'.mem.lock.waitingThreadCount = s.mem.lock.waitingThreadCount)
    (hq : s'.mem.queues .lock = s.mem.queues .lock)
    (hpc : ∀ t, (∃ d, s'.pc t = .acquiring d) ↔ ∃ d, s.pc t = .acquiring d)
    (ha : s'.arrivals = s.arrivals) (ho : s'.obtained = s.obtained) : Core s' way := by
  refine ⟨?_, ?_, fun t => ?_, ?_, ?_, ?_, ?_⟩
  · rw [hid]
    exact h.onWay
  · rw [hw, hq]
    exact h.counted
  · rw [hq, hpc]
    exact h.waits t
  · rw [hq]
    exact h.nodup
  · rw [hid, hq]
    exact h.free
  · rw [hid, hq]
    exact h.awake
  · rw [ha, ho, hq]
    exact h.order

omit [DecidableEq γ] in
/-- The change of one thread's place, when it is not waiting for the lock before or after it. -/
theorem pc_update {pc : Tid → Pc γ} {x : Pc γ} (ht : ∀ d, pc t ≠ .acquiring d) (hx : ∀ d, x ≠ .acquiring d) :
    ∀ u, (∃ d, Function.update pc t x u = .acquiring d) ↔ ∃ d, pc u = .acquiring d := by
  intro u
  by_cases hu : u = t
  · subst hu
    rw [Function.update_self]
    exact ⟨fun ⟨d, hd⟩ => absurd hd (hx d), fun ⟨d, hd⟩ => absurd hd (ht d)⟩
  · rw [Function.update_of_ne hu]

/-- **`lock_acquire`** by a thread that is not waiting for the lock. -/
theorem Core.acquire (h : Core s way) (ht : ∀ d, s.pc t ≠ .acquiring d) (depth : Option UInt32) :
    Core (s.acquire t depth) way := by
  have hout : t ∉ way ++ s.mem.queues .lock := fun hm => by
    obtain ⟨d, hd⟩ := (h.waits t).1 hm
    exact ht d hd
  have hpc : ∀ u, (∃ d, Function.update s.pc t .outside u = .acquiring d) ↔ ∃ d, s.pc u = .acquiring d :=
    pc_update ht (by simp)
  unfold State.acquire lockAcquire
  by_cases hfree : s.mem.lock.lockedId = .noThread
  · have hway : way = [] := h.way_nil (by rw [hfree]; simp)
    have hq := h.free hfree
    have hcount := h.counted
    have hwaits := h.waits
    have horder := h.order
    subst hway
    simp only [hq, List.append_nil, List.length_nil] at hcount hwaits horder
    simp only [hfree, if_true]
    refine ⟨by simp, by simp [hq, hcount], fun u => ?_, by simp [hq], by simp, by simp [hq], ?_⟩
    · simp only [hq, List.append_nil, hwaits]
      exact (hpc u).symm
    · simp [hq, horder]
  · rw [if_neg hfree]
    by_cases hown : s.mem.lock.lockedId = .thread t
    · rw [if_pos hown]
      simp only [hown, if_true, decide_true, Bool.not_true, Bool.and_false]
      exact h.frame hown.symm rfl rfl hpc rfl rfl
    · rw [if_neg hown]
      have hnd : (way ++ (s.mem.queues .lock ++ [t])).Nodup := by
        rw [← List.append_assoc]
        exact List.nodup_append.2 ⟨h.nodup, by simp, fun a ha b hb hab => by
          rw [List.mem_singleton] at hb
          exact hout (hb ▸ hab ▸ ha)⟩
      have hlen := hnd.length_le_card
      rw [Fintype.card_fin, ← List.append_assoc, List.length_append, ← h.counted, List.length_singleton] at hlen
      simp only [hown, decide_false, Bool.false_and, Bool.false_eq_true, if_false, Fifo.apply]
      refine ⟨h.onWay, ?_, fun u => ?_, ?_, fun hf => absurd hf hfree, fun u hu => ?_, ?_⟩
      · simp only [Function.update_self, UInt32.toNat_add, ← List.append_assoc]
        rw [List.length_append, ← h.counted]
        have : (1 : UInt32).toNat = 1 := rfl
        simp only [List.length_singleton, this]
        omega
      · simp only [Function.update_self, ← List.append_assoc, List.mem_append (s := way ++ s.mem.queues .lock),
          List.mem_singleton, h.waits]
        by_cases hu : u = t
        · simp [hu]
        · simp [hu]
      · simp only [Function.update_self]
        exact hnd
      · have hne : u ≠ t := by
          rintro rfl
          exact hown hu
        have := h.awake u hu
        simp only [Function.update_self, ← List.append_assoc, List.mem_append (s := way ++ s.mem.queues .lock),
          List.mem_singleton]
        tauto
      · simp [Function.update_self, h.order]

omit [DecidableEq γ] in
/-- **`lock_acquire` after its `thread_switch`**: the thread is the one for which the lock is reserved. -/
theorem Core.acquired (h : Core s way) {d : Option UInt32} (ht : s.pc t = .acquiring d)
    (hq : t ∉ s.mem.queues .lock) :
    s.mem.lock.lockedId = .reserved ∧
      Core { s with
        mem := lockAcquired s.mem t, pc := Function.update s.pc t .outside
        returned := Function.update s.returned t (s.returned t + 1)
        obtained := s.obtained ++ [t] } [] := by
  have hway : t ∈ way := by
    have := (h.waits t).2 ⟨d, ht⟩
    rw [List.mem_append] at this
    exact this.resolve_right hq
  have hres : s.mem.lock.lockedId = .reserved := by
    by_contra hr
    rw [h.way_nil hr] at hway
    cases hway
  have hone : way = [t] := by
    have hlen := h.onWay
    rw [if_pos hres] at hlen
    obtain ⟨x, rfl⟩ := List.length_eq_one_iff.1 hlen
    rw [List.mem_singleton] at hway
    rw [hway]
  subst hone
  have hcount := h.counted
  have hnd := h.nodup
  have hlen := hnd.length_le_card
  rw [Fintype.card_fin, ← hcount] at hlen
  simp only [List.singleton_append, List.length_cons, List.nodup_cons] at hcount hnd
  refine ⟨hres, by simp [lockAcquired], ?_, fun u => ?_, hnd.2, by simp [lockAcquired], fun u hu => ?_, ?_⟩
  · have h1 : (1 : UInt32) ≤ s.mem.lock.waitingThreadCount := by
      rw [UInt32.le_iff_toNat_le, hcount]
      exact Nat.le_add_left _ _
    simp only [lockAcquired, List.nil_append]
    rw [UInt32.toNat_sub_of_le _ _ h1, hcount]
    rfl
  · have hw := h.waits u
    simp only [List.singleton_append, List.mem_cons] at hw
    simp only [lockAcquired, List.nil_append]
    by_cases hu : u = t
    · subst hu
      simp [hnd.1]
    · rw [Function.update_of_ne hu, ← hw]
      simp [hu]
  · simp only [lockAcquired, LockedId.thread.injEq] at hu
    subst hu
    exact hnd.1
  · simp [lockAcquired, h.order]

/-- **`lock_release`** by the owner: it keeps the lock, hands it over, or leaves it free. -/
theorem Core.release (h : Core s way) {pc : Pc γ} (hpc : ∀ d, pc ≠ .acquiring d)
    (hr : s.release t pc = some s') : ∃ way', Core s' way' := by
  unfold State.release at hr
  cases hm : lockRelease s.mem t with
  | none =>
    rw [hm] at hr
    cases hr
  | some m =>
    rw [hm] at hr
    cases hr
    unfold lockRelease at hm
    split at hm
    · cases hm
    rename_i hown
    rw [not_not] at hown
    have hway : way = [] := h.way_nil (by rw [hown]; simp)
    subst hway
    have hcount := h.counted
    have hnd := h.nodup
    have hwaits := h.waits
    have horder := h.order
    simp only [List.nil_append] at hcount hnd hwaits horder
    have ht : ∀ d, s.pc t ≠ .acquiring d := fun d hd =>
      h.awake t hown ((h.waits t).2 ⟨d, hd⟩)
    have hpc' := pc_update ht hpc
    split at hm
    · cases hm
      exact ⟨[], h.frame rfl rfl rfl hpc' rfl rfl⟩
    split at hm
    · rename_i hpos
      cases hm
      rw [UInt32.lt_iff_toNat_lt, hcount] at hpos
      cases hq : s.mem.queues .lock with
      | nil =>
        rw [hq] at hpos
        exact absurd hpos (by decide)
      | cons x q =>
        have htail : Fifo.apply s.mem.queues (.wake .lock) .lock = q := by simp [Fifo.apply, hq]
        rw [hq] at hcount hnd hwaits horder
        refine ⟨[x], by simp, ?_, fun u => ?_, ?_, by simp, by simp, ?_⟩
        · simp only [htail]
          exact hcount
        · simp only [htail]
          rw [hpc' u]
          exact hwaits u
        · simp only [htail]
          exact hnd
        · simp only [htail]
          exact horder
    · rename_i hpos
      cases hm
      rw [UInt32.lt_iff_toNat_lt, hcount, not_lt] at hpos
      have hq : s.mem.queues .lock = [] := List.length_eq_zero_iff.1 (Nat.le_zero.1 hpos)
      rw [hq] at hcount hwaits horder
      refine ⟨[], by simp, by simp [hq, hcount], fun u => ?_, by simp [hq], fun _ => hq, by simp, ?_⟩
      · simp only [hq, List.append_nil]
        rw [hpc' u]
        exact hwaits u
      · simp only [hq, List.append_nil]
        simpa using horder

end Steps

/-- **Every step** keeps the queue of the lock in order. -/
theorem Core.step {s s' : State γ} {way : List Tid} (h : Core s way) {a : Action γ}
    (hs : step s a = some s') : ∃ way', Core s' way' := by
  cases a with
  | acquire t =>
    simp only [LockCond.step, Option.ite_none_right_eq_some, Option.some.injEq] at hs
    obtain ⟨ht, rfl⟩ := hs
    exact ⟨way, h.acquire (by rw [ht]; simp) none⟩
  | acquired t =>
    simp only [LockCond.step] at hs
    split at hs
    · rename_i d ht
      split at hs
      · cases hs
      · rename_i hq
        cases hs
        exact ⟨[], (h.acquired ht hq).2⟩
    · cases hs
  | release t =>
    simp only [LockCond.step, Option.ite_none_right_eq_some] at hs
    exact h.release (by simp) hs.2
  | wait c t =>
    simp only [LockCond.step, Option.ite_none_right_eq_some, Option.some.injEq] at hs
    obtain ⟨⟨ht, -⟩, rfl⟩ := hs
    exact ⟨way, h.frame rfl rfl rfl (pc_update (by rw [ht]; simp) (by simp)) rfl rfl⟩
  | waitRelease t =>
    simp only [LockCond.step] at hs
    split at hs
    · rename_i c d ht
      split at hs
      · cases hs
      · rename_i s1 h1
        cases hs
        obtain ⟨way', h'⟩ := h.release (by simp) h1
        exact ⟨way', h'.frame rfl rfl rfl (fun _ => Iff.rfl) rfl rfl⟩
    · cases hs
  | waitAcquire t =>
    simp only [LockCond.step] at hs
    split at hs
    · rename_i c d ht
      split at hs
      · cases hs
      · cases hs
        exact ⟨way, h.acquire (by rw [ht]; simp) _⟩
    · cases hs
  | signal c =>
    simp only [LockCond.step] at hs
    split at hs
    · cases hs
    · cases hs
      refine ⟨way, h.frame ?_ ?_ ?_ (fun _ => Iff.rfl) rfl rfl⟩
      all_goals
        simp only [conditionSignal]
        split <;> rfl
  | broadcast c =>
    simp only [LockCond.step] at hs
    split at hs
    · cases hs
    · cases hs
      refine ⟨way, h.frame ?_ ?_ ?_ (fun _ => Iff.rfl) rfl rfl⟩
      all_goals
        simp only [conditionBroadcast]
        split <;> rfl
  | other address queue =>
    cases hs
    exact ⟨way, h.frame rfl rfl rfl (fun _ => Iff.rfl) rfl rfl⟩

omit [DecidableEq γ] in
theorem core_init : Core (State.init : State γ) [] := by
  refine ⟨rfl, rfl, fun t => ?_, by simp [State.init], fun _ => rfl, by simp [State.init], rfl⟩
  simp [State.init]

/-! ## The nesting count -/

/-- A thread that calls `lock_acquire` has fewer than 2^32 - 1 calls of it outstanding. -/
def Shallow (s : State γ) : Action γ → Prop
  | .acquire t => s.returned t + 1 < s.released t + 2 ^ 32
  | .waitAcquire t => s.returned t + 1 < s.released t + 2 ^ 32
  | _ => True

/-- How deep a thread holds the lock. -/
def depth (l : Lock) (t : Tid) : ℕ := if l.lockedId = .thread t then l.nestedLockingCount.toNat else 0

/-- The owner's outstanding acquisitions are the nesting count, and no other thread has any. -/
structure Balanced (s : State γ) : Prop where
  outstanding : ∀ t, s.returned t = s.released t + depth s.mem.lock t
  held : ∀ t, s.mem.lock.lockedId = .thread t → 0 < s.mem.lock.nestedLockingCount.toNat

section Balance

variable {s s' : State γ} {t : Tid}

omit [DecidableEq γ] in
theorem Balanced.frame (h : Balanced s) (hl : s'.mem.lock = s.mem.lock) (h1 : s'.returned = s.returned)
    (h2 : s'.released = s.released) : Balanced s' := by
  refine ⟨fun t => ?_, fun t => ?_⟩
  · rw [hl, h1, h2]
    exact h.outstanding t
  · rw [hl]
    exact h.held t

omit [DecidableEq γ] in
/-- A thread that did not hold the lock has it once. -/
theorem Balanced.obtain (h : Balanced s) (hno : ∀ t, s.mem.lock.lockedId ≠ .thread t)
    (hid : s'.mem.lock.lockedId = .thread t) (hn : s'.mem.lock.nestedLockingCount = 1)
    (h1 : s'.returned = Function.update s.returned t (s.returned t + 1)) (h2 : s'.released = s.released) :
    Balanced s' := by
  refine ⟨fun u => ?_, fun u _ => by rw [hn]; decide⟩
  have hu := h.outstanding u
  rw [depth, if_neg (hno u)] at hu
  rw [h1, h2, depth, hid, hn]
  by_cases hut : u = t
  · subst hut
    simp only [Function.update_self, if_true]
    rw [hu]
    rfl
  · have hne : LockedId.thread t ≠ .thread u := by
      simp only [ne_eq, LockedId.thread.injEq]
      exact fun he => hut he.symm
    rw [Function.update_of_ne hut, if_neg hne, hu]

theorem Balanced.acquire (h : Balanced s) (hd : s.returned t + 1 < s.released t + 2 ^ 32)
    (d : Option UInt32) : Balanced (s.acquire t d) := by
  unfold State.acquire lockAcquire
  by_cases hfree : s.mem.lock.lockedId = .noThread
  · rw [if_pos hfree]
    exact h.obtain (t := t) (by rw [hfree]; simp) rfl rfl rfl rfl
  · rw [if_neg hfree]
    by_cases hown : s.mem.lock.lockedId = .thread t
    · rw [if_pos hown]
      have ht := h.outstanding t
      have hpos := h.held t hown
      rw [depth, if_pos hown] at ht
      have hone : (1 : UInt32).toNat = 1 := rfl
      have hsucc : (s.mem.lock.nestedLockingCount + 1).toNat = s.mem.lock.nestedLockingCount.toNat + 1 := by
        rw [UInt32.toNat_add, hone]
        omega
      refine ⟨fun u => ?_, fun u _ => ?_⟩
      · simp only [depth, hown, if_true]
        by_cases hu : u = t
        · subst hu
          simp only [Function.update_self, if_true, hsucc]
          omega
        · have hne : LockedId.thread t ≠ .thread u := by
            simp only [ne_eq, LockedId.thread.injEq]
            exact fun he => hu he.symm
          have hu0 := h.outstanding u
          rw [depth, hown, if_neg hne] at hu0
          rw [Function.update_of_ne hu, if_neg hne, hu0]
      · simp only [hsucc]
        omega
    · rw [if_neg hown]
      exact ⟨h.outstanding, h.held⟩

theorem Balanced.release (h : Balanced s) {pc : Pc γ} (hr : s.release t pc = some s') : Balanced s' := by
  unfold State.release at hr
  cases hm : lockRelease s.mem t with
  | none =>
    rw [hm] at hr
    cases hr
  | some m =>
    rw [hm] at hr
    cases hr
    unfold lockRelease at hm
    split at hm
    · cases hm
    rename_i hown
    rw [not_not] at hown
    have ht := h.outstanding t
    have hpos := h.held t hown
    rw [depth, if_pos hown] at ht
    have hothers : ∀ u, u ≠ t → s.returned u = s.released u := by
      intro u hu
      have hne : LockedId.thread t ≠ .thread u := by
        simp only [ne_eq, LockedId.thread.injEq]
        exact fun he => hu he.symm
      have := h.outstanding u
      rwa [depth, hown, if_neg hne] at this
    have hone : (1 : UInt32).toNat = 1 := rfl
    split at hm
    · rename_i hn
      cases hm
      rw [UInt32.lt_iff_toNat_lt, hone] at hn
      have hpred : (s.mem.lock.nestedLockingCount - 1).toNat = s.mem.lock.nestedLockingCount.toNat - 1 := by
        rw [UInt32.toNat_sub_of_le _ _ (by rw [UInt32.le_iff_toNat_le, hone]; omega), hone]
      refine ⟨fun u => ?_, fun u _ => ?_⟩
      · simp only [depth, hown]
        by_cases hu : u = t
        · subst hu
          simp only [Function.update_self, if_true, hpred]
          omega
        · have hne : LockedId.thread t ≠ .thread u := by
            simp only [ne_eq, LockedId.thread.injEq]
            exact fun he => hu he.symm
          rw [Function.update_of_ne hu, if_neg hne, hothers u hu, Nat.add_zero]
      · simp only [hpred]
        omega
    · rename_i hn
      rw [UInt32.lt_iff_toNat_lt, hone] at hn
      -- the owner gives back its only acquisition
      have hzero : ∀ u, s.returned u = Function.update s.released t (s.released t + 1) u := by
        intro u
        by_cases hu : u = t
        · subst hu
          rw [Function.update_self]
          omega
        · rw [Function.update_of_ne hu, hothers u hu]
      split at hm
      · cases hm
        exact ⟨fun u => by simpa [depth] using hzero u, by simp⟩
      · cases hm
        exact ⟨fun u => by simpa [depth] using hzero u, by simp⟩

end Balance

/-- **Every step** that keeps the nesting count below its bound keeps the accounts. -/
theorem Balanced.step {s s' : State γ} {way : List Tid} (h : Balanced s) (hcore : Core s way) {a : Action γ}
    (ha : Shallow s a) (hs : step s a = some s') : Balanced s' := by
  cases a with
  | acquire t =>
    simp only [LockCond.step, Option.ite_none_right_eq_some, Option.some.injEq] at hs
    obtain ⟨-, rfl⟩ := hs
    exact h.acquire ha none
  | acquired t =>
    simp only [LockCond.step] at hs
    split at hs
    · rename_i d ht
      split at hs
      · cases hs
      · rename_i hq
        cases hs
        exact h.obtain (t := t) (by rw [(hcore.acquired ht hq).1]; simp) rfl rfl rfl rfl
    · cases hs
  | release t =>
    simp only [LockCond.step, Option.ite_none_right_eq_some] at hs
    exact h.release hs.2
  | wait c t =>
    simp only [LockCond.step, Option.ite_none_right_eq_some, Option.some.injEq] at hs
    obtain ⟨-, rfl⟩ := hs
    exact h.frame rfl rfl rfl
  | waitRelease t =>
    simp only [LockCond.step] at hs
    split at hs
    · split at hs
      · cases hs
      · rename_i s1 h1
        cases hs
        exact (h.release h1).frame rfl rfl rfl
    · cases hs
  | waitAcquire t =>
    simp only [LockCond.step] at hs
    split at hs
    · split at hs
      · cases hs
      · cases hs
        exact h.acquire ha _
    · cases hs
  | signal c =>
    simp only [LockCond.step] at hs
    split at hs
    · cases hs
    · cases hs
      refine h.frame ?_ rfl rfl
      simp only [conditionSignal]
      split <;> rfl
  | broadcast c =>
    simp only [LockCond.step] at hs
    split at hs
    · cases hs
    · cases hs
      refine h.frame ?_ rfl rfl
      simp only [conditionBroadcast]
      split <;> rfl
  | other address queue =>
    cases hs
    exact h.frame rfl rfl rfl

/-! ## Runs -/

/-- The thread has been taken out of the queue of the lock and has not run since. -/
def OnItsWay (s : State γ) (t : Tid) : Prop := (∃ d, s.pc t = .acquiring d) ∧ t ∉ s.mem.queues .lock

/-- What a correct lock looks like. -/
structure LockCorrect (s : State γ) : Prop where
  owner : ∀ t, s.released t < s.returned t → s.mem.lock.lockedId = .thread t
  outstanding : ∀ t, s.mem.lock.lockedId = .thread t →
    s.mem.lock.nestedLockingCount.toNat = s.returned t - s.released t ∧ s.released t < s.returned t
  waiting : s.mem.lock.waitingThreadCount.toNat =
    (s.mem.queues .lock).length + if s.mem.lock.lockedId = .reserved then 1 else 0
  free : s.mem.lock.lockedId = .noThread → s.mem.queues .lock = [] ∧ ∀ t, ¬ OnItsWay s t
  order : ∃ way, s.arrivals = s.obtained ++ way ++ s.mem.queues .lock ∧ ∀ t, t ∈ way ↔ OnItsWay s t

omit [DecidableEq γ] in
theorem Core.lockCorrect {s : State γ} {way : List Tid} (h : Core s way) (hb : Balanced s) : LockCorrect s := by
  have hway : ∀ t, t ∈ way ↔ OnItsWay s t := by
    intro t
    have hdis := List.disjoint_of_nodup_append h.nodup
    constructor
    · intro ht
      exact ⟨(h.waits t).1 (List.mem_append_left _ ht), fun hq => hdis ht hq⟩
    · rintro ⟨hd, hq⟩
      have := (h.waits t).2 hd
      rw [List.mem_append] at this
      exact this.resolve_right hq
  refine ⟨fun t ht => ?_, fun t ht => ?_, ?_, fun hf => ⟨h.free hf, fun t ht => ?_⟩, way, ?_, hway⟩
  · by_contra hno
    have := hb.outstanding t
    rw [depth, if_neg hno] at this
    omega
  · have h1 := hb.outstanding t
    have h2 := hb.held t ht
    rw [depth, if_pos ht] at h1
    omega
  · rw [h.counted, List.length_append, h.onWay, Nat.add_comm]
  · have := (hway t).2 ht
    rw [h.way_nil (by rw [hf]; simp)] at this
    cases this
  · rw [h.order, List.append_assoc]

/-- **The recursive lock is correct** over every run in which no thread nests its acquisitions 2^32
deep: at most one thread has acquisitions outstanding, it is the owner and the nesting count is their
number; the waiting count is right; the lock is free only if nobody wants it; and threads come to own
the lock in the order in which they asked for it. -/
theorem lock_correct (as : List (Action γ)) (s : State γ) (h : Every step Shallow State.init as)
    (hr : run step State.init as = some s) : LockCorrect s := by
  have hinv : (∃ way, Core s way) ∧ Balanced s := by
    refine run_invariant (I := fun s => (∃ way, Core s way) ∧ Balanced s) ?_ ⟨⟨[], core_init⟩, ?_⟩ h hr
    · rintro s a s' ha ⟨⟨way, hc⟩, hb⟩ hs
      exact ⟨hc.step hs, hb.step hc ha hs⟩
    · exact ⟨fun t => rfl, by simp [State.init]⟩
  obtain ⟨⟨way, hc⟩, hb⟩ := hinv
  exact hc.lockCorrect hb

instance Shallow.decidable (s : State γ) : ∀ a, Decidable (Shallow s a)
  | .acquire _ => inferInstanceAs (Decidable (_ < _))
  | .waitAcquire _ => inferInstanceAs (Decidable (_ < _))
  | .acquired _ => isTrue trivial
  | .release _ => isTrue trivial
  | .wait _ _ => isTrue trivial
  | .waitRelease _ => isTrue trivial
  | .signal _ => isTrue trivial
  | .broadcast _ => isTrue trivial
  | .other _ _ => isTrue trivial

/-- Thread 0 holds the lock twice, threads 1 and 2 queue, thread 3 comes while the lock is reserved. -/
def handOver : List (Action Unit) :=
  [.acquire 0, .acquire 0, .acquire 1, .acquire 2, .release 0, .release 0, .acquire 3, .acquired 1,
    .release 1]

theorem lock_correct_handOver :
    ∃ s, run step State.init handOver = some s ∧ s.obtained = [0, 1] ∧ s.mem.queues .lock = [3] ∧
      LockCorrect s := by
  have hrun : ∃ s, run step State.init handOver = some s ∧ s.obtained = [0, 1] ∧
      s.mem.queues .lock = [3] := by decide +kernel
  obtain ⟨s, hs, h1, h2⟩ := hrun
  exact ⟨s, hs, h1, h2, lock_correct handOver s (by decide +kernel) hs⟩

/-! ### Overflow -/

/-- The owner calls `lock_acquire` again and again. -/
theorem run_nested {t : Tid} (n : ℕ) {s : State γ} (hpc : s.pc t = .outside)
    (hown : s.mem.lock.lockedId = .thread t) :
    ∃ s', run step s (List.replicate n (.acquire t)) = some s' ∧ s'.mem.lock.lockedId = .thread t ∧
      s'.mem.lock.nestedLockingCount = s.mem.lock.nestedLockingCount + UInt32.ofNat n ∧
      s'.returned t = s.returned t + n ∧ s'.released t = s.released t := by
  induction n generalizing s with
  | zero => exact ⟨s, rfl, hown, (UInt32.add_zero _).symm, rfl, rfl⟩
  | succ n ih =>
    have hfree : s.mem.lock.lockedId ≠ .noThread := by
      rw [hown]
      simp
    have hnext : s.acquire t none =
        { s with
          mem := { s.mem with lock := { s.mem.lock with nestedLockingCount := s.mem.lock.nestedLockingCount + 1 } }
          pc := Function.update s.pc t .outside
          returned := Function.update s.returned t (s.returned t + 1) } := by
      simp [State.acquire, lockAcquire, hown]
    obtain ⟨s', h1, h2, h3, h4, h5⟩ := ih (s := s.acquire t none) (by rw [hnext]; simp)
      (by rw [hnext]; exact hown)
    refine ⟨s', ?_, h2, ?_, ?_, ?_⟩
    · rw [List.replicate_succ, run]
      simp only [step, hpc, if_true]
      exact h1
    · rw [h3, hnext, UInt32.add_assoc, UInt32.add_comm 1, UInt32.ofNat_add]
      rfl
    · rw [h4, hnext]
      simp only [Function.update_self]
      omega
    · rw [h5, hnext]

/-- **Overflow**: after 2^32 nested calls of `lock_acquire` the nesting count is zero. -/
theorem lock_nested_overflow :
    ∃ s : State Unit, run step State.init (List.replicate (2 ^ 32) (.acquire 0)) = some s ∧
      s.returned 0 - s.released 0 = 2 ^ 32 ∧ s.mem.lock.nestedLockingCount = 0 ∧ ¬ LockCorrect s := by
  have hfirst : ∃ s1 : State Unit, step State.init (.acquire 0) = some s1 ∧ s1.pc 0 = .outside ∧
      s1.mem.lock.lockedId = .thread 0 ∧ s1.mem.lock.nestedLockingCount = 1 ∧ s1.returned 0 = 1 ∧
      s1.released 0 = 0 := by decide +kernel
  obtain ⟨s1, hs1, hpc, hown, hn, hret, hrel⟩ := hfirst
  obtain ⟨s, h1, h2, h3, h4, h5⟩ := run_nested (2 ^ 32 - 1) hpc hown
  have hzero : s.mem.lock.nestedLockingCount = 0 := by
    rw [h3, hn]
    decide +kernel
  have hout : s.returned 0 - s.released 0 = 2 ^ 32 := by
    rw [h4, h5, hret, hrel]
    decide +kernel
  refine ⟨s, ?_, hout, hzero, fun hc => ?_⟩
  · have hsplit : (2 : ℕ) ^ 32 = 2 ^ 32 - 1 + 1 := by decide +kernel
    rw [hsplit, List.replicate_succ, run, hs1]
    exact h1
  · have := (hc.outstanding 0 h2).1
    rw [hzero, hout] at this
    exact absurd this (by decide)

end Buenos.LockCond
