import Buenos.Base.Fifo
import Buenos.Kernel.ThreadLists

/-!
# The sleep queue is a map from resources to FIFO queues

Threads that wait for different resources share one chain when the resources are equal modulo 127.
`queues` reads the threads that wait for one resource out of the hash table, in the order of the chain.

* `threadsFrom` — the threads of a chain, read from the links.
* `operation`, `operations` — the operations on the queues that the calls of a run stand for.

Principal result: `sleepq_refines_fifo` — over every run, `sleepq_add`, `sleepq_wake` and
`sleepq_wake_all` do to the queues what the operations of `Fifo` do, and make the threads they take out
ready in the order of the queue; all other calls leave the queues alone.
-/

namespace Buenos.Kernel

open Linked Transition

/-- The threads from `t` on along the links. -/
def threadsFrom (next : ℤ → ℤ) : ℕ → ℤ → List ℤ
  | 0, _ => []
  | n + 1, t => if 0 < t then t :: threadsFrom next n (next t) else []

/-- The threads that wait for a resource, the longest waiting one first. -/
def queues (k : KernelState) (resource : UInt32) : List ℤ :=
  waitersOf k resource (threadsFrom k.next ROUNDS (k.sleepqHashtable (SLEEPQ_HASH resource)))

/-- The scheduler's ready-to-run list. -/
def readyList (k : KernelState) : List ℤ := threadsFrom k.next ROUNDS k.head

/-- The operation on the queues that a call stands for. -/
def operation (k : KernelState) : Action → Option (Fifo.Op UInt32 ℤ)
  | .add resource => some (.add resource k.currentThread)
  | .wake resource => some (.wake resource)
  | .wakeAll resource => some (.wakeAll resource)
  | _ => none

/-- The operations on the queues in a run. -/
def operations (k : KernelState) : List Action → List (Fifo.Op UInt32 ℤ)
  | [] => []
  | a :: as => (operation k a).toList ++ match step k a with
    | none => []
    | some k' => operations k' as

variable {k k' : KernelState}

theorem threadsFrom_chain {next : ℤ → ℤ} {a : ℤ} {xs : List ℤ} (h : Chain next (-1) a xs)
    (hpos : ∀ t ∈ xs, 0 < t) {n : ℕ} (hn : xs.length ≤ n) : threadsFrom next n a = xs := by
  induction xs generalizing a n with
  | nil =>
    have ha : a = -1 := h.seg
    cases n with
    | zero => rfl
    | succ n => rw [threadsFrom, ha, if_neg (by decide)]
  | cons x xs ih =>
    obtain rfl : a = x := h.seg.1
    cases n with
    | zero => simp at hn
    | succ n =>
      rw [threadsFrom, if_pos (hpos a List.mem_cons_self),
        ih h.tail (fun t ht => hpos t (List.mem_cons_of_mem _ ht)) (by simpa using hn)]

/-- The queue of a resource, read from the chain of its bucket. -/
theorem Inv.queues_eq (h : Inv k) {resource : UInt32} {xs : List ℤ}
    (hx : Chain k.next (-1) (k.sleepqHashtable (SLEEPQ_HASH resource)) xs) :
    queues k resource = waitersOf k resource xs := by
  have hrow : ∀ t ∈ xs, Row t := fun t ht => h.lists.queueRow ((h.mem_chain hx t).1 ht)
  rw [queues, threadsFrom_chain hx (fun t ht => (hrow t ht).1) (Nat.le_of_lt (length_lt_rounds hx hrow))]

theorem Inv.readyList_eq (h : Inv k) {zs : List ℤ} (hz : Chain k.next (-1) k.head zs) :
    readyList k = zs := by
  obtain ⟨ys, hy, -, hym⟩ := h.lists.ready
  obtain rfl : zs = ys := hz.unique hy
  have hrow : ∀ t ∈ zs, Row t := fun t ht => h.lists.readyRow ((hym t).1 ht)
  exact threadsFrom_chain hz (fun t ht => (hrow t ht).1) (Nat.le_of_lt (length_lt_rounds hz hrow))

/-! ## One call -/

/-- Calls that leave the links of the waiting threads alone leave the queues alone. -/
theorem Inv.queues_same (h : Inv k) (h' : Inv k') (hs : SameQueues k k') : queues k' = queues k := by
  funext resource
  obtain ⟨xs, hx, hmem⟩ := h.lists.queue (SLEEPQ_HASH resource)
  have hx' : Chain k'.next (-1) (k'.sleepqHashtable (SLEEPQ_HASH resource)) xs := by
    rw [hs.table]
    exact hx.congr fun t ht => hs.next t ((hmem t).1 ht).1
  rw [h.queues_eq hx, h'.queues_eq hx', waitersOf, waitersOf, hs.sleepsOn]

/-- **`sleepq_add`** puts the running thread at the end of the queue of its resource. -/
theorem Inv.queues_joined (h : Inv k) (h' : Inv k') {resource : UInt32} (hr : resource ≠ 0)
    (hcur : k.sleepsOn k.currentThread = 0) (hj : Joined k k' resource) :
    queues k' = Fifo.apply (queues k) (.add resource k.currentThread) := by
  funext r
  obtain ⟨xs, hx, hmem⟩ := h.lists.queue (SLEEPQ_HASH r)
  -- the threads of the chain before the call wait for what they waited for
  have hold : waitersOf k' r xs = waitersOf k r xs := by
    refine List.filter_congr fun t ht => ?_
    have hne : t ≠ k.currentThread := by
      rintro rfl
      exact ((hmem _).1 ht).1 hcur
    rw [hj.sleepsOn, Function.update_of_ne hne]
  have hself : k'.sleepsOn k.currentThread = resource := by rw [hj.sleepsOn, Function.update_self]
  by_cases hb : SLEEPQ_HASH r = SLEEPQ_HASH resource
  · have hx' := hj.chain (hb ▸ hx)
    rw [← hb] at hx'
    rw [h'.queues_eq hx', waitersOf, List.filter_append, ← waitersOf, hold]
    by_cases hrr : r = resource
    · subst hrr
      simp [Fifo.apply, h.queues_eq hx, hself]
    · have hne : resource ≠ r := fun he => hrr he.symm
      simp [Fifo.apply, Function.update_of_ne hrr, h.queues_eq hx, hself, hne]
  · have hrr : r ≠ resource := fun he => hb (by rw [he])
    rw [h'.queues_eq (hj.others hb hx), hold, Fifo.apply, Function.update_of_ne hrr, h.queues_eq hx]

/-- Waking threads that wait for one resource takes them out of its queue and changes no other. -/
theorem Inv.queues_woken (h : Inv k) (h' : Inv k') {resource : UInt32} {ts : List ℤ}
    (hts : ∀ t ∈ ts, k.sleepsOn t = resource) (hw : Woken k k' (SLEEPQ_HASH resource) ts) :
    queues k' = Function.update (queues k) resource
      ((queues k resource).filter fun t => decide (t ∉ ts)) := by
  funext r
  obtain ⟨xs, hx, hmem⟩ := h.lists.queue (SLEEPQ_HASH r)
  have hold : ∀ {ys : List ℤ}, (∀ t ∈ ys, t ∉ ts) → waitersOf k' r ys = waitersOf k r ys := by
    intro ys hys
    refine List.filter_congr fun t ht => ?_
    rw [hw.sleepsOn, if_neg (hys t ht)]
  by_cases hb : SLEEPQ_HASH r = SLEEPQ_HASH resource
  · have hx' := hw.chain (hb ▸ hx)
    rw [← hb] at hx'
    have hrest : waitersOf k' r (xs.filter fun t => decide (t ∉ ts)) =
        (waitersOf k r xs).filter fun t => decide (t ∉ ts) := by
      rw [hold fun t ht => by simpa using (List.mem_filter.1 ht).2, waitersOf, waitersOf, List.filter_comm]
    rw [h'.queues_eq hx', hrest]
    by_cases hrr : r = resource
    · subst hrr
      rw [Function.update_self, h.queues_eq hx]
    · rw [Function.update_of_ne hrr, h.queues_eq hx, List.filter_eq_self]
      intro t ht
      have hwait : k.sleepsOn t = r := by simpa using (List.mem_filter.1 ht).2
      simpa using fun hm => hrr (hwait.symm.trans (hts t hm))
  · have hrr : r ≠ resource := fun he => hb (by rw [he])
    rw [h'.queues_eq (hw.others hb hx), Function.update_of_ne hrr, h.queues_eq hx]
    refine hold fun t ht hm => hb ?_
    rw [← hts t hm]
    exact ((hmem t).1 ht).2.symm

theorem Inv.queues_nodup (h : Inv k) (resource : UInt32) : (queues k resource).Nodup := by
  obtain ⟨xs, hx, -⟩ := h.lists.queue (SLEEPQ_HASH resource)
  rw [h.queues_eq hx]
  exact hx.nodup.filter _

theorem mem_queues {resource : UInt32} {t : ℤ} (ht : t ∈ queues k resource) : k.sleepsOn t = resource := by
  simpa using (List.mem_filter.1 ht).2

/-- The queue of a resource holds the threads that wait for it. -/
theorem Inv.mem_queues_iff (h : Inv k) {resource : UInt32} (hr : resource ≠ 0) (t : ℤ) :
    t ∈ queues k resource ↔ k.sleepsOn t = resource := by
  refine ⟨mem_queues, fun ht => ?_⟩
  obtain ⟨xs, hx, hmem⟩ := h.lists.queue (SLEEPQ_HASH resource)
  rw [h.queues_eq hx]
  refine List.mem_filter.2 ⟨(hmem t).2 ⟨?_, ?_⟩, by simpa using ht⟩
  · rw [ht]
    exact hr
  · rw [ht]

/-- A queue without its first thread. -/
theorem filter_notMem_take {xs : List ℤ} (h : xs.Nodup) :
    xs.filter (fun t => decide (t ∉ xs.take 1)) = xs.tail := by
  cases xs with
  | nil => rfl
  | cons x xs =>
    rw [List.filter_cons_of_neg (by simp), List.tail_cons, List.filter_eq_self]
    intro t ht
    have hne : t ≠ x := by
      rintro rfl
      exact (List.nodup_cons.1 h).1 ht
    simpa using hne

/-- What a call of the sleep queue does, beside changing the queues: the threads it takes out and that
sleep become ready, in the order of the queue. -/
structure Readied (k k' : KernelState) (ts : List ℤ) : Prop where
  state : ∀ t, k'.state t = if t ∈ ts ∧ k.state t = .sleeping then .ready else k.state t
  ready : readyList k' =
    (ts.filter fun t => decide (k.state t = .sleeping)).foldl (insertReady k.priority) (readyList k)

theorem Inv.readied (h : Inv k) (h' : Inv k') {b : ℕ} {ts : List ℤ} (hw : Woken k k' b ts) :
    Readied k k' ts := by
  obtain ⟨zs, hz, -, -⟩ := h.lists.ready
  exact ⟨hw.state, by rw [h.readyList_eq hz, h'.readyList_eq (hw.ready hz)]⟩

/-- **One call** does to the queues what the operation it stands for does. -/
theorem Inv.refines (h : Inv k) {a : Action} (ha : Allowed k a) :
    ∃ k', Kernel.step k a = some k' ∧ Inv k' ∧
      queues k' = (operation k a).elim (queues k) (Fifo.apply (queues k)) ∧
      ∀ o, operation k a = some o → Readied k k' (Fifo.removed (queues k) o) := by
  obtain ⟨k', hk, h', he⟩ := h.step ha
  refine ⟨k', hk, h', ?_⟩
  cases a with
  | create => exact ⟨h.queues_same h' he, by simp [operation]⟩
  | createWithPriority p => exact ⟨h.queues_same h' he, by simp [operation]⟩
  | run t => exact ⟨h.queues_same h' he, by simp [operation]⟩
  | sleep now sleepTime => exact ⟨h.queues_same h' he, by simp [operation]⟩
  | finish => exact ⟨h.queues_same h' he, by simp [operation]⟩
  | schedule now => exact ⟨h.queues_same h' he, by simp [operation]⟩
  | add resource =>
    have hj : Joined k k' resource := he
    refine ⟨h.queues_joined h' ha.2 ha.1.sleepsOn hj, ?_⟩
    rintro o ⟨⟩
    obtain ⟨zs, hz, -, -⟩ := h.lists.ready
    refine ⟨fun t => ?_, ?_⟩
    · rw [hj.state]
      simp [Fifo.removed]
    · rw [h.readyList_eq hz, h'.readyList_eq (hj.ready hz)]
      rfl
  | wake resource =>
    obtain ⟨xs, hx, -⟩ := h.lists.queue (SLEEPQ_HASH resource)
    have hw : Woken k k' (SLEEPQ_HASH resource) ((queues k resource).take 1) := by
      rw [h.queues_eq hx]
      exact he hx
    refine ⟨?_, ?_⟩
    · rw [h.queues_woken h' (fun t ht => mem_queues (List.mem_of_mem_take ht)) hw,
        filter_notMem_take (h.queues_nodup resource)]
      rfl
    · rintro o ⟨⟩
      exact h.readied h' hw
  | wakeAll resource =>
    obtain ⟨xs, hx, -⟩ := h.lists.queue (SLEEPQ_HASH resource)
    have hw : Woken k k' (SLEEPQ_HASH resource) (queues k resource) := by
      rw [h.queues_eq hx]
      exact he hx
    have hall : (queues k resource).filter (fun t => decide (t ∉ queues k resource)) = [] := by
      rw [List.filter_eq_nil_iff]
      intro t ht
      simpa using ht
    refine ⟨?_, ?_⟩
    · rw [h.queues_woken h' (fun t ht => mem_queues ht) hw, hall]
      rfl
    · rintro o ⟨⟩
      exact h.readied h' hw

/-! ## Runs -/

theorem queues_init : queues KernelState.init = fun _ => [] := by
  funext r
  rfl

/-- The queues after a run, computed from the operations of the run. -/
theorem run_queues : ∀ {as : List Action} {k k' : KernelState}, Inv k → Every step Allowed k as →
    run step k as = some k' → queues k' = (operations k as).foldl Fifo.apply (queues k)
  | [], k, k', _, _, hr => by
    cases hr
    rfl
  | a :: as, k, k', hi, hc, hr => by
    obtain ⟨k1, h1, hi1, hq, -⟩ := hi.refines hc.1
    have hc2 := hc.2
    rw [run, h1] at hr
    rw [h1] at hc2
    rw [run_queues hi1 hc2 hr, operations, h1, List.foldl_append, hq]
    cases operation k a <;> rfl

/-- **The hash table refines a map from resources to FIFO queues.**  After any run of calls the queues
are those that the operations on them give, and the next call, whichever it is, changes them as its
operation does and readies exactly the threads that it takes out. -/
theorem sleepq_refines_fifo (as : List Action) (h : Every step Allowed KernelState.init as) :
    ∃ k, run step KernelState.init as = some k ∧
      (∀ resource, resource ≠ 0 → ∀ t, t ∈ queues k resource ↔ k.sleepsOn t = resource) ∧
      queues k = (operations KernelState.init as).foldl Fifo.apply (fun _ => []) ∧
      ∀ a, Allowed k a → ∃ k', step k a = some k' ∧
        queues k' = (operation k a).elim (queues k) (Fifo.apply (queues k)) ∧
        ∀ o, operation k a = some o → Readied k k' (Fifo.removed (queues k) o) := by
  obtain ⟨k, hk, hinv⟩ := run_inv h
  refine ⟨k, hk, fun resource hr t => hinv.mem_queues_iff hr t, ?_, fun a ha => ?_⟩
  · rw [run_queues inv_init h hk, queues_init]
  · obtain ⟨k', h1, -, h2, h3⟩ := hinv.refines ha
    exact ⟨k', h1, h2, h3⟩

/-- Threads 1, 2 and 3 wait in one bucket, the second one for another resource; it is woken. -/
def threeInABucket : List Action :=
  [.create, .create, .create, .run 1, .run 2, .run 3, .schedule 0, .add 132, .schedule 0, .add 5,
    .schedule 0, .add 132, .wake 5]

theorem sleepq_refines_fifo_colliding :
    ∃ k, run step KernelState.init threeInABucket = some k ∧
      queues k = Function.update (fun _ => []) 132 [1, 3] ∧
      ∀ a, Allowed k a → ∃ k', step k a = some k' ∧
        queues k' = (operation k a).elim (queues k) (Fifo.apply (queues k)) ∧
        ∀ o, operation k a = some o → Readied k k' (Fifo.removed (queues k) o) := by
  obtain ⟨k, hk, -, hq, ha⟩ := sleepq_refines_fifo threeInABucket (by decide +kernel)
  refine ⟨k, hk, hq.trans ?_, ha⟩
  funext r
  have hops : operations KernelState.init threeInABucket =
      [.add 132 1, .add 5 2, .add 132 3, .wake 5] := by decide +kernel
  rw [hops]
  by_cases h1 : r = 132
  · subst h1
    rfl
  · by_cases h2 : r = 5
    · subst h2
      rfl
    · simp [Fifo.apply, h1, h2]

end Buenos.Kernel
