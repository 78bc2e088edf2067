import Buenos.Base.Sorted
import Buenos.Kernel.Lists

/-!
# The lists over whole runs

* `Sound k` — the ready list, the chains of the sleep queue and the list of timed sleepers hold
  exactly the threads whose fields say so, and these fields agree with the states of the threads.
* `Inv k` — the same, and the running thread is the only one that runs or is dying.
* `Action`, `step` — the calls of the thread library, the scheduler and the sleep queue.

Principal result: `thread_lists`, what holds in every state of every run.
-/

namespace Buenos.Kernel

open Buenos.Linked Buenos.Transition

/-- The threads that belong on the ready list. -/
def readySet (state : ℤ → ThreadState) : Set ℤ := {t | t ≠ 0 ∧ state t = .ready}

/-- The threads that belong in the chain of a bucket. -/
def waitingOn (sleepsOn : ℤ → UInt32) (h : ℕ) : Set ℤ :=
  {t | sleepsOn t ≠ 0 ∧ SLEEPQ_HASH (sleepsOn t) = h}

/-- The threads that belong on the list of timed sleepers. -/
def timedSet (wakeupTime : ℤ → UInt32) : Set ℤ := {t | wakeupTime t ≠ 0}

section Sets

variable {state : ℤ → ThreadState} {sleepsOn wakeupTime : ℤ → UInt32} {t : ℤ}

theorem readySet_ready (ht : t ≠ 0) :
    readySet (Function.update state t .ready) = insert t (readySet state) := by
  ext x
  by_cases hx : x = t
  · subst hx
    simp [readySet, ht]
  · simp [readySet, hx]

theorem readySet_other {s : ThreadState} (hs : s ≠ .ready) (ht : t = 0 ∨ state t ≠ .ready) :
    readySet (Function.update state t s) = readySet state := by
  ext x
  by_cases hx : x = t
  · subst hx
    simp [readySet, hs]
    tauto
  · simp [readySet, hx]

theorem readySet_idle {s : ThreadState} : readySet (Function.update state 0 s) = readySet state := by
  ext x
  by_cases hx : x = 0
  · simp [readySet, hx]
  · simp [readySet, hx]

theorem readySet_taken {s : ThreadState} (hs : s ≠ .ready) :
    readySet (Function.update state t s) = readySet state \ {t} := by
  ext x
  by_cases hx : x = t
  · subst hx
    simp [readySet, hs]
  · simp [readySet, hx]

theorem waitingOn_wait {r : UInt32} (hr : r ≠ 0) (ht : sleepsOn t = 0) :
    waitingOn (Function.update sleepsOn t r) = Function.update (waitingOn sleepsOn) (SLEEPQ_HASH r)
      (insert t (waitingOn sleepsOn (SLEEPQ_HASH r))) := by
  ext h x
  by_cases hh : h = SLEEPQ_HASH r
  · subst hh
    by_cases hx : x = t
    · subst hx
      simp [waitingOn, hr]
    · simp [waitingOn, hx]
  · rw [Function.update_of_ne hh]
    by_cases hx : x = t
    · subst hx
      simp [waitingOn, ht, Ne.symm hh]
    · simp [waitingOn, hx]

theorem waitingOn_wake (ht : sleepsOn t ≠ 0) :
    waitingOn (Function.update sleepsOn t 0) =
      Function.update (waitingOn sleepsOn) (SLEEPQ_HASH (sleepsOn t))
        (waitingOn sleepsOn (SLEEPQ_HASH (sleepsOn t)) \ {t}) := by
  ext h x
  by_cases hh : h = SLEEPQ_HASH (sleepsOn t)
  · subst hh
    by_cases hx : x = t
    · subst hx
      simp [waitingOn]
    · simp [waitingOn, hx]
  · rw [Function.update_of_ne hh]
    by_cases hx : x = t
    · subst hx
      simp [waitingOn, Ne.symm hh]
    · simp [waitingOn, hx]

theorem timedSet_sleep {r : UInt32} (hr : r ≠ 0) :
    timedSet (Function.update wakeupTime t r) = insert t (timedSet wakeupTime) := by
  ext x
  by_cases hx : x = t
  · subst hx
    simp [timedSet, hr]
  · simp [timedSet, hx]

theorem timedSet_wake : timedSet (Function.update wakeupTime t 0) = timedSet wakeupTime \ {t} := by
  ext x
  by_cases hx : x = t
  · subst hx
    simp [timedSet]
  · simp [timedSet, hx]

end Sets

/-- What the state `s` of thread `t` says about its `sleeps_on` `r` and its `wakeup_time` `w`. -/
structure RowOk (t : ℤ) (s : ThreadState) (r w : UInt32) : Prop where
  row : t ≠ 0 → s ≠ .free → Row t
  idle : t = 0 → s = .ready ∨ s = .running
  waits : r ≠ 0 → s = .sleeping ∨ s = .running
  timed : w ≠ 0 → (s = .sleeping ∨ s = .running) ∧ r = 0
  asleep : s = .sleeping → r ≠ 0 ∨ w ≠ 0

/-- The lists hold exactly the threads whose fields say so, and the fields agree with the states. -/
structure Sound (k : KernelState) : Prop where
  lists : Lists k (readySet k.state) (waitingOn k.sleepsOn) (timedSet k.wakeupTime)
  rows : ∀ t, RowOk t (k.state t) (k.sleepsOn t) (k.wakeupTime t)

/-- What holds between any two calls. -/
structure Inv (k : KernelState) : Prop extends Sound k where
  running : ∀ {t}, k.state t = .running ∨ k.state t = .dying → t = k.currentThread
  current : k.currentThread ≠ 0 →
    k.state k.currentThread = .running ∨ k.state k.currentThread = .dying

section Steps

variable {k k' : KernelState} {t : ℤ}

/-- Only the row of `t` changes. -/
theorem Sound.rows_update (h : Sound k) {state : ℤ → ThreadState} {sleepsOn wakeupTime : ℤ → UInt32}
    (hother : ∀ x, x ≠ t → state x = k.state x ∧ sleepsOn x = k.sleepsOn x ∧
      wakeupTime x = k.wakeupTime x)
    (ht : RowOk t (state t) (sleepsOn t) (wakeupTime t)) (x : ℤ) :
    RowOk x (state x) (sleepsOn x) (wakeupTime x) := by
  by_cases hx : x = t
  · rw [hx]
    exact ht
  · obtain ⟨h1, h2, h3⟩ := hother x hx
    rw [h1, h2, h3]
    exact h.rows x

theorem Sound.notMem_queue (h1 : k.sleepsOn t = 0) (b : ℕ) : t ∉ waitingOn k.sleepsOn b :=
  fun hm => hm.1 h1

/-- Only a sleeping or running thread waits. -/
theorem Sound.awake (h : Sound k) (h1 : k.state t ≠ .sleeping) (h2 : k.state t ≠ .running) :
    k.sleepsOn t = 0 ∧ k.wakeupTime t = 0 := by
  constructor
  · by_contra h3
    exact ((h.rows t).waits h3).elim h1 h2
  · by_contra h3
    exact ((h.rows t).timed h3).1.elim h1 h2

theorem Sound.idle_awake (h : Sound k) : k.sleepsOn 0 = 0 ∧ k.wakeupTime 0 = 0 := by
  constructor
  · by_contra h3
    exact absurd (h.lists.queueRow (h := SLEEPQ_HASH (k.sleepsOn 0)) ⟨h3, rfl⟩).1 (by decide)
  · by_contra h3
    exact absurd (h.lists.sleeperRow (t := 0) h3).1 (by decide)

/-- The sleep queue, its links and what its threads wait for are the same. -/
structure SameQueues (k k' : KernelState) : Prop where
  table : k'.sleepqHashtable = k.sleepqHashtable
  sleepsOn : k'.sleepsOn = k.sleepsOn
  next : ∀ t, k.sleepsOn t ≠ 0 → k'.next t = k.next t

theorem SameQueues.rfl {k : KernelState} : SameQueues k k := ⟨by rfl, by rfl, fun _ _ => by rfl⟩

theorem SameQueues.trans {k k1 k2 : KernelState} (h1 : SameQueues k k1) (h2 : SameQueues k1 k2) :
    SameQueues k k2 := by
  refine ⟨h2.table.trans h1.table, h2.sleepsOn.trans h1.sleepsOn, fun t ht => ?_⟩
  rw [h2.next t (by rwa [h1.sleepsOn]), h1.next t ht]

/-- **`scheduler_add_to_ready_list`** on a thread that is awake, which then becomes ready. -/
theorem Sound.addReady (h : Sound k) (ht : Row t) (hs : k.state t ≠ .ready) (hw : k.sleepsOn t = 0)
    (hz : k.wakeupTime t = 0) :
    ∃ next head tail, schedulerAddToReadyList k t =
        some { k with next := next, head := head, tail := tail } ∧
      Sound { k with next := next, head := head, tail := tail
                     state := Function.update k.state t .ready } ∧
      ∀ x, k.sleepsOn x ≠ 0 → next x = k.next x := by
  have hne : t ≠ 0 := by
    obtain ⟨h1, -⟩ := ht
    omega
  obtain ⟨next, head, tail, h1, h2, hframe, -⟩ :=
    h.lists.addToReadyList ht (fun hm => hs hm.2) (Sound.notMem_queue hw)
  refine ⟨next, head, tail, h1, ⟨?_, h.rows_update (t := t) (fun x hx => ?_) ?_⟩, fun x hx =>
    hframe x (fun he => hx (he ▸ hw)) fun hm => h.lists.disjoint hm (h := _) ⟨hx, rfl⟩⟩
  · rw [readySet_ready hne]
    exact { h2 with }
  · simp [hx]
  · simp only [Function.update_self, hw, hz]
    exact ⟨fun _ _ => ht, fun h0 => absurd h0 hne, by simp, by simp, by simp⟩

/-- **Creating a thread** in a free row. -/
theorem Inv.initThread (h : Inv k) (ht : Row t) (hs : k.state t = .free) (p : Priority) :
    Inv (initThread k t p) ∧ SameQueues k (initThread k t p) := by
  have hne : t ≠ 0 := by
    obtain ⟨h1, -⟩ := ht
    omega
  obtain ⟨hw, hz⟩ := h.awake (by rw [hs]; decide) (by rw [hs]; decide)
  have hsame : Function.update k.sleepsOn t 0 = k.sleepsOn := Function.update_eq_self_iff.2 hw.symm
  have hnot : t ∉ readySet k.state := fun hm => by rw [hm.2] at hs; cases hs
  refine ⟨⟨⟨?_, h.rows_update (t := t) (fun x hx => ?_) ?_⟩, fun {x} hx => ?_, fun hc => ?_⟩,
    ⟨rfl, hsame, fun x hx => Function.update_of_ne ?_ _ _⟩⟩
  · simp only [Kernel.initThread, hsame]
    rw [readySet_other (by decide) (Or.inr (by rw [hs]; decide))]
    exact { h.lists.setNext hnot (Sound.notMem_queue hw) (-1) with }
  · simp [Kernel.initThread, hx]
  · simp only [Kernel.initThread, Function.update_self, hz]
    exact ⟨fun _ _ => ht, fun h0 => absurd h0 hne, by simp, by simp, by simp⟩
  · simp only [Kernel.initThread] at hx ⊢
    by_cases hxt : x = t
    · rw [hxt, Function.update_self] at hx
      simp at hx
    · rw [Function.update_of_ne hxt] at hx
      exact h.running hx
  · simp only [Kernel.initThread] at hc ⊢
    have hct : k.currentThread ≠ t := by
      rintro rfl
      have := h.current hc
      rw [hs] at this
      simp at this
    rw [Function.update_of_ne hct]
    exact h.current hc
  · rintro rfl
    exact hx hw

/-! ### Waking threads -/

/-- The chain of a bucket holds the threads that wait there. -/
theorem Sound.mem_chain (h : Sound k) {b : ℕ} {xs : List ℤ}
    (hc : Chain k.next (-1) (k.sleepqHashtable b) xs) : ∀ t, t ∈ xs ↔ t ∈ waitingOn k.sleepsOn b := by
  obtain ⟨ys, hy, hmem⟩ := h.lists.queue b
  rw [hc.seg.unique hy.seg hc.end_notMem hy.end_notMem]
  exact hmem

/-- **The search loop** of `sleepq_wake` and `sleepq_wake_all` moves the cursor to a waiting thread,
or to the end. -/
theorem Sound.findWaiting (h : Sound k) {b : ℕ} {prev first : ℤ} {pre post : List ℤ}
    (hc : Cursor k b prev first pre post) (resource : UInt32) :
    ∃ prev' first' mid rest, findWaiting k resource prev first = some (prev', first') ∧
      post = mid ++ rest ∧ Cursor k b prev' first' (pre ++ mid) rest ∧
      (∀ t ∈ mid, k.sleepsOn t ≠ resource) ∧
      (if 0 < first' then k.sleepsOn first' = resource ∧ ∃ rest', rest = first' :: rest' else rest = []) := by
  have hmem := h.mem_chain hc.chain
  have hrow : ∀ t ∈ post, Row t := fun t ht =>
    h.lists.queueRow ((hmem t).1 (List.mem_append_right _ ht))
  have hchain : Chain k.next (-1) first post := hc.first ▸ hc.chain.drop
  obtain ⟨mid, rest, p, c, heq, hw, hrest, hgo, hstop, hp⟩ :=
    walk_spec (fun t : ℤ => decide (0 < t) && k.sleepsOn t != resource) ROUNDS
      prev (by simp) hchain (length_lt_rounds hchain hrow)
  refine ⟨p, c, mid, rest, hw, heq, ⟨?_, hrest.head, ?_⟩, fun t ht => ?_, ?_⟩
  · rw [List.append_assoc, ← heq]
    exact hc.chain
  · rcases hp with ⟨rfl, rfl⟩ | ⟨mid', rfl⟩
    · rw [List.append_nil]
      exact hc.prev
    · exact Or.inr ⟨pre ++ mid', by simp⟩
  · have := hgo t ht
    simp only [Bool.and_eq_true, bne_iff_ne] at this
    exact this.2
  · cases rest with
    | nil =>
      have hcend : c = -1 := hrest.seg
      rw [if_neg (by rw [hcend]; decide)]
    | cons y ys =>
      have hcy : c = y := hrest.seg.1
      have hpos : 0 < y := (hrow y (by rw [heq]; simp)).1
      rw [hcy] at hstop ⊢
      rw [if_pos hpos]
      simp only [hpos, decide_true, Bool.true_and, bne_eq_false_iff_eq] at hstop
      exact ⟨hstop, ys, rfl⟩

/-- What waking the threads `ts` of bucket `b`, in this order, does: they leave the chain and wait for
nothing, those that sleep become ready one after another, and no other chain changes. -/
structure Woken (k k' : KernelState) (b : ℕ) (ts : List ℤ) : Prop where
  sleepsOn : ∀ t, k'.sleepsOn t = if t ∈ ts then 0 else k.sleepsOn t
  priority : k'.priority = k.priority
  state : ∀ t, k'.state t = if t ∈ ts ∧ k.state t = .sleeping then .ready else k.state t
  chain : ∀ {xs}, Chain k.next (-1) (k.sleepqHashtable b) xs →
    Chain k'.next (-1) (k'.sleepqHashtable b) (xs.filter fun t => decide (t ∉ ts))
  others : ∀ {b'}, b' ≠ b → ∀ {ys}, Chain k.next (-1) (k.sleepqHashtable b') ys →
    Chain k'.next (-1) (k'.sleepqHashtable b') ys
  ready : ∀ {zs}, Chain k.next (-1) k.head zs → Chain k'.next (-1) k'.head
    ((ts.filter fun t => decide (k.state t = .sleeping)).foldl (insertReady k.priority) zs)

theorem Woken.nil (k : KernelState) (b : ℕ) : Woken k k b [] := by
  refine ⟨by simp, rfl, by simp, fun h => ?_, fun _ _ h => h, fun h => h⟩
  simpa using h

/-- Waking some threads and then others. -/
theorem Woken.trans {k k1 k2 : KernelState} {b : ℕ} {ts us : List ℤ} (h1 : Woken k k1 b ts)
    (h2 : Woken k1 k2 b us) (hd : ts.Disjoint us) : Woken k k2 b (ts ++ us) := by
  have hstate : ∀ t ∈ us, k1.state t = k.state t := by
    intro t ht
    rw [h1.state, if_neg fun h => hd h.1 ht]
  refine ⟨fun t => ?_, h2.priority.trans h1.priority, fun t => ?_, fun {xs} hx => ?_,
    fun hb _ hy => h2.others hb (h1.others hb hy), fun {zs} hz => ?_⟩
  · rw [h2.sleepsOn, h1.sleepsOn]
    by_cases hu : t ∈ us <;> simp [hu]
  · rw [h2.state]
    by_cases hu : t ∈ us
    · rw [hstate t hu]
      simp [hu]
    · rw [if_neg fun h => hu h.1, h1.state]
      simp [hu]
  · have := h2.chain (h1.chain hx)
    rw [List.filter_filter] at this
    refine (List.filter_congr fun t _ => ?_) ▸ this
    simp only [List.mem_append, not_or, Bool.decide_and]
    exact Bool.and_comm _ _
  · have hsleep : us.filter (fun t => decide (k1.state t = .sleeping)) =
        us.filter fun t => decide (k.state t = .sleeping) :=
      List.filter_congr fun t ht => by rw [hstate t ht]
    have := h2.ready (h1.ready hz)
    rw [hsleep, h1.priority] at this
    rw [List.filter_append, List.foldl_append]
    exact this

/-- **Waking one thread**: it leaves its chain and, if it has already been switched out, it becomes
ready. -/
theorem Inv.unlinkAndWake (h : Inv k) {b : ℕ} {prev first : ℤ} {pre post : List ℤ}
    (hc : Cursor k b prev first pre (first :: post)) :
    ∃ k', unlinkAndWake k b prev first = some k' ∧ Inv k' ∧ Cursor k' b prev (k.next first) pre post ∧
      Woken k k' b [first] := by
  have hmem := h.mem_chain hc.chain
  obtain ⟨next, table, hk, hl, hch, htable, hnext⟩ := h.lists.unlinkQueue hc hmem
  have hQ : first ∈ waitingOn k.sleepsOn b := (hmem first).1 (by simp)
  have hrow := h.lists.queueRow hQ
  have hsl : k.sleepsOn first ≠ 0 := hQ.1
  have hb : SLEEPQ_HASH (k.sleepsOn first) = b := hQ.2
  have hne : first ≠ 0 := by
    obtain ⟨h1, -⟩ := hrow
    omega
  have hR : first ∉ readySet k.state := fun hm => h.lists.disjoint hm hQ
  have hz : k.wakeupTime first = 0 := by
    by_contra hz
    exact hsl ((h.rows first).timed hz).2
  have hset := waitingOn_wake hsl
  rw [hb] at hset
  rw [← hset] at hl
  have hQ' : ∀ b', first ∉ waitingOn (Function.update k.sleepsOn first 0) b' :=
    fun b' hm => hm.1 (Function.update_self _ _ _)
  have hl2 := hl.setNext hR hQ' (-1)
  have hnotin : first ∉ pre ++ post :=
    (List.nodup_cons.1 (List.nodup_middle.1 hc.chain.nodup)).1
  have hch2 := hch.update (b := -1) hnotin
  have hfilter : (pre ++ first :: post).filter (fun t => decide (t ∉ [first])) = pre ++ post := by
    rw [List.filter_append, List.filter_cons_of_neg (by simp), ← List.filter_append,
      List.filter_eq_self]
    rintro x hx
    simp only [List.mem_singleton, decide_eq_true_eq]
    rintro rfl
    exact hnotin hx
  have hfirst : k.next first = post.head?.getD (-1) := hc.chain.link_eq
  -- the links of the other chains and of the ready list
  have hother : ∀ {b'}, b' ≠ b → ∀ {ys}, Chain k.next (-1) (k.sleepqHashtable b') ys →
      Chain (Function.update next first (-1)) (-1) (table b') ys := by
    intro b' hb' ys hy
    have hnot : ∀ x ∈ ys, x ∉ waitingOn k.sleepsOn b := fun x hx hx' =>
      hb' (h.lists.queues ((h.mem_chain hy x).1 hx) hx')
    rw [htable b' hb']
    exact (hy.congr fun x hx => hnext x (hnot x hx)).update fun hx => hnot first hx hQ
  have hready : ∀ {zs}, Chain k.next (-1) k.head zs → Chain (Function.update next first (-1)) (-1) k.head zs := by
    intro zs hz
    obtain ⟨ys, hy, -, hym⟩ := h.lists.ready
    rw [hz.unique hy]
    refine (hy.congr fun x hx => hnext x fun hx' => h.lists.disjoint ((hym x).1 hx) hx').update fun hx => ?_
    exact hR ((hym first).1 hx)
  unfold Kernel.unlinkAndWake
  simp only [hk]
  rcases (h.rows first).waits hsl with hs | hs
  · rw [if_pos hs]
    have hl3 : Lists { k with
        next := Function.update next first (-1), sleepqHashtable := table,
        sleepsOn := Function.update k.sleepsOn first 0,
        state := Function.update k.state first .ready } (readySet k.state)
        (waitingOn (Function.update k.sleepsOn first 0)) (timedSet k.wakeupTime) := { hl2 with }
    obtain ⟨next', head, tail, hadd, hl4, hframe, hins⟩ := hl3.addToReadyList hrow hR hQ'
    have hcur' : Chain next' (-1) (table b) (pre ++ post) := by
      refine hch2.congr fun x hx => hframe x ?_ ?_
      · rintro rfl
        exact hnotin hx
      · intro hxR
        refine h.lists.disjoint hxR ((hmem x).1 ?_)
        simp only [List.mem_append, List.mem_cons] at hx ⊢
        tauto
    refine ⟨_, hadd, ⟨⟨?_, h.rows_update (t := first) (fun x hx => ?_) ?_⟩, fun {x} hx => ?_, fun hcur => ?_⟩,
      ⟨hcur', hfirst, hc.prev⟩, fun x => ?_, rfl, fun x => ?_, fun {xs} hx => ?_,
      fun {b'} hb' {ys} hy => (hother hb' hy).congr fun x hx => hframe x ?_ ?_, fun {zs} hz => ?_⟩
    · simp only [readySet_ready hne]
      exact { hl4 with }
    · simp [hx]
    · simp only [Function.update_self, hz]
      exact ⟨fun _ _ => hrow, fun h0 => absurd h0 hne, by simp, by simp, by simp⟩
    · by_cases hxf : x = first
      · simp [hxf] at hx
      · simp only [Function.update_of_ne hxf] at hx
        exact h.running hx
    · simp only at hcur ⊢
      have hcf : k.currentThread ≠ first := by
        rintro rfl
        have := h.current hcur
        rw [hs] at this
        simp at this
      rw [Function.update_of_ne hcf]
      exact h.current hcur
    · simp [Function.update_apply]
    · by_cases hxf : x = first
      · simp [hxf, hs]
      · simp [hxf]
    · rw [hx.unique hc.chain, hfilter]
      exact hcur'
    · rintro rfl
      exact hb' (h.lists.queues ((h.mem_chain hy x).1 hx) hQ)
    · exact fun hxR => h.lists.disjoint hxR ((h.mem_chain hy x).1 hx)
    · simpa [hs] using hins zs (hready hz)
  · have hawake : ¬ k.state first = .sleeping := by
      rw [hs]
      decide
    rw [if_neg hawake]
    refine ⟨_, rfl, ⟨⟨{ hl2 with }, h.rows_update (t := first) (fun x hx => ?_) ?_⟩, h.running, h.current⟩,
      ⟨hch2, hfirst, hc.prev⟩, fun x => ?_, rfl, fun x => ?_, fun {xs} hx => ?_, hother, fun {zs} hz => ?_⟩
    · simp [hx]
    · simp only [Function.update_self, hz, hs]
      exact ⟨fun _ _ => hrow, fun h0 => absurd h0 hne, by simp, by simp, by simp⟩
    · simp [Function.update_apply]
    · by_cases hxf : x = first
      · simp [hxf, hawake]
      · simp [hxf]
    · rw [hx.unique hc.chain, hfilter]
      exact hch2
    · simpa [hawake] using hready hz

/-- The threads of a list that wait for a resource. -/
def waitersOf (k : KernelState) (resource : UInt32) (xs : List ℤ) : List ℤ :=
  xs.filter fun t => decide (k.sleepsOn t = resource)

theorem waitersOf_none {resource : UInt32} {xs : List ℤ} (h : ∀ t ∈ xs, k.sleepsOn t ≠ resource) :
    waitersOf k resource xs = [] := by
  rw [waitersOf, List.filter_eq_nil_iff]
  intro t ht
  simpa using h t ht

/-- **`sleepq_wake`** wakes the first thread of the chain that waits for the resource. -/
theorem Inv.sleepqWake (h : Inv k) (resource : UInt32) {xs : List ℤ}
    (hx : Chain k.next (-1) (k.sleepqHashtable (SLEEPQ_HASH resource)) xs) :
    ∃ k', sleepqWake k resource = some k' ∧ Inv k' ∧
      Woken k k' (SLEEPQ_HASH resource) ((waitersOf k resource xs).take 1) := by
  unfold Kernel.sleepqWake
  obtain ⟨post, hc, -⟩ := h.lists.cursor (SLEEPQ_HASH resource)
  obtain ⟨prev, first, mid, rest, hf, hpost, hc', hmid, hrest⟩ := h.findWaiting hc resource
  have hxs : xs = mid ++ rest := by
    rw [← hpost]
    exact hx.unique hc.chain
  have hwait : waitersOf k resource xs = waitersOf k resource rest := by
    rw [hxs, waitersOf, List.filter_append, ← waitersOf, waitersOf_none hmid, List.nil_append]
    rfl
  simp only [hf]
  split at hrest
  · rename_i hpos
    obtain ⟨hfirst, rest', rfl⟩ := hrest
    obtain ⟨k', hk, hinv, -, hwoken⟩ := h.unlinkAndWake hc'
    refine ⟨k', by rw [if_pos hpos, hk], hinv, ?_⟩
    have htake : (waitersOf k resource xs).take 1 = [first] := by
      rw [hwait, waitersOf, List.filter_cons_of_pos (by simpa using hfirst)]
      rfl
    rw [htake]
    exact hwoken
  · rename_i hpos
    refine ⟨k, by rw [if_neg hpos], h, ?_⟩
    rw [hwait, hrest]
    exact Woken.nil k _

/-- **The loop of `sleepq_wake_all`** ends: each round wakes a thread or is the last one. -/
theorem wakeAllLoop_spec (resource : UInt32) (n : ℕ) {k : KernelState} (h : Inv k) {prev first : ℤ}
    {pre post : List ℤ} (hc : Cursor k (SLEEPQ_HASH resource) prev first pre post)
    (hn : post.length < n) :
    ∃ k', wakeAllLoop resource n k prev first = some k' ∧ Inv k' ∧
      Woken k k' (SLEEPQ_HASH resource) (waitersOf k resource post) := by
  induction n generalizing k prev first pre post with
  | zero => omega
  | succ n ih =>
    rw [wakeAllLoop]
    by_cases hpos : 0 < first
    · rw [if_pos hpos]
      obtain ⟨prev', first', mid, rest, hf, rfl, hc', hmid, hrest⟩ := h.findWaiting hc resource
      have hwait : waitersOf k resource (mid ++ rest) = waitersOf k resource rest := by
        rw [waitersOf, List.filter_append, ← waitersOf, waitersOf_none hmid, List.nil_append]
        rfl
      rw [List.length_append] at hn
      simp only [hf]
      split at hrest
      · rename_i hpos'
        obtain ⟨hfirst, rest', rfl⟩ := hrest
        obtain ⟨k1, hk, hinv, hc2, hwoken⟩ := h.unlinkAndWake hc'
        rw [List.length_cons] at hn
        simp only [if_pos hpos', hk]
        obtain ⟨k', hk', hinv', hrest'⟩ := ih hinv hc2 (by omega)
        refine ⟨k', hk', hinv', ?_⟩
        have hnot : first' ∉ rest' :=
          (List.nodup_cons.1 (List.nodup_append.1 hc'.chain.nodup).2.1).1
        have hlater : waitersOf k1 resource rest' = waitersOf k resource rest' := by
          refine List.filter_congr fun t ht => ?_
          have hne : t ≠ first' := by
            rintro rfl
            exact hnot ht
          rw [hwoken.sleepsOn, if_neg (by simpa using hne)]
        rw [hwait, waitersOf, List.filter_cons_of_pos (by simpa using hfirst), ← waitersOf, ← hlater]
        refine hwoken.trans hrest' (List.singleton_disjoint.2 fun hm => hnot ?_)
        exact (List.mem_filter.1 hm).1
      · rename_i hpos'
        subst hrest
        have hlen : 0 < mid.length := by
          cases mid with
          | nil =>
            have := hc.first
            simp only [List.append_nil, List.head?_nil, Option.getD_none] at this
            omega
          | cons => simp
        simp only [if_neg hpos', hwait]
        exact ih h hc' (by simp only [List.length_nil]; omega)
    · rw [if_neg hpos]
      refine ⟨k, rfl, h, ?_⟩
      have hnil : post = [] := by
        cases post with
        | nil => rfl
        | cons t ts =>
          have hfirst : first = t := hc.first
          have hrow := h.lists.queueRow ((h.mem_chain hc.chain t).1 (by simp))
          exact absurd hrow.1 (hfirst ▸ hpos)
      subst hnil
      exact Woken.nil k _

/-- **`sleepq_wake_all`** wakes the threads of the chain that wait for the resource. -/
theorem Inv.sleepqWakeAll (h : Inv k) (resource : UInt32) {xs : List ℤ}
    (hx : Chain k.next (-1) (k.sleepqHashtable (SLEEPQ_HASH resource)) xs) :
    ∃ k', sleepqWakeAll k resource = some k' ∧ Inv k' ∧
      Woken k k' (SLEEPQ_HASH resource) (waitersOf k resource xs) := by
  obtain ⟨post, hc, hmem⟩ := h.lists.cursor (SLEEPQ_HASH resource)
  have hlen := length_lt_rounds hc.chain fun t ht => h.lists.queueRow ((hmem t).1 ht)
  obtain rfl : xs = post := hx.unique hc.chain
  exact wakeAllLoop_spec resource ROUNDS h hc hlen

/-! ### Going to sleep -/

/-- The running thread has nothing to wait for and is not about to end. -/
structure Active (k : KernelState) : Prop where
  notIdle : k.currentThread ≠ IDLE_THREAD_TID
  state : k.state k.currentThread = .running
  sleepsOn : k.sleepsOn k.currentThread = 0
  wakeupTime : k.wakeupTime k.currentThread = 0

theorem Active.row (ha : Active k) (h : Inv k) : Row k.currentThread :=
  (h.rows k.currentThread).row ha.notIdle (by rw [ha.state]; decide)

theorem Active.notMem_ready (ha : Active k) : k.currentThread ∉ readySet k.state := by
  intro hm
  have := hm.2
  rw [ha.state] at this
  cases this

/-- What joining bucket `b` does: the running thread is at the end of the chain, and no other chain
changes. -/
structure Joined (k k' : KernelState) (resource : UInt32) : Prop where
  sleepsOn : k'.sleepsOn = Function.update k.sleepsOn k.currentThread resource
  state : k'.state = k.state
  ready : ∀ {zs}, Chain k.next (-1) k.head zs → Chain k'.next (-1) k'.head zs
  chain : ∀ {xs}, Chain k.next (-1) (k.sleepqHashtable (SLEEPQ_HASH resource)) xs →
    Chain k'.next (-1) (k'.sleepqHashtable (SLEEPQ_HASH resource)) (xs ++ [k.currentThread])
  others : ∀ {b}, b ≠ SLEEPQ_HASH resource → ∀ {ys}, Chain k.next (-1) (k.sleepqHashtable b) ys →
    Chain k'.next (-1) (k'.sleepqHashtable b) ys

/-- **`sleepq_add`** puts the running thread at the end of its chain. -/
theorem Inv.sleepqAdd (h : Inv k) (ha : Active k) {resource : UInt32} (hr : resource ≠ 0) :
    ∃ k', sleepqAdd k resource = some k' ∧ Inv k' ∧ Joined k k' resource := by
  have hQ := Sound.notMem_queue ha.sleepsOn
  have hl : Lists { k with next := Function.update k.next k.currentThread (-1)
                           sleepsOn := Function.update k.sleepsOn k.currentThread resource }
      (readySet k.state) (waitingOn k.sleepsOn) (timedSet k.wakeupTime) :=
    { h.lists.setNext ha.notMem_ready hQ (-1) with }
  obtain ⟨next, table, hk, hl2, happend, htable, hnext⟩ :=
    hl.appendToQueue (h := SLEEPQ_HASH resource) (ha.row h) ha.notMem_ready hQ (Function.update_self _ _ _)
  rw [← waitingOn_wait hr ha.sleepsOn] at hl2
  -- the first assignment changes no link of a thread on a list
  have hqueue : ∀ {b ys}, Chain k.next (-1) (k.sleepqHashtable b) ys →
      Chain (Function.update k.next k.currentThread (-1)) (-1) (k.sleepqHashtable b) ys :=
    fun hy => hy.update fun hm => hQ _ ((h.mem_chain hy _).1 hm)
  unfold Kernel.sleepqAdd
  rw [if_neg ha.notIdle, hk]
  refine ⟨_, rfl, ⟨⟨hl2, h.rows_update (t := k.currentThread) (fun x hx => ?_) ?_⟩, h.running, h.current⟩,
    rfl, rfl, fun {zs} hz => ?_, fun hx => happend _ (hqueue hx), fun {b} hb {ys} hy => ?_⟩
  · simp [hx]
  · simp only [Function.update_self, ha.state, ha.wakeupTime]
    exact ⟨fun _ _ => ha.row h, fun h0 => absurd h0 ha.notIdle, by simp, by simp, by simp⟩
  · obtain ⟨ys, hy, -, hym⟩ := h.lists.ready
    obtain rfl : zs = ys := hz.unique hy
    refine (hz.update (b := -1) fun hm => ha.notMem_ready ((hym _).1 hm)).congr fun x hx => hnext x ?_
    exact fun hx' => h.lists.disjoint ((hym x).1 hx) hx'
  · simp only [htable b hb]
    refine (hqueue hy).congr fun x hx => hnext x fun hx' => hb ?_
    exact h.lists.queues ((h.mem_chain hy x).1 hx) hx'

/-- **The position loop** of `thread_sleep` stops at a cell of the list, with the cell before it: at the first
thread that wakes up later, or at the last one if there is none. -/
theorem positionLoop_spec (wakeup : UInt32) (n : ℕ) (prev : ℤ) (isTop : Bool) {it : ℤ} {xs : List ℤ}
    (hc : Chain k.nextSleeperId (-1) it (it :: xs)) (hn : xs.length < n) :
    ∃ pos pre post, positionLoop k wakeup n prev it isTop = some pos ∧
      it :: xs = pre ++ pos.it :: post ∧ (∀ x ∈ pre, ¬ wakeup < k.wakeupTime x) ∧
      (if pos.isTail = true then post = [] ∧ ¬ wakeup < k.wakeupTime pos.it else wakeup < k.wakeupTime pos.it) ∧
      ((pre = [] ∧ pos.isTop = isTop ∧ pos.prev = prev) ∨
        ∃ pre', pre = pre' ++ [pos.prev] ∧ pos.isTop = false) := by
  induction n generalizing prev it isTop xs with
  | zero => omega
  | succ n ih =>
    rw [positionLoop]
    split
    · rename_i hlater
      exact ⟨_, [], xs, rfl, rfl, by simp, by simpa using hlater, Or.inl ⟨rfl, rfl, rfl⟩⟩
    rename_i hlater
    have htail := hc.tail
    split
    · rename_i hend
      rw [hend] at htail
      have hnil : xs = [] := by
        cases xs with
        | nil => rfl
        | cons y ys => exact absurd (htail.seg.1 ▸ List.mem_cons_self) htail.end_notMem
      exact ⟨_, [], xs, rfl, rfl, by simp, by simpa using ⟨hnil, UInt32.not_lt.1 hlater⟩, Or.inl ⟨rfl, rfl, rfl⟩⟩
    · rename_i hend
      cases xs with
      | nil => exact absurd htail.seg hend
      | cons y ys =>
        have hy : k.nextSleeperId it = y := htail.seg.1
        rw [hy] at htail ⊢
        obtain ⟨pos, pre, post, h1, h2, hpre, h3, h4⟩ := ih it false htail
          (by rw [List.length_cons] at hn; omega)
        refine ⟨pos, it :: pre, post, h1, by rw [h2]; rfl, fun x hx => ?_, h3, Or.inr ?_⟩
        · rcases List.mem_cons.1 hx with rfl | hx
          · exact hlater
          · exact hpre x hx
        rcases h4 with ⟨rfl, h5, h6⟩ | ⟨pre', rfl, h5⟩
        · exact ⟨[], by rw [h6]; rfl, h5⟩
        · exact ⟨it :: pre', rfl, h5⟩

/-- Where `thread_sleep` puts a thread that wakes up at `wakeup`: before the first one that wakes up later. -/
def insertSleeper (wakeupTime : ℤ → UInt32) (wakeup : UInt32) (xs : List ℤ) (t : ℤ) : List ℤ :=
  Sorted.insertBefore (fun x => decide (wakeup < wakeupTime x)) t xs

/-- What going to sleep until `wakeup` does: the running thread has its place on the list of timed sleepers. -/
structure Slept (k k' : KernelState) (wakeup : UInt32) : Prop where
  wakeupTime : k'.wakeupTime = Function.update k.wakeupTime k.currentThread wakeup
  state : k'.state = k.state
  current : k'.currentThread = k.currentThread
  list : ∀ {xs}, Chain k.nextSleeperId (-1) k.threadNextSleeperId xs →
    Chain k'.nextSleeperId (-1) k'.threadNextSleeperId (insertSleeper k.wakeupTime wakeup xs k.currentThread)

/-- **`thread_sleep`** puts the running thread on the list of timed sleepers. -/
theorem Inv.threadSleep (h : Inv k) (ha : Active k) {now ms : UInt32} (hw : now + ms ≠ 0) :
    ∃ k', threadSleep k now ms = some k' ∧ Inv k' ∧ SameQueues k k' ∧ Slept k k' (now + ms) := by
  have hrow := ha.row h
  obtain ⟨xs, hc, hmem⟩ := h.lists.sleepers
  have hcx : k.currentThread ∉ xs := fun hm => (hmem _).1 hm ha.wakeupTime
  -- what is left to show once the thread is on the list
  have key : ∀ {ns : ℤ → ℤ} {head : ℤ} {pre post : List ℤ}, xs = pre ++ post →
      Chain ns (-1) head (pre ++ k.currentThread :: post) → (∀ x ∈ pre, ¬ now + ms < k.wakeupTime x) →
      (∀ y ∈ post.head?, now + ms < k.wakeupTime y) →
      Inv { k with wakeupTime := Function.update k.wakeupTime k.currentThread (now + ms)
                   nextSleeperId := ns, threadNextSleeperId := head } ∧
      Slept k { k with wakeupTime := Function.update k.wakeupTime k.currentThread (now + ms)
                       nextSleeperId := ns, threadNextSleeperId := head } (now + ms) := by
    intro ns head pre post hxs hys hpre hpost
    refine ⟨⟨⟨?_, h.rows_update (t := k.currentThread) (fun x hx => ?_) ?_⟩, h.running, h.current⟩,
      rfl, rfl, rfl, fun hz => ?_⟩
    · simp only [timedSet_sleep hw]
      refine { h.lists with sleepers := ⟨_, hys, fun x => ?_⟩, sleeperRow := ?_ }
      · have hins : x ∈ pre ++ k.currentThread :: post ↔ x = k.currentThread ∨ x ∈ xs := by grind
        rw [hins, hmem]
        rfl
      · rintro x (rfl | hx)
        · exact hrow
        · exact h.lists.sleeperRow hx
    · simp [hx]
    · simp only [Function.update_self, ha.state, ha.sleepsOn]
      exact ⟨fun _ _ => hrow, fun h0 => absurd h0 ha.notIdle, by simp, by simp, by simp⟩
    · rw [hz.unique hc, hxs, insertSleeper, Sorted.insertBefore_append (by simpa using hpre) (by simpa using hpost)]
      exact hys
  unfold Kernel.threadSleep
  simp only
  cases xs with
  | nil =>
    have hhead : k.threadNextSleeperId = -1 := hc.seg
    rw [if_pos hhead]
    obtain ⟨hinv, hslept⟩ := @key _ _ [] [] rfl
      ((chain_empty k.nextSleeperId (-1)).push List.not_mem_nil hrow.ne_end) (by simp) (by simp)
    exact ⟨_, rfl, hinv, ⟨rfl, rfl, fun _ _ => rfl⟩, hslept⟩
  | cons it xs =>
    have hhead : k.threadNextSleeperId = it := hc.seg.1
    have hne : it ≠ -1 := fun he => hc.end_notMem (he ▸ List.mem_cons_self)
    have hlen := length_lt_rounds hc fun t ht => h.lists.sleeperRow ((hmem t).1 ht)
    have hother : ∀ x ∈ it :: xs, Function.update k.wakeupTime k.currentThread (now + ms) x = k.wakeupTime x := by
      intro x hx
      refine Function.update_of_ne ?_ ..
      rintro rfl
      exact hcx hx
    rw [hhead] at hc ⊢
    rw [if_neg hne]
    obtain ⟨pos, pre, post, h1, h2, hpre, h3, h4⟩ := positionLoop_spec
      (k := { k with wakeupTime := Function.update k.wakeupTime k.currentThread (now + ms)
                     threadNextSleeperId := it })
      (now + ms) ROUNDS (-1) true hc
      (by rw [List.length_cons] at hlen; omega)
    rw [h1]
    simp only at hpre h3 ⊢
    rw [hother pos.it (by rw [h2]; simp)] at h3
    have hpre : ∀ x ∈ pre, ¬ now + ms < k.wakeupTime x := fun x hx => by
      rw [← hother x (by rw [h2]; exact List.mem_append_left _ hx)]
      exact hpre x hx
    rw [h2] at hc hcx
    split
    · rename_i htail
      rw [if_pos htail] at h3
      obtain ⟨rfl, hlast⟩ := h3
      have hnew := hc.splice hcx hrow.ne_end
      rw [hc.link_eq] at hnew
      obtain ⟨hinv, hslept⟩ := @key _ _ (pre ++ [pos.it]) [] (by rw [h2]; simp) (by simpa using hnew)
        (fun x hx => by
          rcases List.mem_append.1 hx with hx | hx
          · exact hpre x hx
          · rwa [List.mem_singleton.1 hx]) (by simp)
      exact ⟨_, rfl, hinv, ⟨rfl, rfl, fun _ _ => rfl⟩, hslept⟩
    rename_i htail
    rw [if_neg htail] at h3
    have hpost : ∀ y ∈ (pos.it :: post).head?, now + ms < k.wakeupTime y := by
      intro y hy
      cases hy
      exact h3
    split
    · rename_i htop
      rcases h4 with ⟨rfl, -, -⟩ | ⟨pre', -, h5⟩
      · obtain ⟨hinv, hslept⟩ := key h2 (hc.push hcx hrow.ne_end) hpre hpost
        exact ⟨_, rfl, hinv, ⟨rfl, rfl, fun _ _ => rfl⟩, hslept⟩
      · rw [htop] at h5
        cases h5
    · rename_i htop
      rcases h4 with ⟨-, h5, -⟩ | ⟨pre', rfl, -⟩
      · exact absurd h5 htop
      · have hc' : Chain k.nextSleeperId (-1) it (pre' ++ pos.prev :: pos.it :: post) := by
          rwa [List.append_assoc] at hc
        have hcx' : k.currentThread ∉ pre' ++ pos.prev :: pos.it :: post := by
          rwa [List.append_assoc] at hcx
        have hprev : pos.prev ≠ -1 := fun he => hc'.end_notMem (by rw [he]; simp)
        rw [if_neg hprev]
        have hnew := hc'.splice hcx' hrow.ne_end
        have hcp : k.currentThread ≠ pos.prev := by
          intro he
          exact hcx' (by rw [he]; simp)
        rw [hc'.link_eq, Function.update_comm hcp.symm] at hnew
        obtain ⟨hinv, hslept⟩ := key h2 (by simpa using hnew) hpre hpost
        exact ⟨_, rfl, hinv, ⟨rfl, rfl, fun _ _ => rfl⟩, hslept⟩

/-! ### Scheduling -/

/-- What waking the threads `ts` from the head of the list of timed sleepers does, where `rest` is behind them:
their mark is taken from them and they become ready one after another. -/
structure Roused (k k' : KernelState) (ts rest : List ℤ) : Prop where
  wakeupTime : ∀ t, k'.wakeupTime t = if t ∈ ts then 0 else k.wakeupTime t
  state : ∀ t, k'.state t = if t ∈ ts then .ready else k.state t
  priority : k'.priority = k.priority
  list : Chain k'.nextSleeperId (-1) k'.threadNextSleeperId rest
  ready : ∀ {zs}, Chain k.next (-1) k.head zs →
    Chain k'.next (-1) k'.head (ts.foldl (insertReady k.priority) zs)

theorem Roused.nil {xs : List ℤ} (hc : Chain k.nextSleeperId (-1) k.threadNextSleeperId xs) : Roused k k [] xs := by
  refine ⟨fun t => ?_, fun t => ?_, rfl, hc, fun hz => hz⟩
  · rw [if_neg List.not_mem_nil]
  · rw [if_neg List.not_mem_nil]

theorem Roused.trans {k1 : KernelState} {ts us xs ys : List ℤ} (h1 : Roused k k1 ts xs) (h2 : Roused k1 k' us ys) :
    Roused k k' (ts ++ us) ys := by
  refine ⟨fun t => ?_, fun t => ?_, h2.priority.trans h1.priority, h2.list, fun {zs} hz => ?_⟩
  · rw [h2.wakeupTime, h1.wakeupTime]
    by_cases hu : t ∈ us <;> simp [hu]
  · rw [h2.state, h1.state]
    by_cases hu : t ∈ us <;> simp [hu]
  · have hready := h2.ready (h1.ready hz)
    rw [h1.priority] at hready
    rw [List.foldl_append]
    exact hready

/-- While the idle thread is current, a timed sleeper that is first on the list becomes ready. -/
theorem Inv.wakeSleeper (h : Inv k) (hcur : k.currentThread = 0) {xs : List ℤ}
    (hc : Chain k.nextSleeperId (-1) k.threadNextSleeperId (t :: xs))
    (hmem : ∀ x, x ∈ t :: xs ↔ x ∈ timedSet k.wakeupTime) :
    ∃ k', wakeSleeper k t = some k' ∧ Inv k' ∧ SameQueues k k' ∧ k'.currentThread = 0 ∧ Roused k k' [t] xs := by
  have htimed : k.wakeupTime t ≠ 0 := (hmem t).1 List.mem_cons_self
  have hrow := h.lists.sleeperRow htimed
  have hne : t ≠ 0 := by
    obtain ⟨h1, -⟩ := hrow
    omega
  obtain ⟨hs, hw⟩ := (h.rows t).timed htimed
  have hs : k.state t = .sleeping := by
    rcases hs with hs | hs
    · exact hs
    · exact absurd ((h.running (Or.inl hs)).trans hcur) hne
  have hR : t ∉ readySet k.state := fun hm => by
    rw [hm.2] at hs
    cases hs
  have hnot : t ∉ xs := (List.nodup_cons.1 hc.nodup).1
  have hnew := hc.tail.update (b := -1) hnot
  have hhead : k.threadNextSleeperId = t := hc.seg.1
  -- with its link cut, the thread is alone on the list until the head moves on
  have hl : Lists { k with nextSleeperId := Function.update k.nextSleeperId t (-1)
                           wakeupTime := Function.update k.wakeupTime t 0 }
      (readySet k.state) (waitingOn k.sleepsOn) {t} := by
    refine { h.lists with sleepers := ⟨[t], ?_, by simp⟩, sleeperRow := ?_ }
    · simp only [hhead]
      exact (chain_empty k.nextSleeperId (-1)).push List.not_mem_nil hrow.ne_end
    · rintro x rfl
      exact hrow
  obtain ⟨next, head, tail, h1, h2, hframe, hins⟩ := hl.addToReadyList hrow hR (Sound.notMem_queue hw)
  have hsame : ∀ x, k.sleepsOn x ≠ 0 → next x = k.next x := fun x hx =>
    hframe x (fun he => hx (he ▸ hw)) fun hm => h.lists.disjoint hm (h := _) ⟨hx, rfl⟩
  unfold Kernel.wakeSleeper
  simp only [h1]
  refine ⟨_, rfl, ⟨⟨?_, h.rows_update (t := t) (fun x hx => ?_) ?_⟩, fun {x} hx => ?_, fun hc0 => ?_⟩,
    ⟨rfl, rfl, hsame⟩, hcur,
    fun x => by simp [Function.update_apply], fun x => by simp [Function.update_apply], rfl, hnew, fun hz => hins _ hz⟩
  · simp only [readySet_ready hne, timedSet_wake]
    refine { h2 with sleepers := ⟨xs, hnew, fun x => ?_⟩, sleeperRow := ?_ }
    · rw [Set.mem_sdiff, Set.mem_singleton_iff, ← hmem, List.mem_cons]
      constructor
      · intro hx
        refine ⟨Or.inr hx, ?_⟩
        rintro rfl
        exact hnot hx
      · rintro ⟨rfl | hx, hx2⟩
        · exact absurd rfl hx2
        · exact hx
    · exact fun hx => h.lists.sleeperRow hx.1
  · simp [hx]
  · simp only [Function.update_self, hw]
    exact ⟨fun _ _ => hrow, fun h0 => absurd h0 hne, by simp, by simp, by simp⟩
  · by_cases hxt : x = t
    · simp [hxt] at hx
    · simp only [Function.update_of_ne hxt] at hx
      exact h.running hx
  · exact absurd hcur hc0

/-- **The loop of `scheduler_wakeup_expired_sleepers`** ends: each round shortens the list.  It wakes the threads in
front whose time has come. -/
theorem wakeupLoop_spec (curTime : UInt32) (n : ℕ) {k : KernelState} (h : Inv k) (hcur : k.currentThread = 0)
    {xs : List ℤ} (hc : Chain k.nextSleeperId (-1) k.threadNextSleeperId xs) (hn : xs.length < n) :
    ∃ k', wakeupLoop curTime n k = some k' ∧ Inv k' ∧ SameQueues k k' ∧ k'.currentThread = 0 ∧
      Roused k k' (xs.takeWhile fun t => decide (k.wakeupTime t < curTime))
        (xs.dropWhile fun t => decide (k.wakeupTime t < curTime)) := by
  induction n generalizing k xs with
  | zero => omega
  | succ n ih =>
    rw [wakeupLoop]
    have hmem : ∀ x, x ∈ xs ↔ x ∈ timedSet k.wakeupTime := by
      obtain ⟨ys, hy, hym⟩ := h.lists.sleepers
      rw [hc.seg.unique hy.seg hc.end_notMem hy.end_notMem]
      exact hym
    cases xs with
    | nil =>
      have hhead : k.threadNextSleeperId = -1 := hc.seg
      rw [if_pos hhead]
      exact ⟨k, rfl, h, .rfl, hcur, .nil hc⟩
    | cons t xs =>
      have hhead : k.threadNextSleeperId = t := hc.seg.1
      have hne : t ≠ -1 := fun he => hc.end_notMem (he ▸ List.mem_cons_self)
      rw [if_neg (by rw [hhead]; exact hne), hhead]
      by_cases htime : k.wakeupTime t < curTime
      · rw [if_pos htime, List.takeWhile_cons_of_pos (by simpa using htime),
          List.dropWhile_cons_of_pos (by simpa using htime)]
        obtain ⟨k1, h1, h2, hq, h3, hone⟩ := h.wakeSleeper hcur hc hmem
        obtain ⟨k', h5, h6, hq', h7, hrest⟩ := ih h2 h3 hone.list (by rw [List.length_cons] at hn; omega)
        -- the threads behind have kept their times
        have hsame : ∀ x ∈ xs, decide (k1.wakeupTime x < curTime) = decide (k.wakeupTime x < curTime) := by
          intro x hx
          have hxt : x ≠ t := by
            rintro rfl
            exact (List.nodup_cons.1 hc.nodup).1 hx
          rw [hone.wakeupTime, if_neg (by simpa using hxt)]
        obtain ⟨htake, hdrop⟩ := Sorted.split_congr hsame
        rw [htake, hdrop] at hrest
        rw [h1]
        exact ⟨k', h5, h6, hq.trans hq', h7, hone.trans hrest⟩
      · rw [if_neg htime, List.takeWhile_cons_of_neg (by simpa using htime),
          List.dropWhile_cons_of_neg (by simpa using htime)]
        exact ⟨k, rfl, h, .rfl, hcur, .nil hc⟩

/-- The state of the running thread changes to one in which it is not ready. -/
theorem Inv.retired (h : Inv k) {s : ThreadState} (hs : s ≠ .ready) (h1 : s ≠ .running) (h2 : s ≠ .dying)
    (hnot : k.currentThread ∉ readySet k.state)
    (hok : RowOk k.currentThread s (k.sleepsOn k.currentThread) (k.wakeupTime k.currentThread)) :
    Sound { k with state := Function.update k.state k.currentThread s } ∧
      ∀ t, ¬ (Function.update k.state k.currentThread s t = .running ∨
        Function.update k.state k.currentThread s t = .dying) := by
  refine ⟨⟨?_, h.rows_update (t := k.currentThread) (fun x hx => ?_) ?_⟩, fun t => ?_⟩
  · have hset : readySet (Function.update k.state k.currentThread s) = readySet k.state := by
      rw [readySet_taken hs, Set.sdiff_singleton_eq_self hnot]
    simp only [hset]
    exact { h.lists with }
  · simp [hx]
  · simpa using hok
  · by_cases ht : t = k.currentThread
    · simp [ht, h1, h2]
    · simp only [Function.update_of_ne ht]
      exact fun hr => ht (h.running hr)

/-- **The first half of `scheduler_schedule`** leaves no thread running. -/
theorem Inv.retireCurrent (h : Inv k) (curTime : UInt32) :
    ∃ k', retireCurrent k curTime = some k' ∧ SameQueues k k' ∧ Sound k' ∧
      ∀ t, ¬ (k'.state t = .running ∨ k'.state t = .dying) := by
  have hrows := h.rows k.currentThread
  unfold Kernel.retireCurrent
  simp only
  split
  · rename_i hs
    obtain ⟨hw, hz⟩ := h.awake (t := k.currentThread) (by rw [hs]; decide) (by rw [hs]; decide)
    have h0 : k.currentThread ≠ 0 := fun h0 => by
      have := hrows.idle h0
      rw [hs] at this
      simp at this
    refine ⟨_, rfl, ⟨rfl, rfl, fun _ _ => rfl⟩, h.retired (by decide) (by decide) (by decide) (fun hm => ?_) ?_⟩
    · rw [hm.2] at hs
      cases hs
    · rw [hw, hz]
      exact ⟨by simp, fun h1 => absurd h1 h0, by simp, by simp, by simp⟩
  rename_i hdying
  -- a thread that waits is no idle thread and is not on the ready list
  have hsleep : k.sleepsOn k.currentThread ≠ 0 ∨ k.wakeupTime k.currentThread ≠ 0 →
      Row k.currentThread ∧ k.currentThread ∉ readySet k.state := by
    intro hwait
    have hst : k.state k.currentThread = .sleeping ∨ k.state k.currentThread = .running :=
      hwait.elim hrows.waits fun hz => (hrows.timed hz).1
    refine ⟨hwait.elim (fun hw => h.lists.queueRow (h := _) ⟨hw, rfl⟩) fun hz => h.lists.sleeperRow hz, ?_⟩
    intro hm
    rw [hm.2] at hst
    simp at hst
  split
  · rename_i hw
    obtain ⟨hrow, hnot⟩ := hsleep (Or.inl hw)
    have h0 : k.currentThread ≠ 0 := by
      obtain ⟨h1, -⟩ := hrow
      omega
    refine ⟨_, rfl, ⟨rfl, rfl, fun _ _ => rfl⟩, h.retired (by decide) (by decide) (by decide) hnot ?_⟩
    exact ⟨fun _ _ => hrow, fun h1 => absurd h1 h0, by simp, fun hz => ⟨by simp, (hrows.timed hz).2⟩,
      fun _ => Or.inl hw⟩
  rename_i hw
  split
  · rename_i hz
    obtain ⟨hrow, hnot⟩ := hsleep (Or.inr hz)
    have h0 : k.currentThread ≠ 0 := by
      obtain ⟨h1, -⟩ := hrow
      omega
    refine ⟨_, rfl, ⟨rfl, rfl, fun _ _ => rfl⟩, h.retired (by decide) (by decide) (by decide) hnot ?_⟩
    exact ⟨fun _ _ => hrow, fun h1 => absurd h1 h0, by simp, fun _ => ⟨by simp, (hrows.timed hz).2⟩,
      fun _ => Or.inr hz⟩
  rename_i hz
  rw [not_not] at hw hz
  by_cases hidle : k.currentThread = IDLE_THREAD_TID
  · rw [if_neg (by simpa using hidle)]
    obtain ⟨xs, hc, hmem⟩ := h.lists.sleepers
    have hlen := length_lt_rounds hc fun t ht => h.lists.sleeperRow ((hmem t).1 ht)
    obtain ⟨k', h1, h2, hq, h3, -⟩ := wakeupLoop_spec curTime ROUNDS h hidle hc hlen
    simp only [schedulerWakeupExpiredSleepers, h1, hidle, IDLE_THREAD_TID]
    refine ⟨_, rfl, ⟨hq.table, hq.sleepsOn, hq.next⟩, ⟨?_, h2.rows_update (t := 0) (fun x hx => ?_) ?_⟩, fun t => ?_⟩
    · simp only [readySet_idle]
      exact { h2.lists with }
    · simp [hx]
    · obtain ⟨hw', hz'⟩ := h2.idle_awake
      simp only [Function.update_self, hw', hz']
      exact ⟨fun h0 => absurd rfl h0, by simp, by simp, by simp, by simp⟩
    · by_cases ht : t = 0
      · simp [ht]
      · simp only [Function.update_of_ne ht]
        exact fun hr => ht ((h2.running hr).trans h3)
  · rw [if_pos hidle]
    have hs : k.state k.currentThread = .running := (h.current hidle).resolve_right hdying
    have hrow := hrows.row hidle (by rw [hs]; decide)
    obtain ⟨next, head, tail, h1, h2, hframe⟩ := h.addReady hrow (by rw [hs]; decide) hw hz
    simp only [h1]
    refine ⟨_, rfl, ⟨rfl, rfl, hframe⟩, h2, fun t => ?_⟩
    by_cases ht : t = k.currentThread
    · simp [ht]
    · simp only [Function.update_of_ne ht]
      exact fun hr => ht (h.running hr)

/-- **The second half of `scheduler_schedule`** makes one thread run. -/
theorem Sound.runFirstReady (h : Sound k) (hno : ∀ t, ¬ (k.state t = .running ∨ k.state t = .dying)) :
    ∃ k', runFirstReady k = some k' ∧ SameQueues k k' ∧ Inv k' := by
  unfold Kernel.runFirstReady
  by_cases hempty : ∃ t, t ∈ readySet k.state
  · obtain ⟨t, head, tail, ht, h1, h2⟩ := h.lists.removeFirst (fun t ht => ht.2) hempty
    have hrow := h.lists.readyRow ht
    obtain ⟨hw, hz⟩ := h.awake (t := t) (by rw [ht.2]; decide) (by rw [ht.2]; decide)
    simp only [h1]
    refine ⟨_, rfl, ⟨rfl, rfl, fun _ _ => rfl⟩, ⟨?_, h.rows_update (t := t) (fun x hx => ?_) ?_⟩,
      fun {x} hx => ?_, fun _ => ?_⟩
    · simp only [readySet_taken (t := t) (show ThreadState.running ≠ .ready by decide)]
      exact { h2 with }
    · simp [hx]
    · simp only [Function.update_self, hw, hz]
      exact ⟨fun _ _ => hrow, fun h0 => absurd h0 ht.1, by simp, by simp, by simp⟩
    · by_contra hxt
      simp only [Function.update_of_ne hxt] at hx
      exact hno x hx
    · simp
  · rw [not_exists] at hempty
    simp only [h.lists.removeFirst_empty hempty, IDLE_THREAD_TID]
    refine ⟨_, rfl, ⟨rfl, rfl, fun _ _ => rfl⟩, ⟨?_, h.rows_update (t := 0) (fun x hx => ?_) ?_⟩,
      fun {x} hx => ?_, fun h0 => ?_⟩
    · simp only [readySet_idle]
      exact { h.lists with }
    · simp [hx]
    · obtain ⟨hw, hz⟩ := h.idle_awake
      simp only [Function.update_self, hw, hz]
      exact ⟨fun h0 => absurd rfl h0, by simp, by simp, by simp, by simp⟩
    · by_contra hxt
      simp only [Function.update_of_ne hxt] at hx
      exact hno x hx
    · exact absurd rfl h0

theorem Inv.schedulerSchedule (h : Inv k) (curTime : UInt32) :
    ∃ k', schedulerSchedule k curTime = some k' ∧ Inv k' ∧ SameQueues k k' := by
  obtain ⟨k1, h1, hq1, h2, h3⟩ := h.retireCurrent curTime
  obtain ⟨k2, h4, hq2, h5⟩ := h2.runFirstReady h3
  exact ⟨k2, by rw [Kernel.schedulerSchedule, h1]; exact h4, h5, hq1.trans hq2⟩

/-! ### The remaining calls -/

/-- A row that the create functions find. -/
theorem findFreeThread_spec {nextTid : ℤ} (hf : findFreeThread k nextTid = some t) :
    Row t ∧ k.state t = .free := by
  have hmem := List.mem_of_find?_eq_some hf
  have hp := List.find?_some hf
  simp only [List.mem_map, List.mem_range, IDLE_THREAD_TID, CONFIG_MAX_THREADS, bne_iff_ne, ne_eq,
    Bool.and_eq_true, beq_iff_eq, Nat.cast_ofNat] at hmem hp
  obtain ⟨i, -, hi⟩ := hmem
  have h1 := Int.emod_nonneg ((i : ℤ) + nextTid) (show (32 : ℤ) ≠ 0 by decide)
  have h2 := Int.emod_lt_of_pos ((i : ℤ) + nextTid) (show (0 : ℤ) < 32 by decide)
  refine ⟨⟨?_, by omega⟩, hp.2⟩
  obtain ⟨h0, -⟩ := hp
  omega

theorem Inv.threadCreate (h : Inv k) : Inv (threadCreate k).2 ∧ SameQueues k (threadCreate k).2 := by
  unfold Kernel.threadCreate
  split
  · exact ⟨h, .rfl⟩
  · rename_i tid hf
    obtain ⟨hrow, hs⟩ := findFreeThread_spec hf
    obtain ⟨hi, hq⟩ := h.initThread hrow hs .normal
    exact ⟨⟨⟨{ hi.lists with }, hi.rows⟩, hi.running, hi.current⟩, hq.table, hq.sleepsOn, hq.next⟩

theorem Inv.threadCreateWithPriority (h : Inv k) (p : Priority) :
    Inv (threadCreateWithPriority k p).2 ∧ SameQueues k (threadCreateWithPriority k p).2 := by
  unfold Kernel.threadCreateWithPriority
  split
  · exact ⟨h, .rfl⟩
  · rename_i tid hf
    obtain ⟨hrow, hs⟩ := findFreeThread_spec hf
    obtain ⟨hi, hq⟩ := h.initThread hrow hs p
    exact ⟨⟨⟨{ hi.lists with }, hi.rows⟩, hi.running, hi.current⟩, hq.table, hq.sleepsOn, hq.next⟩

/-- **`thread_run`** on a thread that has just been created. -/
theorem Inv.threadRun (h : Inv k) (hs : k.state t = .nonready) :
    ∃ k', threadRun k t = some k' ∧ Inv k' ∧ SameQueues k k' := by
  have hne : t ≠ 0 := fun h0 => by
    have := (h.rows t).idle h0
    rw [hs] at this
    simp at this
  have hrow := (h.rows t).row hne (by rw [hs]; decide)
  obtain ⟨hw, hz⟩ := h.awake (t := t) (by rw [hs]; decide) (by rw [hs]; decide)
  obtain ⟨next, head, tail, h1, h2, hframe⟩ := h.addReady hrow (by rw [hs]; decide) hw hz
  unfold Kernel.threadRun schedulerAddReady
  simp only [h1]
  refine ⟨_, rfl, ⟨h2, fun {x} hx => ?_, fun hc => ?_⟩, rfl, rfl, hframe⟩
  · by_cases hxt : x = t
    · simp [hxt] at hx
    · simp only [Function.update_of_ne hxt] at hx
      exact h.running hx
  · simp only at hc ⊢
    have hct : k.currentThread ≠ t := by
      rintro rfl
      have := h.current hc
      rw [hs] at this
      simp at this
    rw [Function.update_of_ne hct]
    exact h.current hc

theorem Inv.threadFinish (h : Inv k) (ha : Active k) : Inv (threadFinish k) := by
  unfold Kernel.threadFinish
  refine ⟨⟨?_, h.rows_update (t := k.currentThread) (fun x hx => ?_) ?_⟩,
      fun {x} hx => ?_, fun _ => ?_⟩
  · have hset : readySet (Function.update k.state k.currentThread .dying) = readySet k.state :=
      readySet_other (by decide) (Or.inr (by rw [ha.state]; decide))
    simp only [hset]
    exact { h.lists with }
  · simp [hx]
  · simp only [Function.update_self, ha.sleepsOn, ha.wakeupTime]
    exact ⟨fun _ _ => ha.row h, fun h0 => absurd h0 ha.notIdle, by simp, by simp, by simp⟩
  · by_contra hxt
    simp only [Function.update_of_ne hxt] at hx
    exact hxt (h.running hx)
  · simp

end Steps

/-! ## Runs -/

/-- A call of the thread library, the scheduler or the sleep queue.  `now` is what the real-time
clock shows. -/
inductive Action where
  | create
  | createWithPriority (p : Priority)
  | run (t : ℤ)
  | add (resource : UInt32)
  | wake (resource : UInt32)
  | wakeAll (resource : UInt32)
  | sleep (now sleepTime : UInt32)
  | finish
  | schedule (now : UInt32)

/-- One call; `none` if it fails an assertion or does not return. -/
def step (k : KernelState) : Action → Option KernelState
  | .create => some (threadCreate k).2
  | .createWithPriority p => some (threadCreateWithPriority k p).2
  | .run t => threadRun k t
  | .add resource => sleepqAdd k resource
  | .wake resource => sleepqWake k resource
  | .wakeAll resource => sleepqWakeAll k resource
  | .sleep now sleepTime => threadSleep k now sleepTime
  | .finish => some (threadFinish k)
  | .schedule now => schedulerSchedule k now

/-- How the calls are used: only threads that have just been created are run, and a thread that has
called `sleepq_add`, `thread_sleep` or `thread_finish` does so again only after its switch (or, for
`sleepq_add`, after it has been woken); the idle thread does none of this.  Resources and wake-up
times are not zero.  Wake-ups and switches may come at any time. -/
def Allowed (k : KernelState) : Action → Prop
  | .run t => k.state t = .nonready
  | .add resource => Active k ∧ resource ≠ 0
  | .sleep now sleepTime => Active k ∧ now + sleepTime ≠ 0
  | .finish => Active k
  | _ => True

instance (k : KernelState) : Decidable (Active k) :=
  decidable_of_iff (k.currentThread ≠ IDLE_THREAD_TID ∧ k.state k.currentThread = .running ∧
      k.sleepsOn k.currentThread = 0 ∧ k.wakeupTime k.currentThread = 0)
    ⟨fun ⟨h1, h2, h3, h4⟩ => ⟨h1, h2, h3, h4⟩, fun h => ⟨h.1, h.2, h.3, h.4⟩⟩

instance Allowed.decidable (k : KernelState) : ∀ a, Decidable (Allowed k a)
  | .run _ => inferInstanceAs (Decidable (_ = _))
  | .add _ => inferInstanceAs (Decidable (_ ∧ _))
  | .sleep _ _ => inferInstanceAs (Decidable (_ ∧ _))
  | .finish => inferInstanceAs (Decidable (Active k))
  | .create => isTrue trivial
  | .createWithPriority _ => isTrue trivial
  | .wake _ => isTrue trivial
  | .wakeAll _ => isTrue trivial
  | .schedule _ => isTrue trivial

/-- What a call that is no call of the sleep queue leaves of it, and what those calls do. -/
def Effect (k k' : KernelState) : Action → Prop
  | .add resource => Joined k k' resource
  | .wake resource => ∀ {xs}, Chain k.next (-1) (k.sleepqHashtable (SLEEPQ_HASH resource)) xs →
    Woken k k' (SLEEPQ_HASH resource) ((waitersOf k resource xs).take 1)
  | .wakeAll resource => ∀ {xs}, Chain k.next (-1) (k.sleepqHashtable (SLEEPQ_HASH resource)) xs →
    Woken k k' (SLEEPQ_HASH resource) (waitersOf k resource xs)
  | _ => SameQueues k k'

theorem Inv.step {k : KernelState} (h : Inv k) {a : Action} (ha : Allowed k a) :
    ∃ k', step k a = some k' ∧ Inv k' ∧ Effect k k' a := by
  cases a with
  | create => exact ⟨_, rfl, h.threadCreate⟩
  | createWithPriority p => exact ⟨_, rfl, h.threadCreateWithPriority p⟩
  | run t => exact h.threadRun ha
  | add resource => exact h.sleepqAdd ha.1 ha.2
  | wake resource =>
    obtain ⟨xs, hx, -⟩ := h.lists.queue (SLEEPQ_HASH resource)
    obtain ⟨k', h1, h2, h3⟩ := h.sleepqWake resource hx
    exact ⟨k', h1, h2, fun hy => hy.unique hx ▸ h3⟩
  | wakeAll resource =>
    obtain ⟨xs, hx, -⟩ := h.lists.queue (SLEEPQ_HASH resource)
    obtain ⟨k', h1, h2, h3⟩ := h.sleepqWakeAll resource hx
    exact ⟨k', h1, h2, fun hy => hy.unique hx ▸ h3⟩
  | sleep now sleepTime =>
    obtain ⟨k', h1, h2, h3, -⟩ := h.threadSleep ha.1 ha.2
    exact ⟨k', h1, h2, h3⟩
  | finish => exact ⟨_, rfl, h.threadFinish ha, rfl, rfl, fun _ _ => rfl⟩
  | schedule now => exact h.schedulerSchedule now

theorem inv_init : Inv KernelState.init := by
  have hready : readySet KernelState.init.state = ∅ := by
    ext x
    by_cases hx : x = 0
    · simp [readySet, hx]
    · simp [readySet, KernelState.init, IDLE_THREAD_TID, hx]
  have hwait : ∀ h, waitingOn KernelState.init.sleepsOn h = ∅ := by
    intro h
    simp [waitingOn, KernelState.init]
  have htimed : timedSet KernelState.init.wakeupTime = ∅ := by
    simp [timedSet, KernelState.init]
  refine ⟨⟨?_, fun t => ?_⟩, fun {t} ht => ?_, fun h0 => absurd rfl h0⟩
  · rw [hready, htimed]
    refine ⟨⟨[], chain_empty _ _, rfl, by simp⟩, fun h => ⟨[], chain_empty _ _, by simp [hwait]⟩,
      ⟨[], chain_empty _ _, by simp⟩, by simp, ?_, by simp, ?_, by simp⟩
    · intro t h h' ht
      rw [hwait] at ht
      exact absurd ht (by simp)
    · intro t h ht
      rw [hwait] at ht
      exact absurd ht (by simp)
  · by_cases ht : t = 0
    · subst ht
      exact ⟨fun h0 => absurd rfl h0, fun _ => Or.inl rfl, by simp [KernelState.init], by simp [KernelState.init],
        by simp [KernelState.init, IDLE_THREAD_TID]⟩
    · simp only [KernelState.init, IDLE_THREAD_TID, Function.update_of_ne ht]
      exact ⟨by simp, fun h0 => absurd h0 ht, by simp, by simp, by simp⟩
  · by_contra h0
    have h0 : t ≠ 0 := h0
    simp [KernelState.init, IDLE_THREAD_TID, h0] at ht

/-- What the claimed lists look like: `ready` from `head` through `next`, `chain h` from bucket `h`,
`sleepers` from `thread_next_sleeper_id` through `next_sleeper_id`. -/
structure ThreadLists (k : KernelState) (ready : List ℤ) (chain : ℕ → List ℤ) (sleepers : List ℤ) : Prop where
  ready_chain : Chain k.next (-1) k.head ready
  ready_tail : k.tail = ready.getLast?.getD (-1)
  ready_once : ready.Nodup
  mem_ready : ∀ t, t ∈ ready ↔ t ≠ IDLE_THREAD_TID ∧ k.state t = .ready
  queue_chain : ∀ h < SLEEPQ_HASHTABLE_SIZE, Chain k.next (-1) (k.sleepqHashtable h) (chain h)
  queue_once : ∀ h < SLEEPQ_HASHTABLE_SIZE, (chain h).Nodup
  mem_queue : ∀ h < SLEEPQ_HASHTABLE_SIZE, ∀ t,
    t ∈ chain h ↔ k.sleepsOn t ≠ 0 ∧ SLEEPQ_HASH (k.sleepsOn t) = h
  ready_disjoint : ∀ h < SLEEPQ_HASHTABLE_SIZE, ready.Disjoint (chain h)
  queue_disjoint : ∀ h < SLEEPQ_HASHTABLE_SIZE, ∀ h' < SLEEPQ_HASHTABLE_SIZE, h ≠ h' →
    (chain h).Disjoint (chain h')
  sleepers_chain : Chain k.nextSleeperId (-1) k.threadNextSleeperId sleepers
  mem_sleepers : ∀ t, t ∈ sleepers ↔ k.wakeupTime t ≠ 0
  not_lost : ∀ t : ℤ, 0 < t → t < (CONFIG_MAX_THREADS : ℤ) →
    t ∈ ready ∨ (∃ h < SLEEPQ_HASHTABLE_SIZE, t ∈ chain h) ∨ t ∈ sleepers ∨
    (t = k.currentThread ∧ (k.state t = .running ∨ k.state t = .dying)) ∨
    k.state t = .nonready ∨ k.state t = .free

theorem SLEEPQ_HASH_lt (resource : UInt32) : SLEEPQ_HASH resource < SLEEPQ_HASHTABLE_SIZE :=
  Nat.mod_lt _ (by decide)

theorem Inv.threadLists {k : KernelState} (h : Inv k) :
    ∃ ready chain sleepers, ThreadLists k ready chain sleepers := by
  obtain ⟨ready, hr1, hr2, hr3⟩ := h.lists.ready
  obtain ⟨sleepers, hz1, hz2⟩ := h.lists.sleepers
  choose chain hq1 hq2 using h.lists.queue
  refine ⟨ready, chain, sleepers, hr1, hr2, hr1.nodup, hr3, fun b _ => hq1 b, fun b _ => (hq1 b).nodup,
    fun b _ => hq2 b, fun b _ t h1 h2 => ?_, fun b _ b' _ hne t h1 h2 => ?_, hz1, hz2, fun t h0 _ => ?_⟩
  · exact h.lists.disjoint ((hr3 t).1 h1) ((hq2 b t).1 h2)
  · exact hne (h.lists.queues ((hq2 b t).1 h1) ((hq2 b' t).1 h2))
  · cases hs : k.state t with
    | free => simp
    | nonready => simp
    | ready => exact Or.inl ((hr3 t).2 ⟨by omega, hs⟩)
    | running =>
      exact Or.inr (Or.inr (Or.inr (Or.inl ⟨h.running (Or.inl hs), Or.inl rfl⟩)))
    | dying =>
      exact Or.inr (Or.inr (Or.inr (Or.inl ⟨h.running (Or.inr hs), Or.inr rfl⟩)))
    | sleeping =>
      rcases (h.rows t).asleep hs with hw | hz
      · exact Or.inr (Or.inl ⟨_, SLEEPQ_HASH_lt _, (hq2 _ t).2 ⟨hw, rfl⟩⟩)
      · exact Or.inr (Or.inr (Or.inl ((hz2 t).2 hz)))

/-- Every run of calls used as they are goes through and keeps the invariant. -/
theorem run_inv {as : List Action} (h : Every step Allowed KernelState.init as) :
    ∃ k, run step KernelState.init as = some k ∧ Inv k := by
  refine run_total (I := Inv) (fun ha hi => ?_) inv_init h
  obtain ⟨k', h1, h2, -⟩ := hi.step ha
  exact ⟨k', h1, h2⟩

/-- **One `next` field, many lists.** -/
theorem thread_lists (as : List Action) (h : Every step Allowed KernelState.init as) :
    ∃ k, run step KernelState.init as = some k ∧
      ∃ ready chain sleepers, ThreadLists k ready chain sleepers := by
  obtain ⟨k, hk, hinv⟩ := run_inv h
  exact ⟨k, hk, hinv.threadLists⟩

/-- Three threads: two wait in one bucket for different resources, one sleeps for a while, and the
first one woken is woken between its `sleepq_add` and its switch. -/
theorem thread_lists_three :
    ∃ k, run step KernelState.init [.create, .create, .createWithPriority .high, .run 1, .run 2, .run 3,
        .schedule 0, .add 132, .wake 132, .schedule 0, .add 132, .schedule 0, .add 5, .schedule 0,
        .sleep 10 5, .schedule 0, .wake 5, .schedule 20, .wakeAll 132, .schedule 20] = some k ∧
      ∃ ready chain sleepers, ThreadLists k ready chain sleepers :=
  thread_lists _ (by decide +kernel)

end Buenos.Kernel
