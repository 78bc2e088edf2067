import Buenos.Base.TwoClass
import Buenos.Kernel.SleepQueue

/-!
# The order in which ready threads run

Over whole runs of the thread library, the scheduler and the sleep queue, the ready list is a waiting line with two
classes of service: threads of high priority go in front, and within a priority the first that became ready runs first.

* `queue k` — the ready threads with their priorities, in the order of the ready list.
* `dispatches` — whom the calls of `scheduler_schedule` in a run choose.
* `Gets k k' ts` — the threads `ts` have become ready, one after another.

Principal result: `scheduler_fair`, who runs while a ready thread waits.
-/

namespace Buenos.Kernel

open Buenos.Linked Buenos.Transition TwoClass

/-- A thread of high priority. -/
def highPriority (x : ℤ × Priority) : Bool := x.2 == .high

/-- Threads with their priorities. -/
def withPriority (k : KernelState) (xs : List ℤ) : List (ℤ × Priority) := xs.map fun t => (t, k.priority t)

/-- The ready threads, in the order of the ready list. -/
def queue (k : KernelState) : List (ℤ × Priority) := withPriority k (readyList k)

/-- The thread that runs. -/
def running (k : KernelState) : ℤ × Priority := (k.currentThread, k.priority k.currentThread)

/-- Whom `scheduler_schedule` chooses, each time it is called in a run. -/
def dispatches (k : KernelState) : List Action → List (ℤ × Priority)
  | [] => []
  | a :: as => match step k a with
    | none => []
    | some k' => match a with
      | .schedule _ => running k' :: dispatches k' as
      | _ => dispatches k' as

section Calls

variable {k k' : KernelState} {t : ℤ}

/-- `scheduler_add_to_ready_list` puts a thread where its priority says. -/
theorem withPriority_insertReady (xs : List ℤ) :
    withPriority k (insertReady k.priority xs t) = place highPriority (withPriority k xs) (t, k.priority t) := by
  have hhigh : (fun x => k.priority x == .high) = highPriority ∘ fun x => (x, k.priority x) := rfl
  unfold insertReady
  cases hp : k.priority t with
  | normal =>
    rw [place_other rfl]
    simp [withPriority, hp]
  | high =>
    rw [place_urgent rfl]
    simp [withPriority, hp, hhigh, List.takeWhile_map, List.dropWhile_map]

/-- The threads `ts` have become ready one after another, and nothing else has happened to the ready list. -/
structure Gets (k k' : KernelState) (ts : List ℤ) : Prop where
  ready : ∀ {zs}, Chain k.next (-1) k.head zs → Chain k'.next (-1) k'.head (ts.foldl (insertReady k.priority) zs)
  priority : k'.priority = k.priority

theorem Gets.refl (h1 : k'.next = k.next) (h2 : k'.head = k.head) (h3 : k'.priority = k.priority) : Gets k k' [] := by
  refine ⟨fun hz => ?_, h3⟩
  rw [h1, h2]
  exact hz

theorem withPriority_foldl {k : KernelState} (ts : List ℤ) (xs : List ℤ) :
    withPriority k (ts.foldl (insertReady k.priority) xs) =
      (withPriority k ts).foldl (place highPriority) (withPriority k xs) := by
  induction ts generalizing xs with
  | nil => rfl
  | cons t ts ih =>
    rw [List.foldl_cons, ih, withPriority_insertReady]
    rfl

theorem Inv.queue_eq (h : Inv k) {zs : List ℤ} (hz : Chain k.next (-1) k.head zs) : queue k = withPriority k zs := by
  rw [queue, h.readyList_eq hz]

/-- A thread on the ready list is in the queue. -/
theorem Inv.mem_queue (h : Inv k) (ht : t ≠ 0) (hs : k.state t = .ready) : t ∈ readyList k := by
  obtain ⟨zs, hz, -, hmem⟩ := h.lists.ready
  rw [h.readyList_eq hz]
  exact (hmem t).2 ⟨ht, hs⟩

/-- Threads that have become ready are newcomers to the queue. -/
theorem Gets.flow {ts : List ℤ} (hg : Gets k k' ts) (h : Inv k) (h' : Inv k') :
    serve highPriority (queue k) ((withPriority k ts).map .arrive) = (queue k', []) := by
  obtain ⟨zs, hz, -⟩ := h.lists.ready
  rw [h.queue_eq hz, h'.queue_eq (hg.ready hz), serve_arrivals, ← withPriority_foldl, withPriority, withPriority,
    hg.priority]

/-- A new thread takes a row that is not on the ready list. -/
theorem Inv.queue_create (h : Inv k) (h' : Inv k') {p : Priority} (hs : k.state t = .free)
    (hnext : k'.next = Function.update k.next t (-1)) (hhead : k'.head = k.head)
    (hp : k'.priority = Function.update k.priority t p) : queue k' = queue k := by
  obtain ⟨zs, hz, -, hmem⟩ := h.lists.ready
  have ht : t ∉ zs := by
    intro hm
    have hr : k.state t = .ready := ((hmem t).1 hm).2
    rw [hs] at hr
    cases hr
  have hz' : Chain k'.next (-1) k'.head zs := by
    rw [hnext, hhead]
    exact hz.update ht
  rw [h.queue_eq hz, h'.queue_eq hz']
  refine List.map_congr_left fun x hx => ?_
  have hxt : x ≠ t := by
    rintro rfl
    exact ht hx
  rw [hp, Function.update_of_ne hxt]

theorem sleepqAdd_priority {resource : UInt32} (hk : sleepqAdd k resource = some k') : k'.priority = k.priority := by
  unfold sleepqAdd appendToQueue at hk
  simp only at hk
  split at hk
  · cases hk
  split at hk
  · cases hk
    rfl
  · split at hk
    · cases hk
    · cases hk
      rfl

/-- `thread_sleep` leaves the ready list alone. -/
theorem threadSleep_gets {now ms : UInt32} (hk : threadSleep k now ms = some k') : Gets k k' [] := by
  unfold threadSleep at hk
  simp only at hk
  split at hk
  · cases hk
    exact .refl rfl rfl rfl
  split at hk
  · cases hk
  split at hk
  · cases hk
    exact .refl rfl rfl rfl
  split at hk
  · cases hk
    exact .refl rfl rfl rfl
  split at hk
  · cases hk
  · cases hk
    exact .refl rfl rfl rfl

theorem Woken.gets {b : ℕ} {ts : List ℤ} (h : Woken k k' b ts) :
    Gets k k' (ts.filter fun t => decide (k.state t = .sleeping)) := ⟨h.ready, h.priority⟩

theorem threadCreate_queue (h : Inv k) : queue (threadCreate k).2 = queue k := by
  have h' := h.threadCreate.1
  unfold threadCreate at h' ⊢
  split
  · rfl
  · rename_i tid hf
    rw [hf] at h'
    exact h.queue_create h' (findFreeThread_spec hf).2 rfl rfl rfl

theorem threadCreateWithPriority_queue (h : Inv k) (p : Priority) :
    queue (threadCreateWithPriority k p).2 = queue k := by
  have h' := (h.threadCreateWithPriority p).1
  unfold threadCreateWithPriority at h' ⊢
  split
  · rfl
  · rename_i tid hf
    rw [hf] at h'
    exact h.queue_create h' (findFreeThread_spec hf).2 rfl rfl rfl

/-- **`thread_run`** on a thread that has just been created. -/
theorem threadRun_gets (h : Inv k) (hs : k.state t = .nonready) (hk : threadRun k t = some k') : Gets k k' [t] := by
  have hne : t ≠ 0 := by
    rintro rfl
    rcases (h.rows 0).idle rfl with h0 | h0 <;> rw [hs] at h0 <;> cases h0
  have hrow : Row t := (h.rows t).row hne (by rw [hs]; decide)
  have hready : t ∉ readySet k.state := by
    intro hm
    have hr := hm.2
    rw [hs] at hr
    cases hr
  obtain ⟨hw, -⟩ := h.awake (t := t) (by rw [hs]; decide) (by rw [hs]; decide)
  obtain ⟨next, head, tail, h1, -, -, h2⟩ := h.lists.addToReadyList hrow hready (Sound.notMem_queue hw)
  unfold threadRun schedulerAddReady at hk
  rw [h1] at hk
  cases hk
  exact ⟨fun hz => h2 _ hz, rfl⟩

/-- **The first half of `scheduler_schedule`** puts the running thread, or the timed sleepers whose time has come, on
the ready list. -/
theorem retireCurrent_gets (h : Inv k) {curTime : UInt32} (hk : retireCurrent k curTime = some k') :
    ∃ ts, Gets k k' ts := by
  unfold retireCurrent at hk
  simp only at hk
  split at hk
  · cases hk
    exact ⟨[], .refl rfl rfl rfl⟩
  rename_i hdying
  split at hk
  · cases hk
    exact ⟨[], .refl rfl rfl rfl⟩
  rename_i hw
  split at hk
  · cases hk
    exact ⟨[], .refl rfl rfl rfl⟩
  rename_i hz
  rw [not_not] at hw hz
  by_cases hidle : k.currentThread = IDLE_THREAD_TID
  · rw [if_neg (not_not.2 hidle)] at hk
    obtain ⟨xs, hc, hmem⟩ := h.lists.sleepers
    have hlen := length_lt_rounds hc fun t ht => h.lists.sleeperRow ((hmem t).1 ht)
    obtain ⟨k1, h1, -, -, -, hroused⟩ := wakeupLoop_spec curTime ROUNDS h hidle hc hlen
    rw [schedulerWakeupExpiredSleepers, h1] at hk
    cases hk
    exact ⟨_, hroused.ready, hroused.priority⟩
  · rw [if_pos hidle] at hk
    have hs : k.state k.currentThread = .running := (h.current hidle).resolve_right hdying
    have hrow : Row k.currentThread := (h.rows _).row hidle (by rw [hs]; decide)
    have hready : k.currentThread ∉ readySet k.state := by
      intro hm
      have hr := hm.2
      rw [hs] at hr
      cases hr
    obtain ⟨next, head, tail, h1, -, -, h2⟩ := h.lists.addToReadyList hrow hready (Sound.notMem_queue hw)
    rw [h1] at hk
    cases hk
    exact ⟨[k.currentThread], fun hz => h2 _ hz, rfl⟩

/-- **The second half of `scheduler_schedule`** takes the first of the ready threads, or the idle thread if there is
none. -/
theorem runFirstReady_chain (h : Sound k) (hk : runFirstReady k = some k') {zs : List ℤ}
    (hz : Chain k.next (-1) k.head zs) :
    k'.priority = k.priority ∧ ((zs = [] ∧ Chain k'.next (-1) k'.head []) ∨
      ∃ ts, zs = k'.currentThread :: ts ∧ Chain k'.next (-1) k'.head ts) := by
  obtain ⟨ys, hy, hlast, hmem⟩ := h.lists.ready
  obtain rfl : zs = ys := hz.unique hy
  unfold runFirstReady at hk
  cases zs with
  | nil =>
    rw [h.lists.removeFirst_empty fun t ht => List.not_mem_nil ((hmem t).2 ht)] at hk
    cases hk
    exact ⟨rfl, Or.inl ⟨rfl, hz⟩⟩
  | cons t ts =>
    have ht : t ∈ readySet k.state := (hmem t).1 List.mem_cons_self
    obtain ⟨head, tail, h1, h2, -⟩ := removeFirst_cons hz hlast (h.lists.readyRow ht) ht.2
    rw [h1] at hk
    cases hk
    exact ⟨rfl, Or.inr ⟨ts, rfl, h2⟩⟩

/-- **`scheduler_schedule`** chooses the first of the ready threads, when those that become ready meanwhile have joined
them. -/
theorem schedulerSchedule_flow (h : Inv k) {curTime : UInt32} (hk : schedulerSchedule k curTime = some k')
    (h' : Inv k') : ∃ es, serve highPriority (queue k) es = (queue k', [running k']) ∨
      (queue k' = [] ∧ serve highPriority (queue k) es = (queue k', [])) := by
  obtain ⟨k1, h1, -, hsound, -⟩ := h.retireCurrent curTime
  rw [schedulerSchedule, h1] at hk
  obtain ⟨ts, hg⟩ := retireCurrent_gets h h1
  obtain ⟨zs, hz, -⟩ := h.lists.ready
  obtain ⟨hp, hchain⟩ := runFirstReady_chain hsound hk (hg.ready hz)
  have harrive : serve highPriority (queue k) ((withPriority k ts).map .arrive) =
      (withPriority k' (ts.foldl (insertReady k.priority) zs), []) := by
    rw [h.queue_eq hz, serve_arrivals, ← withPriority_foldl, withPriority, withPriority, hp, hg.priority]
  refine ⟨(withPriority k ts).map .arrive ++ [.serve], ?_⟩
  rw [serve_append, harrive]
  rcases hchain with ⟨hnil, hc⟩ | ⟨rest, hcons, hc⟩
  · right
    rw [hnil, h'.queue_eq hc]
    exact ⟨rfl, rfl⟩
  · left
    rw [hcons, h'.queue_eq hc]
    rfl

/-- What a call does to the queue. -/
def Flow (k k' : KernelState) (es : List (Event (ℤ × Priority))) : Action → Prop
  | .schedule _ => serve highPriority (queue k) es = (queue k', [running k']) ∨
      (queue k' = [] ∧ serve highPriority (queue k) es = (queue k', []))
  | _ => serve highPriority (queue k) es = (queue k', [])

/-- **One call**: threads become ready, and a switch serves the first one. -/
theorem Inv.flow (h : Inv k) {a : Action} (ha : Allowed k a) :
    ∃ k', Kernel.step k a = some k' ∧ Inv k' ∧ ∃ es, Flow k k' es a := by
  obtain ⟨k', hk, h', he⟩ := h.step ha
  refine ⟨k', hk, h', ?_⟩
  cases a with
  | create =>
    cases hk
    exact ⟨[], congrArg (·, []) (threadCreate_queue h).symm⟩
  | createWithPriority p =>
    cases hk
    exact ⟨[], congrArg (·, []) (threadCreateWithPriority_queue h p).symm⟩
  | run t => exact ⟨_, (threadRun_gets h ha hk).flow h h'⟩
  | add resource =>
    have hg : Gets k k' [] := ⟨he.ready, sleepqAdd_priority hk⟩
    exact ⟨_, hg.flow h h'⟩
  | wake resource =>
    obtain ⟨xs, hx, -⟩ := h.lists.queue (SLEEPQ_HASH resource)
    exact ⟨_, (he hx).gets.flow h h'⟩
  | wakeAll resource =>
    obtain ⟨xs, hx, -⟩ := h.lists.queue (SLEEPQ_HASH resource)
    exact ⟨_, (he hx).gets.flow h h'⟩
  | sleep now sleepTime => exact ⟨_, (threadSleep_gets hk).flow h h'⟩
  | finish =>
    cases hk
    have hg : Gets k (Kernel.threadFinish k) [] := .refl rfl rfl rfl
    exact ⟨_, hg.flow h h'⟩
  | schedule now => exact schedulerSchedule_flow h hk h'

end Calls

/-! ## Runs -/

section Runs

variable {k : KernelState}

/-- No thread of normal priority is in front of one of high priority. -/
theorem urgentFirst_run {as : List Action} (hi : Inv k) (hu : UrgentFirst highPriority (queue k))
    (h : Every step Allowed k as) :
    ∃ k', run step k as = some k' ∧ Inv k' ∧ UrgentFirst highPriority (queue k') := by
  refine run_total (I := fun k => Inv k ∧ UrgentFirst highPriority (queue k)) (fun {k a} ha hk => ?_) ⟨hi, hu⟩ h
  obtain ⟨k', h1, h2, es, hflow⟩ := hk.1.flow ha
  have hserve : (serve highPriority (queue k) es).1 = queue k' := by
    cases a with
    | schedule now => rcases hflow with he | ⟨-, he⟩ <;> rw [he]
    | _ => exact congrArg Prod.fst hflow
  exact ⟨k', h1, h2, hserve ▸ hk.2.serve _⟩

/-- **While a ready thread waits**, the switches serve the queue. -/
theorem serve_run {bs : List Action} (hi : Inv k) (hu : UrgentFirst highPriority (queue k))
    (h : Every step Allowed k bs) {us vs : List (ℤ × Priority)} {x : ℤ × Priority} (hq : queue k = us ++ x :: vs)
    (hx : x ∉ dispatches k bs) :
    ∃ k' es, run step k bs = some k' ∧ Inv k' ∧ serve highPriority (queue k) es = (queue k', dispatches k bs) := by
  induction bs generalizing k us vs with
  | nil => exact ⟨k, [], rfl, hi, rfl⟩
  | cons a bs ih =>
    obtain ⟨k1, h1, h2, es, hflow⟩ := hi.flow h.1
    have hrest : Every step Allowed k1 bs := by
      have h3 := h.2
      rwa [h1] at h3
    rw [dispatches, h1] at hx ⊢
    rw [run, h1]
    -- what is left to show once the call has served `out`
    have key : ∀ {out : List (ℤ × Priority)}, serve highPriority (queue k) es = (queue k1, out) →
        x ∉ out ++ dispatches k1 bs →
        ∃ k' fs, run step k1 bs = some k' ∧ Inv k' ∧
          serve highPriority (queue k) fs = (queue k', out ++ dispatches k1 bs) := by
      intro out he hout
      rw [List.mem_append, not_or] at hout
      obtain ⟨us', vs', hq', -⟩ := serve_waiting es (hq ▸ hu) (by rw [← hq, he]; exact hout.1)
      rw [← hq, he] at hq'
      have hu' : UrgentFirst highPriority (queue k1) := by
        have hs := hu.serve es
        rwa [he] at hs
      obtain ⟨k', fs, hrun, hi', hfs⟩ := ih h2 hu' hrest hq' hout.2
      refine ⟨k', es ++ fs, hrun, hi', ?_⟩
      rw [serve_append, he]
      simp only [hfs]
    cases a with
    | schedule now =>
      simp only at hx ⊢
      rcases hflow with he | ⟨hempty, he⟩
      · exact key he hx
      · -- the idle thread does not run while a thread is ready
        obtain ⟨us', vs', hq', -⟩ := serve_waiting es (hq ▸ hu) (by rw [← hq, he]; exact List.not_mem_nil)
        rw [← hq, he, hempty] at hq'
        exact absurd hq'.symm (by simp)
    | _ => exact key hflow hx

/-- A run is no longer than its switches to threads of high priority and to others. -/
theorem length_others (xs : List (ℤ × Priority)) :
    xs.length = (others highPriority xs).length + (xs.filter highPriority).length := by
  rw [Nat.add_comm]
  exact List.length_eq_length_filter_add highPriority

theorem queue_init : queue KernelState.init = [] := rfl

/-- What holds while the calls `bs` have not chosen the thread `t`, which was ready behind the threads `us`: it stays
ready; of the threads of normal priority only those in front of it are chosen, each once and in their order; if its own
priority is high, nobody else is; and so there are at most so many switches. -/
structure Waits (k : KernelState) (t : ℤ) (us : List ℤ) (bs : List Action) : Prop where
  ready : ∃ k', run step k bs = some k' ∧ k'.state t = .ready
  normal : others highPriority (dispatches k bs) <+: others highPriority (withPriority k us)
  high : k.priority t = .high → dispatches k bs <+: withPriority k us
  bound : (dispatches k bs).length ≤ us.length + ((dispatches k bs).filter highPriority).length

/-- **The scheduler is fair.**  In every run a ready thread has at most thirty others in front of it, and no thread of
normal priority is in front of one of high priority.  However the run goes on, until a switch chooses the thread, only
those in front of it and threads of higher priority are chosen. -/
theorem scheduler_fair (as : List Action) (h : Every step Allowed KernelState.init as) :
    ∃ k, run step KernelState.init as = some k ∧ ∀ t, t ≠ IDLE_THREAD_TID → k.state t = .ready →
      ∃ us vs, readyList k = us ++ t :: vs ∧ us.length ≤ 30 ∧
        (k.priority t = .high → ∀ u ∈ us, k.priority u = .high) ∧
        ∀ bs, Every step Allowed k bs → (∀ x ∈ dispatches k bs, x.1 ≠ t) → Waits k t us bs := by
  obtain ⟨k, hk, hi, hu⟩ := urgentFirst_run inv_init (by rw [queue_init]; exact List.Pairwise.nil) h
  refine ⟨k, hk, fun t ht hs => ?_⟩
  obtain ⟨zs, hz, -, hmem⟩ := hi.lists.ready
  obtain ⟨us, vs, rfl⟩ := List.append_of_mem ((hmem t).2 ⟨ht, hs⟩)
  have hq : queue k = withPriority k us ++ (t, k.priority t) :: withPriority k vs := by
    rw [hi.queue_eq hz]
    simp [withPriority]
  have hlen : (us ++ t :: vs).length ≤ (Finset.Ioo (0 : ℤ) 32).card :=
    hz.length_le fun x hx => Finset.mem_Ioo.2 (hi.lists.readyRow ((hmem x).1 hx))
  rw [Int.card_Ioo, List.length_append, List.length_cons] at hlen
  refine ⟨us, vs, hi.readyList_eq hz, by omega, fun hp u hu' => ?_, fun bs hbs hwait => ?_⟩
  · have hfront := (hq ▸ hu).front (by rw [highPriority, hp]; rfl) (u, k.priority u) (List.mem_map_of_mem hu')
    simpa [highPriority] using hfront
  have hx : (t, k.priority t) ∉ dispatches k bs := fun hm => hwait _ hm rfl
  obtain ⟨k', es, hrun, hi', hserve⟩ := serve_run hi hu hbs hq hx
  obtain ⟨us', vs', hq', hothers, hfirst⟩ := serve_waiting es (hq ▸ hu) (by rw [← hq, hserve]; exact hx)
  rw [← hq, hserve] at hq' hothers hfirst
  simp only at hq'
  have hprefix : others highPriority (dispatches k bs) <+: others highPriority (withPriority k us) := ⟨_, hothers.symm⟩
  refine ⟨⟨k', hrun, ?_⟩, hprefix, fun hp => ?_, ?_⟩
  · have hm : (t, k.priority t) ∈ queue k' := by
      rw [hq']
      simp
    obtain ⟨t', ht', he⟩ := List.mem_map.1 hm
    obtain rfl : t' = t := congrArg Prod.fst he
    obtain ⟨zs', hz', -, hmem'⟩ := hi'.lists.ready
    rw [hi'.readyList_eq hz'] at ht'
    exact ((hmem' t').1 ht').2
  · exact ⟨us', (hfirst (by rw [highPriority, hp]; rfl)).symm⟩
  · have hle := hprefix.length_le
    have hsplit := length_others (dispatches k bs)
    have hus := length_others (withPriority k us)
    have hmap : (withPriority k us).length = us.length := List.length_map ..
    omega

/-- Threads 1 and 2 have normal priority; thread 3, of high priority, becomes ready last and runs before thread 2. -/
theorem scheduler_fair_three :
    ∃ k, run step KernelState.init
        [.create, .create, .createWithPriority .high, .run 1, .run 2, .run 3, .schedule 0] = some k ∧
      ∀ t, t ≠ IDLE_THREAD_TID → k.state t = .ready →
      ∃ us vs, readyList k = us ++ t :: vs ∧ us.length ≤ 30 ∧
        (k.priority t = .high → ∀ u ∈ us, k.priority u = .high) ∧
        ∀ bs, Every step Allowed k bs → (∀ x ∈ dispatches k bs, x.1 ≠ t) → Waits k t us bs :=
  scheduler_fair _ (by decide +kernel)

end Runs

end Buenos.Kernel
