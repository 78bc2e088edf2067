import Buenos.Kernel.Sleepers

/-!
# How long threads sleep

`thread_sleep` and the scheduler under a clock: time goes on without bound, and the real-time clock shows its
last 32 bits.

* `Clocked` — the kernel, the time, and for each thread the time before which it must not be woken.
* `NeverEarly` — the property of a step: no thread is made ready or scheduled before its time.
* `Used`, `NoWrap` — how the calls are used, and the condition on a call of `thread_sleep`.

Principal results: `never_early` — under the condition no thread is woken early, and `sleep_wraps`, a thread
that is woken at once because its wake-up time wraps.
-/

namespace Buenos.Kernel

open Buenos.Linked Buenos.Transition

/-- `rtc_get_msec`: a counter of 32 bits. -/
def rtcGetMsec (time : ℕ) : UInt32 := UInt32.ofNat time

/-- The kernel in time; `wakeAt t` is when the duration of the last `thread_sleep` of `t` is over. -/
structure Clocked where
  kernel : KernelState
  time : ℕ
  wakeAt : ℤ → ℕ

/-- `thread_sleep` reads the clock before it disables the interrupts, at the time `called`. -/
inductive TimedAction where
  | sleep (called : ℕ) (sleepTime : UInt32)
  | schedule
  | other (a : Action)

/-- One call, at the given time. -/
def Clocked.step (s : Clocked) (x : ℕ × TimedAction) : Option Clocked :=
  if x.1 < s.time then none
  else match x.2 with
    | .sleep called sleepTime =>
      if x.1 < called then none
      else (threadSleep s.kernel (rtcGetMsec called) sleepTime).map fun k =>
        ⟨k, x.1, Function.update s.wakeAt s.kernel.currentThread (called + sleepTime.toNat)⟩
    | .schedule => (schedulerSchedule s.kernel (rtcGetMsec x.1)).map fun k => ⟨k, x.1, s.wakeAt⟩
    | .other a => if a.untimed = true then (Kernel.step s.kernel a).map fun k => ⟨k, x.1, s.wakeAt⟩ else none

def Clocked.init : Clocked := ⟨KernelState.init, 0, fun _ => 0⟩

/-- After the step no thread is ready before its time, and the scheduler has not chosen one before its time. -/
def NeverEarly (s : Clocked) (x : ℕ × TimedAction) : Prop :=
  ∀ s', s.step x = some s' →
    (∀ t, s'.kernel.state t = .ready → s'.wakeAt t ≤ s'.time) ∧
    (x.2 = .schedule → s'.wakeAt s'.kernel.currentThread ≤ s'.time)

/-- How the calls are used: time goes on, and the calls are made as in `Allowed`. -/
def Used (s : Clocked) (x : ℕ × TimedAction) : Prop :=
  s.time ≤ x.1 ∧ match x.2 with
    | .sleep called _ => called ≤ x.1 ∧ Active s.kernel
    | .schedule => True
    | .other a => a.untimed = true ∧ Allowed s.kernel a

/-- The wake-up time is the sum of the clock and the duration, and not 0. -/
def NoWrap (x : ℕ × TimedAction) : Prop :=
  match x.2 with
  | .sleep called sleepTime =>
    (rtcGetMsec called).toNat + sleepTime.toNat < 2 ^ 32 ∧ rtcGetMsec called + sleepTime ≠ 0
  | .schedule => True
  | .other _ => True

instance Used.decidable (s : Clocked) : ∀ x, Decidable (Used s x)
  | (_, .sleep _ _) => inferInstanceAs (Decidable (_ ∧ _ ∧ _))
  | (_, .schedule) => inferInstanceAs (Decidable (_ ∧ True))
  | (_, .other _) => inferInstanceAs (Decidable (_ ∧ _ ∧ _))

instance NoWrap.decidable : ∀ x, Decidable (NoWrap x)
  | (_, .sleep _ _) => inferInstanceAs (Decidable (_ ∧ _))
  | (_, .schedule) => isTrue trivial
  | (_, .other _) => isTrue trivial

/-! ## The invariant -/

/-- The thread has a wake-up time, which is that of its duration in the current turn of the clock or a later one. -/
def Pending (s : Clocked) (t : ℤ) : Prop :=
  s.kernel.wakeupTime t ≠ 0 ∧
    ∃ turn, s.wakeAt t = 2 ^ 32 * turn + (s.kernel.wakeupTime t).toNat ∧ 2 ^ 32 * turn ≤ s.time

/-- What holds between any two calls: a duration is over, or its thread is marked. -/
structure Punctual (s : Clocked) : Prop where
  inv : Inv s.kernel
  due : ∀ t, s.wakeAt t ≤ s.time ∨ Pending s t

section

variable {s : Clocked} {k' : KernelState} {time : ℕ} {t : ℤ}

theorem rtc_toNat (time : ℕ) : (rtcGetMsec time).toNat = time % 2 ^ 32 := UInt32.toNat_ofNat'

/-- A thread without a mark has slept long enough. -/
theorem Punctual.over (h : Punctual s) (ht : s.kernel.wakeupTime t = 0) : s.wakeAt t ≤ s.time :=
  (h.due t).resolve_right fun hp => hp.1 ht

/-- **The thread that the scheduler chooses** has no wake-up time. -/
theorem Inv.scheduled {k : KernelState} (h : Inv k) {curTime : UInt32}
    (hs : Kernel.schedulerSchedule k curTime = some k') :
    k'.wakeupTime k'.currentThread = 0 := by
  obtain ⟨k1, hretire, -, hsound, -⟩ := h.retireCurrent curTime
  have hs : runFirstReady k1 = some k' := by
    rw [Kernel.schedulerSchedule, hretire] at hs
    exact hs
  unfold runFirstReady schedulerRemoveFirstReady at hs
  simp only at hs
  split at hs
  · cases hs
  · rename_i t k2 hfirst
    cases hs
    split at hfirst
    · cases hfirst
    split at hfirst
    · split at hfirst
      · cases hfirst
      · rename_i hready
        rw [not_not] at hready
        cases hfirst
        exact (hsound.awake (by rw [hready]; decide) (by rw [hready]; decide)).2
    · cases hfirst
      exact hsound.idle_awake.2

/-- **A pass over the timed sleepers** takes the mark only from threads that are behind the clock. -/
theorem Inv.pass_wakeupTime {k : KernelState} (h : Inv k) (hidle : k.currentThread = IDLE_THREAD_TID) {curTime : UInt32}
    (hp : schedulerWakeupExpiredSleepers k curTime = some k') (t : ℤ) :
    k'.wakeupTime t = k.wakeupTime t ∨ k.wakeupTime t < curTime := by
  obtain ⟨xs, hc, hmem⟩ := h.lists.sleepers
  have hlen := length_lt_rounds hc fun t ht => h.lists.sleeperRow ((hmem t).1 ht)
  obtain ⟨k1, hk1, -, -, -, hroused⟩ := wakeupLoop_spec curTime ROUNDS h hidle hc hlen
  have heq : k1 = k' := Option.some.inj (hk1.symm.trans hp)
  rw [heq] at hroused
  rw [hroused.wakeupTime]
  by_cases ht : t ∈ xs.takeWhile fun t => decide (k.wakeupTime t < curTime)
  · exact Or.inr (by simpa using List.all_eq_true.1 List.all_takeWhile t ht)
  · rw [if_neg ht]
    exact Or.inl rfl

/-- What the scheduler does to the marks. -/
theorem Inv.schedule_wakeupTime {k : KernelState} (h : Inv k) {curTime : UInt32}
    (hs : Kernel.schedulerSchedule k curTime = some k') (t : ℤ) :
    k'.wakeupTime t = k.wakeupTime t ∨ k.wakeupTime t < curTime := by
  rcases schedule_sleepers hs with hsame | ⟨hidle, k1, hpass, hsame⟩
  · rw [hsame.wakeupTime]
    exact Or.inl rfl
  · rw [hsame.wakeupTime]
    exact h.pass_wakeupTime hidle hpass t

/-- A mark that stays, while time goes on. -/
theorem Punctual.due_same (h : Punctual s) (htime : s.time ≤ time) (hsame : k'.wakeupTime t = s.kernel.wakeupTime t) :
    s.wakeAt t ≤ time ∨ Pending ⟨k', time, s.wakeAt⟩ t := by
  rcases h.due t with hover | ⟨hmark, turn, hwakeAt, hturn⟩
  · exact Or.inl (hover.trans htime)
  · refine Or.inr ⟨?_, turn, ?_, hturn.trans htime⟩
    · rw [hsame]
      exact hmark
    · rw [hsame]
      exact hwakeAt

/-- **A thread whose mark is behind the clock** has slept long enough: its time is in this turn or an earlier one. -/
theorem Punctual.due_behind (h : Punctual s) (htime : s.time ≤ time)
    (hlt : s.kernel.wakeupTime t < rtcGetMsec time) : s.wakeAt t ≤ time := by
  rcases h.due t with hover | ⟨-, turn, hwakeAt, hturn⟩
  · exact hover.trans htime
  · rw [UInt32.lt_iff_toNat_lt, rtc_toNat] at hlt
    omega

/-- The wake-up time of a new call. -/
theorem pending_new {called : ℕ} {sleepTime : UInt32} (hcalled : called ≤ time)
    (hfits : (rtcGetMsec called).toNat + sleepTime.toNat < 2 ^ 32) :
    called + sleepTime.toNat = 2 ^ 32 * (called / 2 ^ 32) + (rtcGetMsec called + sleepTime).toNat ∧
      2 ^ 32 * (called / 2 ^ 32) ≤ time := by
  have hsum : (rtcGetMsec called + sleepTime).toNat = called % 2 ^ 32 + sleepTime.toNat := by
    rw [UInt32.toNat_add, Nat.mod_eq_of_lt hfits, rtc_toNat]
  rw [hsum]
  omega

/-- **Every call keeps what is due**, and no thread is woken early. -/
theorem Punctual.step (h : Punctual s) {x : ℕ × TimedAction} (hu : Used s x) (hw : NoWrap x) :
    ∃ s', s.step x = some s' ∧ Punctual s' ∧ (x.2 = .schedule → s'.wakeAt s'.kernel.currentThread ≤ s'.time) := by
  obtain ⟨time, a⟩ := x
  obtain ⟨htime, hu⟩ := hu
  have htime : s.time ≤ time := htime
  unfold Clocked.step
  rw [if_neg (not_lt.2 htime)]
  cases a with
  | sleep called sleepTime =>
    obtain ⟨hcalled, hactive⟩ := hu
    have hcalled : called ≤ time := hcalled
    obtain ⟨hfits, hne⟩ := hw
    obtain ⟨k', hk, hinv, -, hslept⟩ := h.inv.threadSleep hactive hne
    simp only [if_neg (not_lt.2 hcalled), hk, Option.map_some]
    refine ⟨_, rfl, ⟨hinv, fun t => ?_⟩, fun h0 => by cases h0⟩
    by_cases ht : t = s.kernel.currentThread
    · subst ht
      have hself : k'.wakeupTime s.kernel.currentThread = rtcGetMsec called + sleepTime := by
        rw [hslept.wakeupTime, Function.update_self]
      obtain ⟨hwakeAt, hturn⟩ := pending_new hcalled hfits
      refine Or.inr ⟨?_, called / 2 ^ 32, ?_, hturn⟩
      · show k'.wakeupTime s.kernel.currentThread ≠ 0
        rw [hself]
        exact hne
      · show Function.update s.wakeAt s.kernel.currentThread _ s.kernel.currentThread =
          2 ^ 32 * (called / 2 ^ 32) + (k'.wakeupTime s.kernel.currentThread).toNat
        rw [Function.update_self, hself]
        exact hwakeAt
    · have hother : k'.wakeupTime t = s.kernel.wakeupTime t := by
        rw [hslept.wakeupTime, Function.update_of_ne ht]
      have hdue := h.due_same htime hother
      unfold Pending at hdue ⊢
      simp only [Function.update_of_ne ht]
      exact hdue
  | schedule =>
    obtain ⟨k', hk, hinv, -⟩ := h.inv.schedulerSchedule (rtcGetMsec time)
    simp only [hk, Option.map_some]
    have hpunctual : Punctual ⟨k', time, s.wakeAt⟩ := by
      refine ⟨hinv, fun t => ?_⟩
      rcases h.inv.schedule_wakeupTime hk t with hsame | hlt
      · exact h.due_same htime hsame
      · exact Or.inl (h.due_behind htime hlt)
    exact ⟨_, rfl, hpunctual, fun _ => hpunctual.over (h.inv.scheduled hk)⟩
  | other a =>
    obtain ⟨ha, hallowed⟩ := hu
    obtain ⟨k', hk, hinv, -⟩ := h.inv.step hallowed
    simp only [if_pos ha, hk, Option.map_some]
    refine ⟨_, rfl, ⟨hinv, fun t => ?_⟩, fun h0 => by cases h0⟩
    exact h.due_same htime (by rw [(step_sameSleepers ha hk).wakeupTime])

/-- In a punctual state no thread is ready before its time. -/
theorem Punctual.ready (h : Punctual s) (ht : s.kernel.state t = .ready) : s.wakeAt t ≤ s.time := by
  refine h.over ?_
  by_contra hmark
  obtain ⟨hstate, -⟩ := (h.inv.rows t).timed hmark
  rw [ht] at hstate
  simp at hstate

end

theorem punctual_init : Punctual Clocked.init := ⟨inv_init, fun _ => Or.inl (le_refl 0)⟩

/-! ## Runs -/

/-- **`thread_sleep` never wakes early** in a run in which no wake-up time wraps or is 0: every such run goes through,
and no step makes a thread ready or schedules it before the duration of its last `thread_sleep` is over. -/
theorem never_early (xs : List (ℕ × TimedAction))
    (h : Every Clocked.step (fun s x => Used s x ∧ NoWrap x) Clocked.init xs) :
    (∃ s, run Clocked.step Clocked.init xs = some s) ∧ Every Clocked.step NeverEarly Clocked.init xs := by
  constructor
  · obtain ⟨s, hs, -⟩ := run_total (I := Punctual) (fun hc hi => by
      obtain ⟨s', hs', hi', -⟩ := hi.step hc.1 hc.2
      exact ⟨s', hs', hi'⟩) punctual_init h
    exact ⟨s, hs⟩
  · refine Every.of_invariant (I := Punctual) (fun hc hi hs => ?_) (fun hc hi => ?_) punctual_init h
    · obtain ⟨s1, hs1, hi1, -⟩ := hi.step hc.1 hc.2
      rw [hs1] at hs
      cases hs
      exact hi1
    · obtain ⟨s1, hs1, hi1, hchosen⟩ := hi.step hc.1 hc.2
      intro s' hs'
      rw [hs1] at hs'
      cases hs'
      exact ⟨fun t ht => hi1.ready ht, hchosen⟩

/-- A thread that sleeps for `sleepTime` from `now` on, with an idle kernel behind it. -/
def oneSleeper (now : ℕ) (sleepTime : UInt32) : List (ℕ × TimedAction) :=
  [(now, .other .create), (now, .other (.run 1)), (now, .schedule), (now, .sleep now sleepTime), (now, .schedule),
    (now, .schedule)]

theorem never_early_one :
    (∃ s, run Clocked.step Clocked.init (oneSleeper 1000 50) = some s) ∧
      Every Clocked.step NeverEarly Clocked.init (oneSleeper 1000 50) :=
  never_early (oneSleeper 1000 50) (by decide +kernel)

/-- **A wake-up time that wraps**: 100 ms before the clock wraps a thread goes to sleep for 200 ms, and it runs again
at once. -/
theorem sleep_wraps :
    Every Clocked.step Used Clocked.init (oneSleeper (2 ^ 32 - 100) 200) ∧
      ¬ Every Clocked.step NeverEarly Clocked.init (oneSleeper (2 ^ 32 - 100) 200) := by
  have hrun : ∃ s, run Clocked.step Clocked.init ((oneSleeper (2 ^ 32 - 100) 200).take 5) = some s ∧
      ∃ s', s.step (2 ^ 32 - 100, .schedule) = some s' ∧ s'.kernel.currentThread = 1 ∧
        s'.wakeAt 1 = 2 ^ 32 + 100 ∧ s'.time = 2 ^ 32 - 100 := by decide +kernel
  obtain ⟨s, hs, s', hs', hcurrent, hwakeAt, htime⟩ := hrun
  refine ⟨by decide +kernel, fun h => ?_⟩
  have hlast : NeverEarly s (2 ^ 32 - 100, .schedule) := Every.last h hs
  have hle := (hlast s' hs').2 rfl
  rw [hcurrent, hwakeAt, htime] at hle
  omega

end Buenos.Kernel
