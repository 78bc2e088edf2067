import Buenos.Kernel.ThreadLists

/-!
# The list of timed sleepers

The order of the list and what `scheduler_wakeup_expired_sleepers` takes from it, over whole runs.

* `Timeline` — the kernel, with the number of each thread's last call of `thread_sleep`.
* `SleeperList` — the list holds the timed sleepers, ordered by wake-up time and then by call.
* `Passed` — what one pass over the list does.

Principal result: `sleeper_list`.
-/

namespace Buenos.Kernel

open Buenos.Linked Buenos.Transition

/-! ## Calls that leave the list alone -/

/-- The list of timed sleepers and the wake-up times are the same. -/
structure SameSleepers (k k' : KernelState) : Prop where
  wakeupTime : k'.wakeupTime = k.wakeupTime
  link : k'.nextSleeperId = k.nextSleeperId
  first : k'.threadNextSleeperId = k.threadNextSleeperId

section Frame

variable {k k' k1 : KernelState} {t : ℤ}

theorem SameSleepers.rfl {k : KernelState} : SameSleepers k k := ⟨by rfl, by rfl, by rfl⟩

theorem SameSleepers.trans (h1 : SameSleepers k k1) (h2 : SameSleepers k1 k') : SameSleepers k k' :=
  ⟨h2.wakeupTime.trans h1.wakeupTime, h2.link.trans h1.link, h2.first.trans h1.first⟩

/-- The states of the threads do not matter. -/
theorem SameSleepers.of_state {state : ℤ → ThreadState} (h : SameSleepers { k with state := state } k') :
    SameSleepers k k' := ⟨h.wakeupTime, h.link, h.first⟩

/-- `scheduler_add_to_ready_list` changes the ready list only. -/
theorem addToReadyList_eq (h : schedulerAddToReadyList k t = some k') :
    ∃ next head tail, k' = { k with next := next, head := head, tail := tail } := by
  unfold schedulerAddToReadyList at h
  split at h
  · cases h
  split at h
  · cases h
  split at h
  · cases h
    exact ⟨_, _, _, rfl⟩
  split at h
  · split at h
    · split at h
      · cases h
      · cases h
        exact ⟨_, _, _, rfl⟩
    · cases h
      exact ⟨_, _, _, rfl⟩
  · cases h
    exact ⟨_, _, _, rfl⟩

theorem addToReadyList_same (h : schedulerAddToReadyList k t = some k') : SameSleepers k k' := by
  obtain ⟨next, head, tail, rfl⟩ := addToReadyList_eq h
  exact ⟨rfl, rfl, rfl⟩

theorem addReady_same (h : schedulerAddReady k t = some k') : SameSleepers k k' := by
  unfold schedulerAddReady at h
  split at h
  · cases h
  · rename_i k1 hk
    cases h
    obtain ⟨h1, h2, h3⟩ := addToReadyList_same hk
    exact ⟨h1, h2, h3⟩

theorem unlinkAndWake_same {hash : ℕ} {prev : ℤ} (h : unlinkAndWake k hash prev t = some k') : SameSleepers k k' := by
  unfold unlinkAndWake at h
  simp only at h
  split at h
  · split at h
    · obtain ⟨h1, h2, h3⟩ := addToReadyList_same h
      exact ⟨h1, h2, h3⟩
    · cases h
      exact ⟨rfl, rfl, rfl⟩
  · split at h
    · obtain ⟨h1, h2, h3⟩ := addToReadyList_same h
      exact ⟨h1, h2, h3⟩
    · cases h
      exact ⟨rfl, rfl, rfl⟩

theorem wakeAllLoop_same (resource : UInt32) (n : ℕ) {prev first : ℤ}
    (h : wakeAllLoop resource n k prev first = some k') : SameSleepers k k' := by
  induction n generalizing k prev first with
  | zero => cases h
  | succ n ih =>
    rw [wakeAllLoop] at h
    split at h
    · split at h
      · cases h
      split at h
      · split at h
        · cases h
        · rename_i k1 hk
          exact (unlinkAndWake_same hk).trans (ih h)
      · exact ih h
    · cases h
      exact .rfl

theorem appendToQueue_same {hash : ℕ} (h : appendToQueue k hash t = some k') : SameSleepers k k' := by
  unfold appendToQueue at h
  split at h
  · cases h
    exact ⟨rfl, rfl, rfl⟩
  · split at h
    · cases h
    · cases h
      exact ⟨rfl, rfl, rfl⟩

theorem runFirstReady_same (h : runFirstReady k = some k') : SameSleepers k k' := by
  unfold runFirstReady schedulerRemoveFirstReady at h
  simp only at h
  split at h
  · cases h
  · rename_i t k1 hk
    cases h
    split at hk
    · cases hk
    split at hk
    · split at hk
      · cases hk
      · cases hk
        exact ⟨rfl, rfl, rfl⟩
    · cases hk
      exact ⟨rfl, rfl, rfl⟩

/-- The actions that neither put threads to sleep for a time nor wake them when it has passed. -/
def Action.untimed : Action → Bool
  | .sleep _ _ => false
  | .schedule _ => false
  | _ => true

/-- **The other calls** leave the timed sleepers alone. -/
theorem step_sameSleepers {a : Action} (ha : a.untimed = true) (h : step k a = some k') : SameSleepers k k' := by
  cases a with
  | create =>
    cases h
    unfold threadCreate
    split
    · exact .rfl
    · exact ⟨rfl, rfl, rfl⟩
  | createWithPriority p =>
    cases h
    unfold threadCreateWithPriority
    split
    · exact .rfl
    · exact ⟨rfl, rfl, rfl⟩
  | run t => exact addReady_same h
  | add resource =>
    have h : sleepqAdd k resource = some k' := h
    unfold sleepqAdd at h
    simp only at h
    split at h
    · cases h
    · obtain ⟨h1, h2, h3⟩ := appendToQueue_same h
      exact ⟨h1, h2, h3⟩
  | wake resource =>
    have h : sleepqWake k resource = some k' := h
    unfold sleepqWake at h
    simp only at h
    split at h
    · cases h
    split at h
    · exact unlinkAndWake_same h
    · cases h
      exact .rfl
  | wakeAll resource => exact wakeAllLoop_same resource ROUNDS h
  | sleep now sleepTime => cases ha
  | finish =>
    cases h
    exact ⟨rfl, rfl, rfl⟩
  | schedule now => cases ha

end Frame

section Schedule

variable {k k' : KernelState}

/-- **`scheduler_schedule`** makes a pass over the timed sleepers when the idle thread is current, and leaves them
alone otherwise. -/
theorem schedule_sleepers {curTime : UInt32} (h : schedulerSchedule k curTime = some k') :
    SameSleepers k k' ∨ k.currentThread = IDLE_THREAD_TID ∧
      ∃ k1, schedulerWakeupExpiredSleepers k curTime = some k1 ∧ SameSleepers k1 k' := by
  unfold schedulerSchedule at h
  split at h
  · cases h
  rename_i k1 hretire
  have hrest := runFirstReady_same h
  unfold retireCurrent at hretire
  simp only at hretire
  split at hretire
  · cases hretire
    exact Or.inl hrest.of_state
  split at hretire
  · cases hretire
    exact Or.inl hrest.of_state
  split at hretire
  · cases hretire
    exact Or.inl hrest.of_state
  by_cases hidle : k.currentThread = IDLE_THREAD_TID
  · rw [if_neg (not_not.2 hidle)] at hretire
    split at hretire
    · cases hretire
    · rename_i k2 hpass
      cases hretire
      exact Or.inr ⟨hidle, k2, hpass, hrest.of_state⟩
  · rw [if_pos hidle] at hretire
    split at hretire
    · cases hretire
    · rename_i k2 hadd
      cases hretire
      exact Or.inl ((addToReadyList_same hadd).trans hrest.of_state)

theorem insertReady_perm (priority : ℤ → Priority) (xs : List ℤ) (t : ℤ) :
    (insertReady priority xs t).Perm (t :: xs) := by
  unfold insertReady
  cases priority t with
  | high =>
    have hperm := @List.perm_middle _ t (xs.takeWhile fun x => priority x == .high)
      (xs.dropWhile fun x => priority x == .high)
    rwa [List.takeWhile_append_dropWhile] at hperm
  | normal => exact List.perm_append_singleton t xs

/-- Threads that are added one after another are on the list once more each. -/
theorem foldl_insertReady_perm (priority : ℤ → Priority) (ts : List ℤ) :
    ∀ zs : List ℤ, (ts.foldl (insertReady priority) zs).Perm (zs ++ ts) := by
  induction ts with
  | nil =>
    intro zs
    rw [List.append_nil]
    exact List.Perm.refl zs
  | cons t ts ih =>
    intro zs
    refine (ih (insertReady priority zs t)).trans ?_
    refine ((insertReady_perm priority zs t).append_right ts).trans ?_
    exact List.perm_middle.symm

end Schedule

/-! ## The order of the list -/

/-- The kernel, the number of calls of `thread_sleep` so far, and for each thread the number of its last one. -/
structure Timeline where
  kernel : KernelState
  calls : ℕ
  called : ℤ → ℕ

def Timeline.init : Timeline := ⟨KernelState.init, 0, fun _ => 0⟩

/-- What is noted about an action that leads to `k'`. -/
def Timeline.entered (s : Timeline) (k' : KernelState) : Action → Timeline
  | .sleep _ _ => ⟨k', s.calls + 1, Function.update s.called s.kernel.currentThread s.calls⟩
  | _ => ⟨k', s.calls, s.called⟩

def Timeline.step (s : Timeline) (a : Action) : Option Timeline :=
  (Kernel.step s.kernel a).map fun k' => s.entered k' a

/-- `a` wakes up before `b`, or at the same time and has called `thread_sleep` before. -/
def Precedes (wakeupTime : ℤ → UInt32) (called : ℤ → ℕ) (a b : ℤ) : Prop :=
  wakeupTime a < wakeupTime b ∨ wakeupTime a = wakeupTime b ∧ called a < called b

/-- The list of timed sleepers: it ends, holds each timed sleeper once, and is in order. -/
structure SleeperList (s : Timeline) (xs : List ℤ) : Prop where
  chain : Chain s.kernel.nextSleeperId (-1) s.kernel.threadNextSleeperId xs
  once : xs.Nodup
  mem : ∀ t, t ∈ xs ↔ s.kernel.wakeupTime t ≠ 0
  ordered : xs.Pairwise (Precedes s.kernel.wakeupTime s.called)

/-- What holds between any two calls. -/
structure Ordered (s : Timeline) : Prop where
  inv : Inv s.kernel
  ordered : ∀ {xs}, Chain s.kernel.nextSleeperId (-1) s.kernel.threadNextSleeperId xs →
    xs.Pairwise (Precedes s.kernel.wakeupTime s.called)
  numbered : ∀ t, s.kernel.wakeupTime t ≠ 0 → s.called t < s.calls

theorem Precedes.le {wakeupTime : ℤ → UInt32} {called : ℤ → ℕ} {a b : ℤ} (h : Precedes wakeupTime called a b) :
    (wakeupTime a).toNat ≤ (wakeupTime b).toNat := by
  rcases h with hlt | ⟨heq, -⟩
  · exact (UInt32.lt_iff_toNat_lt.1 hlt).le
  · rw [heq]

/-- In a list in order, the threads whose time has come are in front. -/
theorem ordered_split {wakeupTime : ℤ → UInt32} {called : ℤ → ℕ} {xs : List ℤ}
    (h : xs.Pairwise (Precedes wakeupTime called)) (curTime : UInt32) :
    xs.takeWhile (fun t => decide (wakeupTime t < curTime)) = xs.filter (fun t => decide (wakeupTime t < curTime)) ∧
    xs.dropWhile (fun t => decide (wakeupTime t < curTime)) =
      xs.filter fun t => !decide (wakeupTime t < curTime) := by
  refine Sorted.split_eq_filter (h.imp fun hab hb => ?_)
  have hle := hab.le
  simp only [decide_eq_true_eq, UInt32.lt_iff_toNat_lt] at hb ⊢
  omega

section Order

variable {s : Timeline} {k' : KernelState}

theorem Ordered.sleeperList (h : Ordered s) : ∃ xs, SleeperList s xs := by
  obtain ⟨xs, hc, hmem⟩ := h.inv.lists.sleepers
  exact ⟨xs, hc, hc.nodup, hmem, h.ordered hc⟩

/-- Calls that leave the timed sleepers alone keep the order. -/
theorem Ordered.same (h : Ordered s) (hinv : Inv k') (hsame : SameSleepers s.kernel k') :
    Ordered ⟨k', s.calls, s.called⟩ := by
  refine ⟨hinv, fun {xs} hx => ?_, fun t ht => ?_⟩
  · rw [hsame.link, hsame.first] at hx
    rw [hsame.wakeupTime]
    exact h.ordered hx
  · rw [hsame.wakeupTime] at ht
    exact h.numbered t ht

/-- **`thread_sleep`** puts the running thread behind those that wake up before it or at the same time. -/
theorem Ordered.slept (h : Ordered s) (hactive : Active s.kernel) (hinv : Inv k') {wakeup : UInt32}
    (hs : Slept s.kernel k' wakeup) :
    Ordered ⟨k', s.calls + 1, Function.update s.called s.kernel.currentThread s.calls⟩ := by
  obtain ⟨xs, hc, hmem⟩ := h.inv.lists.sleepers
  have hold := h.ordered hc
  have hne : ∀ x ∈ xs, x ≠ s.kernel.currentThread := by
    rintro x hx rfl
    exact (hmem _).1 hx hactive.wakeupTime
  have hself : k'.wakeupTime s.kernel.currentThread = wakeup := by
    rw [hs.wakeupTime, Function.update_self]
  have hother : ∀ x ∈ xs, k'.wakeupTime x = s.kernel.wakeupTime x ∧
      Function.update s.called s.kernel.currentThread s.calls x = s.called x := by
    intro x hx
    rw [hs.wakeupTime, Function.update_of_ne (hne x hx), Function.update_of_ne (hne x hx)]
    exact ⟨rfl, rfl⟩
  refine ⟨hinv, fun {ys} hy => ?_, fun t ht => ?_⟩
  · rw [hy.unique (hs.list hc)]
    refine Sorted.pairwise_insertBefore (hold.imp_of_mem fun {a b} ha hb hab => ?_) (hold.imp fun hab ha => ?_)
      (fun x hx hp => ?_) fun x hx hp => ?_
    · show Precedes k'.wakeupTime (Function.update s.called s.kernel.currentThread s.calls) a b
      unfold Precedes
      rw [(hother a ha).1, (hother b hb).1, (hother a ha).2, (hother b hb).2]
      exact hab
    · have hle := hab.le
      simp only [decide_eq_true_eq, UInt32.lt_iff_toNat_lt] at ha ⊢
      omega
    · -- the thread is the last one that has called
      have hcall := h.numbered x ((hmem x).1 hx)
      show Precedes k'.wakeupTime (Function.update s.called s.kernel.currentThread s.calls) x s.kernel.currentThread
      unfold Precedes
      rw [(hother x hx).1, (hother x hx).2, hself, Function.update_self]
      simp only [decide_eq_false_iff_not, UInt32.not_lt] at hp
      rcases UInt32.lt_or_eq_of_le hp with hlt | heq
      · exact Or.inl hlt
      · exact Or.inr ⟨heq, hcall⟩
    · show Precedes k'.wakeupTime (Function.update s.called s.kernel.currentThread s.calls) s.kernel.currentThread x
      unfold Precedes
      rw [(hother x hx).1, hself]
      exact Or.inl (by simpa using hp)
  · show Function.update s.called s.kernel.currentThread s.calls t < s.calls + 1
    by_cases htc : t = s.kernel.currentThread
    · rw [htc, Function.update_self]
      exact Nat.lt_succ_self _
    · rw [hs.wakeupTime, Function.update_of_ne htc] at ht
      rw [Function.update_of_ne htc]
      exact Nat.lt_succ_of_lt (h.numbered t ht)

/-- What a pass with the clock at `curTime` does to the list `xs` of timed sleepers: those whose wake-up time is below
the clock leave it and lose their mark, are ready and are on the ready list, once each; nothing else changes. -/
structure Passed (k k' : KernelState) (curTime : UInt32) (xs : List ℤ) : Prop where
  list : Chain k'.nextSleeperId (-1) k'.threadNextSleeperId (xs.filter fun t => !decide (k.wakeupTime t < curTime))
  wakeupTime : ∀ t, k'.wakeupTime t = if t ∈ xs ∧ k.wakeupTime t < curTime then 0 else k.wakeupTime t
  state : ∀ t, k'.state t = if t ∈ xs ∧ k.wakeupTime t < curTime then .ready else k.state t
  ready : ∀ {zs}, Chain k.next (-1) k.head zs → ∃ zs', Chain k'.next (-1) k'.head zs' ∧ zs'.Nodup ∧
    zs'.Perm (zs ++ xs.filter fun t => decide (k.wakeupTime t < curTime))

/-- **`scheduler_wakeup_expired_sleepers`** wakes just the threads whose wake-up time is below the clock. -/
theorem Ordered.pass (h : Ordered s) (hidle : s.kernel.currentThread = IDLE_THREAD_TID) {xs : List ℤ}
    (hx : SleeperList s xs) (curTime : UInt32) :
    ∃ k', schedulerWakeupExpiredSleepers s.kernel curTime = some k' ∧ Inv k' ∧ Passed s.kernel k' curTime xs := by
  have hlen := length_lt_rounds hx.chain fun t ht => h.inv.lists.sleeperRow ((hx.mem t).1 ht)
  obtain ⟨k', hk, hinv, -, -, hroused⟩ := wakeupLoop_spec curTime ROUNDS h.inv hidle hx.chain hlen
  obtain ⟨htake, hdrop⟩ := ordered_split hx.ordered curTime
  rw [htake, hdrop] at hroused
  refine ⟨k', hk, hinv, hroused.list, fun t => ?_, fun t => ?_, fun {zs} hz => ?_⟩
  · rw [hroused.wakeupTime]
    simp only [List.mem_filter, decide_eq_true_eq]
  · rw [hroused.state]
    simp only [List.mem_filter, decide_eq_true_eq]
  · have hready := hroused.ready hz
    exact ⟨_, hready, hready.nodup, foldl_insertReady_perm _ _ zs⟩

/-- The order after a pass. -/
theorem Ordered.passed (h : Ordered s) {xs : List ℤ} (hx : SleeperList s xs) {k1 : KernelState} {curTime : UInt32}
    (hp : Passed s.kernel k1 curTime xs) (hinv : Inv k1) : Ordered ⟨k1, s.calls, s.called⟩ := by
  refine ⟨hinv, fun {ys} hy => ?_, fun t ht => ?_⟩
  · rw [hy.unique hp.list]
    refine (hx.ordered.filter _).imp_of_mem fun {a b} ha hb hab => ?_
    have hstay : ∀ x ∈ xs.filter (fun t => !decide (s.kernel.wakeupTime t < curTime)),
        k1.wakeupTime x = s.kernel.wakeupTime x := by
      intro x hmem
      obtain ⟨-, hlate⟩ := List.mem_filter.1 hmem
      rw [hp.wakeupTime, if_neg]
      rintro ⟨-, hlt⟩
      simp [hlt] at hlate
    unfold Precedes
    rw [hstay a ha, hstay b hb]
    exact hab
  · refine h.numbered t fun h0 => ht ?_
    rw [hp.wakeupTime, h0]
    simp

/-- **Every call keeps the order.** -/
theorem Ordered.step (h : Ordered s) {a : Action} (ha : Allowed s.kernel a) :
    ∃ s', s.step a = some s' ∧ Ordered s' := by
  obtain ⟨k', hk, hinv, -⟩ := h.inv.step ha
  refine ⟨s.entered k' a, by rw [Timeline.step, hk, Option.map_some], ?_⟩
  cases a with
  | sleep now sleepTime =>
    obtain ⟨k1, hk1, -, -, hslept⟩ := h.inv.threadSleep ha.1 ha.2
    have heq : k1 = k' := Option.some.inj (hk1.symm.trans hk)
    rw [heq] at hslept
    exact h.slept ha.1 hinv hslept
  | schedule now =>
    rcases schedule_sleepers hk with hsame | ⟨hidle, k1, hpass, hsame⟩
    · exact h.same hinv hsame
    · obtain ⟨xs, hx⟩ := h.sleeperList
      obtain ⟨k2, hk2, hinv2, hpassed⟩ := h.pass hidle hx now
      have heq : k2 = k1 := Option.some.inj (hk2.symm.trans hpass)
      rw [heq] at hpassed hinv2
      exact (h.passed hx hpassed hinv2).same hinv hsame
  | create => exact h.same hinv (step_sameSleepers rfl hk)
  | createWithPriority p => exact h.same hinv (step_sameSleepers rfl hk)
  | run t => exact h.same hinv (step_sameSleepers rfl hk)
  | add resource => exact h.same hinv (step_sameSleepers rfl hk)
  | wake resource => exact h.same hinv (step_sameSleepers rfl hk)
  | wakeAll resource => exact h.same hinv (step_sameSleepers rfl hk)
  | finish => exact h.same hinv (step_sameSleepers rfl hk)

end Order

theorem ordered_init : Ordered Timeline.init := by
  refine ⟨inv_init, fun {xs} hx => ?_, fun t ht => absurd rfl ht⟩
  rw [hx.unique (chain_empty _ _)]
  exact List.Pairwise.nil

/-- **The list of timed sleepers**, in every state that calls used as they are reach: it holds the timed sleepers in
their order, and a pass of the idle thread over it takes just those whose wake-up time is below the clock. -/
theorem sleeper_list (as : List Action)
    (h : Every Timeline.step (fun s a => Allowed s.kernel a) Timeline.init as) :
    ∃ s xs, run Timeline.step Timeline.init as = some s ∧ SleeperList s xs ∧
      (s.kernel.currentThread = IDLE_THREAD_TID → ∀ curTime, ∃ k',
        schedulerWakeupExpiredSleepers s.kernel curTime = some k' ∧ Passed s.kernel k' curTime xs) := by
  obtain ⟨s, hs, hordered⟩ := run_total (I := Ordered) (fun ha hi => hi.step ha) ordered_init h
  obtain ⟨xs, hx⟩ := hordered.sleeperList
  refine ⟨s, xs, hs, hx, fun hidle curTime => ?_⟩
  obtain ⟨k', hk, -, hpassed⟩ := hordered.pass hidle hx curTime
  exact ⟨k', hk, hpassed⟩

/-- Three threads sleep until 110, 105 and 110. -/
def threeSleepers : List Action :=
  [.create, .run 1, .create, .run 2, .create, .run 3, .schedule 100, .sleep 100 10, .schedule 100, .sleep 100 5,
    .schedule 100, .sleep 101 9, .schedule 101]

theorem sleeper_list_three :
    ∃ s xs, run Timeline.step Timeline.init threeSleepers = some s ∧ SleeperList s xs ∧
      (s.kernel.currentThread = IDLE_THREAD_TID → ∀ curTime, ∃ k',
        schedulerWakeupExpiredSleepers s.kernel curTime = some k' ∧ Passed s.kernel k' curTime xs) :=
  sleeper_list threeSleepers (by decide +kernel)

end Buenos.Kernel
