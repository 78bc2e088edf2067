import Buenos.Kernel.LockCond

/-!
# Condition variables and the depth of the lock

`condition_wait` gives its lock back with one call of `lock_release`, whatever the nesting count is, and
takes it again with one call of `lock_acquire`.

* `Waits` — what is true of a thread inside `condition_wait`, by the nesting count it came with.
* `Obtainable` — a thread other than the sleeping one has the lock or can take it.

Principal results: `condition_wait_releases_iff` — a thread that sleeps in `condition_wait` has released
the lock exactly if it called it with nesting count one, and returns with the nesting count it came with;
`condition_wait_keeps_lock`, a thread that sleeps with the lock.
-/

namespace Buenos.LockCond

open Transition

variable {γ : Type} [DecidableEq γ] {s s' : State γ} {way : List Tid} {t : Tid} {a : Action γ}

/-! ## What other threads do -/

/-- The thread that makes the step. -/
def Action.actor : Action γ → Option Tid
  | .acquire t => some t
  | .acquired t => some t
  | .release t => some t
  | .wait _ t => some t
  | .waitRelease t => some t
  | .waitAcquire t => some t
  | _ => none

/-- What a step leaves of a thread: its place, whether it owns the lock, and how deep. -/
structure Keeps (s s' : State γ) (t : Tid) : Prop where
  pc : s'.pc t = s.pc t
  owner : s'.mem.lock.lockedId = .thread t ↔ s.mem.lock.lockedId = .thread t
  nested : s.mem.lock.lockedId = .thread t →
    s'.mem.lock.nestedLockingCount = s.mem.lock.nestedLockingCount

theorem Keeps.acquire {u : Tid} (hu : u ≠ t) (d : Option UInt32) : Keeps s (s.acquire u d) t := by
  have hne : LockedId.thread u ≠ .thread t := by simpa using hu
  unfold State.acquire lockAcquire
  by_cases hfree : s.mem.lock.lockedId = .noThread
  · refine ⟨Function.update_of_ne hu.symm _ _, ?_, ?_⟩ <;> simp [hfree, hu]
  · by_cases hown : s.mem.lock.lockedId = .thread u
    · refine ⟨Function.update_of_ne hu.symm _ _, ?_, ?_⟩ <;> simp [hown, hu]
    · rw [if_neg hfree, if_neg hown]
      exact ⟨Function.update_of_ne hu.symm _ _, Iff.rfl, fun _ => rfl⟩

theorem Keeps.release {u : Tid} (hu : u ≠ t) {pc : Pc γ} (hr : s.release u pc = some s') : Keeps s s' t := by
  unfold State.release at hr
  cases hm : lockRelease s.mem u with
  | none =>
    rw [hm] at hr
    cases hr
  | some m =>
    rw [hm] at hr
    cases hr
    unfold lockRelease at hm
    split at hm
    · cases hm
    rename_i hown
    rw [not_not] at hown
    have hne : s.mem.lock.lockedId ≠ .thread t := by
      rw [hown]
      simpa using hu
    split at hm
    · cases hm
      exact ⟨Function.update_of_ne hu.symm _ _, Iff.rfl, fun h => absurd h hne⟩
    split at hm
    · cases hm
      exact ⟨Function.update_of_ne hu.symm _ _, by simp [hne], fun h => absurd h hne⟩
    · cases hm
      exact ⟨Function.update_of_ne hu.symm _ _, by simp [hne], fun h => absurd h hne⟩

/-- **A step of another thread** does not move a thread and takes nothing from it. -/
theorem Core.keeps (hc : Core s way) (hs : LockCond.step s a = some s') (ha : a.actor ≠ some t) : Keeps s s' t := by
  have hother : ∀ {u}, a.actor = some u → u ≠ t := by
    rintro u hu rfl
    exact ha hu
  cases a with
  | acquire u =>
    simp only [LockCond.step, Option.ite_none_right_eq_some, Option.some.injEq] at hs
    obtain ⟨-, rfl⟩ := hs
    exact Keeps.acquire (hother rfl) none
  | acquired u =>
    simp only [LockCond.step] at hs
    split at hs
    · rename_i d hu
      split at hs
      · cases hs
      · rename_i hq
        cases hs
        have hut := hother rfl
        have hres := (hc.acquired hu hq).1
        refine ⟨Function.update_of_ne hut.symm _ _, ?_, ?_⟩ <;> simp [lockAcquired, hres, hut]
    · cases hs
  | release u =>
    simp only [LockCond.step, Option.ite_none_right_eq_some] at hs
    exact Keeps.release (hother rfl) hs.2
  | wait c u =>
    simp only [LockCond.step, Option.ite_none_right_eq_some, Option.some.injEq] at hs
    obtain ⟨-, rfl⟩ := hs
    exact ⟨Function.update_of_ne (hother rfl).symm _ _, Iff.rfl, fun _ => rfl⟩
  | waitRelease u =>
    simp only [LockCond.step] at hs
    split at hs
    · split at hs
      · cases hs
      · rename_i s1 h1
        cases hs
        have hk := Keeps.release (hother rfl) h1
        exact ⟨hk.pc, hk.owner, hk.nested⟩
    · cases hs
  | waitAcquire u =>
    simp only [LockCond.step] at hs
    split at hs
    · split at hs
      · cases hs
      · cases hs
        exact Keeps.acquire (hother rfl) _
    · cases hs
  | signal c =>
    simp only [LockCond.step] at hs
    split at hs
    · cases hs
    · cases hs
      simp only [conditionSignal]
      split
      · exact ⟨rfl, Iff.rfl, fun _ => rfl⟩
      · exact ⟨rfl, Iff.rfl, fun _ => rfl⟩
  | broadcast c =>
    simp only [LockCond.step] at hs
    split at hs
    · cases hs
    · cases hs
      simp only [conditionBroadcast]
      split
      · exact ⟨rfl, Iff.rfl, fun _ => rfl⟩
      · exact ⟨rfl, Iff.rfl, fun _ => rfl⟩
  | other address queue =>
    cases hs
    exact ⟨rfl, Iff.rfl, fun _ => rfl⟩

/-! ## Inside `condition_wait` -/

/-- A thread inside `condition_wait`, by the nesting count it came with: before `lock_release` it has
that count, after it one less or no lock; it queues for the lock only if it has none. -/
structure Waits (l : Lock) (t : Tid) (pc : Pc γ) : Prop where
  entering : ∀ {c d}, pc = .entering c d → l.lockedId = .thread t → l.nestedLockingCount = d
  released : ∀ {c d}, pc = .waiting c d → l.lockedId ≠ .thread t → d ≤ 1
  kept : ∀ {c d}, pc = .waiting c d → l.lockedId = .thread t → 1 < d ∧ l.nestedLockingCount + 1 = d
  acquiring : ∀ {d}, pc = .acquiring (some d) → d ≤ 1

omit [DecidableEq γ] in
theorem Waits.outside {l : Lock} : Waits l t (.outside : Pc γ) :=
  ⟨nofun, nofun, nofun, nofun⟩

omit [DecidableEq γ] in
theorem Waits.queued {l : Lock} : Waits l t (.acquiring none : Pc γ) :=
  ⟨nofun, nofun, nofun, nofun⟩

omit [DecidableEq γ] in
theorem Waits.keeps (h : Waits s.mem.lock t (s.pc t)) (hk : Keeps s s' t) :
    Waits s'.mem.lock t (s'.pc t) := by
  rw [hk.pc]
  refine ⟨fun hp hid => ?_, fun hp hid => h.released hp fun ho => hid (hk.owner.2 ho), fun hp hid => ?_,
    h.acquiring⟩
  · rw [hk.nested (hk.owner.1 hid)]
    exact h.entering hp (hk.owner.1 hid)
  · rw [hk.nested (hk.owner.1 hid)]
    exact h.kept hp (hk.owner.1 hid)

/-- `lock_release` inside `condition_wait`. -/
theorem waits_release {c : γ} {d : UInt32} (hd : s.mem.lock.lockedId = .thread t → s.mem.lock.nestedLockingCount = d)
    (hr : s.release t (.waiting c d) = some s') :
    s'.pc t = .waiting c d ∧ Waits s'.mem.lock t (.waiting c d : Pc γ) := by
  unfold State.release at hr
  cases hm : lockRelease s.mem t with
  | none =>
    rw [hm] at hr
    cases hr
  | some m =>
    rw [hm] at hr
    cases hr
    unfold lockRelease at hm
    split at hm
    · cases hm
    rename_i hown
    rw [not_not] at hown
    have hd := hd hown
    refine ⟨Function.update_self _ _ _, ?_⟩
    split at hm
    · rename_i hn
      cases hm
      rw [hd] at hn ⊢
      refine ⟨fun h => (by cases h), fun _ hid => absurd hown hid, ?_, fun h => (by cases h)⟩
      rintro c' d' ⟨⟩ -
      exact ⟨hn, UInt32.sub_add_cancel _ _⟩
    · rename_i hn
      rw [hd, UInt32.not_lt] at hn
      split at hm
      · cases hm
        refine ⟨fun h => (by cases h), ?_, fun _ hid => (by cases hid), fun h => (by cases h)⟩
        rintro c' d' ⟨⟩ -
        exact hn
      · cases hm
        refine ⟨fun h => (by cases h), ?_, fun _ hid => (by cases hid), fun h => (by cases h)⟩
        rintro c' d' ⟨⟩ -
        exact hn

/-- `lock_acquire`: the thread is done and owns the lock, once or once more, or it queues. -/
theorem acquire_cases (s : State γ) (t : Tid) (d : Option UInt32) :
    ((s.acquire t d).pc t = .outside ∧ (s.acquire t d).mem.lock.lockedId = .thread t ∧
      (s.acquire t d).mem.lock.nestedLockingCount =
        if s.mem.lock.lockedId = .thread t then s.mem.lock.nestedLockingCount + 1 else 1) ∨
    ((s.acquire t d).pc t = .acquiring d ∧ s.mem.lock.lockedId ≠ .thread t) := by
  unfold State.acquire lockAcquire
  by_cases hfree : s.mem.lock.lockedId = .noThread
  · left
    simp [hfree]
  · by_cases hown : s.mem.lock.lockedId = .thread t
    · left
      simp [hown]
    · right
      simp [hfree, hown]

/-- **Every step** keeps what is true of the threads inside `condition_wait`. -/
theorem Waits.step (hc : Core s way) (h : Waits s.mem.lock t (s.pc t)) (hs : LockCond.step s a = some s') :
    Waits s'.mem.lock t (s'.pc t) := by
  by_cases ha : a.actor = some t
  · cases a with
    | acquire u =>
      obtain rfl : u = t := by simpa [Action.actor] using ha
      simp only [LockCond.step, Option.ite_none_right_eq_some, Option.some.injEq] at hs
      obtain ⟨-, rfl⟩ := hs
      rcases acquire_cases s u none with ⟨hp, -⟩ | ⟨hp, -⟩
      · rw [hp]
        exact .outside
      · rw [hp]
        exact .queued
    | acquired u =>
      obtain rfl : u = t := by simpa [Action.actor] using ha
      simp only [LockCond.step] at hs
      split at hs
      · split at hs
        · cases hs
        · cases hs
          simp only [Function.update_self]
          exact .outside
      · cases hs
    | release u =>
      obtain rfl : u = t := by simpa [Action.actor] using ha
      simp only [LockCond.step, Option.ite_none_right_eq_some] at hs
      have hp : s'.pc u = .outside := by
        have hr := hs.2
        unfold State.release at hr
        split at hr
        · cases hr
        · cases hr
          exact Function.update_self _ _ _
      rw [hp]
      exact .outside
    | wait c u =>
      obtain rfl : u = t := by simpa [Action.actor] using ha
      simp only [LockCond.step, Option.ite_none_right_eq_some, Option.some.injEq] at hs
      obtain ⟨-, rfl⟩ := hs
      simp only [Function.update_self]
      refine ⟨?_, fun h => (by cases h), fun h => (by cases h), fun h => (by cases h)⟩
      rintro c' d' ⟨⟩ -
      rfl
    | waitRelease u =>
      obtain rfl : u = t := by simpa [Action.actor] using ha
      simp only [LockCond.step] at hs
      split at hs
      · rename_i c d hp
        split at hs
        · cases hs
        · rename_i s1 h1
          cases hs
          obtain ⟨hp1, hw⟩ := waits_release (h.entering hp) h1
          simp only [hp1]
          exact ⟨hw.entering, hw.released, hw.kept, hw.acquiring⟩
      · cases hs
    | waitAcquire u =>
      obtain rfl : u = t := by simpa [Action.actor] using ha
      simp only [LockCond.step] at hs
      split at hs
      · rename_i c d hp
        split at hs
        · cases hs
        · cases hs
          rcases acquire_cases s u (some d) with ⟨hp1, -⟩ | ⟨hp1, hno⟩
          · rw [hp1]
            exact .outside
          · rw [hp1]
            refine ⟨fun h => (by cases h), fun h => (by cases h), fun h => (by cases h), ?_⟩
            rintro d' ⟨⟩
            exact h.released hp hno
      · cases hs
    | signal c => cases ha
    | broadcast c => cases ha
    | other address queue => cases ha
  · exact h.keeps (hc.keeps hs ha)

/-! ## Runs -/

/-- Someone other than `t` has the lock or can take it: if it is free, whoever calls `lock_acquire`; if
it is reserved, the thread for which it is. -/
def Obtainable (s : State γ) (t : Tid) : Prop :=
  match s.mem.lock.lockedId with
  | .noThread => ∀ u, s.pc u = .outside →
    ∃ s', step s (.acquire u) = some s' ∧ s'.mem.lock.lockedId = .thread u
  | .reserved => ∃ u, u ≠ t ∧ ∃ s', step s (.acquired u) = some s' ∧ s'.mem.lock.lockedId = .thread u
  | .thread u => u ≠ t

theorem Core.obtainable (hc : Core s way) {c : γ} {d : UInt32} (hp : s.pc t = .waiting c d)
    (hno : s.mem.lock.lockedId ≠ .thread t) : Obtainable s t := by
  unfold Obtainable
  cases hid : s.mem.lock.lockedId with
  | noThread =>
    intro u hu
    refine ⟨s.acquire u none, by simp [LockCond.step, hu], ?_⟩
    simp [State.acquire, lockAcquire, hid]
  | reserved =>
    have hlen := hc.onWay
    rw [if_pos hid] at hlen
    obtain ⟨u, rfl⟩ := List.length_eq_one_iff.1 hlen
    have hnd := hc.nodup
    rw [List.singleton_append, List.nodup_cons] at hnd
    obtain ⟨d', hu⟩ := (hc.waits u).1 (by simp)
    refine ⟨u, ?_, _, by simp only [LockCond.step, hu, if_neg hnd.1]; rfl, rfl⟩
    rintro rfl
    rw [hp] at hu
    cases hu
  | thread u =>
    rintro rfl
    exact hno hid

/-- The thread is inside `condition_wait`, called with nesting count `d`. -/
def InWait (pc : Pc γ) (d : UInt32) : Prop :=
  (∃ c, pc = .entering c d) ∨ (∃ c, pc = .waiting c d) ∨ pc = .acquiring (some d)

/-- A step with which a thread returns from `condition_wait` gives it the lock with the old count. -/
theorem Waits.returns (hc : Core s way) (h : Waits s.mem.lock t (s.pc t)) (hs : LockCond.step s a = some s')
    {d : UInt32} (hd : 1 ≤ d) (hin : InWait (s.pc t) d) (hout : s'.pc t = .outside) :
    s'.mem.lock.lockedId = .thread t ∧ s'.mem.lock.nestedLockingCount = d := by
  have hne : s.pc t ≠ .outside := by
    rintro he
    rw [he] at hin
    rcases hin with ⟨c, hp⟩ | ⟨c, hp⟩ | hp <;> cases hp
  by_cases ha : a.actor = some t
  · cases a with
    | acquire u =>
      obtain rfl : u = t := by simpa [Action.actor] using ha
      simp only [LockCond.step, Option.ite_none_right_eq_some] at hs
      exact absurd hs.1 hne
    | acquired u =>
      obtain rfl : u = t := by simpa [Action.actor] using ha
      simp only [LockCond.step] at hs
      split at hs
      · rename_i d' hp
        split at hs
        · cases hs
        · cases hs
          rw [hp] at hin
          obtain rfl : d' = some d := by
            rcases hin with ⟨c, hin⟩ | ⟨c, hin⟩ | hin
            · cases hin
            · cases hin
            · cases hin
              rfl
          exact ⟨rfl, UInt32.le_antisymm hd (h.acquiring hp)⟩
      · cases hs
    | release u =>
      obtain rfl : u = t := by simpa [Action.actor] using ha
      simp only [LockCond.step, Option.ite_none_right_eq_some] at hs
      exact absurd hs.1 hne
    | wait c u =>
      obtain rfl : u = t := by simpa [Action.actor] using ha
      simp only [LockCond.step, Option.ite_none_right_eq_some] at hs
      exact absurd hs.1.1 hne
    | waitRelease u =>
      obtain rfl : u = t := by simpa [Action.actor] using ha
      simp only [LockCond.step] at hs
      split at hs
      · rename_i c d' hp
        split at hs
        · cases hs
        · rename_i s1 h1
          cases hs
          have hp1 := (waits_release (h.entering hp) h1).1
          simp only [hp1] at hout
          cases hout
      · cases hs
    | waitAcquire u =>
      obtain rfl : u = t := by simpa [Action.actor] using ha
      simp only [LockCond.step] at hs
      split at hs
      · rename_i c d' hp
        split at hs
        · cases hs
        · cases hs
          rw [hp] at hin
          obtain rfl : d' = d := by
            rcases hin with ⟨c', hin⟩ | ⟨c', hin⟩ | hin
            · cases hin
            · cases hin
              rfl
            · cases hin
          rcases acquire_cases s u (some d') with ⟨-, h1, h2⟩ | ⟨hp1, -⟩
          · refine ⟨h1, h2.trans ?_⟩
            split
            · rename_i hown
              exact (h.kept hp hown).2
            · rename_i hno
              exact UInt32.le_antisymm hd (h.released hp hno)
          · rw [hp1] at hout
            cases hout
      · cases hs
    | signal c => cases ha
    | broadcast c => cases ha
    | other address queue => cases ha
  · exact absurd ((hc.keeps hs ha).pc.symm.trans hout) hne

/-- **When `condition_wait` releases its lock.**  In every state of every run, a thread that sleeps in
`condition_wait`, which it called with nesting count `d`, has given the lock away, so that another one
can take it, exactly if `d` is one; and whenever it returns it has the lock with nesting count `d`. -/
theorem condition_wait_releases_iff (as : List (Action γ)) (s : State γ)
    (hr : run step State.init as = some s) (t : Tid) (d : UInt32) (hd : 1 ≤ d) :
    (∀ c, s.pc t = .waiting c d → (s.mem.lock.lockedId ≠ .thread t ∧ Obtainable s t ↔ d = 1)) ∧
    ∀ a s', step s a = some s' → InWait (s.pc t) d → s'.pc t = .outside →
      s'.mem.lock.lockedId = .thread t ∧ s'.mem.lock.nestedLockingCount = d := by
  have hinv : (∃ way, Core s way) ∧ Waits s.mem.lock t (s.pc t) := by
    refine run_always (I := fun s => (∃ way, Core s way) ∧ Waits s.mem.lock t (s.pc t)) ?_
      ⟨⟨[], core_init⟩, .outside⟩ hr
    rintro s a s' ⟨⟨way, hc⟩, hw⟩ hs
    exact ⟨hc.step hs, hw.step hc hs⟩
  obtain ⟨⟨way, hc⟩, hw⟩ := hinv
  refine ⟨fun c hp => ⟨fun ⟨hno, _⟩ => UInt32.le_antisymm (hw.released hp hno) hd, fun h1 => ?_⟩,
    fun a s' hs hin hout => hw.returns hc hs hd hin hout⟩
  have hno : s.mem.lock.lockedId ≠ .thread t := by
    intro hid
    have := (hw.kept hp hid).1
    rw [h1] at this
    exact absurd this (by decide)
  exact ⟨hno, hc.obtainable hp hno⟩

/-- Thread 0 takes the lock twice and waits. -/
def nestedWait : List (Action Unit) := [.acquire 0, .acquire 0, .wait () 0, .waitRelease 0]

/-- **A thread that sleeps with the lock**: whoever asks for it, the one that would signal included,
queues behind the sleeping thread. -/
theorem condition_wait_keeps_lock :
    ∃ s, run step State.init nestedWait = some s ∧ s.pc 0 = .waiting () 2 ∧ 0 ∈ s.mem.queues (.cond ()) ∧
      s.mem.lock.lockedId = .thread 0 ∧ ¬ Obtainable s 0 ∧
      ∃ s', step s (.acquire 1) = some s' ∧ s'.pc 1 = .acquiring none := by
  have hrun : ∃ s, run step State.init nestedWait = some s ∧ s.pc 0 = .waiting () 2 ∧
      0 ∈ s.mem.queues (.cond ()) ∧ s.mem.lock.lockedId = .thread 0 ∧
      ∃ s', step s (.acquire 1) = some s' ∧ s'.pc 1 = .acquiring none := by decide +kernel
  obtain ⟨s, hs, h1, h2, h3, h4⟩ := hrun
  refine ⟨s, hs, h1, h2, h3, ?_, h4⟩
  simp [Obtainable, h3]

/-- Thread 0 waits with the lock once, thread 1 takes it, signals and gives it back. -/
def plainWait : List (Action Unit) :=
  [.acquire 0, .wait () 0, .waitRelease 0, .acquire 1, .signal (), .release 1]

theorem condition_wait_releases_plain :
    ∃ s, run step State.init plainWait = some s ∧ s.pc 0 = .waiting () 1 ∧
      s.mem.lock.lockedId ≠ .thread 0 ∧ Obtainable s 0 ∧
      ∃ s', step s (.waitAcquire 0) = some s' ∧ s'.mem.lock.lockedId = .thread 0 ∧
        s'.mem.lock.nestedLockingCount = 1 := by
  have hrun : ∃ s, run step State.init plainWait = some s ∧ s.pc 0 = .waiting () 1 ∧
      ∃ s', step s (.waitAcquire 0) = some s' ∧ s'.pc 0 = .outside := by decide +kernel
  obtain ⟨s, hs, hp, s', hs', hout⟩ := hrun
  obtain ⟨h1, h2⟩ := condition_wait_releases_iff plainWait s hs 0 1 (by decide)
  obtain ⟨h3, h4⟩ := (h1 () hp).2 rfl
  exact ⟨s, hs, hp, h3, h4, s', hs', h2 _ s' hs' (Or.inr (Or.inl ⟨(), hp⟩)) hout⟩

end Buenos.LockCond
