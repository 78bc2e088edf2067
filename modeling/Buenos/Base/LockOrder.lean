import Buenos.Base.Transition
import Mathlib.Logic.Relation

/-!
# Ordered locking

Generic library: threads that run programs of lock operations, and why threads that take their locks in
an order cannot wait for each other in a circle.

* `Code` — a program of one thread: it takes and gives back resources one at a time, branches on data
  that the program leaves open, and waits on a condition variable for those who hold a resource.
* `step` — any thread may go on at any time, if what it wants is free; a sleeping thread may be woken at
  any time.
* `Ordered` — whenever the thread waits, what it waits for ranks above everything it holds.

Principal results: `Disciplined.step` — ordered programs stay ordered as they run, and
`Disciplined.acyclic` — then no thread waits for itself through others.
-/

namespace Buenos.LockOrder

/-- What a thread still has to do. -/
inductive Code (R : Type) where
  | ret
  /-- wait until `r` is free and take it -/
  | acquire (r : R) (k : Code R)
  | release (r : R) (k : Code R)
  /-- give `r` back for good: nobody can take it again -/
  | destroy (r : R) (k : Code R)
  /-- hold `r`, together with whoever else does -/
  | enter (r : R) (k : Code R)
  | choice (a b : Code R)
  /-- with the lock `l`: while the program's own count says that `r` is held, sleep without the lock. The count may
  miss some of the holders, but it never says that `r` is held when nobody holds it. -/
  | await (r l : R) (k : Code R)
  /-- asleep in `await` -/
  | asleep (r l : R) (k : Code R)

/-- The threads, what they hold, and what is gone. -/
structure State (τ R : Type) where
  code : τ → Code R
  holds : τ → List R
  gone : List R

def State.init {τ R : Type} : State τ R := ⟨fun _ => .ret, fun _ => [], []⟩

/-- A thread that does nothing starts a program, a thread goes on (`b` says where at a branch, and at an `await`
whether the count says that the resource is held), or a sleeping thread is woken. -/
inductive Action (τ R : Type) where
  | call (t : τ) (p : Code R)
  | go (t : τ) (b : Bool)
  | wake (t : τ)

section

variable {τ R : Type} [Fintype τ] [DecidableEq τ] [DecidableEq R]

/-- Somebody holds `r`. -/
def State.Held (s : State τ R) (r : R) : Prop := ∃ u, r ∈ s.holds u

instance (s : State τ R) (r : R) : Decidable (s.Held r) := inferInstanceAs (Decidable (∃ _, _))

def State.set (s : State τ R) (t : τ) (holds : List R) (code : Code R) : State τ R :=
  { s with holds := Function.update s.holds t holds, code := Function.update s.code t code }

/-- One step; `none` if the thread cannot make it. -/
def step (s : State τ R) : Action τ R → Option (State τ R)
  | .call t p => match s.code t with
    | .ret => some (s.set t (s.holds t) p)
    | _ => none
  | .go t b => match s.code t with
    | .ret => none
    | .acquire r k => if s.Held r ∨ r ∈ s.gone then none else some (s.set t (r :: s.holds t) k)
    | .release r k => some (s.set t ((s.holds t).erase r) k)
    | .destroy r k => some { s.set t ((s.holds t).erase r) k with gone := r :: s.gone }
    | .enter r k => some (s.set t (s.holds t ++ [r]) k)
    | .choice p q => some (s.set t (s.holds t) (if b then p else q))
    | .await r l k =>
      if b = true ∧ s.Held r then some (s.set t ((s.holds t).erase l) (.asleep r l k))
      else some (s.set t (s.holds t) k)
    | .asleep _ _ _ => none
  | .wake t => match s.code t with
    | .asleep r l k => some (s.set t (s.holds t) (.acquire l (.await r l k)))
    | _ => none

end

/-! ## Waiting in a circle -/

section

variable {τ R : Type}

/-- What a thread waits for, if it is held. -/
def Code.waits : Code R → Option R
  | .acquire r _ => some r
  | .asleep r _ _ => some r
  | _ => none

/-- `t` waits for something that `u` holds. -/
def WaitsFor (s : State τ R) (t u : τ) : Prop := ∃ r, (s.code t).waits = some r ∧ r ∈ s.holds u

variable [DecidableEq R] (rank : R → ℕ)

/-- Run by a thread that holds `held`, the program waits for nothing that ranks below what it then holds,
and holds nothing at its end. -/
def Ordered : List R → Code R → Prop
  | held, .ret => held = []
  | held, .acquire r k => (∀ h ∈ held, rank h < rank r) ∧ Ordered (r :: held) k
  | held, .release r k => Ordered (held.erase r) k
  | held, .destroy r k => Ordered (held.erase r) k
  | held, .enter r k => Ordered (held ++ [r]) k
  | held, .choice a b => Ordered held a ∧ Ordered held b
  | held, .await r l k => match held with
    | [] => False
    | l' :: rest => l' = l ∧ (∀ h ∈ rest, rank h < rank r ∧ rank h < rank l) ∧ Ordered (l :: rest) k
  | held, .asleep r l k => (∀ h ∈ held, rank h < rank r ∧ rank h < rank l) ∧ Ordered (l :: held) k

/-- Every thread runs an ordered program. -/
def Disciplined (s : State τ R) : Prop := ∀ t, Ordered rank (s.holds t) (s.code t)

variable {rank}

section

variable {held : List R} {r l : R} {k k' : Code R}

@[simp] theorem ordered_ret : Ordered rank held (.ret : Code R) ↔ held = [] := Iff.rfl

@[simp] theorem ordered_acquire :
    Ordered rank held (.acquire r k) ↔ (∀ h ∈ held, rank h < rank r) ∧ Ordered rank (r :: held) k := Iff.rfl

@[simp] theorem ordered_release :
    Ordered rank held (.release r k) ↔ Ordered rank (held.erase r) k := Iff.rfl

/-- What was taken last is given back first. -/
theorem ordered_release_head : Ordered rank (r :: held) (.release r k) ↔ Ordered rank held k := by
  rw [ordered_release, List.erase_cons_head]

/-- Destroying a lock that was taken last ends its use like giving it back. -/
theorem ordered_destroy_head : Ordered rank (r :: held) (.destroy r k) ↔ Ordered rank held k :=
  ordered_release_head (k := k)

@[simp] theorem ordered_enter :
    Ordered rank held (.enter r k) ↔ Ordered rank (held ++ [r]) k := Iff.rfl

@[simp] theorem ordered_choice :
    Ordered rank held (.choice k k') ↔ Ordered rank held k ∧ Ordered rank held k' := Iff.rfl

@[simp] theorem ordered_await :
    Ordered rank (l :: held) (.await r l k) ↔
      (∀ h ∈ held, rank h < rank r ∧ rank h < rank l) ∧ Ordered rank (l :: held) k := by
  constructor
  · exact fun h => h.2
  · exact fun h => ⟨rfl, h⟩

end

theorem Ordered.waits_above {held : List R} {p : Code R} (h : Ordered rank held p) {r : R}
    (hr : p.waits = some r) : ∀ x ∈ held, rank x < rank r := by
  cases p with
  | acquire r' k =>
    cases hr
    exact h.1
  | asleep r' l k =>
    cases hr
    exact fun x hx => (h.1 x hx).1
  | ret => cases hr
  | release r' k => cases hr
  | destroy r' k => cases hr
  | enter r' k => cases hr
  | choice a b => cases hr
  | await r' l k => cases hr

/-- Along a chain of waiting threads the ranks grow. -/
theorem Disciplined.chain {s : State τ R} (h : Disciplined rank s) {t u : τ}
    (hc : Relation.TransGen (WaitsFor s) t u) {r' : R} (hu : (s.code u).waits = some r') :
    ∃ r, (s.code t).waits = some r ∧ rank r < rank r' := by
  induction hc generalizing r' with
  | single hw =>
    obtain ⟨r, hr, hheld⟩ := hw
    exact ⟨r, hr, (h _).waits_above hu r hheld⟩
  | tail _ hw ih =>
    obtain ⟨r, hr, hheld⟩ := hw
    obtain ⟨r0, hr0, hlt⟩ := ih hr
    exact ⟨r0, hr0, hlt.trans ((h _).waits_above hu r hheld)⟩

/-- **No circle**: no thread waits for itself through others. -/
theorem Disciplined.acyclic {s : State τ R} (h : Disciplined rank s) (t : τ) :
    ¬ Relation.TransGen (WaitsFor s) t t := by
  intro hc
  have hwaits : ∃ r, (s.code t).waits = some r := by
    obtain ⟨u, ⟨r, hr, -⟩, -⟩ := Relation.TransGen.head'_iff.1 hc
    exact ⟨r, hr⟩
  obtain ⟨r, hr⟩ := hwaits
  obtain ⟨r', hr', hlt⟩ := h.chain hc hr
  rw [hr] at hr'
  cases hr'
  exact Nat.lt_irrefl _ hlt

/-! ## Running ordered programs -/

variable [Fintype τ] [DecidableEq τ]

omit [Fintype τ] in
theorem Disciplined.set {s s' : State τ R} (h : Disciplined rank s) {t : τ} (held : List R) (p : Code R)
    (hp : Ordered rank held p) (hh : s'.holds = Function.update s.holds t held)
    (hc : s'.code = Function.update s.code t p) : Disciplined rank s' := by
  intro u
  rw [hh, hc]
  by_cases hu : u = t
  · subst hu
    rw [Function.update_self, Function.update_self]
    exact hp
  · rw [Function.update_of_ne hu, Function.update_of_ne hu]
    exact h u

/-- **Ordered programs stay ordered** as they run. -/
theorem Disciplined.step {s s' : State τ R} (h : Disciplined rank s) {a : Action τ R}
    (hcall : ∀ t p, a = .call t p → Ordered rank [] p) (hs : step s a = some s') : Disciplined rank s' := by
  cases a with
  | call t p =>
    simp only [LockOrder.step] at hs
    split at hs
    · rename_i hret
      cases hs
      have hnil : s.holds t = [] := by
        have := h t
        rwa [hret] at this
      exact h.set (s.holds t) p (by rw [hnil]; exact hcall t p rfl) rfl rfl
    · cases hs
  | wake t =>
    simp only [LockOrder.step] at hs
    split at hs
    · rename_i r l k hp
      cases hs
      have ht := h t
      rw [hp] at ht
      exact h.set (s.holds t) (.acquire l (.await r l k)) ⟨fun x hx => (ht.1 x hx).2, rfl, ht.1, ht.2⟩ rfl rfl
    · cases hs
  | go t b =>
    have ht := h t
    cases hp : s.code t with
    | ret => simp [LockOrder.step, hp] at hs
    | acquire r k =>
      simp only [LockOrder.step, hp, Option.ite_none_left_eq_some, Option.some.injEq] at hs
      obtain ⟨-, rfl⟩ := hs
      rw [hp] at ht
      exact h.set (r :: s.holds t) k ht.2 rfl rfl
    | release r k =>
      simp only [LockOrder.step, hp, Option.some.injEq] at hs
      subst hs
      rw [hp] at ht
      exact h.set ((s.holds t).erase r) k ht rfl rfl
    | destroy r k =>
      simp only [LockOrder.step, hp, Option.some.injEq] at hs
      subst hs
      rw [hp] at ht
      exact h.set ((s.holds t).erase r) k ht rfl rfl
    | enter r k =>
      simp only [LockOrder.step, hp, Option.some.injEq] at hs
      subst hs
      rw [hp] at ht
      exact h.set (s.holds t ++ [r]) k ht rfl rfl
    | choice p q =>
      simp only [LockOrder.step, hp, Option.some.injEq] at hs
      subst hs
      rw [hp] at ht
      refine h.set (s.holds t) (if b then p else q) ?_ rfl rfl
      split
      · exact ht.1
      · exact ht.2
    | await r l k =>
      simp only [LockOrder.step, hp] at hs
      rw [hp] at ht
      cases hheld : s.holds t with
      | nil =>
        rw [hheld] at ht
        exact absurd ht not_false
      | cons l' rest =>
        rw [hheld] at ht
        obtain ⟨rfl, hrest, hk⟩ := ht
        rw [hheld] at hs
        split at hs
        · cases hs
          refine h.set ((l' :: rest).erase l') (.asleep r l' k) ?_ rfl rfl
          rw [List.erase_cons_head]
          exact ⟨hrest, hk⟩
        · cases hs
          exact h.set (l' :: rest) k hk rfl rfl
    | asleep r l k => simp [LockOrder.step, hp] at hs

omit [Fintype τ] [DecidableEq τ] in
theorem disciplined_init : Disciplined rank (State.init : State τ R) := fun _ => rfl

end

end Buenos.LockOrder
