import Buenos.Base.Transition

/-!
# Linearizability

Callers use an object at the same time, each of them with one call after another.

* `Object` — what the operations do when they are done one at a time.
* `Event` — what the callers see of a call.
* `Shows` — the histories of an object that does each call at one moment between its invocation and its response.
* `Linearizable` — such an object can show the history.

Principal results: `shows_run`, that an implementation is linearizable if each of its steps is shown by the object, and
`Linearizable.sequential`, that calls which do not overlap get the answers of the object.
-/

namespace AtomicObject

open Buenos.Transition

variable {S P O A : Type*} [DecidableEq P]

/-- An object with states `S`: what an operation answers, and the state after it. -/
structure Object (S O A : Type*) where
  apply : S → O → A × S

/-- What is seen of a call of `p`. -/
inductive Event (P O A : Type*) where
  | invoke (p : P) (o : O)
  | respond (p : P) (a : A)
  /-- The call fails and has had no effect. -/
  | fail (p : P)

/-- How far the call of a caller is. -/
inductive Stage (O A : Type*) where
  | idle
  | called (o : O)
  | done (a : A)

/-- The object and the calls that are in progress. -/
structure Atomic (S P O A : Type*) where
  state : S
  stage : P → Stage O A

/-- The histories from one state of the object to another. Each call takes effect at one moment while it is called. -/
inductive Shows (obj : Object S O A) : Atomic S P O A → List (Event P O A) → Atomic S P O A → Prop
  | nil (x) : Shows obj x [] x
  | invoke {x y p o es} (h : x.stage p = .idle)
      (rest : Shows obj ⟨x.state, Function.update x.stage p (.called o)⟩ es y) : Shows obj x (.invoke p o :: es) y
  | effect {x y p o es} (h : x.stage p = .called o)
      (rest : Shows obj ⟨(obj.apply x.state o).2, Function.update x.stage p (.done (obj.apply x.state o).1)⟩ es y) :
      Shows obj x es y
  | respond {x y p a es} (h : x.stage p = .done a)
      (rest : Shows obj ⟨x.state, Function.update x.stage p .idle⟩ es y) : Shows obj x (.respond p a :: es) y
  | fail {x y p o es} (h : x.stage p = .called o)
      (rest : Shows obj ⟨x.state, Function.update x.stage p .idle⟩ es y) : Shows obj x (.fail p :: es) y

/-- No call is in progress. -/
def Atomic.quiet (s : S) : Atomic S P O A := ⟨s, fun _ => .idle⟩

/-- **Linearizable**: the history can be shown by the object that does each call at one moment. -/
def Linearizable (obj : Object S O A) (s : S) (history : List (Event P O A)) : Prop :=
  ∃ y, Shows obj (.quiet s) history y

variable {obj : Object S O A} {x y z : Atomic S P O A} {es fs : List (Event P O A)} {s : S}

theorem Shows.append (h1 : Shows obj x es y) (h2 : Shows obj y fs z) : Shows obj x (es ++ fs) z := by
  induction h1 with
  | nil x => exact h2
  | invoke h rest ih => exact .invoke h (ih h2)
  | effect h rest ih => exact .effect h (ih h2)
  | respond h rest ih => exact .respond h (ih h2)
  | fail h rest ih => exact .fail h (ih h2)

/-! ## Implementations -/

section Runs

variable {σ α : Type*} (step : σ → α → Option σ) (events : σ → α → List (Event P O A))

/-- What is seen of a run. -/
def history (s : σ) : List α → List (Event P O A)
  | [] => []
  | a :: as => match step s a with
    | none => []
    | some s' => events s a ++ history s' as

variable {step events}

/-- **Simulation**: where the object shows what is seen of each step, it shows what is seen of every run. -/
theorem shows_run {C : σ → α → Prop} {R : σ → Atomic S P O A → Prop}
    (hstep : ∀ {s a s' x}, C s a → R s x → step s a = some s' → ∃ y, Shows obj x (events s a) y ∧ R s' y) :
    ∀ {as : List α} {s s' : σ} {x : Atomic S P O A}, R s x → Every step C s as → run step s as = some s' →
      ∃ y, Shows obj x (history step events s as) y ∧ R s' y
  | [], s, s', x, hr, _, hs => by
    cases hs
    exact ⟨x, .nil x, hr⟩
  | a :: as, s, s', x, hr, hc, hs => by
    obtain ⟨hca, hrest⟩ := hc
    rw [run] at hs
    rw [history]
    cases h : step s a with
    | none =>
      rw [h] at hs
      cases hs
    | some s1 =>
      rw [h] at hs hrest
      obtain ⟨y, hy, hr1⟩ := hstep hca hr h
      obtain ⟨z, hz, hr'⟩ := shows_run hstep hr1 hrest hs
      exact ⟨z, hy.append hz, hr'⟩

end Runs

/-! ## Calls one after another -/

/-- A call with its answer that overlaps with no other. -/
def single (c : P × O × A) : List (Event P O A) := [.invoke c.1 c.2.1, .respond c.1 c.2.2]

/-- The answers are those of the object, one call after another. -/
def Answers (obj : Object S O A) : S → List (P × O × A) → Prop
  | _, [] => True
  | s, c :: cs => c.2.2 = (obj.apply s c.2.1).1 ∧ Answers obj (obj.apply s c.2.1).2 cs

/-- After a call nothing is in progress again. -/
theorem quiet_again (p : P) (st : Stage O A) : (⟨s, Function.update (Function.update (fun _ => .idle) p st) p .idle⟩ :
    Atomic S P O A) = .quiet s := by
  rw [Function.update_idem, Function.update_eq_self_iff.2 rfl]
  rfl

/-- Of the calls in progress there is only that of `p`, so only that may take effect or be answered. -/
theorem stage_only {p q : P} {st st' : Stage O A} (h : Function.update (fun _ => Stage.idle) p st q = st')
    (hst : st' ≠ .idle) : q = p ∧ st = st' := by
  obtain rfl | hq := eq_or_ne q p
  · rw [Function.update_self] at h
    exact ⟨rfl, h⟩
  · rw [Function.update_of_ne hq] at h
    exact absurd h.symm hst

/-- **One call alone** gets the answer of the object. -/
theorem Shows.alone {p : P} {o : O} {a : A} (h : Shows obj (.quiet s) (.invoke p o :: .respond p a :: es) y) :
    a = (obj.apply s o).1 ∧ Shows obj (.quiet (obj.apply s o).2) es y := by
  cases h with
  | effect h rest => cases h
  | invoke h rest =>
    cases rest with
    | respond h rest => cases (stage_only h (by simp)).2
    | effect h rest =>
      obtain ⟨rfl, he⟩ := stage_only h (by simp)
      cases he
      rw [Function.update_idem] at rest
      cases rest with
      | effect h rest => cases (stage_only h (by simp)).2
      | respond h rest =>
        cases (stage_only h (by simp)).2
        change Shows obj ⟨_, Function.update (Function.update (fun _ => .idle) _ _) _ .idle⟩ es y at rest
        rw [quiet_again] at rest
        exact ⟨rfl, rest⟩

/-- **Calls that do not overlap** get the answers of the object. -/
theorem Linearizable.sequential {cs : List (P × O × A)} (h : Linearizable obj s (cs.flatMap single)) :
    Answers obj s cs := by
  induction cs generalizing s with
  | nil => trivial
  | cons c cs ih =>
    obtain ⟨y, hy⟩ := h
    obtain ⟨ha, hrest⟩ := Shows.alone hy
    exact ⟨ha, ih ⟨y, hrest⟩⟩

end AtomicObject
