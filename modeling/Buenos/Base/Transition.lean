import Mathlib.Algebra.BigOperators.Group.Finset.Basic
import Mathlib.Algebra.BigOperators.Ring.Finset
import Mathlib.Data.Fintype.Card
import Mathlib.Logic.Function.Basic

/-!
# Runs of a transition system

* `run` — a list of actions applied one after another by a partial step function.
* `Every` — every action of a run meets a condition on the state before it.
* `count` — how many members of a finite family have a property, with its update rule.

Principal results: `run_invariant`, induction over runs whose actions meet a condition, `run_total`,
that such a run goes through, and `run_simulates`, that it follows a specification.
-/

namespace Buenos.Transition

section

variable {σ α : Type*} (step : σ → α → Option σ)

/-- Apply the actions in order; `none` when one of them is not enabled. -/
def run (s : σ) : List α → Option σ
  | [] => some s
  | a :: as => match step s a with
    | none => none
    | some s' => run s' as

/-- Every action of the run meets `C` in the state before it. -/
def Every (C : σ → α → Prop) (s : σ) : List α → Prop
  | [] => True
  | a :: as => C s a ∧ match step s a with
    | none => True
    | some s' => Every C s' as

instance Every.decidable (C : σ → α → Prop) [∀ s a, Decidable (C s a)] :
    ∀ (as : List α) (s : σ), Decidable (Every step C s as)
  | [], _ => isTrue trivial
  | a :: as, s =>
    have : Decidable (match step s a with
        | none => True
        | some s' => Every step C s' as) :=
      match step s a with
      | none => isTrue trivial
      | some s' => Every.decidable C as s'
    inferInstanceAs (Decidable (_ ∧ _))

variable {step}

/-- Two runs one after the other. -/
theorem run_append {as bs : List α} {s1 s2 s3 : σ} (h1 : run step s1 as = some s2)
    (h2 : run step s2 bs = some s3) : run step s1 (as ++ bs) = some s3 := by
  induction as generalizing s1 with
  | nil =>
    cases h1
    exact h2
  | cons a as ih =>
    rw [run] at h1
    rw [List.cons_append, run]
    cases h : step s1 a with
    | none =>
      rw [h] at h1
      cases h1
    | some s =>
      rw [h] at h1
      exact ih h1

/-- **Induction over runs**: what every action that meets the condition keeps holds in every state
reached by such actions. -/
theorem run_invariant {C : σ → α → Prop} {I : σ → Prop}
    (hstep : ∀ {s a s'}, C s a → I s → step s a = some s' → I s') :
    ∀ {as : List α} {s s' : σ}, I s → Every step C s as → run step s as = some s' → I s'
  | [], s, s', hi, _, hr => by
    cases hr
    exact hi
  | a :: as, s, s', hi, hc, hr => by
    rw [run] at hr
    rw [Every] at hc
    cases h : step s a with
    | none =>
      rw [h] at hr
      cases hr
    | some s1 =>
      rw [h] at hr hc
      exact run_invariant hstep (hstep hc.1 hi h) hc.2 hr

/-- **Progress over runs**: where every action that meets the condition is possible and keeps the
invariant, a run of such actions goes through. -/
theorem run_total {C : σ → α → Prop} {I : σ → Prop}
    (hstep : ∀ {s a}, C s a → I s → ∃ s', step s a = some s' ∧ I s') :
    ∀ {as : List α} {s : σ}, I s → Every step C s as → ∃ s', run step s as = some s' ∧ I s'
  | [], s, hi, _ => ⟨s, rfl, hi⟩
  | a :: as, s, hi, hc => by
    rw [Every] at hc
    obtain ⟨s1, h1, hi1⟩ := hstep hc.1 hi
    rw [h1] at hc
    rw [run, h1]
    exact run_total hstep hi1 hc.2

/-- Every run meets the trivial condition. -/
theorem every_true : ∀ {as : List α} {s : σ}, Every step (fun _ _ => True) s as
  | [], _ => trivial
  | a :: as, s => by
    refine ⟨trivial, ?_⟩
    cases step s a with
    | none => trivial
    | some s' => exact every_true

/-- An invariant of all actions holds in every state reached. -/
theorem run_always {I : σ → Prop} (hstep : ∀ {s a s'}, I s → step s a = some s' → I s')
    {as : List α} {s s' : σ} (hi : I s) (hr : run step s as = some s') : I s' :=
  run_invariant (C := fun _ _ => True) (fun _ hi h => hstep hi h) hi every_true hr

/-- The last action of a run meets the condition in the state before it. -/
theorem Every.last {C : σ → α → Prop} {as : List α} {a : α} {s1 s2 : σ}
    (h : Every step C s1 (as ++ [a])) (hr : run step s1 as = some s2) : C s2 a := by
  induction as generalizing s1 with
  | nil =>
    cases hr
    exact h.1
  | cons a' as ih =>
    rw [run] at hr
    rw [List.cons_append, Every] at h
    cases hs : step s1 a' with
    | none =>
      rw [hs] at hr
      cases hr
    | some s =>
      rw [hs] at h hr
      exact ih h.2 hr

/-- A condition that implies another one. -/
theorem Every.mono {C C' : σ → α → Prop} (hC : ∀ {s a}, C s a → C' s a) :
    ∀ {as : List α} {s : σ}, Every step C s as → Every step C' s as
  | [], _, _ => trivial
  | a :: as, s, h => by
    obtain ⟨h1, h2⟩ := h
    refine ⟨hC h1, ?_⟩
    cases hs : step s a with
    | none => trivial
    | some s' =>
      rw [hs] at h2
      exact Every.mono hC h2

/-- Two conditions that the actions of a run meet. -/
theorem Every.and {C C' : σ → α → Prop} :
    ∀ {as : List α} {s : σ}, Every step C s as → Every step C' s as → Every step (fun s a => C s a ∧ C' s a) s as
  | [], _, _, _ => trivial
  | a :: as, s, h, h' => by
    obtain ⟨h1, h2⟩ := h
    obtain ⟨h1', h2'⟩ := h'
    refine ⟨⟨h1, h1'⟩, ?_⟩
    cases hs : step s a with
    | none => trivial
    | some s' =>
      rw [hs] at h2 h2'
      exact Every.and h2 h2'

/-- **What an invariant gives for each step**: where the actions meet a condition, they meet what the
invariant and the condition imply. -/
theorem Every.of_invariant {C P : σ → α → Prop} {I : σ → Prop}
    (hstep : ∀ {s a s'}, C s a → I s → step s a = some s' → I s') (hP : ∀ {s a}, C s a → I s → P s a) :
    ∀ {as : List α} {s : σ}, I s → Every step C s as → Every step P s as
  | [], _, _, _ => trivial
  | a :: as, s, hi, h => by
    obtain ⟨h1, h2⟩ := h
    refine ⟨hP h1 hi, ?_⟩
    cases hs : step s a with
    | none => trivial
    | some s' =>
      rw [hs] at h2
      exact Every.of_invariant (C := C) (P := P) (I := I) hstep hP (hstep h1 hi hs) h2

/-- **Two conditions that agree in all states a run of the second one can reach.** -/
theorem every_iff {A B : σ → α → Prop} {I : σ → Prop}
    (hstep : ∀ {s a s'}, I s → step s a = some s' → (A s a ↔ B s a) ∧ (B s a → I s')) :
    ∀ {as : List α} {s s' : σ}, I s → run step s as = some s' →
      (Every step A s as ↔ Every step B s as)
  | [], _, _, _, _ => Iff.rfl
  | a :: as, s, s', hi, hr => by
    rw [run] at hr
    rw [Every, Every]
    cases h : step s a with
    | none =>
      rw [h] at hr
      cases hr
    | some s1 =>
      rw [h] at hr
      obtain ⟨hiff, hkeep⟩ := hstep hi h
      constructor
      · rintro ⟨ha, hrest⟩
        have hb := hiff.1 ha
        exact ⟨hb, (every_iff hstep (hkeep hb) hr).1 hrest⟩
      · rintro ⟨hb, hrest⟩
        exact ⟨hiff.2 hb, (every_iff hstep (hkeep hb) hr).2 hrest⟩

/-- **Simulation over runs**: where every action that meets the condition takes related states to related
states, a run from related states goes through and ends in a state related to that of the specification. -/
theorem run_simulates {β : Type*} {spec : β → α → β} {C : β → α → Prop} {R : σ → β → Prop}
    (hstep : ∀ {s b a}, C b a → R s b → ∃ s', step s a = some s' ∧ R s' (spec b a)) :
    ∀ {as : List α} {s : σ} {b : β}, R s b → Every (fun b a => some (spec b a)) C b as →
      ∃ s', run step s as = some s' ∧ R s' (as.foldl spec b)
  | [], s, _, hr, _ => ⟨s, rfl, hr⟩
  | a :: as, s, b, hr, hc => by
    obtain ⟨s1, h1, hr1⟩ := hstep hc.1 hr
    obtain ⟨s', hs', hr'⟩ := run_simulates hstep hr1 hc.2
    refine ⟨s', ?_, hr'⟩
    rw [run, h1]
    exact hs'

end

/-! ## Counting threads -/

section Count

variable {ι β : Type*} [Fintype ι] [DecidableEq ι]

/-- **Changing one member** changes a sum over all by that member's share. -/
theorem sum_update (w : β → ℕ) (f : ι → β) (i : ι) (x : β) :
    (∑ j, w (Function.update f i x j)) + w (f i) = (∑ j, w (f j)) + w x := by
  have hrest : (∑ j ∈ Finset.univ.erase i, w (Function.update f i x j)) =
      ∑ j ∈ Finset.univ.erase i, w (f j) := by
    refine Finset.sum_congr rfl fun j hj => ?_
    rw [Function.update_of_ne (Finset.ne_of_mem_erase hj)]
  rw [← Finset.add_sum_erase _ _ (Finset.mem_univ i), hrest, Function.update_self,
    ← Finset.add_sum_erase _ (fun j => w (f j)) (Finset.mem_univ i)]
  omega

/-- The number of members with property `p`. -/
def count (p : β → Bool) (f : ι → β) : ℕ := (Finset.univ.filter fun i => p (f i) = true).card

omit [DecidableEq ι] in
theorem count_eq_sum (p : β → Bool) (f : ι → β) : count p f = ∑ i, (p (f i)).toNat := by
  rw [count, Finset.card_filter]
  refine Finset.sum_congr rfl fun i _ => ?_
  cases p (f i) <;> rfl

/-- And so for the number of members with a property. -/
theorem count_update (p : β → Bool) (f : ι → β) (i : ι) (x : β) :
    count p (Function.update f i x) + (p (f i)).toNat = count p f + (p x).toNat := by
  rw [count_eq_sum, count_eq_sum]
  exact sum_update (fun y => (p y).toNat) f i x

omit [DecidableEq ι] in
theorem count_eq_zero {p : β → Bool} {f : ι → β} : count p f = 0 ↔ ∀ i, p (f i) = false := by
  rw [count, Finset.card_eq_zero, Finset.filter_eq_empty_iff]
  constructor
  · intro h i
    simpa using h (Finset.mem_univ i)
  · intro h i _
    simp [h i]

omit [DecidableEq ι] in
theorem count_le_card (p : β → Bool) (f : ι → β) : count p f ≤ Fintype.card ι := Finset.card_le_univ _

omit [DecidableEq ι] in
theorem count_eq_card {p : β → Bool} {f : ι → β} (h : ∀ i, p (f i) = true) : count p f = Fintype.card ι := by
  rw [count, Finset.filter_true_of_mem fun i _ => h i, Finset.card_univ]

omit [DecidableEq ι] in
/-- A family that does not consist of such members only has another one. -/
theorem exists_of_count_lt {p : β → Bool} {f : ι → β} (h : count p f < Fintype.card ι) :
    ∃ i, p (f i) = false := by
  by_contra hall
  simp only [not_exists, Bool.not_eq_false] at hall
  rw [count_eq_card hall] at h
  exact lt_irrefl _ h

end Count

end Buenos.Transition
