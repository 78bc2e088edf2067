import Mathlib.Data.List.TakeWhile

/-!
# Queues with two classes of service

A waiting line in which the urgent ones go in front of the others, and within a class the first comes first.

* `place` — where a newcomer goes.
* `Event`, `serve` — newcomers, and the one in front being served.
* `UrgentFirst` — no urgent one waits behind another.

Principal result: `serve_waiting`, who is served while someone waits.
-/

namespace TwoClass

variable {α : Type*}

/-- An urgent newcomer goes behind the urgent ones in front, another one to the end. -/
def place (urgent : α → Bool) (xs : List α) (a : α) : List α :=
  match urgent a with
  | true => xs.takeWhile urgent ++ a :: xs.dropWhile urgent
  | false => xs ++ [a]

/-- Someone comes, or the one in front is served. -/
inductive Event (α : Type*) where
  | arrive (a : α)
  | serve

/-- The line after the events, and who has been served. -/
def serve (urgent : α → Bool) : List α → List (Event α) → List α × List α
  | xs, [] => (xs, [])
  | xs, .arrive a :: es => serve urgent (place urgent xs a) es
  | [], .serve :: es => serve urgent [] es
  | x :: xs, .serve :: es => ((serve urgent xs es).1, x :: (serve urgent xs es).2)

/-- The urgent ones are in front. -/
def UrgentFirst (urgent : α → Bool) (xs : List α) : Prop := xs.Pairwise fun a b => urgent b = true → urgent a = true

/-- Those that are not urgent. -/
def others (urgent : α → Bool) (xs : List α) : List α := xs.filter fun a => !urgent a

variable {urgent : α → Bool} {xs us vs : List α} {a b : α}

theorem place_urgent (h : urgent a = true) :
    place urgent xs a = xs.takeWhile urgent ++ a :: xs.dropWhile urgent := by
  rw [place, h]

theorem place_other (h : urgent a = false) : place urgent xs a = xs ++ [a] := by
  rw [place, h]

@[simp] theorem others_append : others urgent (us ++ vs) = others urgent us ++ others urgent vs :=
  List.filter_append ..

theorem others_urgent (h : urgent a = true) : others urgent (a :: xs) = others urgent xs := by
  simp [others, h]

/-- Someone urgent who comes does not change the order of the others. -/
theorem others_place (h : urgent a = true) : others urgent (place urgent xs a) = others urgent xs := by
  rw [place_urgent h, others_append, others_urgent h, ← others_append, List.takeWhile_append_dropWhile]

theorem UrgentFirst.place (h : UrgentFirst urgent xs) (a : α) : UrgentFirst urgent (place urgent xs a) := by
  cases ha : urgent a with
  | false =>
    rw [place_other ha]
    apply List.pairwise_append.2
    refine ⟨h, List.pairwise_singleton _ _, fun x _ y hy hu => ?_⟩
    rw [List.mem_singleton.1 hy, ha] at hu
    cases hu
  | true =>
    have hfront : ∀ x ∈ xs.takeWhile urgent, urgent x = true := fun x hx => List.mem_takeWhile_imp hx
    rw [place_urgent ha]
    apply List.pairwise_append.2
    refine ⟨h.sublist (List.takeWhile_sublist _), List.pairwise_cons.2 ⟨fun y _ _ => ha, ?_⟩, ?_⟩
    · exact h.sublist (List.dropWhile_sublist _)
    · exact fun x hx y _ _ => hfront x hx

/-- Everyone in front of an urgent one is urgent. -/
theorem UrgentFirst.front (h : UrgentFirst urgent (us ++ a :: vs)) (ha : urgent a = true) : ∀ u ∈ us, urgent u = true :=
  fun u hu => (List.pairwise_append.1 h).2.2 u hu a List.mem_cons_self ha

/-- **Someone comes while `a` waits**: he goes behind, or he is urgent and `a` is not. -/
theorem UrgentFirst.place_waiting (h : UrgentFirst urgent (us ++ a :: vs)) (b : α) :
    ∃ us' vs', TwoClass.place urgent (us ++ a :: vs) b = us' ++ a :: vs' ∧ others urgent us' = others urgent us ∧
      (urgent a = true → us' = us) := by
  cases hb : urgent b with
  | false => exact ⟨us, vs ++ [b], by simp [place_other hb], rfl, fun _ => rfl⟩
  | true =>
    cases ha : urgent a with
    | true =>
      have hus : ∀ u ∈ us, urgent u = true := h.front ha
      refine ⟨us, TwoClass.place urgent vs b, ?_, rfl, fun _ => rfl⟩
      simp [place_urgent hb, List.takeWhile_append_of_pos hus, List.dropWhile_append_of_pos hus, ha]
    | false =>
      refine ⟨TwoClass.place urgent us b, vs, ?_, others_place hb, by simp⟩
      have hsplit : ∀ ws : List α, (ws ++ a :: vs).takeWhile urgent = ws.takeWhile urgent ∧
          (ws ++ a :: vs).dropWhile urgent = ws.dropWhile urgent ++ a :: vs := by
        intro ws
        induction ws with
        | nil => simp [ha]
        | cons w ws ih => cases hw : urgent w <;> simp [hw, ih]
      simp [place_urgent hb, hsplit us]

/-- **Who is served while `a` waits**: of those that are not urgent, the ones in front of it, in their order; and if `a`
is urgent, nobody else at all. -/
theorem serve_waiting (es : List (Event α)) (h : UrgentFirst urgent (us ++ a :: vs))
    (ha : a ∉ (serve urgent (us ++ a :: vs) es).2) :
    ∃ us' vs', (serve urgent (us ++ a :: vs) es).1 = us' ++ a :: vs' ∧
      others urgent us = others urgent (serve urgent (us ++ a :: vs) es).2 ++ others urgent us' ∧
      (urgent a = true → us = (serve urgent (us ++ a :: vs) es).2 ++ us') := by
  induction es generalizing us vs with
  | nil => exact ⟨us, vs, rfl, rfl, fun _ => rfl⟩
  | cons e es ih =>
    cases e with
    | arrive b =>
      obtain ⟨us1, vs1, hplace, hothers, hus⟩ := h.place_waiting b
      have hfirst := h.place b
      rw [serve] at ha ⊢
      rw [hplace] at ha hfirst ⊢
      obtain ⟨us', vs', h1, h2, h3⟩ := ih hfirst ha
      refine ⟨us', vs', h1, by rw [← hothers, h2], fun hu => ?_⟩
      rw [← hus hu]
      exact h3 hu
    | serve =>
      cases us with
      | nil => exact absurd List.mem_cons_self ha
      | cons u us =>
        have hrest : UrgentFirst urgent (us ++ a :: vs) := (List.pairwise_cons.1 h).2
        obtain ⟨us', vs', h1, h2, h3⟩ := ih hrest fun hm => ha (List.mem_cons_of_mem _ hm)
        refine ⟨us', vs', h1, ?_, fun hu => congrArg (u :: ·) (h3 hu)⟩
        show others urgent ([u] ++ us) = others urgent ([u] ++ (serve urgent (us ++ a :: vs) es).2) ++ others urgent us'
        rw [others_append, others_append, h2, List.append_assoc]

theorem UrgentFirst.serve (h : UrgentFirst urgent xs) (es : List (Event α)) :
    UrgentFirst urgent (TwoClass.serve urgent xs es).1 := by
  induction es generalizing xs with
  | nil => exact h
  | cons e es ih =>
    cases e with
    | arrive a => exact ih (h.place a)
    | serve =>
      cases xs with
      | nil => exact ih h
      | cons x xs => exact ih (List.pairwise_cons.1 h).2

/-- Events one after another. -/
theorem serve_append (es fs : List (Event α)) : serve urgent xs (es ++ fs) =
    ((serve urgent (serve urgent xs es).1 fs).1, (serve urgent xs es).2 ++ (serve urgent (serve urgent xs es).1 fs).2) := by
  induction es generalizing xs with
  | nil => rfl
  | cons e es ih =>
    cases e with
    | arrive a => exact ih
    | serve =>
      cases xs with
      | nil => exact ih
      | cons x xs =>
        rw [List.cons_append, serve, ih]
        rfl

/-- Newcomers one after another. -/
theorem serve_arrivals (as : List α) :
    serve urgent xs (as.map .arrive) = (as.foldl (place urgent) xs, []) := by
  induction as generalizing xs with
  | nil => rfl
  | cons a as ih => exact ih

end TwoClass
