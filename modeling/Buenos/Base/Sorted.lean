import Mathlib.Data.List.Basic
import Mathlib.Data.List.Pairwise

/-!
# Lists in order

* `insertBefore p t xs` — puts `t` in front of the first element with the property `p`, at the end if there
  is none.

Principal results: `pairwise_insertBefore` (insertion keeps a list in order) and `split_eq_filter` (in a list
in order the front with a property is all that has it).
-/

namespace Buenos.Sorted

variable {α : Type*} {p q : α → Bool} {t : α} {xs ys : List α}

/-- Put `t` in front of the first element with the property. -/
def insertBefore (p : α → Bool) (t : α) (xs : List α) : List α :=
  xs.takeWhile (fun x => !p x) ++ t :: xs.dropWhile fun x => !p x

/-- The place between the elements without the property and the first one with it. -/
theorem insertBefore_append (hxs : ∀ x ∈ xs, p x = false) (hys : ∀ y ∈ ys.head?, p y = true) :
    insertBefore p t (xs ++ ys) = xs ++ t :: ys := by
  have hgo : ∀ x ∈ xs, (!p x) = true := fun x hx => by rw [hxs x hx]; rfl
  have hstop : ys.takeWhile (fun x => !p x) = [] ∧ ys.dropWhile (fun x => !p x) = ys := by
    cases ys with
    | nil => exact ⟨rfl, rfl⟩
    | cons y ys =>
      have hy : (!p y) = false := by rw [hys y rfl]; rfl
      exact ⟨List.takeWhile_cons_of_neg (by rw [hy]; decide), List.dropWhile_cons_of_neg (by rw [hy]; decide)⟩
  rw [insertBefore, List.takeWhile_append_of_pos hgo, List.dropWhile_append_of_pos hgo, hstop.1, hstop.2,
    List.append_nil]

theorem perm_insertBefore (p : α → Bool) (t : α) (xs : List α) : (insertBefore p t xs).Perm (t :: xs) := by
  have hperm := @List.perm_middle _ t (xs.takeWhile fun x => !p x) (xs.dropWhile fun x => !p x)
  rwa [List.takeWhile_append_dropWhile] at hperm

/-- **Insertion keeps a list in order**, where the elements with the property are behind those without it. -/
theorem pairwise_insertBefore {R : α → α → Prop} (h : xs.Pairwise R) (hmono : xs.Pairwise fun a b => p a = true → p b = true)
    (hbefore : ∀ x ∈ xs, p x = false → R x t) (hafter : ∀ x ∈ xs, p x = true → R t x) :
    (insertBefore p t xs).Pairwise R := by
  induction xs with
  | nil => exact List.pairwise_singleton R t
  | cons x xs ih =>
    rw [List.pairwise_cons] at h hmono
    cases hx : p x with
    | true =>
      -- all of the list has the property
      have hall : ∀ y ∈ x :: xs, R t y := by
        intro y hy
        rcases List.mem_cons.1 hy with rfl | hmem
        · exact hafter y hy hx
        · exact hafter y hy (hmono.1 y hmem hx)
      have hins : insertBefore p t (x :: xs) = t :: x :: xs :=
        @insertBefore_append _ p t [] (x :: xs) (by simp) (by simpa using hx)
      rw [hins]
      exact List.pairwise_cons.2 ⟨hall, List.pairwise_cons.2 h⟩
    | false =>
      have hins : insertBefore p t (x :: xs) = x :: insertBefore p t xs := by
        simp [insertBefore, hx]
      rw [hins]
      refine List.pairwise_cons.2 ⟨fun y hy => ?_, ih h.2 hmono.2 (fun y hy => hbefore y (List.mem_cons_of_mem x hy))
        fun y hy => hafter y (List.mem_cons_of_mem x hy)⟩
      rcases List.mem_cons.1 ((perm_insertBefore p t xs).mem_iff.1 hy) with rfl | hy
      · exact hbefore x List.mem_cons_self hx
      · exact h.1 y hy

/-- **In a list in order** the front with a property is all that has it. -/
theorem split_eq_filter (hmono : xs.Pairwise fun a b => p b = true → p a = true) :
    xs.takeWhile p = xs.filter p ∧ xs.dropWhile p = xs.filter fun x => !p x := by
  induction xs with
  | nil => exact ⟨rfl, rfl⟩
  | cons x xs ih =>
    rw [List.pairwise_cons] at hmono
    obtain ⟨htake, hdrop⟩ := ih hmono.2
    cases hx : p x with
    | true => simp [hx, htake, hdrop]
    | false =>
      have hnone : ∀ y ∈ xs, p y = false := by
        intro y hy
        by_contra hpy
        rw [hmono.1 y hy (by simpa using hpy)] at hx
        cases hx
      have hfilter : xs.filter p = [] := List.filter_eq_nil_iff.2 fun y hy => by simp [hnone y hy]
      have hrest : xs.filter (fun y => !p y) = xs := List.filter_eq_self.2 fun y hy => by simp [hnone y hy]
      simp [hx, hfilter, hrest]

/-- The front and the rest of a list depend on the property of its own elements only. -/
theorem split_congr : ∀ {xs : List α}, (∀ x ∈ xs, p x = q x) →
    xs.takeWhile p = xs.takeWhile q ∧ xs.dropWhile p = xs.dropWhile q
  | [], _ => ⟨rfl, rfl⟩
  | x :: xs, h => by
    obtain ⟨htake, hdrop⟩ := split_congr fun y hy => h y (List.mem_cons_of_mem x hy)
    rw [List.takeWhile_cons, List.takeWhile_cons, List.dropWhile_cons, List.dropWhile_cons, h x List.mem_cons_self,
      htake, hdrop]
    exact ⟨rfl, rfl⟩

end Buenos.Sorted
