import Mathlib.Data.List.Nodup
import Mathlib.Data.Finset.Card
import Mathlib.Logic.Function.Basic

/-!
# Linked chains

Lists threaded through a link function, as intrusive lists are through a `next` field.

* `Seg link a xs b` — from `a`, following `link` visits exactly `xs` and then arrives at `b`.
* `Chain link nil a xs` — a segment that ends at `nil`.  Such a chain never repeats a cell.
* `walk` — the loop `while (go cur) { prev = cur; cur = link(cur); }`.

Principal results: `Chain.nodup`, `Chain.splice` and `Chain.unlink` (putting a cell behind another,
taking one out), and `walk_spec` (where the loop stops).
-/

namespace Buenos.Linked

variable {α : Type*} {link link' : α → α} {a b c t nil : α} {xs ys : List α}

/-- From `a`, following `link` visits exactly `xs` and then arrives at `b`. -/
def Seg (link : α → α) (a : α) : List α → α → Prop
  | [], b => a = b
  | x :: xs, b => a = x ∧ Seg link (link x) xs b

@[simp] theorem seg_nil : Seg link a [] b ↔ a = b := Iff.rfl

@[simp] theorem seg_cons {x : α} : Seg link a (x :: xs) b ↔ a = x ∧ Seg link (link x) xs b := Iff.rfl

theorem seg_append : Seg link a (xs ++ ys) b ↔ ∃ c, Seg link a xs c ∧ Seg link c ys b := by
  induction xs generalizing a with
  | nil => simp
  | cons x xs ih => simp [ih, and_assoc]

/-- A segment depends only on the links of its own cells. -/
theorem Seg.congr (h : Seg link a xs b) (hl : ∀ x ∈ xs, link' x = link x) : Seg link' a xs b := by
  induction xs generalizing a with
  | nil => exact h
  | cons x xs ih =>
    obtain ⟨rfl, h⟩ := h
    refine ⟨rfl, ?_⟩
    rw [hl a List.mem_cons_self]
    exact ih h fun y hy => hl y (List.mem_cons_of_mem _ hy)

/-- Two segments from one cell to a cell outside of them are the same. -/
theorem Seg.unique (h : Seg link a xs b) (h' : Seg link a ys b) (hx : b ∉ xs) (hy : b ∉ ys) :
    xs = ys := by
  induction xs generalizing a ys with
  | nil =>
    cases ys with
    | nil => rfl
    | cons y ys =>
      obtain rfl : a = b := h
      exact absurd (h'.1 ▸ List.mem_cons_self) hy
  | cons x xs ih =>
    obtain ⟨rfl, h⟩ := h
    cases ys with
    | nil =>
      obtain rfl : a = b := h'
      exact absurd List.mem_cons_self hx
    | cons y ys =>
      obtain ⟨rfl, h'⟩ := h'
      simp only [List.mem_cons, not_or] at hx hy
      rw [ih h h' hx.2 hy.2]

/-- A chain: a segment that ends at `nil`, which is no cell. -/
structure Chain (link : α → α) (nil a : α) (xs : List α) : Prop where
  seg : Seg link a xs nil
  end_notMem : nil ∉ xs

/-- The cells of a chain are determined by its first one. -/
theorem Chain.unique (h : Chain link nil a xs) (h' : Chain link nil a ys) : xs = ys :=
  h.seg.unique h'.seg h.end_notMem h'.end_notMem

theorem chain_empty (link : α → α) (nil : α) : Chain link nil nil [] := ⟨rfl, by simp⟩

/-- The first cell of a chain, `nil` if it has none. -/
theorem Chain.head (h : Chain link nil a xs) : a = xs.head?.getD nil := by
  cases xs with
  | nil => exact h.seg
  | cons x xs => exact h.seg.1

theorem Chain.tail {x : α} (h : Chain link nil a (x :: xs)) : Chain link nil (link x) xs :=
  ⟨h.seg.2, fun hm => h.end_notMem (List.mem_cons_of_mem _ hm)⟩

/-- The rest of a chain starts at its first cell. -/
theorem Chain.drop (h : Chain link nil a (xs ++ ys)) : Chain link nil (ys.head?.getD nil) ys := by
  obtain ⟨c, -, h2⟩ := seg_append.1 h.seg
  have hc : Chain link nil c ys := ⟨h2, fun hm => h.end_notMem (List.mem_append_right _ hm)⟩
  rwa [hc.head] at hc

/-- What follows a cell of a chain. -/
theorem Chain.link_eq {p : α} (h : Chain link nil a (xs ++ p :: ys)) : link p = ys.head?.getD nil :=
  h.drop.tail.head

theorem Chain.congr (h : Chain link nil a xs) (hl : ∀ x ∈ xs, link' x = link x) :
    Chain link' nil a xs :=
  ⟨h.seg.congr hl, h.end_notMem⟩

/-- **A chain that ends is acyclic**: a cell met twice would be followed by two different lists. -/
theorem Chain.nodup (h : Chain link nil a xs) : xs.Nodup := by
  induction xs generalizing a with
  | nil => exact List.nodup_nil
  | cons x xs ih =>
    refine List.nodup_cons.2 ⟨fun hm => ?_, ih h.tail⟩
    obtain ⟨us, vs, rfl⟩ := List.append_of_mem hm
    obtain ⟨c, -, rfl, hvs⟩ := seg_append.1 h.seg.2
    have hnot := h.end_notMem
    simp only [List.mem_cons, List.mem_append, not_or] at hnot
    have heq := h.seg.2.unique hvs (by simp [hnot]) hnot.2.2.2
    have hlen := congrArg List.length heq
    simp only [List.length_append, List.length_cons] at hlen
    omega

/-- A chain within a finite set is not longer than the set. -/
theorem Chain.length_le [DecidableEq α] (h : Chain link nil a xs) {s : Finset α}
    (hs : ∀ x ∈ xs, x ∈ s) : xs.length ≤ s.card := by
  rw [← List.toFinset_card_of_nodup h.nodup]
  refine Finset.card_le_card fun x hx => hs x ?_
  exact List.mem_toFinset.1 hx

section Update

variable [DecidableEq α]

/-- Links of cells outside a chain do not matter to it. -/
theorem Chain.update (h : Chain link nil a xs) (ht : t ∉ xs) :
    Chain (Function.update link t b) nil a xs := by
  refine h.congr fun x hx => Function.update_of_ne ?_ _ _
  rintro rfl
  exact ht hx

/-- Putting a cell in front. -/
theorem Chain.push (h : Chain link nil a xs) (ht : t ∉ xs) (hn : t ≠ nil) :
    Chain (Function.update link t a) nil t (t :: xs) := by
  refine ⟨⟨rfl, ?_⟩, ?_⟩
  · rw [Function.update_self]
    exact (h.update ht).seg
  · simp only [List.mem_cons, not_or]
    exact ⟨hn.symm, h.end_notMem⟩

/-- **Splicing in** the cell `t` behind the cell `p`. -/
theorem Chain.splice {p : α} (h : Chain link nil a (xs ++ p :: ys)) (ht : t ∉ xs ++ p :: ys)
    (hn : t ≠ nil) :
    Chain (Function.update (Function.update link p t) t (link p)) nil a (xs ++ p :: t :: ys) := by
  have hnd := h.nodup
  have hmem := h.end_notMem
  obtain ⟨c, h1, rfl, h2⟩ := seg_append.1 h.seg
  simp only [List.mem_append, List.mem_cons, not_or] at ht hmem
  have hcx : c ∉ xs := fun hc => (List.nodup_append.1 hnd).2.2 c hc c List.mem_cons_self rfl
  have hcy : c ∉ ys := (List.nodup_cons.1 (List.nodup_append.1 hnd).2.1).1
  refine ⟨seg_append.2 ⟨c, h1.congr fun x hx => ?_, rfl, ?_⟩, ?_⟩
  · rw [Function.update_of_ne, Function.update_of_ne]
    · rintro rfl
      exact hcx hx
    · rintro rfl
      exact ht.1 hx
  · rw [Function.update_of_ne (Ne.symm ht.2.1), Function.update_self]
    refine ⟨rfl, ?_⟩
    rw [Function.update_self]
    refine h2.congr fun x hx => ?_
    rw [Function.update_of_ne, Function.update_of_ne]
    · rintro rfl
      exact hcy hx
    · rintro rfl
      exact ht.2.2 hx
  · simp only [List.mem_append, List.mem_cons, not_or]
    exact ⟨hmem.1, hmem.2.1, hn.symm, hmem.2.2⟩

/-- Putting a cell that links to the end behind the last one. -/
theorem Chain.snoc {p : α} (h : Chain link nil a (xs ++ [p])) (ht : t ∉ xs ++ [p]) (hn : t ≠ nil)
    (hlink : link t = nil) : Chain (Function.update link p t) nil a (xs ++ [p] ++ [t]) := by
  have hs := h.splice ht hn
  have hpt : t ≠ p := by
    rintro rfl
    exact ht (List.mem_append_right _ (List.mem_singleton_self _))
  have hsame : Function.update (Function.update link p t) t (link p) = Function.update link p t := by
    apply Function.update_eq_self_iff.2
    rw [Function.update_of_ne hpt, hlink]
    exact h.link_eq
  rw [hsame] at hs
  rwa [List.append_assoc]

/-- **Unlinking** the cell `t` behind the cell `p`. -/
theorem Chain.unlink {p : α} (h : Chain link nil a (xs ++ p :: t :: ys)) :
    Chain (Function.update link p (link t)) nil a (xs ++ p :: ys) := by
  have hnd := h.nodup
  have hmem := h.end_notMem
  obtain ⟨c, h1, rfl, rfl, h2⟩ := seg_append.1 h.seg
  have hcx : c ∉ xs := fun hc => (List.nodup_append.1 hnd).2.2 c hc c List.mem_cons_self rfl
  have hcy := (List.nodup_cons.1 (List.nodup_append.1 hnd).2.1).1
  simp only [List.mem_append, List.mem_cons, not_or] at hmem hcy
  refine ⟨seg_append.2 ⟨c, h1.congr fun x hx => ?_, rfl, ?_⟩, ?_⟩
  · rw [Function.update_of_ne]
    rintro rfl
    exact hcx hx
  · rw [Function.update_self]
    refine h2.congr fun x hx => ?_
    rw [Function.update_of_ne]
    rintro rfl
    exact hcy.2 hx
  · simp only [List.mem_append, List.mem_cons, not_or]
    exact ⟨hmem.1, hmem.2.1, hmem.2.2.2⟩

end Update

/-! ## Walking along a chain -/

/-- `while (go cur) { prev = cur; cur = link(cur); }`, `none` if it takes `n` rounds or more. -/
def walk (link : α → α) (go : α → Bool) : ℕ → α → α → Option (α × α)
  | 0, _, _ => none
  | n + 1, prev, cur => if go cur then walk link go n cur (link cur) else some (prev, cur)

/-- **The walk along a chain** stops at its first cell with `go` false, or at its end; `prev` is the
cell before that one. -/
theorem walk_spec (go : α → Bool) (n : ℕ) (prev : α) (hend : go nil = false) {cur : α}
    (h : Chain link nil cur xs) (hn : xs.length < n) :
    ∃ pre post p c, xs = pre ++ post ∧ walk link go n prev cur = some (p, c) ∧
      Chain link nil c post ∧ (∀ x ∈ pre, go x = true) ∧ go c = false ∧
      ((pre = [] ∧ p = prev) ∨ ∃ pre', pre = pre' ++ [p]) := by
  induction xs generalizing n prev cur with
  | nil =>
    obtain ⟨n, rfl⟩ := Nat.exists_eq_succ_of_ne_zero (Nat.ne_of_gt hn)
    have hcur : cur = nil := h.seg
    refine ⟨[], [], prev, cur, rfl, ?_, h, by simp, ?_, Or.inl ⟨rfl, rfl⟩⟩
    · rw [walk, hcur, hend]
      rfl
    · rw [hcur, hend]
  | cons x xs ih =>
    obtain ⟨n, rfl⟩ := Nat.exists_eq_succ_of_ne_zero (Nat.ne_of_gt (Nat.zero_lt_of_lt hn))
    obtain rfl : cur = x := h.seg.1
    cases hgo : go cur with
    | false =>
      refine ⟨[], cur :: xs, prev, cur, rfl, ?_, h, by simp, hgo, Or.inl ⟨rfl, rfl⟩⟩
      rw [walk, hgo]
      rfl
    | true =>
      have hlen : xs.length < n := by
        rw [List.length_cons] at hn
        omega
      obtain ⟨pre, post, p, c, rfl, hw, hc, hpre, hgc, hp⟩ := ih n cur h.tail hlen
      refine ⟨cur :: pre, post, p, c, rfl, ?_, hc, ?_, hgc, Or.inr ?_⟩
      · rw [walk, hgo]
        exact hw
      · intro y hy
        rcases List.mem_cons.1 hy with rfl | hy
        · exact hgo
        · exact hpre y hy
      · rcases hp with ⟨rfl, rfl⟩ | ⟨pre', rfl⟩
        · exact ⟨[], rfl⟩
        · exact ⟨cur :: pre', rfl⟩

/-- `while (link(cur) != nil) cur = link(cur);` stops at the last cell. -/
theorem walk_last [DecidableEq α] (n : ℕ) (prev : α) {p : α} (h : Chain link nil a (xs ++ [p]))
    (hn : xs.length < n) : ∃ q, walk link (fun c => decide (link c ≠ nil)) n prev a = some (q, p) := by
  induction xs generalizing n prev a with
  | nil =>
    obtain ⟨n, rfl⟩ := Nat.exists_eq_succ_of_ne_zero (Nat.ne_of_gt hn)
    obtain rfl : a = p := h.seg.1
    have hlink : link a = nil := h.link_eq
    refine ⟨prev, ?_⟩
    rw [walk, hlink]
    simp
  | cons x xs ih =>
    obtain ⟨n, rfl⟩ := Nat.exists_eq_succ_of_ne_zero (Nat.ne_of_gt (Nat.zero_lt_of_lt hn))
    obtain rfl : a = x := h.seg.1
    have hne : link a ≠ nil := by
      intro he
      have ht : Chain link nil (link a) (xs ++ [p]) := h.tail
      have hmem := ht.end_notMem
      rw [he] at ht
      cases xs with
      | nil => exact hmem (ht.seg.1 ▸ List.mem_singleton_self _)
      | cons y ys => exact hmem (ht.seg.1 ▸ List.mem_cons_self)
    obtain ⟨q, hq⟩ := ih n a h.tail (Nat.lt_of_succ_lt_succ hn)
    refine ⟨q, ?_⟩
    rw [walk, if_pos (decide_eq_true hne)]
    exact hq

end Buenos.Linked
