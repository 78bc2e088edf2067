import Mathlib.Tactic.Common
import Mathlib.Data.Option.Basic
import Mathlib.Data.List.Basic
import Mathlib.Data.List.Induction

/-!
# Trees of names

Generic library: nodes that name other nodes, `next i n` being the node that `i` calls `n`, and the
walks `p.foldlM next root` along lists of names.

* `Reaches` — the nodes that some walk from the root ends in.
* `Rooted` — every reached node has one name in one node, and the root has none.

Principal results: `Rooted.walk_inj` (a node is reached by one walk only), and what the walks are after
a name was added (`Rooted.graft`) or taken away (`Rooted.prune`).
-/

namespace NameTree

variable {ι ν : Type*} {next next' : ι → ν → Option ι} {root : ι}

/-- Some walk from the root ends in `i`. -/
def Reaches (next : ι → ν → Option ι) (root i : ι) : Prop := ∃ p : List ν, p.foldlM next root = some i

/-- Every reached node has one name in one node, and the root has none. -/
structure Rooted (next : ι → ν → Option ι) (root : ι) : Prop where
  top : ∀ {i n}, Reaches next root i → next i n ≠ some root
  inj : ∀ {i j n m k}, Reaches next root i → Reaches next root j → next i n = some k →
    next j m = some k → i = j ∧ n = m

theorem walk_concat (next : ι → ν → Option ι) (root : ι) (p : List ν) (n : ν) :
    (p ++ [n]).foldlM next root = (p.foldlM next root).bind fun i => next i n := by
  rw [List.foldlM_append]
  cases p.foldlM next root with
  | none => rfl
  | some i => exact bind_pure (next i n)

theorem Reaches.step {i k : ι} {n : ν} (h : Reaches next root i) (hk : next i n = some k) :
    Reaches next root k := by
  obtain ⟨p, hp⟩ := h
  exact ⟨p ++ [n], by rw [walk_concat, hp]; exact hk⟩

/-- The last step of a walk. -/
theorem walk_concat_some {p : List ν} {n : ν} {k : ι} (h : (p ++ [n]).foldlM next root = some k) :
    ∃ i, p.foldlM next root = some i ∧ next i n = some k := by
  rw [walk_concat, Option.bind_eq_some_iff] at h
  exact h

/-- **Walks are unique.** -/
theorem Rooted.walk_inj (h : Rooted next root) {p q : List ν} {k : ι} (hp : p.foldlM next root = some k)
    (hq : q.foldlM next root = some k) : p = q := by
  induction p using List.reverseRecOn generalizing q k with
  | nil =>
    obtain rfl : root = k := Option.some.inj hp
    rcases List.eq_nil_or_concat' q with rfl | ⟨q, m, rfl⟩
    · rfl
    · obtain ⟨j, hj, hm⟩ := walk_concat_some hq
      exact absurd hm (h.top ⟨q, hj⟩)
  | append_singleton p n ih =>
    obtain ⟨i, hi, hn⟩ := walk_concat_some hp
    rcases List.eq_nil_or_concat' q with rfl | ⟨q, m, rfl⟩
    · obtain rfl : root = k := Option.some.inj hq
      exact absurd hn (h.top ⟨p, hi⟩)
    · obtain ⟨j, hj, hm⟩ := walk_concat_some hq
      obtain ⟨rfl, rfl⟩ := h.inj ⟨p, hi⟩ ⟨q, hj⟩ hn hm
      rw [ih hi hj]

/-- Walks through nodes that name the same. -/
theorem walk_congr (h : ∀ i n, Reaches next root i → next' i n = next i n) (p : List ν) :
    p.foldlM next' root = p.foldlM next root := by
  induction p using List.reverseRecOn with
  | nil => rfl
  | append_singleton p n ih =>
    rw [walk_concat, walk_concat, ih]
    cases hp : p.foldlM next root with
    | none => rfl
    | some i => exact h i n ⟨p, hp⟩

section Change

variable [DecidableEq ν] {d f : ι} {n : ν} {q : List ν}

/-- **A new name**: `d` calls node `f`, which names nothing, `n`. -/
theorem Rooted.graft (h : Rooted next root) (hq : q.foldlM next root = some d) (hno : next d n = none)
    (hnew : next' d n = some f) (hleaf : ∀ m, next' f m = none)
    (hsame : ∀ i m, Reaches next root i → ¬ (i = d ∧ m = n) → next' i m = next i m) (p : List ν) :
    p.foldlM next' root = if p = q ++ [n] then some f else p.foldlM next root := by
  induction p using List.reverseRecOn with
  | nil =>
    rw [if_neg (by simp)]
    rfl
  | append_singleton p m ih =>
    rw [walk_concat, walk_concat, ih]
    by_cases hp : p = q ++ [n]
    · -- nothing lies below the new node, and nothing lay below its name
      have hne : p ++ [m] ≠ q ++ [n] := by
        rw [hp]
        simp
      have hnone : p.foldlM next root = none := by
        rw [hp, walk_concat, hq]
        exact hno
      rw [if_pos hp, if_neg hne, hnone]
      exact hleaf m
    · rw [if_neg hp]
      cases hi : p.foldlM next root with
      | none =>
        have hne : p ++ [m] ≠ q ++ [n] := by
          intro hpq
          rw [(List.append_inj' hpq rfl).1, hq] at hi
          cases hi
        rw [if_neg hne]
        rfl
      | some i =>
        by_cases hd : i = d ∧ m = n
        · obtain ⟨rfl, rfl⟩ := hd
          rw [h.walk_inj hi hq, if_pos rfl]
          exact hnew
        · have hne : p ++ [m] ≠ q ++ [n] := by
            intro hpq
            obtain ⟨rfl, hmn⟩ := List.append_inj' hpq rfl
            rw [hi] at hq
            exact hd ⟨Option.some.inj hq, List.singleton_inj.1 hmn⟩
          rw [if_neg hne]
          exact hsame i m ⟨p, hi⟩ hd

/-- **A name less**: node `d` no longer calls anything `n`, and everything below is lost. -/
theorem Rooted.prune (h : Rooted next root) (hq : q.foldlM next root = some d) (hnone : next' d n = none)
    (hsame : ∀ i m, Reaches next root i → next d n ≠ some i → ¬ (i = d ∧ m = n) → next' i m = next i m)
    (p : List ν) : p.foldlM next' root = if q ++ [n] <+: p then none else p.foldlM next root := by
  induction p using List.reverseRecOn with
  | nil =>
    rw [if_neg (by simp)]
    rfl
  | append_singleton p m ih =>
    rw [walk_concat, walk_concat, ih]
    by_cases hp : q ++ [n] <+: p
    · rw [if_pos hp, if_pos (hp.trans (List.prefix_append p [m]))]
      rfl
    · rw [if_neg hp]
      cases hi : p.foldlM next root with
      | none =>
        simp
      | some i =>
        by_cases hd : i = d ∧ m = n
        · obtain ⟨rfl, rfl⟩ := hd
          rw [h.walk_inj hi hq, if_pos (List.prefix_refl _)]
          exact hnone
        · have hne : ¬ q ++ [n] <+: p ++ [m] := by
            intro hpq
            rcases List.prefix_concat_iff.1 hpq with hpq | hpq
            · obtain ⟨rfl, hmn⟩ := List.append_inj' hpq rfl
              rw [hi] at hq
              exact hd ⟨Option.some.inj hq, (List.singleton_inj.1 hmn).symm⟩
            · exact hp hpq
          have hlost : next d n ≠ some i := by
            intro hdi
            have hwalk : (q ++ [n]).foldlM next root = some i := by
              rw [walk_concat, hq]
              exact hdi
            rw [h.walk_inj hi hwalk] at hp
            exact hp (List.prefix_refl _)
          rw [if_neg hne]
          exact hsame i m ⟨p, hi⟩ hlost hd

end Change

end NameTree
