import Mathlib.Algebra.Order.Group.Multiset
import Mathlib.Data.List.Forall2
import Mathlib.Data.List.Perm.Basic

/-!
# Who holds what

A multiset of pairs of a holder and what it holds, for accounts in which each thing is handed on and used up once.

* `Has` — a holder has something with a property.
* `goods` — what is held, by whomever.

Principal results: `Has.put` and `Has.take`, that giving something to a holder or taking it away leaves the other
holders what they have, with `goods_put` for the balance; for accounts whose entries belong together one by one,
`exists_forall₂_le`, the part of the one that goes with a part of the other.
-/

namespace Custody

variable {κ α : Type*}

/-- `k` holds something with property `P`. -/
def Has (m : Multiset (κ × α)) (k : κ) (P : α → Prop) : Prop := ∃ a, (k, a) ∈ m ∧ P a

/-- Everything that is held. -/
def goods (m : Multiset (κ × α)) : Multiset α := m.map Prod.snd

variable {m : Multiset (κ × α)} {k k' : κ} {a : α} {P : α → Prop}

theorem Has.put_self (h : P a) : Has ((k, a) ::ₘ m) k P := ⟨a, Multiset.mem_cons_self _ _, h⟩

theorem Has.put (h : Has m k P) (x : κ × α) : Has (x ::ₘ m) k P := by
  obtain ⟨a, ha, hp⟩ := h
  exact ⟨a, Multiset.mem_cons_of_mem ha, hp⟩

/-- **Taking away** what one of them holds. -/
theorem Has.take (h : Has m k P) :
    ∃ a rest, P a ∧ m = (k, a) ::ₘ rest ∧ ∀ k', k' ≠ k → ∀ Q : α → Prop, Has m k' Q → Has rest k' Q := by
  obtain ⟨a, ha, hp⟩ := h
  obtain ⟨rest, rfl⟩ := Multiset.exists_cons_of_mem ha
  refine ⟨a, rest, hp, rfl, ?_⟩
  rintro k' hk Q ⟨b, hb, hq⟩
  rcases Multiset.mem_cons.1 hb with hb | hb
  · cases hb
    exact absurd rfl hk
  · exact ⟨b, hb, hq⟩

theorem goods_put (m : Multiset (κ × α)) (k : κ) (a : α) : goods ((k, a) ::ₘ m) = a ::ₘ goods m :=
  Multiset.map_cons ..

/-- **A part of the entries** has its part of the other account. -/
theorem exists_forall₂_le {β : Type*} {R : α → β → Prop} {as l : List α} {bs : List β} (h : List.Forall₂ R as bs)
    (hl : (l : Multiset α) ≤ as) : ∃ l', List.Forall₂ R l l' ∧ (l' : Multiset β) ≤ bs := by
  obtain ⟨l0, hperm, hsub⟩ := Multiset.coe_le.1 hl
  have hpart : ∃ l1, List.Forall₂ R l0 l1 ∧ List.Sublist l1 bs := by
    clear hl hperm
    induction hsub generalizing bs with
    | slnil => exact ⟨[], List.Forall₂.nil, List.nil_sublist _⟩
    | cons a _ ih =>
      cases h with
      | cons _ hrest =>
        obtain ⟨l1, h1, hs⟩ := ih hrest
        exact ⟨l1, h1, hs.cons _⟩
    | cons_cons a _ ih =>
      cases h with
      | cons hr hrest =>
        obtain ⟨l1, h1, hs⟩ := ih hrest
        exact ⟨_ :: l1, List.Forall₂.cons hr h1, hs.cons_cons _⟩
  obtain ⟨l1, h1, hsub1⟩ := hpart
  obtain ⟨l', h', hperm'⟩ := List.perm_comp_forall₂ hperm.symm h1
  exact ⟨l', h', Multiset.coe_le.2 (hperm'.subperm.trans hsub1.subperm)⟩

/-- Two accounts one after the other. -/
theorem forall₂_trans {β γ : Type*} {R : α → β → Prop} {S : β → γ → Prop} {T : α → γ → Prop}
    (hT : ∀ {a b c}, R a b → S b c → T a c) {as : List α} {bs : List β} {cs : List γ} (h : List.Forall₂ R as bs)
    (h' : List.Forall₂ S bs cs) : List.Forall₂ T as cs := by
  induction h generalizing cs with
  | nil =>
    cases h'
    exact List.Forall₂.nil
  | cons hr _ ih =>
    cases h' with
    | cons hs hrest => exact List.Forall₂.cons (hT hr hs) (ih hrest)

end Custody
