import Mathlib.Tactic.Common

/-!
# Exclusive ownership of resources

Generic library: live objects own resources, an allocator keeps a set of used resources.

* `Exclusive` — every resource owned by a live object is used, and by one live object only.
* `Complete` — every used resource is owned by a live object (nothing is lost).

The rules say how the two survive the three things an allocator does: forgetting an object
(`Exclusive.mono`), giving fresh resources to a new object (`Exclusive.acquire`,
`Complete.acquire`) and taking the resources of a dead object back (`Exclusive.release`,
`Complete.release`).
-/

namespace Ownership

variable {ι β : Type} {live live' : ι → Prop} {owns owns' : ι → β → Prop} {used used' : β → Prop}

/-- Every resource owned by a live object is used, and owned by one live object only. -/
structure Exclusive (live : ι → Prop) (owns : ι → β → Prop) (used : β → Prop) : Prop where
  used : ∀ {o b}, live o → owns o b → used b
  unique : ∀ {o o' b}, live o → live o' → owns o b → owns o' b → o = o'

/-- Every used resource is owned by a live object. -/
def Complete (live : ι → Prop) (owns : ι → β → Prop) (used : β → Prop) : Prop :=
  ∀ b, used b → ∃ o, live o ∧ owns o b

/-- Fewer objects owning less stay exclusive as long as what they own stays used. -/
theorem Exclusive.mono (h : Exclusive live owns used) (hl : ∀ o, live' o → live o)
    (ho : ∀ o b, live' o → owns' o b → owns o b) (hu : ∀ o b, live' o → owns' o b → used b → used' b) :
    Exclusive live' owns' used' where
  used := fun {o b} h1 h2 => hu o b h1 h2 (h.used (hl o h1) (ho o b h1 h2))
  unique := fun {o o' b} h1 h2 h3 h4 =>
    h.unique (hl o h1) (hl o' h2) (ho o b h1 h3) (ho o' b h2 h4)

/-- A new object may own resources that were not used before. -/
theorem Exclusive.acquire {x : ι} (h : Exclusive live owns used)
    (hl : ∀ o, live' o → live o ∨ o = x) (ho : ∀ o b, live o → owns' o b → owns o b)
    (hx : ∀ b, owns' x b → ¬ used b) (hu : ∀ b, used' b ↔ used b ∨ owns' x b) :
    Exclusive live' owns' used' where
  used := by
    intro o b h1 h2
    rcases hl o h1 with h1 | rfl
    · exact (hu b).2 (Or.inl (h.used h1 (ho o b h1 h2)))
    · exact (hu b).2 (Or.inr h2)
  unique := by
    intro o o' b h1 h2 h3 h4
    rcases hl o h1 with h1 | rfl <;> rcases hl o' h2 with h2 | rfl
    · exact h.unique h1 h2 (ho o b h1 h3) (ho o' b h2 h4)
    · exact absurd (h.used h1 (ho o b h1 h3)) (hx b h4)
    · exact absurd (h.used h2 (ho o' b h2 h4)) (hx b h3)
    · rfl

/-- Taking back resources that belonged to a dead object disturbs nobody. -/
theorem Exclusive.release {x : ι} (h : Exclusive live owns used) (hx : live x)
    (hl : ∀ o, live' o → live o ∧ o ≠ x) (hu : ∀ b, used b → ¬ owns x b → used' b) :
    Exclusive live' owns used' := by
  refine h.mono (fun o ho => (hl o ho).1) (fun _ _ _ h => h) (fun o b h1 h2 hb => hu b hb ?_)
  intro hxb
  exact (hl o h1).2 (h.unique (hl o h1).1 hx h2 hxb)

theorem Complete.acquire {x : ι} (h : Complete live owns used) (hl : ∀ o, live o → live' o)
    (hx : live' x) (ho : ∀ o b, live o → owns o b → owns' o b)
    (hu : ∀ b, used' b → used b ∨ owns' x b) : Complete live' owns' used' := by
  intro b hb
  rcases hu b hb with hb | hb
  · obtain ⟨o, h1, h2⟩ := h b hb
    exact ⟨o, hl o h1, ho o b h1 h2⟩
  · exact ⟨x, hx, hb⟩

theorem Complete.release {x : ι} (h : Complete live owns used) (hl : ∀ o, live o → o = x ∨ live' o)
    (hu : ∀ b, used' b → used b ∧ ¬ owns x b) : Complete live' owns used' := by
  intro b hb
  obtain ⟨o, h1, h2⟩ := h b (hu b hb).1
  rcases hl o h1 with rfl | h3
  · exact absurd h2 (hu b hb).2
  · exact ⟨o, h3, h2⟩

end Ownership
