import Mathlib.Data.Option.Basic
import Mathlib.Data.Set.Insert
import Mathlib.Logic.Function.Basic

/-!
# Address spaces

Memory that is seen through translations of addresses, one for each of several processes.

* `view` — what is seen at an address.
* `OneToOne`, `Separate` — addresses of one translation, or of several, that lead to different places.
* `storeAll` — bytes are stored one after another, and `lastAt`, the last one that is stored at an address.
* `Label`, `Step`, `Run` — private memories: each changes by its own stores, and its addresses come and go.

Principal results: `storeAll_at` and `storeAll_elsewhere`, the memory after stores; `Separate.view_store`, that a
store is seen at its address only; and `Run.read_back`, that a private memory gives back what was stored last.
-/

namespace AddressSpace

variable {ι α φ β : Type*}

/-! ## Translations -/

section View

/-- What is seen at an address. -/
def view (tr : α → Option φ) (mem : φ → β) (a : α) : Option β := (tr a).map mem

/-- No two addresses lead to one place. -/
def OneToOne (tr : α → Option φ) : Prop := ∀ a a' p, tr a = some p → tr a' = some p → a = a'

/-- No two addresses of the translations lead to one place. -/
def Separate (tr : ι → α → Option φ) : Prop := ∀ i j a a' p, tr i a = some p → tr j a' = some p → i = j ∧ a = a'

variable {tr : ι → α → Option φ} {mem : φ → β} {i : ι} {a : α} {p : φ}

theorem view_some (h : tr i a = some p) : view (tr i) mem a = some (mem p) := by
  rw [view, h, Option.map_some]

variable [DecidableEq φ]

/-- A store to a place that no address leads to is not seen. -/
theorem view_store_outside (hp : ∀ j a, tr j a ≠ some p) (b : β) :
    (fun j => view (tr j) (Function.update mem p b)) = fun j => view (tr j) mem := by
  funext j a
  unfold view
  cases hq : tr j a with
  | none => rfl
  | some q =>
    have hqp : q ≠ p := by
      rintro rfl
      exact hp j a hq
    simp [hqp]

variable [DecidableEq ι] [DecidableEq α]

/-- **A store** is seen at its address, and nowhere else. -/
theorem Separate.view_store (h : Separate tr) (hp : tr i a = some p) (b : β) :
    (fun j => view (tr j) (Function.update mem p b)) =
      Function.update (fun j => view (tr j) mem) i (Function.update (view (tr i) mem) a (some b)) := by
  have hother : ∀ j a', ¬ (j = i ∧ a' = a) → view (tr j) (Function.update mem p b) a' = view (tr j) mem a' := by
    intro j a' hne
    unfold view
    cases hq : tr j a' with
    | none => rfl
    | some q =>
      have hqp : q ≠ p := by
        rintro rfl
        exact hne (h j i a' a q hq hp)
      simp [hqp]
  funext j a'
  by_cases hj : j = i
  · subst hj
    rw [Function.update_self]
    by_cases ha : a' = a
    · subst ha
      simp [view, hp]
    · rw [Function.update_of_ne ha]
      exact hother j a' fun hne => ha hne.2
  · rw [Function.update_of_ne hj]
    exact hother j a' fun hne => hj hne.1

end View

/-! ## Stores one after another -/

section Stores

variable [DecidableEq φ] {tr tr' : α → Option φ} {mem mem' : φ → β} {xs : List (α × β)} {a : α} {p : φ}

/-- The bytes are stored at their addresses, in order; `none` when one of them leads nowhere. -/
def storeAll (tr : α → Option φ) (mem : φ → β) : List (α × β) → Option (φ → β)
  | [] => some mem
  | x :: xs =>
    match tr x.1 with
    | none => none
    | some p => storeAll tr (Function.update mem p x.2) xs

/-- The stores go through when all of their addresses lead somewhere. -/
theorem storeAll_isSome : (storeAll tr mem xs).isSome = true ↔ ∀ x ∈ xs, (tr x.1).isSome = true := by
  induction xs generalizing mem with
  | nil => simp [storeAll]
  | cons x xs ih =>
    rw [storeAll, List.forall_mem_cons]
    cases hp : tr x.1 with
    | none => simp
    | some p => simp [ih]

/-- The stores leave every place that none of their addresses leads to. -/
theorem storeAll_elsewhere (hs : storeAll tr mem xs = some mem') (hp : ∀ x ∈ xs, tr x.1 ≠ some p) :
    mem' p = mem p := by
  induction xs generalizing mem with
  | nil =>
    cases hs
    rfl
  | cons x xs ih =>
    obtain ⟨hx, hrest⟩ := List.forall_mem_cons.1 hp
    rw [storeAll] at hs
    cases hq : tr x.1 with
    | none =>
      rw [hq] at hs
      cases hs
    | some q =>
      rw [hq] at hs hx
      have hpq : p ≠ q := fun heq => hx (by rw [heq])
      rw [ih hs hrest, Function.update_of_ne hpq]

/-- Stores that go through do so in a translation of more addresses. -/
theorem storeAll_mono (h : ∀ a p, tr a = some p → tr' a = some p) (hs : storeAll tr mem xs = some mem') :
    storeAll tr' mem xs = some mem' := by
  induction xs generalizing mem with
  | nil => exact hs
  | cons x xs ih =>
    rw [storeAll] at hs ⊢
    cases hq : tr x.1 with
    | none =>
      rw [hq] at hs
      cases hs
    | some q =>
      rw [hq] at hs
      rw [h x.1 q hq]
      exact ih hs

variable [DecidableEq α]

/-- The last byte that is stored at an address. -/
def lastAt : List (α × β) → α → Option β
  | [], _ => none
  | x :: xs, a => (lastAt xs a).or (if x.1 = a then some x.2 else none)

theorem lastAt_append (xs ys : List (α × β)) (a : α) : lastAt (xs ++ ys) a = (lastAt ys a).or (lastAt xs a) := by
  induction xs with
  | nil => simp [lastAt]
  | cons x xs ih => simp [lastAt, ih, Option.or_assoc]

theorem lastAt_none : lastAt xs a = none ↔ ∀ x ∈ xs, x.1 ≠ a := by
  induction xs with
  | nil => simp [lastAt]
  | cons x xs ih => simp [lastAt, ih, and_comm]

/-- **After the stores** an address leads to the last byte that was stored there. -/
theorem storeAll_at (h : OneToOne tr) (hs : storeAll tr mem xs = some mem') (ha : tr a = some p) :
    mem' p = (lastAt xs a).getD (mem p) := by
  induction xs generalizing mem with
  | nil =>
    cases hs
    rfl
  | cons x xs ih =>
    rw [storeAll] at hs
    cases hq : tr x.1 with
    | none =>
      rw [hq] at hs
      cases hs
    | some q =>
      rw [hq] at hs
      rw [ih hs, lastAt]
      by_cases hx : x.1 = a
      · rw [hx, ha] at hq
        cases hq
        cases lastAt xs a <;> simp [hx]
      · have hpq : p ≠ q := by
          rintro rfl
          exact hx (h x.1 a p hq ha)
        cases lastAt xs a <;> simp [hx, hpq]

end Stores

/-! ## Private memories -/

section Private

/-- What happens to the memories of several processes. -/
inductive Label (ι α β : Type*) where
  | silent
  | reads (i : ι) (a : α) (b : β)
  | writes (i : ι) (a : α) (b : β)
  /-- addresses of `i` come, and those in `gone` may go -/
  | remaps (i : ι) (gone : Set α)

variable [DecidableEq ι] [DecidableEq α] {f f' f'' : ι → α → Option β} {l : Label ι α β} {ls ls' : List (Label ι α β)}
  {i : ι} {a : α} {b c : β}

/-- **Private memories**: what one process does changes its own memory only, and that as it says. -/
def Step (f f' : ι → α → Option β) : Label ι α β → Prop
  | .silent => f' = f
  | .reads i a b => f' = f ∧ f i a = some b
  | .writes i a b => (f i a).isSome = true ∧ f' = Function.update f i (Function.update (f i) a (some b))
  | .remaps i gone => (∀ j, j ≠ i → f' j = f j) ∧ ∀ a, a ∉ gone → ∀ b, f i a = some b → f' i a = some b

inductive Run : (ι → α → Option β) → List (Label ι α β) → (ι → α → Option β) → Prop where
  | nil {f : ι → α → Option β} : Run f [] f
  | cons {f f' f'' : ι → α → Option β} {l : Label ι α β} {ls : List (Label ι α β)} (h : Step f f' l)
      (hrest : Run f' ls f'') : Run f (l :: ls) f''

/-- Neither a store nor a change of addresses at `a` of `i`. -/
def Leaves (i : ι) (a : α) : Label ι α β → Prop
  | .writes j a' _ => ¬ (j = i ∧ a' = a)
  | .remaps j gone => j = i → a ∉ gone
  | _ => True

theorem Step.leaves (h : Step f f' l) (hl : Leaves i a l) (hf : f i a = some b) : f' i a = some b := by
  cases l with
  | silent =>
    cases h
    exact hf
  | reads j a' c =>
    cases h.1
    exact hf
  | writes j a' c =>
    cases h.2
    by_cases hj : i = j
    · subst hj
      have ha : a ≠ a' := fun heq => hl ⟨rfl, heq.symm⟩
      rw [Function.update_self, Function.update_of_ne ha, hf]
    · rw [Function.update_of_ne hj, hf]
  | remaps j gone =>
    by_cases hj : i = j
    · subst hj
      exact h.2 a (hl rfl) b hf
    · rw [h.1 i hj, hf]

theorem Run.leaves (h : Run f ls f') (hl : ∀ l ∈ ls, Leaves i a l) (hf : f i a = some b) : f' i a = some b := by
  induction h with
  | nil => exact hf
  | cons h _ ih =>
    obtain ⟨hfirst, hrest⟩ := List.forall_mem_cons.1 hl
    exact ih hrest (h.leaves hfirst hf)

theorem Run.split (h : Run f (ls ++ ls') f'') : ∃ f', Run f ls f' ∧ Run f' ls' f'' := by
  induction ls generalizing f with
  | nil => exact ⟨f, .nil, h⟩
  | cons l ls ih =>
    cases h with
    | cons h hrest =>
      obtain ⟨f', h1, h2⟩ := ih hrest
      exact ⟨f', .cons h h1, h2⟩

/-- **A read gives back what was stored last**, whatever the other processes do in between. -/
theorem Run.read_back {ls1 ls2 ls3 : List (Label ι α β)}
    (h : Run f (ls1 ++ .writes i a b :: (ls2 ++ .reads i a c :: ls3)) f') (hl : ∀ l ∈ ls2, Leaves i a l) : c = b := by
  obtain ⟨f1, -, h1⟩ := h.split
  cases h1 with
  | cons hw h2 =>
    obtain ⟨f3, h3, h4⟩ := h2.split
    cases h4 with
    | cons hr _ =>
      have hb : f3 i a = some b := by
        apply h3.leaves hl
        rw [hw.2, Function.update_self, Function.update_self]
      rw [hr.2] at hb
      cases hb
      rfl

end Private

end AddressSpace
