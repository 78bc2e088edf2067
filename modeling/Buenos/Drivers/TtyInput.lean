import Buenos.Drivers.Tty

/-!
# Terminal input

What `tty_read` returns of the characters that `tty_interrupt_handle` reads from the data port.

* `Kept` — a list of the received characters, in order, that lacks only those that met a full ring.
* `InputOk` — what has been returned and what is in the ring are such a list.
* `NotFull` — the condition on a step: no character is read from the port while the ring is full.

The handler tests `read_count > TTY_BUF_SIZE`, so a character that meets a full ring is stored over the
oldest one. Principal results: `tty_input`, the input is in order in exactly those runs in which no
character meets a full ring, and `tty_overrun`, a run in which one does.
-/

namespace Buenos.Tty

open Transition

/-! ## The property and the condition -/

/-- The characters kept of those received; one is missing only if the ring was full when it came. -/
inductive Kept : List (UInt8 × ℤ) → List UInt8 → Prop
  | nil : Kept [] []
  | keep {rs ks} (c : UInt8) (n : ℤ) : Kept rs ks → Kept (rs ++ [(c, n)]) (ks ++ [c])
  | drop {rs ks} (c : UInt8) : Kept rs ks → Kept (rs ++ [(c, (TTY_BUF_SIZE : ℤ))]) ks

variable {τ : Type}

/-- The characters returned by `tty_read`, or copied by one that has not returned yet. -/
def delivered (s : State τ) : List UInt8 := flow s.reads

/-- The count is in range, and what is delivered and what is in the ring was received. -/
structure InputOk (s : State τ) : Prop where
  count_nonneg : 0 ≤ s.read.count
  count_le : s.read.count ≤ TTY_BUF_SIZE
  kept : Kept s.received (delivered s ++ s.read.contents TTY_BUF_SIZE)

/-- **The condition on a step**: no character is read from the data port while the ring is full. -/
def NotFull (s : State τ) : Action τ → Prop
  | .take _ (some _) => s.read.count ≠ TTY_BUF_SIZE
  | _ => True

instance (s : State τ) : ∀ a, Decidable (NotFull s a)
  | .take _ (some _) => inferInstanceAs (Decidable (_ ≠ _))
  | .take _ none | .ttyWrite _ _ _ | .ttyRead _ _ | .interrupt _ | .acquire _ | .go _ | .poll _ _ =>
    isTrue trivial

/-! ## Steps -/

/-- The ring is in range and the input in order. -/
structure InputInv (s : State τ) : Prop where
  ring : s.read.Valid TTY_BUF_SIZE
  kept : Kept s.received (delivered s ++ s.read.contents TTY_BUF_SIZE)

theorem InputInv.ok {s : State τ} (h : InputInv s) : InputOk s :=
  ⟨h.ring.count_nonneg, h.ring.count_le, h.kept⟩

theorem input_init : InputInv (State.init τ) := ⟨valid_empty, .nil⟩

section Steps

variable {s s' : State τ} {t : τ}

theorem InputInv.same (h : InputInv s) (hr : s'.read = s.read) (hrec : s'.received = s.received)
    (hreads : s'.reads = s.reads) : InputInv s' := by
  refine ⟨hr ▸ h.ring, ?_⟩
  unfold delivered
  rw [hr, hrec, hreads]
  exact h.kept

/-- A copying loop begins. -/
theorem InputInv.beginRead (h : InputInv s) : InputInv (s.beginRead t) := by
  refine ⟨h.ring, ?_⟩
  show Kept s.received (flow (s.reads ++ [⟨t, []⟩]) ++ s.read.contents TTY_BUF_SIZE)
  rw [flow_concat, List.append_nil]
  exact h.kept

/-- A character is copied to the caller. -/
theorem InputInv.deliver (h : InputInv s) (hreads : ∃ cs d, s.reads = cs ++ [⟨t, d⟩])
    (hc : 0 < s.read.count) : InputInv s.deliver := by
  obtain ⟨cs, d, hcs⟩ := hreads
  refine ⟨h.ring.pop hc, ?_⟩
  have hflow : flow (extend s.reads s.read.front) = delivered s ++ [s.read.front] := by
    unfold delivered
    rw [hcs, extend_concat, flow_concat, flow_concat, List.append_assoc]
  have hkept := h.kept
  rw [Ring.contents_pop h.ring hc] at hkept
  show Kept s.received (flow (extend s.reads s.read.front) ++ (s.read.pop TTY_BUF_SIZE).contents TTY_BUF_SIZE)
  rw [hflow, List.append_assoc]
  exact hkept

/-- A character is received while there is room. -/
theorem InputInv.receive (h : InputInv s) (c : UInt8) (hroom : s.read.count ≠ TTY_BUF_SIZE) :
    InputInv (s.receive c) := by
  have hlt : s.read.count < TTY_BUF_SIZE := lt_of_le_of_ne h.ring.count_le hroom
  have hread : (s.receive c).read = s.read.push TTY_BUF_SIZE c := if_neg (not_lt.2 hlt.le)
  refine ⟨hread ▸ h.ring.push hlt c, ?_⟩
  rw [hread, Ring.contents_push h.ring hlt, ← List.append_assoc]
  exact .keep c _ h.kept

/-- A character that meets a full ring is stored all the same. -/
theorem receive_full (c : UInt8) (hfull : s.read.count = TTY_BUF_SIZE) :
    (s.receive c).read.count = TTY_BUF_SIZE + 1 := by
  have hread : (s.receive c).read = s.read.push TTY_BUF_SIZE c := if_neg (not_lt.2 hfull.le)
  rw [hread, Ring.push_count, hfull]

variable [DecidableEq τ]

theorem InputInv.goStep (h : InputInv s) (hp : Places s) (hs : s.go t = some s') : InputInv s' := by
  have hh := hp.held t
  unfold State.go at hs
  split at hs
  · split at hs <;> cases hs <;> exact h.same rfl rfl rfl
  · split at hs <;> cases hs <;> exact h.same rfl rfl rfl
  · split at hs <;> cases hs <;> exact h.same rfl rfl rfl
  · split at hs <;> cases hs
    · exact h.same rfl rfl rfl
    · exact (h.beginRead (t := t)).same rfl rfl rfl
  · rename_i hpc
    rw [hpc] at hh
    obtain ⟨cs, d, hcs, -⟩ := hh
    split at hs <;> cases hs
    · rename_i hc
      exact (h.deliver ⟨cs, d, hcs⟩ hc.1).same rfl rfl rfl
    · exact h.same rfl rfl rfl
  · cases hs
    exact h.same rfl rfl rfl
  · cases hs

/-- Only `take` changes the input from the side of the device. -/
theorem InputInv.step {a : Action τ} (h : InputInv s) (hp : Places s) (hc : NotFull s a)
    (hs : step s a = some s') : InputInv s' := by
  cases a with
  | ttyWrite t buf len =>
    simp only [Tty.step] at hs
    split at hs <;> cases hs
    exact h.same rfl rfl rfl
  | ttyRead t len =>
    simp only [Tty.step] at hs
    split at hs <;> cases hs
    exact h.same rfl rfl rfl
  | interrupt t =>
    simp only [Tty.step] at hs
    split at hs <;> cases hs
    exact h.same rfl rfl rfl
  | acquire t =>
    have hlock : ∀ {p}, s.lock t p = some s' → InputInv s' := by
      intro p hl
      unfold State.lock at hl
      split at hl <;> cases hl
      exact h.same rfl rfl rfl
    simp only [Tty.step] at hs
    split at hs
    all_goals first | exact hlock hs | cases hs
  | go t => exact h.goStep hp hs
  | poll t bit =>
    simp only [Tty.step, State.poll] at hs
    split at hs
    · split at hs <;> cases hs <;> exact h.same rfl rfl rfl
    · split at hs <;> cases hs <;> exact h.same rfl rfl rfl
    · split at hs
      · cases hs
        exact h.same rfl rfl rfl
      · split at hs <;> cases hs <;> exact h.same rfl rfl rfl
    · split at hs <;> cases hs <;> exact h.same rfl rfl rfl
    · split at hs <;> cases hs <;> exact h.same rfl rfl rfl
    · cases hs
  | take t data =>
    simp only [Tty.step] at hs
    split at hs
    · cases data with
      | none =>
        cases hs
        exact h.same rfl rfl rfl
      | some c =>
        cases hs
        exact h.receive c hc
    · cases hs

/-- A step that does not meet the condition leaves the input out of order. -/
theorem not_inputOk_of_full {a : Action τ} (hs : step s a = some s') (hc : ¬ NotFull s a) :
    ¬ InputOk s' := by
  intro hok
  cases a with
  | take t data =>
    simp only [Tty.step] at hs
    cases data with
    | none => exact hc trivial
    | some c =>
      split at hs <;> cases hs
      have hfull := not_not.1 hc
      have hle := hok.count_le
      rw [receive_full c hfull] at hle
      omega
  | _ => exact hc trivial

/-! ## Runs -/

/-- **Terminal input**: in a run of any calls of `tty_read`, interrupts and arriving characters, the input
is in order in every state reached if and only if no character is read from the data port while the ring
holds `TTY_BUF_SIZE` characters. -/
theorem tty_input {as : List (Action τ)} (hr : run step (State.init τ) as = some s) :
    Every step (fun s a => ∀ s', step s a = some s' → InputOk s') (State.init τ) as ↔
      Every step NotFull (State.init τ) as := by
  refine every_iff (I := fun s => Places s ∧ InputInv s) ?_ ⟨places_init, input_init⟩ hr
  intro s a s' hi hs
  have hkeep : NotFull s a → InputInv s' := fun hc => hi.2.step hi.1 hc hs
  refine ⟨⟨fun hall => ?_, fun hc s1 h1 => ?_⟩, fun hc => ⟨hi.1.step hs, hkeep hc⟩⟩
  · by_contra hc
    exact not_inputOk_of_full hs hc (hall s' hs)
  · rw [hs] at h1
    cases h1
    exact (hkeep hc).ok

end Steps

/-- Two characters arrive, and the first one is read. -/
def twoCharacters : List (Action Bool) :=
  [.interrupt true, .poll true false, .poll true true, .acquire true, .poll true false,
    .take true (some 97), .take true (some 98), .take true none, .go true,
    .ttyRead false 1, .acquire false, .go false, .go false, .go false]

theorem tty_input_twoCharacters :
    ∃ s, run step (State.init Bool) twoCharacters = some s ∧ delivered s = [97] ∧
      s.read.contents TTY_BUF_SIZE = [98] ∧
      Every step (fun s a => ∀ s', step s a = some s' → InputOk s') (State.init Bool) twoCharacters := by
  have hrun : ∃ s, run step (State.init Bool) twoCharacters = some s ∧ delivered s = [97] ∧
      s.read.contents TTY_BUF_SIZE = [98] := by decide +kernel
  obtain ⟨s, hr, hdelivered, hring⟩ := hrun
  exact ⟨s, hr, hdelivered, hring, (tty_input hr).2 (by decide +kernel)⟩

/-- `k` characters arrive one after another, the last one perhaps at a full ring. -/
theorem run_takes {τ : Type} [DecidableEq τ] {t : τ} (c : UInt8) :
    ∀ (k : ℕ) (s : State τ), s.pc t = .handlerRead → s.read.count + k ≤ TTY_BUF_SIZE + 1 →
      ∃ s', run step s (List.replicate k (.take t (some c))) = some s' ∧ s'.read.count = s.read.count + k := by
  intro k
  induction k with
  | zero =>
    intro s _ _
    exact ⟨s, rfl, (Int.add_zero _).symm⟩
  | succ k ih =>
    intro s hpc hle
    have hstep : step s (.take t (some c)) = some (s.receive c) := if_pos hpc
    have hread : (s.receive c).read = s.read.push TTY_BUF_SIZE c := if_neg (by push_cast at hle; omega)
    have hcount : (s.receive c).read.count = s.read.count + 1 := by rw [hread, Ring.push_count]
    obtain ⟨s', hr, hc⟩ := ih (s.receive c) hpc (by rw [hcount]; push_cast at hle ⊢; omega)
    refine ⟨s', ?_, ?_⟩
    · rw [List.replicate_succ, run, hstep]
      exact hr
    · rw [hc, hcount]
      push_cast
      omega

/-- `TTY_BUF_SIZE + 1` characters are taken from the data port before a read. -/
def overrun : List (Action Unit) :=
  [.interrupt (), .poll () false, .poll () true, .acquire (), .poll () false] ++ List.replicate 2049 (.take () (some 0))

/-- **The overrun**: all of them are stored. -/
theorem tty_overrun : ∃ s, run step (State.init Unit) overrun = some s ∧ s.read.count = 2049 ∧ ¬ InputOk s := by
  have hstart : ∃ s, run step (State.init Unit)
      [.interrupt (), .poll () false, .poll () true, .acquire (), .poll () false] = some s ∧
      s.pc () = .handlerRead ∧ s.read.count = 0 := by decide +kernel
  obtain ⟨s, hr, hpc, hcount⟩ := hstart
  obtain ⟨s', hr', hcount'⟩ := run_takes 0 2049 s hpc (by rw [hcount]; decide)
  rw [hcount] at hcount'
  refine ⟨s', run_append hr hr', hcount', fun hok => ?_⟩
  have hle := hok.count_le
  rw [hcount'] at hle
  exact absurd hle (by decide)

end Buenos.Tty
