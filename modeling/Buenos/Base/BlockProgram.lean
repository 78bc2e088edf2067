import Mathlib.Tactic.Common

/-!
# Programs over a block device

Generic library: a sequential program whose only effects are block transfers, as a tree that is
either run to its end (`Prog.run`) or one transfer at a time (`Prog.step`), so that the same
program can be used both as a function and inside an interleaving of several threads.

* `Device` — a store of blocks whose transfers may fail.
* `Prog.run_step` — one transfer followed by the rest is the whole program.
* `Prog.ReadOnly` — programs that never write; running one leaves the device alone.
-/

namespace BlockProgram

/-- A store of blocks of type `B`; a transfer that fails returns `none`. -/
structure Device (D B : Type) where
  read : D → ℕ → Option B
  write : D → ℕ → B → Option D

/-- A sequential program: it returns, or performs one transfer and goes on with its outcome. -/
inductive Prog (B α : Type) where
  | ret (a : α)
  | read (n : ℕ) (k : Option B → Prog B α)
  | write (n : ℕ) (b : B) (k : Bool → Prog B α)

variable {D B α : Type}

/-- Run a program to its end. -/
def Prog.run (dev : Device D B) : Prog B α → D → α × D
  | .ret a, d => (a, d)
  | .read n k, d => (k (dev.read d n)).run dev d
  | .write n b k, d =>
    match dev.write d n b with
    | some d' => (k true).run dev d'
    | none => (k false).run dev d

/-- Perform one transfer. -/
def Prog.step (dev : Device D B) : Prog B α → D → Prog B α × D
  | .ret a, d => (.ret a, d)
  | .read n k, d => (k (dev.read d n), d)
  | .write n b k, d =>
    match dev.write d n b with
    | some d' => (k true, d')
    | none => (k false, d)

/-- **One transfer followed by the rest is the whole program.** -/
theorem Prog.run_step (dev : Device D B) (p : Prog B α) (d : D) :
    (p.step dev d).1.run dev (p.step dev d).2 = p.run dev d := by
  cases p with
  | ret a => rfl
  | read n k => rfl
  | write n b k =>
    simp only [Prog.step, Prog.run]
    split <;> rfl

/-- A program that never writes. -/
inductive Prog.ReadOnly : Prog B α → Prop
  | ret (a : α) : Prog.ReadOnly (.ret a)
  | read (n : ℕ) {k : Option B → Prog B α} (h : ∀ r, (k r).ReadOnly) : Prog.ReadOnly (.read n k)

theorem Prog.ReadOnly.step {dev : Device D B} {p : Prog B α} (h : p.ReadOnly) (d : D) :
    (p.step dev d).1.ReadOnly ∧ (p.step dev d).2 = d := by
  cases h with
  | ret a => exact ⟨.ret a, rfl⟩
  | read n h => exact ⟨h _, rfl⟩

/-- Running a read-only program leaves the device alone. -/
theorem Prog.ReadOnly.run {dev : Device D B} {p : Prog B α} (h : p.ReadOnly) (d : D) :
    (p.run dev d).2 = d := by
  induction h with
  | ret a => rfl
  | read n _ ih => exact ih _

end BlockProgram
