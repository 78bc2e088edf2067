import Mathlib.Logic.Function.Basic

/-!
# Maps from resources to FIFO queues

* `Op` — an operation on the queues: join the end of one, take the first of one, empty one.
* `apply` — what the operation does to the map.
* `removed` — whom it takes out, in their order.
-/

namespace Buenos.Fifo

variable {ρ τ : Type*}

/-- An operation on a family of queues. -/
inductive Op (ρ τ : Type*) where
  | add (r : ρ) (t : τ)
  | wake (r : ρ)
  | wakeAll (r : ρ)
  deriving DecidableEq

variable [DecidableEq ρ]

/-- The queues after an operation. -/
def apply (q : ρ → List τ) : Op ρ τ → ρ → List τ
  | .add r t => Function.update q r (q r ++ [t])
  | .wake r => Function.update q r (q r).tail
  | .wakeAll r => Function.update q r []

/-- Whom an operation takes out of the queues. -/
def removed (q : ρ → List τ) : Op ρ τ → List τ
  | .add _ _ => []
  | .wake r => (q r).take 1
  | .wakeAll r => q r

end Buenos.Fifo
