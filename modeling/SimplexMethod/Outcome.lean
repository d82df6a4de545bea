/-!
# Outcomes

What can keep a computation from returning a value.  A `Failure` is a finding about the problem or
about data handed to the solver.  A broken requirement means that an operation was called with
arguments that its contract excludes, and the iteration limit says nothing about the problem.
-/

namespace SimplexMethod

inductive Mismatch where
  | costLength (length columns : Nat)
  | rowLength (row length expected : Nat)
  | rightHandSideLength (length rows : Nat)
  | tooManyRows (rows columns : Nat)
  | dualLength (length rows : Nat)
deriving DecidableEq

inductive BasisDefect (α : Type) where
  | wrongSize (indices rows : Nat)
  | outOfRange (index columns : Nat)
  | repeated (index : Nat)
  | negativeValue (row : Nat) (value : α)
  | negativeReducedCost (column : Nat) (cost : α)
deriving DecidableEq

inductive Failure (α : Type) where
  | singularMatrix
  | unbounded
  | infeasible
  | dimensionMismatch (cause : Mismatch)
  | invalidBasis (defect : BasisDefect α)
deriving DecidableEq

inductive Fault (α : Type) where
  | failed (failure : Failure α)
  | requirement
  | iterationLimit
deriving DecidableEq

abbrev Outcome (α β : Type) := Except (Fault α) β

namespace Outcome

variable {α β : Type}

def fail (failure : Failure α) : Outcome α β := .error (.failed failure)

def require (condition : Prop) [Decidable condition] : Outcome α Unit :=
  if condition then .ok () else .error .requirement

/-- The value of an operation whose requirements the caller has to meet. -/
def demand : Option β → Outcome α β
  | some value => .ok value
  | none => .error .requirement

end Outcome

end SimplexMethod
