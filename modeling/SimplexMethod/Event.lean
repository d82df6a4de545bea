import SimplexMethod.Tableau

/-!
# Events

What the solvers tell about their progress, as data.
-/

namespace SimplexMethod

inductive Level where
  | error
  | warn
  | info
  | debug
  | trace
deriving DecidableEq

namespace Level

def rank : Level → Nat
  | error => 1
  | warn => 2
  | info => 3
  | debug => 4
  | trace => 5

end Level

/-- A basis change of the dual method: the step is the move of the dual solution. -/
structure DualPivot (α : Type) where
  leaving : Nat
  row : Nat
  value : α
  entering : Nat
  step : α

inductive Event (α : Type) where
  | primalState (iteration : Nat) (tableau : Tableau α) (reducedCosts : Vec α)
  | primalPivot (iteration : Nat) (cost : α) (pivot : Pivot α)
  | primalUnbounded (column iterations : Nat)
  | primalOptimal (iterations : Nat) (objective : α)
  | primalProgress (iteration : Nat) (objective : α)
  | rowsNegated (rows : List Nat)
  | artificialSum (value : α) (iterations : Nat)
  | artificialSumPositive
  | artificialReplaced (column artificial row : Nat)
  | redundantRows (rows : List Nat)
  | feasibleBasisFound (removedRows : List Nat)
  | rowsLeftOut (rows : List Nat)
  | dualState (iteration : Nat) (basicValues reducedCosts : Vec α)
  | dualPivot (iteration : Nat) (pivot : DualPivot α)
  | dualInfeasible (row iterations : Nat)
  | dualOptimal (iterations : Nat)
  | dualProgress (iteration : Nat) (infeasibility : α)

namespace Event

variable {α : Type}

def level : Event α → Level
  | feasibleBasisFound _ | rowsLeftOut _ => .info
  | primalState .. | primalPivot .. | dualState .. | dualPivot .. => .trace
  | _ => .debug

def upTo (most : Level) (events : List (Event α)) : List (Event α) :=
  events.filter fun event => event.level.rank ≤ most.rank

end Event

end SimplexMethod
