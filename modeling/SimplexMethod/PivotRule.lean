import SimplexMethod.Tableau

/-!
# Pivot rules

Which column enters the basis: one of those outside it whose reduced cost is below zero by more
than the tolerance.
-/

namespace SimplexMethod

inductive PivotRule where
  | leastIndex
  /-- The column of least reduced cost, of several the first. -/
  | mostNegative
deriving DecidableEq

variable {α : Type} [Scalar α]

namespace Tableau

def profitable (t : Tableau α) (costs : Vec α) : List (Nat × α) :=
  (t.nonbasic.map fun j => (j, costs.getD j 0)).filter fun candidate =>
    candidate.2 < -t.tolerance

end Tableau

namespace PivotRule

def choose? (rule : PivotRule) (candidates : List (Nat × α)) : Option (Nat × α) :=
  match rule with
  | leastIndex => candidates.head?
  | mostNegative => firstLeast? candidates

def enteringColumn (rule : PivotRule) (t : Tableau α) : Outcome α (Option (Nat × α)) := do
  let costs ← t.reducedCosts
  return rule.choose? (t.profitable costs)

end PivotRule

end SimplexMethod
