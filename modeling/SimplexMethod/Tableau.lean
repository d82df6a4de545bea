import SimplexMethod.BasisInverse
import SimplexMethod.BasisQuantities
import SimplexMethod.Selection
import SimplexMethod.Solution

/-!
# The tableau

The state of the primal method: a basis, the inverse of its matrix and the values of all variables.
The tableau itself is not stored.  Its columns and costs are computed from the problem and the
inverse when they are needed.
-/

namespace SimplexMethod

structure Tableau (α : Type) where
  problem : LinearProgram α
  inverse : BasisInverse α
  basis : List Nat
  members : List Nat
  values : Vec α
  tolerance : α
deriving DecidableEq

/-- A basis change of the primal method: the step is the value that the entering variable takes. -/
structure Pivot (α : Type) where
  entering : Nat
  column : Vec α
  row : Nat
  leaving : Nat
  step : α

namespace Tableau

open Outcome

variable {α : Type} [Scalar α]

def numEquations (t : Tableau α) : Nat := t.problem.numEquations

def numVariables (t : Tableau α) : Nat := t.problem.numVariables

/-! ## Construction -/

def startWith (p : LinearProgram α) (inverse : BasisInverse α) (basis : List Nat) (tolerance : α) :
    Outcome α (Tableau α) := do
  require (basis.length = p.numEquations)
  require (inverse.size = p.numEquations)
  let basicValues ← inverse.express p.rhs
  let values ← demand (Vec.scatter? p.numVariables basis basicValues)
  return { problem := p, inverse, basis, members := basis.eraseDups, values, tolerance }

def start (upkeep : Upkeep) (p : LinearProgram α) (basis : List Nat) (tolerance : α) :
    Outcome α (Tableau α) := do
  p.checkBasis basis
  let inverse ← BasisInverse.ofBasis upkeep p basis
  startWith p inverse basis tolerance

/-! ## Quantities -/

def multipliers (t : Tableau α) : Outcome α (Vec α) := do
  let costs ← demand (t.problem.costsOf? t.basis)
  t.inverse.multipliers costs

def reducedCost (t : Tableau α) (j : Nat) : Outcome α α := do
  let column ← demand (t.problem.column? j)
  let cost ← demand t.problem.cost[j]?
  let y ← t.multipliers
  return cost - (← demand (Vec.dot? y column))

def reducedCosts (t : Tableau α) : Outcome α (Vec α) := do
  let y ← t.multipliers
  demand (t.problem.reducedCostsFor? y)

def express (t : Tableau α) (j : Nat) : Outcome α (Vec α) := do
  t.inverse.express (← demand (t.problem.column? j))

def expressEntry (t : Tableau α) (i j : Nat) : Outcome α α := do
  require (i < t.numEquations)
  t.inverse.expressEntry i (← demand (t.problem.column? j))

def isBasic (t : Tableau α) (j : Nat) : Outcome α Bool := do
  require (j < t.numVariables)
  return t.members.contains j

def nonbasic (t : Tableau α) : List Nat :=
  (List.range t.numVariables).filter fun j => !t.members.contains j

def basicValue (t : Tableau α) (i : Nat) : Outcome α α := do
  require (i < t.numEquations)
  let j ← demand t.basis[i]?
  demand t.values[j]?

def objective (t : Tableau α) : Outcome α α := demand (t.problem.objective? t.values)

def solution (t : Tableau α) (iterations : Nat) : Outcome α (Solution α) :=
  demand (Solution.at? t.problem t.values t.basis iterations)

def isBasicFeasible (t : Tableau α) : Outcome α Bool := do
  let feasible ← demand (t.problem.isNearlyFeasible? t.values t.tolerance)
  return feasible && t.nonbasic.all fun j => t.values.getD j 0 == 0

/-! ## Pivots -/

/-- The row in which a basic variable first reaches zero as the variable of the column grows, and
the growth at that point. -/
def limitingRow (t : Tableau α) (column : Vec α) : Outcome α (Option (Nat × α)) := do
  require (column.length = t.numEquations)
  let directions := column.zipIdx.filter fun entry => t.tolerance < entry.1
  let ratios ← directions.mapM fun entry => return (entry.2, (← t.basicValue entry.2) / entry.1)
  return firstLeast? ratios

/-- Rounding errors should not make a point infeasible. -/
def clamp (t : Tableau α) (value : α) : α :=
  if value < 0 ∧ -t.tolerance < value then 0 else value

def moveValues (t : Tableau α) (entering row : Nat) (column : Vec α) (step : α) : Vec α :=
  let moved := t.basis.zipIdx.foldl
    (fun values basic =>
      if basic.2 = row then values
      else values.set basic.1
        (t.clamp (values.getD basic.1 0 - step * column.getD basic.2 0)))
    t.values
  (moved.set (t.basis.getD row 0) 0).set entering step

/-- The entering column takes the place of the basic column in the row.  If the inverse can not
follow, nothing changes. -/
def exchange (t : Tableau α) (entering row : Nat) (column : Vec α) (step : α) :
    Outcome α (Tableau α) := do
  require (row < t.numEquations)
  require (entering ∉ t.members)
  let replacing ← demand (t.problem.column? entering)
  let inverse ← t.inverse.exchange row replacing column
  require (∀ i < t.numEquations, i ≠ row → i < column.length)
  let leaving ← demand t.basis[row]?
  require (leaving ∈ t.members)
  return { t with
    inverse
    basis := t.basis.set row entering
    members := entering :: t.members.erase leaving
    values := t.moveValues entering row column step }

def limitingPivot (t : Tableau α) (entering : Nat) : Outcome α (Option (Pivot α)) := do
  let column ← t.express entering
  match ← t.limitingRow column with
  | none => return none
  | some (row, step) =>
    let leaving ← demand t.basis[row]?
    return some { entering, column, row, leaving, step }

def pivot (t : Tableau α) (pivot : Pivot α) : Outcome α (Tableau α) :=
  t.exchange pivot.entering pivot.row pivot.column pivot.step

end Tableau

end SimplexMethod
