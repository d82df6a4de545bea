import SimplexMethod.Event
import SimplexMethod.Text

/-!
# Messages

The wording of failures and events.
-/

namespace SimplexMethod

open Decimal

def Mismatch.text : Mismatch → String
  | costLength length columns =>
    s!"cost vector has length {length}, but there are {columns} columns"
  | rowLength row length expected =>
    s!"constraint row {row} has length {length}, but the cost vector has length {expected}"
  | rightHandSideLength length rows =>
    s!"right-hand side has length {length}, but there are {rows} rows"
  | tooManyRows rows columns =>
    "there should be fewer constraints than variables, but there are " ++
      s!"{rows} rows and {columns} columns"
  | dualLength length rows =>
    s!"dual solution has length {length}, but there are {rows} rows"

def BasisDefect.text : BasisDefect Float → String
  | wrongSize indices rows => s!"basis has {indices} indices, but there are {rows} rows"
  | outOfRange index columns => s!"index {index} is out of range for {columns} columns"
  | repeated index => s!"index {index} appears more than once"
  | negativeValue row value => s!"basic solution is negative in row {row} ({plain value})"
  | negativeReducedCost column cost =>
    s!"not dual feasible: column {column} has relative cost {plain cost}"

def Failure.message : Failure Float → String
  | singularMatrix => "basis matrix is singular"
  | unbounded => "problem is unbounded"
  | infeasible => "problem is infeasible"
  | dimensionMismatch cause => s!"dimension mismatch: {cause.text}"
  | invalidBasis defect => s!"invalid basis: {defect.text}"

def rankText (removedRows : List Nat) : String :=
  if removedRows.isEmpty then "Full" else s!"Deficient({indicesText removedRows})"

def Event.text : Event Float → String
  | primalState iteration tableau reducedCosts =>
    s!"primal iteration {iteration}\n{tableau.text reducedCosts}"
  | primalPivot iteration cost pivot =>
    s!"primal iteration {iteration}: column {pivot.entering} " ++
      s!"(relative cost {scientific cost}) enters in row {pivot.row} " ++
      s!"replacing column {pivot.leaving}, step {scientific pivot.step}"
  | primalUnbounded column iterations =>
    s!"primal: column {column} has no limiting row after {iterations} iterations, unbounded"
  | primalOptimal iterations objective =>
    s!"primal: optimal after {iterations} iterations, objective {plain objective}"
  | primalProgress iteration objective =>
    s!"primal iteration {iteration}: objective {plain objective}"
  | rowsNegated rows =>
    s!"phase one: negated rows {indicesText rows} to make the right-hand side nonnegative"
  | artificialSum value iterations =>
    s!"phase one: sum of artificial variables is {plain value} after {iterations} iterations"
  | artificialSumPositive => "phase one: infeasible"
  | artificialReplaced column artificial row =>
    s!"phase one: column {column} replaces artificial {artificial} in row {row}"
  | redundantRows rows =>
    s!"phase one: removing redundant rows {indicesText rows} and starting again"
  | feasibleBasisFound removedRows =>
    s!"phase one: found a feasible basis ({rankText removedRows})"
  | rowsLeftOut rows => s!"solving without redundant rows {indicesText rows}"
  | dualState iteration basicValues reducedCosts =>
    s!"dual iteration {iteration}: basic values {Vec.text basicValues}, " ++
      s!"relative costs {Vec.text reducedCosts}"
  | dualPivot iteration pivot =>
    s!"dual iteration {iteration}: column {pivot.leaving} leaves from row {pivot.row} " ++
      s!"(value {scientific pivot.value}), column {pivot.entering} enters, " ++
      s!"step {scientific pivot.step}"
  | dualInfeasible row iterations =>
    s!"dual: row {row} can't be made nonnegative after {iterations} iterations, infeasible"
  | dualOptimal iterations => s!"dual: optimal after {iterations} iterations"
  | dualProgress iteration infeasibility =>
    s!"dual iteration {iteration}: total infeasibility {plain infeasibility}"

end SimplexMethod
