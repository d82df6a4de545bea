import SimplexMethod.Primal

/-!
# Feasible starts

A feasible basis is found with artificial variables, one per equation, whose sum the primal method
minimises.  If the sum reaches zero, the artificials left in the basis are exchanged for columns of
the problem.  An equation whose artificial can not be exchanged is a combination of the others and
is taken out.
-/

namespace SimplexMethod

structure FeasibleStart (α : Type) where
  problem : LinearProgram α
  basis : List Nat
  values : Vec α
  /-- The equations taken out, by their positions in the given problem. -/
  removedRows : List Nat
deriving DecidableEq

open Outcome

variable {α : Type} [Scalar α]

namespace LinearProgram

def artificial (p : LinearProgram α) : Outcome α (LinearProgram α) := do
  let constraints ← demand (p.constraints.beside? (RowMatrix.identity p.numEquations))
  create (List.replicate p.numVariables 0 ++ List.replicate p.numEquations 1) constraints p.rhs

def artificialStart (p : LinearProgram α) (upkeep : Upkeep) (config : Config α) :
    Outcome α (Tableau α) := do
  require (config.checked = true → ∀ value ∈ p.rhs, 0 ≤ value)
  let artificial ← p.artificial
  Tableau.startWith artificial (BasisInverse.identity upkeep p.numEquations)
    (List.range' p.numVariables p.numEquations) config.tolerance

end LinearProgram

namespace Tableau

def basicArtificials (t : Tableau α) (columns : Nat) : List (Nat × Nat) :=
  (List.range' columns (t.numVariables - columns)).filterMap fun artificial =>
    (t.basis.idxOf? artificial).map fun row => (artificial, row)

def replacement (t : Tableau α) (columns row : Nat) : Outcome α (Option Nat) := do
  let elements ← (t.nonbasic.filter (· < columns)).mapM fun j =>
    return (j, ← t.expressEntry row j)
  return (elements.find? fun element => t.tolerance < Scalar.abs element.2).map (·.1)

/-- Exchanges artificials for columns of the problem, and names the equations whose artificial has
to stay. -/
def exchangeArtificials (columns : Nat) :
    Tableau α → List (Nat × Nat) → Traced α (Tableau α × List Nat)
  | t, [] => return (t, [])
  | t, (artificial, row) :: rest => do
    match ← t.replacement columns row with
    | some entering =>
      Traced.emit (.artificialReplaced entering artificial row)
      let column ← t.express entering
      let next ← t.exchange entering row column 0
      exchangeArtificials columns next rest
    | none =>
      let (last, rows) ← exchangeArtificials columns t rest
      return (last, (artificial - columns) :: rows)

end Tableau

namespace FeasibleStart

inductive Finding (α : Type) where
  | feasible (basis : List Nat) (values : Vec α)
  | redundant (rows : List Nat)
deriving DecidableEq

def conclude (t : Tableau α) (columns : Nat) (rows : List Nat) : Outcome α (Finding α) := do
  require (rows.Pairwise (· ≤ ·))
  if rows.isEmpty then
    require (∀ j ∈ t.basis, j < columns)
    return .feasible t.basis (t.values.take columns)
  else return .redundant rows

/-- What is made of the least sum of the artificial variables. -/
def settle (p : LinearProgram α) (config : Config α) (least : Tableau α) (iterations : Nat) :
    Traced α (Finding α) := do
  let infeasibility ← least.objective
  Traced.emit (.artificialSum infeasibility iterations)
  if config.tolerance * Scalar.max (Vec.oneNorm p.rhs) 1 < infeasibility then
    Traced.emit .artificialSumPositive
    Traced.fail .infeasible
  else
    let artificials := least.basicArtificials p.numVariables
    let (last, rows) ← least.exchangeArtificials p.numVariables artificials
    conclude last p.numVariables rows

def find (p : LinearProgram α) (upkeep : Upkeep) (rule : PivotRule) (config : Config α)
    (limit : Nat) : Traced α (Finding α) := do
  let start ← p.artificialStart upkeep config
  let (least, iterations) ← (start.primal rule config limit).optimum
  settle p config least iterations

def create (problem : LinearProgram α) (basis : List Nat) (values : Vec α)
    (removedRows : List Nat) : Outcome α (FeasibleStart α) := do
  require (basis.length = problem.numEquations)
  require (values.length = problem.numVariables)
  return { problem, basis, values, removedRows }

end FeasibleStart

/-- What a problem has been reduced to: the positions that its equations have in the given problem, and
the positions of those taken out, round by round. -/
structure Reduction (α : Type) where
  problem : LinearProgram α
  remaining : List Nat
  removed : List Nat

namespace Reduction

/-- Positions in ascending order. -/
def insertSorted (i : Nat) : List Nat → List Nat
  | [] => [i]
  | j :: rest => if i ≤ j then i :: j :: rest else j :: insertSorted i rest

def sorted (positions : List Nat) : List Nat := positions.foldr insertSorted []

def first (p : LinearProgram α) : Reduction α :=
  ⟨p.normalize, List.range p.numEquations, []⟩

def takeOut (r : Reduction α) (redundant : List Nat) : Outcome α (Reduction α) := do
  let positions ← redundant.mapM fun i => demand r.remaining[i]?
  let remaining ← demand (Vec.dropPositions? r.remaining redundant)
  let problem ← demand (r.problem.dropRows? redundant)
  return { problem, remaining, removed := r.removed ++ positions }

end Reduction

namespace FeasibleStart

/-- Takes redundant equations out until a feasible basis is found. -/
def search (upkeep : Upkeep) (rule : PivotRule) (config : Config α) (limit : Nat) :
    (rounds : Nat) → Reduction α → Traced α (FeasibleStart α)
  | 0, _ => Traced.ofOutcome (.error .iterationLimit)
  | rounds + 1, r => do
    match ← find r.problem upkeep rule config limit with
    | .feasible basis values =>
      let removedRows := Reduction.sorted r.removed
      Traced.emit (.feasibleBasisFound removedRows)
      create r.problem basis values removedRows
    | .redundant redundant =>
      Traced.emit (.redundantRows redundant)
      search upkeep rule config limit rounds (← r.takeOut redundant)

end FeasibleStart

namespace LinearProgram

/-- Finds a feasible basis.  There is a round to spare for every equation that could be taken
out. -/
def findFeasible (p : LinearProgram α) (upkeep : Upkeep) (rule : PivotRule) (config : Config α)
    (limit : Nat) : Traced α (FeasibleStart α) := do
  if !p.negativeRows.isEmpty then
    Traced.emit (.rowsNegated p.negativeRows)
  FeasibleStart.search upkeep rule config limit (p.numEquations + 1) (Reduction.first p)

def solve (p : LinearProgram α) (upkeep : Upkeep) (rule : PivotRule) (config : Config α)
    (limit : Nat) : Traced α (Solution α) := do
  let found ← p.findFeasible upkeep rule config limit
  if !found.removedRows.isEmpty then
    Traced.emit (.rowsLeftOut found.removedRows)
  found.problem.solvePrimal upkeep rule found.basis config limit

end LinearProgram

end SimplexMethod
