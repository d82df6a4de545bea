import SimplexMethod.Config
import SimplexMethod.PivotRule
import SimplexMethod.Traced

/-!
# The primal method

From a basic feasible solution, columns of negative reduced cost enter the basis until none is
left.  A run is a bounded number of steps; a step either ends the run or gives the next tableau.
-/

namespace SimplexMethod

open Outcome

variable {α : Type} [Scalar α]

inductive Prospect (α : Type) where
  | optimal
  | unbounded (column : Nat)
  | pivot (cost : α) (pivot : Pivot α)

namespace Tableau

/-- A tableau that is checked must be at a basic feasible solution. -/
def checkFeasible (t : Tableau α) (config : Config α) : Outcome α Unit :=
  if config.checked then do require ((← t.isBasicFeasible) = true) else .ok ()

def checkedCosts (t : Tableau α) (config : Config α) : Outcome α (Vec α) := do
  t.checkFeasible config
  t.reducedCosts

def prospect (t : Tableau α) (rule : PivotRule) : Outcome α (Prospect α) := do
  match ← rule.enteringColumn t with
  | none => return .optimal
  | some (entering, cost) =>
    match ← t.limitingPivot entering with
    | none => return .unbounded entering
    | some pivot => return .pivot cost pivot

end Tableau

namespace Primal

def progress (config : Config α) (iteration : Nat) (t : Tableau α) : Traced α Unit := do
  if config.Reports iteration then
    Traced.emit (.primalProgress iteration (← t.objective))

def step (rule : PivotRule) (config : Config α) (iteration : Nat) (t : Tableau α) :
    Traced α (Option (Tableau α)) := do
  Traced.emit (.primalState iteration t (← t.checkedCosts config))
  match ← t.prospect rule with
  | .optimal =>
    Traced.emit (.primalOptimal iteration (← t.objective))
    return none
  | .unbounded column =>
    Traced.emit (.primalUnbounded column iteration)
    Traced.fail .unbounded
  | .pivot cost pivot =>
    Traced.emit (.primalPivot iteration cost pivot)
    let next ← t.pivot pivot
    progress config (iteration + 1) next
    return some next

/-- How a run ended: the tableau it left behind and, at an optimum, the number of iterations. -/
structure Run (α : Type) where
  events : List (Event α)
  tableau : Tableau α
  outcome : Outcome α Nat

/-- A run of at most `limit` steps, the first of which counts as the given iteration. -/
def run (rule : PivotRule) (config : Config α) : (limit iteration : Nat) → Tableau α → Run α
  | 0, _, t => ⟨[], t, .error .iterationLimit⟩
  | limit + 1, iteration, t =>
    let stepped := step rule config iteration t
    match stepped.outcome with
    | .error fault => ⟨stepped.events, t, .error fault⟩
    | .ok none => ⟨stepped.events, t, .ok iteration⟩
    | .ok (some next) =>
      let rest := run rule config limit (iteration + 1) next
      { rest with events := stepped.events ++ rest.events }

namespace Run

def optimum (run : Run α) : Traced α (Tableau α × Nat) :=
  ⟨run.events, run.outcome.map fun iterations => (run.tableau, iterations)⟩

end Run

end Primal

namespace Tableau

def primal (t : Tableau α) (rule : PivotRule) (config : Config α) (limit : Nat) : Primal.Run α :=
  Primal.run rule config limit 0 t

end Tableau

namespace LinearProgram

def primalStart (p : LinearProgram α) (upkeep : Upkeep) (basis : List Nat) (config : Config α) :
    Outcome α (Tableau α) := do
  let t ← Tableau.start upkeep p basis config.tolerance
  let basicValues ← (List.range t.numEquations).mapM t.basicValue
  match basicValues.zipIdx.find? fun entry => entry.1 < -config.tolerance with
  | some (value, row) => fail (.invalidBasis (.negativeValue row value))
  | none => return t

def solvePrimal (p : LinearProgram α) (upkeep : Upkeep) (rule : PivotRule) (basis : List Nat)
    (config : Config α) (limit : Nat) : Traced α (Solution α) := do
  let t ← p.primalStart upkeep basis config
  let (last, iterations) ← (t.primal rule config limit).optimum
  last.solution iterations

end LinearProgram

end SimplexMethod
