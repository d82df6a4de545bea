import SimplexMethod.Config
import SimplexMethod.Traced

/-!
# The dual method

From a basis without negative reduced costs, basic variables with negative values leave until none
is left.  The multipliers of the equations move along, and every iteration inverts the basis matrix
anew.
-/

namespace SimplexMethod

open Outcome

variable {α : Type} [Scalar α]

namespace Dual

structure State (α : Type) where
  basis : List Nat
  multipliers : Vec α
deriving DecidableEq

structure Deficit (α : Type) where
  basicValues : Vec α
  row : Nat
  leaving : Nat
  value : α
  inverseRow : Vec α
  tableauRow : Vec α
  reducedCosts : Vec α

inductive Position (α : Type) where
  | optimal (basicValues : Vec α)
  | deficient (deficit : Deficit α)

def locate (p : LinearProgram α) (config : Config α) (s : State α) : Outcome α (Position α) := do
  let inverse ← BasisInverse.ofBasis .reinversion p s.basis
  let basicValues ← inverse.express p.rhs
  match basicValues.zipIdx.find? fun entry => entry.1 < -config.tolerance with
  | none => return .optimal basicValues
  | some (value, row) =>
    let leaving ← demand s.basis[row]?
    let inverseRow ← inverse.row row
    let tableauRow ← demand (RowMatrix.vecMul? inverseRow p.constraints)
    let reducedCosts ← demand (p.reducedCostsFor? s.multipliers)
    return .deficient
      { basicValues, row, leaving, value, inverseRow, tableauRow, reducedCosts }

/-- The columns outside the basis with a negative entry in the leaving row, each with the step at
which its reduced cost reaches zero. -/
def candidates (p : LinearProgram α) (config : Config α) (basis : List Nat)
    (deficit : Deficit α) : List (Nat × α) :=
  let nonbasic := (List.range p.numVariables).filter fun j => !basis.contains j
  let entry (j : Nat) := deficit.tableauRow.getD j 0
  (nonbasic.filter fun j => entry j < -config.tolerance).map fun j =>
    (j, Scalar.max (deficit.reducedCosts.getD j 0) 0 / -entry j)

def move (s : State α) (deficit : Deficit α) (entering : Nat) (step : α) :
    Outcome α (State α) := do
  let multipliers ← demand (Vec.addScaled? s.multipliers (-step) deficit.inverseRow)
  return { basis := s.basis.set deficit.row entering, multipliers }

/-- Values below zero are within the tolerance of it and are taken as zero. -/
def finish (p : LinearProgram α) (basis : List Nat) (basicValues : Vec α)
    (iterations : Nat) : Outcome α (Solution α) := do
  let nonnegative := basicValues.map fun value => Scalar.max value 0
  let values ← demand (Vec.scatter? p.numVariables basis nonnegative)
  demand (Solution.at? p values basis iterations)

def progress (config : Config α) (iteration : Nat) (basicValues : Vec α) : Traced α Unit := do
  if config.Reports iteration then
    Traced.emit (.dualProgress iteration (Vec.sum (basicValues.filter (· < 0))))

inductive Step (α : Type) where
  | optimal (solution : Solution α)
  | next (state : State α)

def step (p : LinearProgram α) (config : Config α) (iteration : Nat) (s : State α) :
    Traced α (Step α) := do
  match ← locate p config s with
  | .optimal basicValues =>
    Traced.emit (.dualOptimal iteration)
    return .optimal (← finish p s.basis basicValues iteration)
  | .deficient deficit =>
    Traced.emit (.dualState iteration deficit.basicValues deficit.reducedCosts)
    match firstLeast? (candidates p config s.basis deficit) with
    | none =>
      Traced.emit (.dualInfeasible deficit.row iteration)
      Traced.fail .infeasible
    | some (entering, step) =>
      Traced.emit (.dualPivot iteration
        { leaving := deficit.leaving, row := deficit.row, value := deficit.value, entering, step })
      let next ← move s deficit entering step
      progress config (iteration + 1) deficit.basicValues
      return .next next

def run (p : LinearProgram α) (config : Config α) :
    (limit iteration : Nat) → State α → Traced α (Solution α)
  | 0, _, _ => Traced.ofOutcome (.error .iterationLimit)
  | limit + 1, iteration, s => do
    match ← step p config iteration s with
    | .optimal solution => return solution
    | .next state => run p config limit (iteration + 1) state

/-- The state of a basis with the given multipliers, or with those that belong to it.  No reduced
cost may be negative. -/
def start (p : LinearProgram α) (basis : List Nat) (multipliers : Option (Vec α))
    (config : Config α) : Outcome α (State α) := do
  p.checkBasis basis
  let multipliers ← match multipliers with
    | none => p.multipliers basis
    | some y =>
      if y.length = p.numEquations then pure y
      else fail (.dimensionMismatch (.dualLength y.length p.numEquations))
  let costs ← demand (p.reducedCostsFor? multipliers)
  match costs.zipIdx.find? fun entry => entry.1 < -config.tolerance with
  | some (cost, column) => fail (.invalidBasis (.negativeReducedCost column cost))
  | none => return { basis, multipliers }

end Dual

namespace LinearProgram

def solveDual (p : LinearProgram α) (basis : List Nat) (multipliers : Option (Vec α))
    (config : Config α) (limit : Nat) : Traced α (Solution α) := do
  Dual.run p config limit 0 (← Dual.start p basis multipliers config)

end LinearProgram

end SimplexMethod
