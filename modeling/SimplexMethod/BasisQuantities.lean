import SimplexMethod.LinearProgram
import SimplexMethod.RowMatrix.Inversion

/-!
# Quantities of a basis

What a problem and a basis determine by themselves.  They serve to check the result of a solve
independently of the solver that produced it.
-/

namespace SimplexMethod.LinearProgram

open Outcome

variable {α : Type} [Scalar α]

def inverseAt (p : LinearProgram α) (basis : List Nat) : Outcome α (RowMatrix α) := do
  p.checkBasis basis
  let matrix ← demand (p.basisMatrix? basis)
  matrix.invert

def multipliers (p : LinearProgram α) (basis : List Nat) : Outcome α (Vec α) := do
  let inverse ← p.inverseAt basis
  let costs ← demand (p.costsOf? basis)
  demand (RowMatrix.vecMul? costs inverse)

def reducedCostsFor? (p : LinearProgram α) (y : Vec α) : Option (Vec α) :=
  (RowMatrix.vecMul? y p.constraints).map (Vec.sub p.cost)

def reducedCosts (p : LinearProgram α) (basis : List Nat) : Outcome α (Vec α) := do
  let y ← p.multipliers basis
  demand (p.reducedCostsFor? y)

def basicPoint (p : LinearProgram α) (basis : List Nat) : Outcome α (Vec α) := do
  let inverse ← p.inverseAt basis
  let values ← demand (inverse.mulVec? p.rhs)
  demand (Vec.scatter? p.numVariables basis values)

end SimplexMethod.LinearProgram
