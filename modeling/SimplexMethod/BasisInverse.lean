import SimplexMethod.LinearProgram
import SimplexMethod.RowMatrix.Inversion

/-!
# Maintained basis inverses

A basis changes by one column at a time.  The product form updates an explicit inverse with one
elimination step per change; reinversion keeps the basis matrix and inverts it anew.
-/

namespace SimplexMethod

/-- How an inverse follows the changes of its basis. -/
inductive Upkeep where
  | productForm
  | reinversion
deriving DecidableEq

inductive BasisInverse (α : Type) where
  | productForm (inverse : RowMatrix α)
  | reinversion (basisMatrix inverse : RowMatrix α)
deriving DecidableEq

open Outcome

variable {α : Type} [Scalar α]

def eliminationColumn (column : Vec α) (position : Nat) : Outcome α (Vec α) := do
  let pivot ← demand column[position]?
  if Scalar.abs pivot ≤ Scalar.pivotTolerance then fail .singularMatrix
  else return Vec.scale (column.set position (-1)) (-1 / pivot)

namespace RowMatrix

/-- Every other row is changed while the pivot row is still unscaled. -/
def eliminateWith (a : RowMatrix α) (eta : Vec α) (position : Nat) : RowMatrix α :=
  (a.addRowMultiples position eta).scaleRow position (eta.getD position 0)

def eliminateWith? (a : RowMatrix α) (eta : Vec α) (position : Nat) : Option (RowMatrix α) :=
  if position < a.height ∧ a.height ≤ eta.length then some (a.eliminateWith eta position) else none

def inverseAfterExchange (inverse : RowMatrix α) (entering : Vec α) (position : Nat) :
    Outcome α (RowMatrix α) := do
  require (position < inverse.height)
  let column ← demand (inverse.mulVec? entering)
  let eta ← eliminationColumn column position
  demand (inverse.eliminateWith? eta position)

end RowMatrix

namespace BasisInverse

def inverse : BasisInverse α → RowMatrix α
  | productForm inverse => inverse
  | reinversion _ inverse => inverse

def size (b : BasisInverse α) : Nat := b.inverse.height

/-! ## Construction -/

def ofInverse? (inverse : RowMatrix α) : Option (BasisInverse α) :=
  if inverse.height = inverse.width then some (productForm inverse) else none

def identity (upkeep : Upkeep) (size : Nat) : BasisInverse α :=
  match upkeep with
  | .productForm => productForm (RowMatrix.identity size)
  | .reinversion => reinversion (RowMatrix.identity size) (RowMatrix.identity size)

def ofBasis (upkeep : Upkeep) (p : LinearProgram α) (basis : List Nat) :
    Outcome α (BasisInverse α) := do
  let basisMatrix ← demand (p.basisMatrix? basis)
  let inverse ← basisMatrix.invert
  match upkeep with
  | .productForm => demand (ofInverse? inverse)
  | .reinversion => return reinversion basisMatrix inverse

/-! ## Quantities -/

def express (b : BasisInverse α) (column : Vec α) : Outcome α (Vec α) :=
  demand (b.inverse.mulVec? column)

def expressEntry (b : BasisInverse α) (i : Nat) (column : Vec α) : Outcome α α := do
  let row ← demand (b.inverse.row? i)
  return Vec.dot row column

def row (b : BasisInverse α) (i : Nat) : Outcome α (Vec α) :=
  demand (b.inverse.row? i)

def multipliers (b : BasisInverse α) (basisCosts : Vec α) : Outcome α (Vec α) :=
  demand (RowMatrix.vecMul? basisCosts b.inverse)

/-! ## Basis changes -/

/-- The basis column in a position is replaced by `entering`, which is `column` in terms of the old
basis. -/
def exchange (b : BasisInverse α) (position : Nat) (entering column : Vec α) :
    Outcome α (BasisInverse α) :=
  match b with
  | productForm inverse => do
    let eta ← eliminationColumn column position
    return productForm (← demand (inverse.eliminateWith? eta position))
  | reinversion basisMatrix _ => do
    let basisMatrix ← demand (basisMatrix.withColumn? position entering)
    return reinversion basisMatrix (← basisMatrix.invert)

end BasisInverse

end SimplexMethod
