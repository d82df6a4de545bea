import SimplexMethod.RowMatrix
import SimplexMethod.Outcome

/-!
# Inversion

Elimination column by column, in every row, applied alongside to the identity.  The pivot of a
column is the first entry of largest magnitude among the rows that have not been used.
-/

namespace SimplexMethod.RowMatrix

variable {α : Type} [Scalar α]

def pivotRow (a : RowMatrix α) (column : Nat) : Nat :=
  (List.range' (column + 1) (a.height - (column + 1))).foldl
    (fun best i =>
      if Scalar.abs (a.entry best column) < Scalar.abs (a.entry i column) then i else best)
    column

/-- A matrix on the way to the identity, and what the same row operations make of the identity. -/
structure Elimination (α : Type) where
  work : RowMatrix α
  inverse : RowMatrix α

namespace Elimination

def clearColumn (threshold : α) (state : Elimination α) (column : Nat) :
    Outcome α (Elimination α) :=
  let pivot := state.work.pivotRow column
  let value := state.work.entry pivot column
  if Scalar.abs value ≤ threshold then Outcome.fail .singularMatrix
  else
    let work := (state.work.swapRows column pivot).scaleRow column (1 / value)
    let inverse := (state.inverse.swapRows column pivot).scaleRow column (1 / value)
    let factors := (work.column column).map fun factor => -factor
    .ok ⟨work.addRowMultiples column factors, inverse.addRowMultiples column factors⟩

end Elimination

def pivotThreshold (a : RowMatrix α) : α := Scalar.pivotTolerance * Scalar.max a.supNorm 1

def invert (a : RowMatrix α) : Outcome α (RowMatrix α) := do
  Outcome.require (a.height = a.width)
  let last ← (List.range a.height).foldlM (Elimination.clearColumn a.pivotThreshold)
    ⟨a, identity a.height⟩
  return last.inverse

end SimplexMethod.RowMatrix
