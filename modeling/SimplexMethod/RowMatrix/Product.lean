import SimplexMethod.RowMatrix

/-!
# Products of matrices and vectors

A product with a vector on the right takes one sum per row.  A product with a vector on the left
adds up multiples of the rows, passing over the rows whose factor is zero.
-/

namespace SimplexMethod.RowMatrix

variable {α : Type} [Scalar α]

def mulVec (a : RowMatrix α) (x : Vec α) : Vec α := a.rows.map fun row => Vec.dot row x

def mulVec? (a : RowMatrix α) (x : Vec α) : Option (Vec α) :=
  if x.length = a.width then some (a.mulVec x) else none

def vecMul (y : Vec α) (a : RowMatrix α) : Vec α :=
  (a.rows.zip y).foldl
    (fun total weighted =>
      if weighted.2 == 0 then total else Vec.addScaled total weighted.2 weighted.1)
    (Vec.zeros a.width)

def vecMul? (y : Vec α) (a : RowMatrix α) : Option (Vec α) :=
  if y.length = a.height then some (vecMul y a) else none

def mul (a b : RowMatrix α) : RowMatrix α where
  rows := a.rows.map fun row => (List.range b.width).map fun j => Vec.dot row (b.column j)
  width := b.width
  rectangular := by simp

def mul? (a b : RowMatrix α) : Option (RowMatrix α) :=
  if a.width = b.height then some (a.mul b) else none

end SimplexMethod.RowMatrix
