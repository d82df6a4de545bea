/-!
# Scalars

The arithmetic that every routine of the library is written over.  The solver runs at `Float`;
statements about exact arithmetic read the same definitions at an ordered field.
-/

namespace SimplexMethod

class Scalar (α : Type) extends Zero α, One α, Add α, Sub α, Mul α, Div α, Neg α,
    LT α, LE α, BEq α, OfScientific α where
  abs : α → α
  /-- Whether a value is at least the negative square root of a tolerance.  The scalars need not
  contain the root. -/
  negSqrtLe (tolerance value : α) : Bool
  /-- Whether a distance is at most a scale times the square root of a tolerance. -/
  leSqrtMul (tolerance scale distance : α) : Bool
  /-- Sums are accumulated from here, left to right. -/
  emptySum : α
  decideLt (x y : α) : Decidable (x < y)
  decideLe (x y : α) : Decidable (x ≤ y)

namespace Scalar

variable {α : Type} [Scalar α]

instance (x y : α) : Decidable (x < y) := decideLt x y

instance (x y : α) : Decidable (x ≤ y) := decideLe x y

/-- The larger of two numbers, and the other one if one of them is not a number. -/
def max (x y : α) : α := if y < x || y != y then x else y

def pivotTolerance : α := 1e-10

/-- Negative zero is the neutral element of rounded addition, so sums start there. -/
instance : Scalar Float where
  abs := Float.abs
  negSqrtLe tolerance value := -tolerance.sqrt ≤ value
  leSqrtMul tolerance scale distance := distance ≤ tolerance.sqrt * scale
  emptySum := -0.0
  decideLt := Float.decLt
  decideLe := Float.decLe

end Scalar

end SimplexMethod
