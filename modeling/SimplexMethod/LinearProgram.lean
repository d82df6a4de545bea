import SimplexMethod.Outcome
import SimplexMethod.RowMatrix.Product

/-!
# Linear programs

Minimise the cost over the nonnegative vectors that satisfy a system of equations.  There are
always fewer equations than variables.
-/

namespace SimplexMethod

structure LinearProgram (α : Type) where
  cost : Vec α
  constraints : RowMatrix α
  rhs : Vec α
  cost_length : cost.length = constraints.width
  rhs_length : rhs.length = constraints.height
  height_lt_width : constraints.height < constraints.width
deriving DecidableEq

namespace LinearProgram

open Outcome

variable {α : Type} [Scalar α]

def numEquations (p : LinearProgram α) : Nat := p.constraints.height

def numVariables (p : LinearProgram α) : Nat := p.constraints.width

/-! ## Construction -/

def create (cost : Vec α) (constraints : RowMatrix α) (rhs : Vec α) :
    Outcome α (LinearProgram α) :=
  if costFits : cost.length = constraints.width then
    if rhsFits : rhs.length = constraints.height then
      if short : constraints.height < constraints.width then
        .ok ⟨cost, constraints, rhs, costFits, rhsFits, short⟩
      else
        fail (.dimensionMismatch (.tooManyRows constraints.height constraints.width))
    else
      fail (.dimensionMismatch (.rightHandSideLength rhs.length constraints.height))
  else
    fail (.dimensionMismatch (.costLength cost.length constraints.width))

def ofRows (cost : Vec α) (rows : List (Vec α)) (rhs : Vec α) : Outcome α (LinearProgram α) :=
  match rows.zipIdx.find? fun entry => entry.1.length ≠ cost.length with
  | some (row, i) => fail (.dimensionMismatch (.rowLength i row.length cost.length))
  | none => do create cost (← demand (RowMatrix.ofRows? rows cost.length)) rhs

/-! ## Bases -/

def firstRepeated? : (seen indices : List Nat) → Option Nat
  | _, [] => none
  | seen, j :: rest => if j ∈ seen then some j else firstRepeated? (j :: seen) rest

def checkBasis (p : LinearProgram α) (basis : List Nat) : Outcome α Unit :=
  if basis.length ≠ p.numEquations then
    fail (.invalidBasis (.wrongSize basis.length p.numEquations))
  else match basis.find? fun j => p.numVariables ≤ j with
    | some j => fail (.invalidBasis (.outOfRange j p.numVariables))
    | none => match firstRepeated? [] basis with
      | some j => fail (.invalidBasis (.repeated j))
      | none => .ok ()

def basisMatrix? (p : LinearProgram α) (basis : List Nat) : Option (RowMatrix α) :=
  p.constraints.columnsAt? basis

def column? (p : LinearProgram α) (j : Nat) : Option (Vec α) := p.constraints.column? j

def costsOf? (p : LinearProgram α) (basis : List Nat) : Option (Vec α) :=
  if ∀ j ∈ basis, j < p.numVariables then some (basis.map fun j => p.cost.getD j 0) else none

/-! ## Points -/

def objective? (p : LinearProgram α) (x : Vec α) : Option α := Vec.dot? p.cost x

/-- A point with entries far enough up, and with sides of the equations that are near to each other at
the scale of the right-hand side. -/
def isWithin? (p : LinearProgram α) (above : α → Bool) (near : (scale distance : α) → Bool)
    (x : Vec α) : Option Bool :=
  if x.length = p.numVariables then
    some (x.all above && ((p.constraints.mulVec x).zip p.rhs).all fun sides =>
      near (Scalar.max (Vec.supNorm p.rhs) 1) (Scalar.abs (sides.1 - sides.2)))
  else none

def isFeasible? (p : LinearProgram α) (x : Vec α) (tolerance : α) : Option Bool :=
  p.isWithin? (fun value => -tolerance ≤ value)
    (fun scale distance => distance ≤ tolerance * scale) x

/-- Within the square root of a tolerance. -/
def isNearlyFeasible? (p : LinearProgram α) (x : Vec α) (tolerance : α) : Option Bool :=
  p.isWithin? (Scalar.negSqrtLe tolerance) (Scalar.leSqrtMul tolerance) x

/-! ## Changes of the equations -/

def negativeRows (p : LinearProgram α) : List Nat :=
  (List.range p.numEquations).filter fun i => p.rhs.getD i 0 < 0

def normalize (p : LinearProgram α) : LinearProgram α where
  cost := p.cost
  constraints :=
    { rows := List.zipWith (fun row b => if b < 0 then Vec.scale row (-1) else row)
        p.constraints.rows p.rhs
      width := p.constraints.width
      rectangular := by
        intro row member
        obtain ⟨i, hi⟩ := List.mem_iff_getElem?.1 member
        obtain ⟨row, b, present, -, rfl⟩ := List.getElem?_zipWith_eq_some.1 hi
        have fits := p.constraints.rectangular row (List.mem_of_getElem? present)
        split <;> simp [Vec.scale, fits] }
  rhs := p.rhs.map fun b => if b < 0 then -b else b
  cost_length := p.cost_length
  rhs_length := by simp [RowMatrix.height, p.rhs_length]
  height_lt_width := by
    have := p.height_lt_width
    simp only [RowMatrix.height, List.length_zipWith] at this ⊢
    omega

def dropRows (p : LinearProgram α) (positions : List Nat) : LinearProgram α where
  cost := p.cost
  constraints := p.constraints.dropRows positions
  rhs := Vec.dropPositions p.rhs positions
  cost_length := p.cost_length
  rhs_length := by
    have fits := p.rhs_length
    simp only [RowMatrix.height] at fits
    simp only [RowMatrix.height, RowMatrix.dropRows, Vec.length_dropPositions, fits]
  height_lt_width :=
    Nat.lt_of_le_of_lt (Vec.length_dropPositions_le _ _) p.height_lt_width

def dropRows? (p : LinearProgram α) (positions : List Nat) : Option (LinearProgram α) :=
  if Vec.IsSelection positions p.numEquations then some (p.dropRows positions) else none

end LinearProgram

end SimplexMethod
