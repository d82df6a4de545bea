import SimplexMethod.Decimal.Text
import SimplexMethod.Tableau

/-!
# Texts of problems and states

Vectors are written with six places and matrices with four, in columns of one width.
-/

namespace SimplexMethod

def indicesText (indices : List Nat) : String :=
  "[" ++ ", ".intercalate (indices.map Nat.repr) ++ "]"

def Vec.text (x : Vec Float) : String :=
  "[" ++ ", ".intercalate (x.map (Decimal.fixed 6)) ++ "]"

namespace RowMatrix

def alignRight (width : Nat) (cell : String) : String :=
  "".pushn ' ' (width - cell.length) ++ cell

def text (a : RowMatrix Float) : String :=
  let cells := a.rows.map fun row => row.map (Decimal.fixed 4)
  let width := cells.flatten.foldl (fun most cell => max most cell.length) 0
  String.join (cells.map fun row => " ".intercalate (row.map (alignRight width)) ++ "\n")

end RowMatrix

def LinearProgram.text (p : LinearProgram Float) : String :=
  "minimize " ++ Vec.text p.cost ++ "\nsubject to\n" ++ p.constraints.text ++ "=\n" ++
    Vec.text p.rhs ++ "\n"

def Solution.text (s : Solution Float) : String :=
  "objective value: " ++ Decimal.plain s.objective ++ "\nbasis: " ++ indicesText s.basis ++
    "\niterations: " ++ Nat.repr s.iterations ++ "\nvalues: " ++ Vec.text s.values ++ "\n"

def BasisInverse.text : BasisInverse Float → String
  | productForm inverse => "Basis inverse (product form):\n" ++ inverse.text
  | reinversion basisMatrix inverse =>
    "Basis matrix:\n" ++ basisMatrix.text ++ "Basis inverse:\n" ++ inverse.text

def Tableau.text (t : Tableau Float) (reducedCosts : Vec Float) : String :=
  "Tableau:\nbasis: " ++ indicesText t.basis ++ "\nvalues: " ++ Vec.text t.values ++
    "\nrelative costs: " ++ Vec.text reducedCosts ++ "\n" ++ t.inverse.text

def Tableau.display (t : Tableau Float) : Outcome Float String := do
  return t.text (← t.reducedCosts)

end SimplexMethod
