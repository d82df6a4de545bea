import SimplexMethod.Dual
import SimplexMethod.FeasibleStart

/-!
# Solving with standard settings

The solvers with the product form, the first profitable column and the standard tolerance.
-/

namespace SimplexMethod.Standard

variable {α : Type} [Scalar α]

def solve (p : LinearProgram α) (limit : Nat) : Traced α (Solution α) :=
  p.solve .productForm .leastIndex Config.standard limit

def solvePrimal (p : LinearProgram α) (basis : List Nat) (limit : Nat) :
    Traced α (Solution α) :=
  p.solvePrimal .productForm .leastIndex basis Config.standard limit

def findFeasible (p : LinearProgram α) (limit : Nat) : Traced α (FeasibleStart α) :=
  p.findFeasible .productForm .leastIndex Config.standard limit

def solveDual (p : LinearProgram α) (basis : List Nat) (multipliers : Option (Vec α))
    (limit : Nat) : Traced α (Solution α) :=
  p.solveDual basis multipliers Config.standard limit

end SimplexMethod.Standard
