import SimplexMethod.LinearProgram

/-!
# Optimal solutions
-/

namespace SimplexMethod

structure Solution (α : Type) where
  values : Vec α
  basis : List Nat
  objective : α
  iterations : Nat
deriving DecidableEq

namespace Solution

variable {α : Type} [Scalar α]

def at? (p : LinearProgram α) (values : Vec α) (basis : List Nat) (iterations : Nat) :
    Option (Solution α) := do
  let objective ← p.objective? values
  if ∀ j ∈ basis, j < values.length then
    return { values, basis, objective, iterations }
  else none

end Solution

end SimplexMethod
