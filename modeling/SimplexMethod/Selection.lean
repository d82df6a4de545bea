import SimplexMethod.Scalar

/-!
# Choosing among candidates
-/

namespace SimplexMethod

variable {α : Type} [Scalar α]

/-- The first of the indexed values that no later one undercuts. -/
def firstLeast? (candidates : List (Nat × α)) : Option (Nat × α) :=
  candidates.foldl
    (fun best candidate =>
      match best with
      | none => some candidate
      | some least => if candidate.2 < least.2 then some candidate else some least)
    none

end SimplexMethod
