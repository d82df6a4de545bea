import SimplexMethod.Scalar

/-!
# Solver settings
-/

namespace SimplexMethod

structure Config (α : Type) where
  tolerance : α
  /-- Progress is reported once in so many iterations, never if zero. -/
  reportInterval : Nat
  /-- Whether an artificial problem is checked for negative sides, and a run for tableaux that are
  not at basic feasible solutions. -/
  checked : Bool

namespace Config

variable {α : Type} [Scalar α]

def standard : Config α := ⟨1e-9, 1000, true⟩

def withTolerance? (config : Config α) (tolerance : α) : Option (Config α) :=
  if 0 ≤ tolerance then some { config with tolerance } else none

def withReportInterval (config : Config α) (reportInterval : Nat) : Config α :=
  { config with reportInterval }

def Reports (config : Config α) (iteration : Nat) : Prop :=
  0 < config.reportInterval ∧ iteration % config.reportInterval = 0

instance (config : Config α) (iteration : Nat) : Decidable (config.Reports iteration) :=
  inferInstanceAs (Decidable (_ ∧ _))

end Config

end SimplexMethod
