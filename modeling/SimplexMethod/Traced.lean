import SimplexMethod.Event

/-!
# Traced computations

The events of a computation are kept in order next to its outcome, and survive its failure.
-/

namespace SimplexMethod

structure Traced (α β : Type) where
  events : List (Event α)
  outcome : Outcome α β

namespace Traced

variable {α β γ : Type}

def emit (event : Event α) : Traced α Unit := ⟨[event], .ok ()⟩

def fail (failure : Failure α) : Traced α β := ⟨[], .error (.failed failure)⟩

def ofOutcome (outcome : Outcome α β) : Traced α β := ⟨[], outcome⟩

protected def bind (first : Traced α β) (next : β → Traced α γ) : Traced α γ :=
  match first.outcome with
  | .ok value => ⟨first.events ++ (next value).events, (next value).outcome⟩
  | .error fault => ⟨first.events, .error fault⟩

instance : Monad (Traced α) where
  pure value := ⟨[], .ok value⟩
  bind := Traced.bind

instance : MonadLift (Outcome α) (Traced α) := ⟨ofOutcome⟩

end Traced

end SimplexMethod
