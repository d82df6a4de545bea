import Mathlib
import SimplexMethod.Traced

namespace SimplexMethod

namespace Outcome

variable {α β γ : Type}

def Yields (outcome : Outcome α β) (value : β → Prop) (fault : Fault α → Prop) : Prop :=
  match outcome with
  | .ok result => value result
  | .error failure => fault failure

@[simp] theorem yields_ok {result : β} {value : β → Prop} {fault : Fault α → Prop} :
    Yields (.ok result) value fault ↔ value result := Iff.rfl

@[simp] theorem yields_error {failure : Fault α} {value : β → Prop} {fault : Fault α → Prop} :
    Yields (.error failure) value fault ↔ fault failure := Iff.rfl

@[simp] theorem yields_fail {failure : Failure α} {value : β → Prop} {fault : Fault α → Prop} :
    Yields (fail failure) value fault ↔ fault (.failed failure) := Iff.rfl

@[simp] theorem ok_bind (result : β) (next : β → Outcome α γ) :
    (Except.ok result >>= next : Outcome α γ) = next result := rfl

@[simp] theorem error_bind (failure : Fault α) (next : β → Outcome α γ) :
    (Except.error failure >>= next : Outcome α γ) = .error failure := rfl

@[simp] theorem pure_eq_ok (result : β) : (pure result : Outcome α β) = .ok result := rfl

@[simp] theorem demand_some (result : β) : (demand (some result) : Outcome α β) = .ok result := rfl

theorem require_of {condition : Prop} [Decidable condition] (holds : condition) :
    (require condition : Outcome α Unit) = .ok () := if_pos holds

theorem require_yields (condition : Prop) [Decidable condition] :
    (require condition : Outcome α Unit).Yields (fun _ => condition) (· = .requirement) := by
  unfold require
  split
  · assumption
  · rfl

theorem demand_yields (value : Option β) :
    (demand value : Outcome α β).Yields (fun result => value = some result) (· = .requirement) := by
  cases value <;> rfl

theorem require_eq_ok_iff {condition : Prop} [Decidable condition] :
    (require condition : Outcome α Unit) = .ok () ↔ condition := by
  simp [require]

theorem demand_eq_ok_iff {value : Option β} {result : β} :
    (demand value : Outcome α β) = .ok result ↔ value = some result := by
  cases value <;> simp [demand]

theorem toOption_eq_some_iff {outcome : Outcome α β} {result : β} :
    outcome.toOption = some result ↔ outcome = .ok result := by
  cases outcome <;> simp [Except.toOption]

theorem Yields.mono {outcome : Outcome α β} {value value' : β → Prop}
    {fault fault' : Fault α → Prop} (yields : outcome.Yields value fault)
    (values : ∀ result, value result → value' result)
    (faults : ∀ failure, fault failure → fault' failure) : outcome.Yields value' fault' := by
  cases outcome with
  | ok result => exact values result yields
  | error failure => exact faults failure yields

theorem Yields.mono_value {outcome : Outcome α β} {value value' : β → Prop} {fault : Fault α → Prop}
    (yields : outcome.Yields value fault) (values : ∀ result, value result → value' result) :
    outcome.Yields value' fault :=
  yields.mono values fun _ holds => holds

theorem Yields.mono_fault {outcome : Outcome α β} {value : β → Prop} {fault fault' : Fault α → Prop}
    (yields : outcome.Yields value fault) (faults : ∀ failure, fault failure → fault' failure) :
    outcome.Yields value fault' :=
  yields.mono (fun _ holds => holds) faults

theorem Yields.bind {outcome : Outcome α β} {next : β → Outcome α γ} {value : β → Prop}
    {value' : γ → Prop} {fault : Fault α → Prop} (yields : outcome.Yields value fault)
    (rest : ∀ result, value result → (next result).Yields value' fault) :
    (outcome >>= next).Yields value' fault := by
  cases outcome with
  | ok result => exact rest result yields
  | error failure => exact yields

theorem Yields.of_eq_ok {outcome : Outcome α β} {value : β → Prop} {fault : Fault α → Prop}
    {result : β} (yields : outcome.Yields value fault) (equal : outcome = .ok result) :
    value result := by
  subst equal
  exact yields

theorem Yields.of_eq_error {outcome : Outcome α β} {value : β → Prop} {fault : Fault α → Prop}
    {failure : Fault α} (yields : outcome.Yields value fault) (equal : outcome = .error failure) :
    fault failure := by
  subst equal
  exact yields

theorem bind_eq_ok_iff {outcome : Outcome α β} {next : β → Outcome α γ} {result : γ} :
    (outcome >>= next) = .ok result ↔ ∃ value, outcome = .ok value ∧ next value = .ok result := by
  cases outcome <;> simp

theorem mapM_eq_ok {f : β → Outcome α γ} {g : β → γ} {entries : List β}
    (each : ∀ entry ∈ entries, f entry = .ok (g entry)) :
    entries.mapM f = .ok (entries.map g) := by
  induction entries with
  | nil => rfl
  | cons first rest ih =>
      rw [List.mapM_cons, each first (by simp), ih fun entry member => each entry (by simp [member])]
      rfl

theorem mapM_getElem?_eq_ok {entries : List β} {positions : List ℕ} (d : β)
    (below : ∀ i ∈ positions, i < entries.length) :
    (positions.mapM fun i => demand entries[i]? : Outcome α (List β)) =
      .ok (positions.map fun i => entries.getD i d) := by
  apply mapM_eq_ok
  intro i member
  simp [below i member]

theorem Yields.mapM {f : β → Outcome α γ} {value : β → γ → Prop} {fault : Fault α → Prop}
    {entries : List β} (each : ∀ entry ∈ entries, (f entry).Yields (value entry) fault) :
    (entries.mapM f).Yields
      (fun results => ∀ result ∈ results, ∃ entry ∈ entries, value entry result) fault := by
  induction entries with
  | nil => simp
  | cons entry rest ih =>
      rw [List.mapM_cons]
      apply (each entry (by simp)).bind
      intro first holds
      apply (ih fun other member => each other (by simp [member])).bind
      intro results given result member
      rcases List.mem_cons.1 member with rfl | later
      · exact ⟨entry, by simp, holds⟩
      · obtain ⟨other, inside, holds⟩ := given result later
        exact ⟨other, by simp [inside], holds⟩

theorem Yields.foldlM_range {step : β → ℕ → Outcome α β} {invariant : ℕ → β → Prop}
    {fault : Fault α → Prop} {count : ℕ} {start : β} (initial : invariant 0 start)
    (keeps : ∀ i < count, ∀ state, invariant i state →
      (step state i).Yields (invariant (i + 1)) fault) :
    ((List.range count).foldlM step start : Outcome α β).Yields (invariant count) fault := by
  induction count with
  | zero => exact initial
  | succ count ih =>
      rw [List.range_succ, List.foldlM_append]
      apply Yields.bind (ih fun i below => keeps i (Nat.lt_succ_of_lt below))
      intro state holds
      simp only [List.foldlM_cons, List.foldlM_nil, bind_pure]
      exact keeps count (Nat.lt_succ_self count) state holds

theorem foldlM_eq_ok {step : β → γ → Outcome α β} {next : β → γ → β} {entries : List γ}
    {start : β} (invariant : β → Prop) (initial : invariant start)
    (each : ∀ entry ∈ entries, ∀ state, invariant state →
      step state entry = .ok (next state entry) ∧ invariant (next state entry)) :
    entries.foldlM step start = .ok (entries.foldl next start) := by
  induction entries generalizing start with
  | nil => rfl
  | cons entry rest ih =>
      obtain ⟨stepped, kept⟩ := each entry (by simp) start initial
      rw [List.foldlM_cons, stepped, ok_bind, List.foldl_cons]
      exact ih kept fun other member => each other (by simp [member])

theorem foldlM_congr {step step' : β → γ → Outcome α β} {entries : List γ} {start : β}
    (invariant : β → Prop) (initial : invariant start)
    (each : ∀ entry ∈ entries, ∀ state, invariant state → step state entry = step' state entry ∧
      (step' state entry).Yields invariant fun _ => True) :
    entries.foldlM step start = entries.foldlM step' start := by
  induction entries generalizing start with
  | nil => rfl
  | cons entry rest ih =>
      obtain ⟨same, kept⟩ := each entry (by simp) start initial
      rw [List.foldlM_cons, List.foldlM_cons, same]
      cases stepped : step' start entry with
      | error fault => rfl
      | ok state =>
          exact ih (kept.of_eq_ok stepped) fun other member => each other (by simp [member])

end Outcome

namespace Traced

variable {α β γ : Type}

@[simp] theorem outcome_bind (first : Traced α β) (next : β → Traced α γ) :
    (first >>= next).outcome = first.outcome >>= fun value => (next value).outcome := by
  change (Traced.bind first next).outcome = _
  unfold Traced.bind
  cases first.outcome <;> rfl

@[simp] theorem outcome_pure (value : β) : (pure value : Traced α β).outcome = .ok value := rfl

@[simp] theorem outcome_emit (event : Event α) : (emit event).outcome = .ok () := rfl

@[simp] theorem outcome_fail (failure : Failure α) :
    (fail failure : Traced α β).outcome = Outcome.fail failure := rfl

@[simp] theorem outcome_ofOutcome (outcome : Outcome α β) : (ofOutcome outcome).outcome = outcome :=
  rfl

@[simp] theorem outcome_lift (outcome : Outcome α β) :
    (liftM outcome : Traced α β).outcome = outcome := rfl

@[simp] theorem outcome_monadLift (outcome : Outcome α β) :
    (MonadLift.monadLift outcome : Traced α β).outcome = outcome := rfl

theorem lift_ok_bind (value : β) (next : β → Traced α γ) :
    ((liftM (.ok value : Outcome α β) : Traced α β) >>= next) = next value := rfl

end Traced

end SimplexMethod
