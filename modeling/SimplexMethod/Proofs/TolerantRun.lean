import SimplexMethod.Proofs.PrimalStart
import SimplexMethod.Proofs.StructuredRun

namespace SimplexMethod
open Matrix Vec Outcome

/-- The verdicts that blame the shape of a problem or a given basis. -/
def Fault.RejectsInput : Fault ℚ → Prop
  | .failed (.dimensionMismatch _) => True
  | .failed (.invalidBasis _) => True
  | _ => False

theorem Outcome.Yields.accepts {β : Type} {outcome : Outcome ℚ β} {value : β → Prop}
    (yields : outcome.Yields value (· = .requirement)) :
    outcome.Yields value (fun fault => ¬fault.RejectsInput) :=
  yields.mono_fault (by rintro _ rfl; exact not_false)

namespace Tableau

variable {t next last : Tableau ℚ}

structure Supported (t : Tableau ℚ) : Prop extends WellFormed t where
  zero : ∀ j : Fin t.problem.numVariables, (j : ℕ) ∉ t.basis → t.point j = 0

theorem Basic.supported (basic : t.Basic) : t.Supported := ⟨basic.toWellFormed, basic.zero⟩

structure Follows (next t : Tableau ℚ) : Prop where
  supported : next.Supported
  problem_eq : next.problem = t.problem
  tolerance_eq : next.tolerance = t.tolerance

theorem Supported.follows (supported : t.Supported) : t.Follows t := ⟨supported, rfl, rfl⟩

theorem Follows.trans (later : last.Follows next) (follows : next.Follows t) : last.Follows t :=
  ⟨later.supported, later.problem_eq.trans follows.problem_eq,
    later.tolerance_eq.trans follows.tolerance_eq⟩

theorem Supported.moveValues_eq_zero (supported : t.Supported)
    {entering : Fin t.problem.numVariables} (outside : (entering : ℕ) ∉ t.basis)
    (row : Fin t.problem.numEquations) (column : Vec ℚ) (step : ℚ) {j : ℕ}
    (inside : j < t.problem.numVariables) (gone : j ∉ t.basis.set row entering) :
    (t.moveValues entering row column step).getD j 0 = 0 := by
  obtain ⟨-, atLeaving, -, others⟩ := supported.moveValues_entries outside row column step
  obtain ⟨enters, other⟩ := not_or.1 (mt (supported.basis.mem_set_iff row outside j).2 gone)
  by_cases leaves : j = supported.column row
  · rw [leaves, atLeaving]
  · have away : j ∉ t.basis := fun member => other ⟨leaves, member⟩
    rw [others j enters away]
    exact supported.zero ⟨j, inside⟩ away

theorem Supported.exchange_yields (supported : t.Supported) {entering : Fin t.problem.numVariables}
    (outside : (entering : ℕ) ∉ t.basis) (row : Fin t.problem.numEquations) {column : Vec ℚ}
    (length : column.length = t.problem.numEquations)
    (entries : toFun column t.problem.numEquations = WellFormed.expressed t entering) (step : ℚ) :
    (t.exchange entering row column step).Yields (·.Follows t) (· = .failed .singularMatrix) := by
  refine (supported.toWellFormed.exchange_yields outside row length entries step).mono ?_
    fun _ same => same
  intro next given
  obtain ⟨wellFormed, inverse, members, rfl⟩ := given
  refine ⟨⟨wellFormed, fun j gone => ?_⟩, rfl, rfl⟩
  exact supported.moveValues_eq_zero outside row column step j.isLt gone

theorem Supported.pivot_yields (supported : t.Supported) {entering : Fin t.problem.numVariables}
    (outside : (entering : ℕ) ∉ t.basis) {row : Fin t.problem.numEquations} {pivot : Pivot ℚ}
    (pivots : supported.Pivots pivot entering row) :
    (t.pivot pivot).Yields (·.Follows t) (· = .failed .singularMatrix) := by
  rw [Tableau.pivot, pivots.entering_eq, pivots.row_eq]
  exact supported.exchange_yields outside row pivots.length pivots.column_eq pivot.step

end Tableau

namespace Primal

variable {t : Tableau ℚ} (rule : PivotRule) (config : Config ℚ)

inductive Stops : Fault ℚ → Prop
  | singular : Stops (.failed .singularMatrix)
  | unbounded : Stops (.failed .unbounded)

theorem advance_keeps (supported : t.Supported) :
    (advance rule t).Yields (fun result => ∀ next ∈ result, next.Follows t) Stops := by
  obtain ⟨prospect, offered, offers⟩ := supported.prospect_eq rule
  unfold advance
  rw [offered, ok_bind]
  cases offers with
  | optimal none => exact fun _ member => nomatch member
  | unbounded j enters bounded => exact .unbounded
  | pivot j enters pivot row pivots =>
      apply ((supported.pivot_yields enters.outside pivots).mono_fault
        (by rintro _ rfl; exact Stops.singular)).bind
      rintro next follows _ ⟨⟩
      exact follows

theorem attempt_keeps (supported : t.Supported) :
    (attempt rule config t).Yields (fun result => ∀ next ∈ result, next.Follows t)
      (fun fault => fault = .requirement ∨ Stops fault) := by
  rw [attempt]
  apply ((t.checkedCosts_onlyRequires config).mono_fault fun _ same => Or.inl same).bind
  intro _ _
  exact (advance_keeps rule supported).mono_fault fun _ stops => Or.inr stops

theorem step_keeps (supported : t.Supported) (iteration : ℕ) :
    (step rule config iteration t).outcome.Yields (fun result => ∀ next ∈ result, next.Follows t)
      (fun fault => fault = .requirement ∨ Stops fault) := by
  rw [step_outcome_eq rule config supported.toWellFormed]
  exact attempt_keeps rule config supported

theorem run_keeps (supported : t.Supported) (limit iteration : ℕ) :
    (run rule config limit iteration t).optimum.outcome.Yields (fun ended => ended.1.Follows t)
      (fun fault => fault = .requirement ∨ fault = .iterationLimit ∨ Stops fault) := by
  have each (s : Tableau ℚ) (iteration : ℕ) (follows : s.Follows t) :
      (step rule config iteration s).outcome.Yields (fun result => ∀ next ∈ result, next.Follows t)
        (fun fault => fault = .requirement ∨ fault = .iterationLimit ∨ Stops fault) :=
    (step_keeps rule config follows.supported iteration).mono
      (fun _ later next member => (later next member).trans follows)
      fun _ either => either.imp_right Or.inr
  exact run_invariant rule config (Or.inr (Or.inl rfl)) each supported.follows limit iteration

theorem not_rejectsInput {fault : Fault ℚ}
    (ends : fault = .requirement ∨ fault = .iterationLimit ∨ Stops fault) :
    ¬fault.RejectsInput := by
  rcases ends with rfl | rfl | _ | _ <;> exact not_false

end Primal

end SimplexMethod
