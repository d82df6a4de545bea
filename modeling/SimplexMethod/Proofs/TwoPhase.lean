import SimplexMethod.Proofs.CheckedRun
import SimplexMethod.Proofs.Handover

namespace SimplexMethod.LinearProgram
open Matrix Vec Outcome FeasibleStart

variable {p : LinearProgram ℚ} {start : FeasibleStart ℚ} {upkeep : Upkeep} {rule : PivotRule}
  {config : Config ℚ} {limit : ℕ}

theorem optimal_of_represents (represents : Represents p start) {x : Vec ℚ}
    (optimal : start.problem.Optimal x) : p.Optimal x ∧ start.problem.value x = p.value x := by
  have restated := restated_of_represents represents
  obtain ⟨problem, basis, values, removedRows⟩ := start
  obtain ⟨problem_eq, -, -, -⟩ := represents
  simp only at problem_eq
  subst problem_eq
  refine ⟨⟨(restated.feasible_iff x).1 optimal.toFeasible, fun x' feasible => ?_⟩, rfl⟩
  exact optimal.value_le x' ((restated.feasible_iff x').2 feasible)

theorem ray_of_represents (represents : Represents p start) {d : Vec ℚ}
    (ray : start.problem.Ray d) : p.Ray d := by
  rw [represents.problem_eq] at ray
  exact ray_of_normalize (represents.redundant.ray ray)

/-- One of the runs that solving the problem consists of makes as many pivots as the limit allows:
that on the artificial variables of some round, or that from the start that the rounds find. -/
inductive Exhausts (p : LinearProgram ℚ) (upkeep : Upkeep) (rule : PivotRule) (config : Config ℚ)
    (limit : ℕ) : Prop
  | first {k : ℕ} {r : Reduction ℚ} {t : Tableau ℚ}
      (comes : p.reduction? upkeep rule config limit k = some r)
      (started : r.problem.artificialStart upkeep config = .ok t)
      (goesOn : Primal.visited rule config t limit ≠ none)
  | second {start : FeasibleStart ℚ} {t : Tableau ℚ}
      (found : (p.findFeasible upkeep rule config limit).outcome = .ok start)
      (started : start.problem.primalStart upkeep start.basis config = .ok t)
      (goesOn : Primal.visited rule config t limit ≠ none)

inductive Verdict (p : LinearProgram ℚ) (upkeep : Upkeep) (rule : PivotRule) (config : Config ℚ)
    (limit : ℕ) : Fault ℚ → Prop
  | singular : Verdict p upkeep rule config limit (.failed .singularMatrix)
  | infeasible (none : ∀ x, ¬p.Feasible x) :
      Verdict p upkeep rule config limit (.failed .infeasible)
  | unbounded (x d : Vec ℚ) (feasible : p.Feasible x) (ray : p.Ray d) :
      Verdict p upkeep rule config limit (.failed .unbounded)
  | exhausted (exhausts : p.Exhausts upkeep rule config limit) :
      Verdict p upkeep rule config limit .iterationLimit

theorem exhausts_of_findFeasible
    (failed : (p.findFeasible upkeep rule config limit).outcome = .error .iterationLimit) :
    p.Exhausts upkeep rule config limit := by
  obtain ⟨k, r, comes, failed⟩ := findFeasible_eq_error_iff.1 failed
  have nonneg := rhs_nonneg_of_reduction? comes
  obtain ⟨t, started, ended⟩ :=
    (find_eq_error_iff upkeep rule config limit nonneg (Or.inr rfl)).1 failed
  obtain ⟨t', started', feasible, -⟩ := r.problem.artificialStart_eq upkeep config nonneg
  obtain rfl : t = t' := Except.ok.inj (started.symm.trans started')
  exact .first comes started
    ((Primal.run_outcome_eq_iterationLimit_iff rule config feasible.supported limit 0).1 ended)

theorem solvePrimal_judged (represents : Represents p start) (exact : config.tolerance = 0)
    (found : (p.findFeasible upkeep rule config limit).outcome = .ok start) :
    (start.problem.solvePrimal upkeep rule start.basis config limit).outcome.Yields
      (fun solution => p.Optimal solution.values ∧ solution.objective = p.value solution.values)
      (Verdict p upkeep rule config limit) := by
  have second := represents.solution.solvePrimal_yields upkeep rule exact limit
  refine second.mono (fun solution solved => ?_) fun fault ends => ?_
  · obtain ⟨optimal, objective_eq⟩ := solved
    obtain ⟨optimal', same⟩ := optimal_of_represents represents optimal
    exact ⟨optimal', objective_eq.trans same⟩
  · rcases ends with (_ | ⟨d, ray⟩) | ⟨rfl, t, started, ended⟩
    · exact .singular
    · have feasible := ((restated_of_represents represents).feasible_iff _).1
        represents.solution.toFeasible
      exact .unbounded _ d feasible (ray_of_represents represents ray)
    · obtain ⟨feasible, -⟩ :=
        (start.problem.primalStart_yields upkeep start.basis exact).of_eq_ok started
      have goesOn := (Primal.run_outcome_eq_iterationLimit_iff rule config feasible.supported
        limit 0).1 ended
      exact .exhausted (.second found started goesOn)

/-- A solution is an optimum, and every other verdict has its certificate.  Only a singular matrix
leaves a problem undecided, unless one of the runs makes as many pivots as the limit allows. -/
theorem solve_sound (p : LinearProgram ℚ) (upkeep : Upkeep) (rule : PivotRule) {config : Config ℚ}
    (exact : config.tolerance = 0) (limit : ℕ) :
    (p.solve upkeep rule config limit).outcome.Yields
      (fun solution => p.Optimal solution.values ∧ solution.objective = p.value solution.values)
      (Verdict p upkeep rule config limit) := by
  obtain ⟨-, yields⟩ := p.findFeasible_yields upkeep rule exact limit
  rw [solve, Traced.outcome_bind]
  cases found : (p.findFeasible upkeep rule config limit).outcome with
  | error fault =>
      cases yields.of_eq_error found with
      | singular => exact .singular
      | infeasible none => exact .infeasible none
      | exhausted => exact .exhausted (exhausts_of_findFeasible found)
  | ok start =>
      have judged := solvePrimal_judged (yields.of_eq_ok found) exact found
      rw [ok_bind]
      split
      · rw [Traced.outcome_bind, Traced.outcome_emit, ok_bind]
        exact judged
      · exact judged

theorem solve_sound_doubled : doubled.Optimal [0, 2, 0] := by
  have solved : (doubled.solve .reinversion .mostNegative ⟨0, 0, true⟩ 9).outcome =
      .ok ⟨[0, 2, 0], [1], 2, 1⟩ := by decide +kernel
  exact ((doubled.solve_sound .reinversion .mostNegative rfl 9).of_eq_ok solved).1

end SimplexMethod.LinearProgram
