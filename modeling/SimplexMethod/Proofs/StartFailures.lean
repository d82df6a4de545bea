import SimplexMethod.Proofs.CheckedRun
import SimplexMethod.Proofs.Handover

/-!
# How the search for a start fails

The sum of the artificial variables is bounded below, so no column of an artificial problem should
let it fall for ever.  With a tolerance one may seem to: the entries of a column in the rows of
artificial variables can add up to more than the tolerance while none of them is above it by itself.
-/

namespace SimplexMethod
open Matrix Vec Outcome

namespace Tableau

variable {t : Tableau ℚ}

/-- The rule takes up a column because its entries in the rows of the artificial variables, which
follow the given number of columns, add up to more than the tolerance, and then no entry of it is
large enough by itself to limit the step. -/
structure Overlooks (t : Tableau ℚ) (rule : PivotRule) (columns j : ℕ) (column : Vec ℚ) : Prop where
  chosen : ∃ cost, rule.enteringColumn t = .ok (some (j, cost))
  expressed : t.express j = .ok column
  small : ∀ entry ∈ column, entry ≤ t.tolerance
  large : t.tolerance < ∑ i ∈ (Finset.range t.problem.numEquations).filter
    fun i => columns ≤ t.basis.getD i 0, column.getD i 0

theorem WellFormed.prospect_eq_unbounded_iff (wellFormed : t.WellFormed) (rule : PivotRule)
    {j : ℕ} :
    t.prospect rule = .ok (.unbounded j) ↔
      ∃ cost column, rule.enteringColumn t = .ok (some (j, cost)) ∧ t.express j = .ok column ∧
        ∀ entry ∈ column, entry ≤ t.tolerance := by
  rcases wellFormed.enteringColumn_eq rule with ⟨k, -, chosen⟩ | ⟨chosen, -⟩
  · obtain ⟨column, computed, length, entries⟩ := wellFormed.express_eq k
    have small_iff : (∀ entry ∈ column, entry ≤ t.tolerance) ↔
        ∀ i, expressed t k i ≤ t.tolerance := by
      rw [forall_mem_iff length, entries]
    rw [prospect, chosen, ok_bind]
    rcases wellFormed.limitingPivot_eq k with ⟨pivot, row, found, pivots⟩ | ⟨found, bounded⟩
    · simp only [found, ok_bind]
      refine iff_of_false (by simp) ?_
      rintro ⟨cost, column', same, computed', small⟩
      cases same
      cases computed.symm.trans computed'
      exact (small_iff.1 small row).not_gt pivots.limits.direction
    · simp only [found, ok_bind]
      constructor
      · intro same
        cases same
        exact ⟨_, column, rfl, computed, small_iff.2 bounded⟩
      · rintro ⟨cost, column', same, -⟩
        cases same
        rfl
  · rw [prospect, chosen, ok_bind]
    refine iff_of_false (by simp) ?_
    rintro ⟨cost, column, same, -⟩
    cases same

theorem WellFormed.reducedCosts_apply (wellFormed : t.WellFormed)
    (j : Fin t.problem.numVariables) :
    wellFormed.reducedCosts j = t.problem.costs j -
      ∑ i, t.problem.costs (wellFormed.column i) * expressed t j i := by
  rw [WellFormed.reducedCosts, ← dotProduct_edge, edge, dotProduct_sub, dotProduct_single_one,
    dotProduct_spread]
  rfl

theorem WellFormed.lt_sum_of_falls (wellFormed : t.WellFormed) {p : LinearProgram ℚ}
    (artificial : t.problem.IsArtificial p) {j : Fin t.problem.numVariables}
    (falls : wellFormed.reducedCosts j < -t.tolerance) :
    t.tolerance < ∑ i with p.numVariables ≤ (wellFormed.column i : ℕ), expressed t j i := by
  rw [wellFormed.reducedCosts_apply] at falls
  -- only artificial variables have a cost, and a column is worth what it takes from them
  simp only [artificial.costs_apply, ite_mul, one_mul, zero_mul, ← Finset.sum_filter] at falls
  have own : (0 : ℚ) ≤ if p.numVariables ≤ (j : ℕ) then 1 else 0 := by
    split <;> norm_num
  linarith

theorem WellFormed.exists_overlooks_iff (wellFormed : t.WellFormed) {p : LinearProgram ℚ}
    (artificial : t.problem.IsArtificial p) (rule : PivotRule) :
    (∃ j, t.prospect rule = .ok (.unbounded j)) ↔
      ∃ j column, t.Overlooks rule p.numVariables j column := by
  constructor
  · intro given
    obtain ⟨j, offered⟩ := given
    obtain ⟨cost, column, chosen, computed, small⟩ :=
      (wellFormed.prospect_eq_unbounded_iff rule).1 offered
    refine ⟨j, column, ⟨cost, chosen⟩, computed, small, ?_⟩
    rcases wellFormed.enteringColumn_eq rule with ⟨k, enters, chosen'⟩ | ⟨chosen', -⟩
    · cases chosen.symm.trans chosen'
      obtain ⟨column', computed', -, entries⟩ := wellFormed.express_eq k
      cases computed.symm.trans computed'
      refine (wellFormed.lt_sum_of_falls artificial enters.falls).trans_eq ?_
      rw [← entries, Finset.sum_filter, Finset.sum_filter, Finset.sum_range]
      refine Finset.sum_congr rfl fun i _ => ?_
      rw [wellFormed.basis.getD_eq]
      rfl
    · cases chosen.symm.trans chosen'
  · intro given
    obtain ⟨j, column, overlooks⟩ := given
    obtain ⟨cost, chosen⟩ := overlooks.chosen
    exact ⟨j, (wellFormed.prospect_eq_unbounded_iff rule).2
      ⟨cost, column, chosen, overlooks.expressed, overlooks.small⟩⟩

theorem Overlooks.pos_and_two_le {rule : PivotRule} {columns j : ℕ} {column : Vec ℚ}
    (overlooks : t.Overlooks rule columns j column) (nonneg : 0 ≤ t.tolerance) :
    0 < t.tolerance ∧ 2 ≤ t.problem.numEquations := by
  have each (i : ℕ) : column.getD i 0 ≤ t.tolerance := by
    rcases lt_or_ge i column.length with inside | outside
    · simpa [inside] using overlooks.small _ (List.getElem_mem inside)
    · exact (getD_of_le outside).trans_le nonneg
  let rows := (Finset.range t.problem.numEquations).filter fun i => columns ≤ t.basis.getD i 0
  -- it takes two entries within the tolerance to add up to more
  have total : t.tolerance < rows.card * t.tolerance := by
    refine overlooks.large.trans_le ?_
    rw [← nsmul_eq_mul]
    exact Finset.sum_le_card_nsmul rows _ _ fun i _ => each i
  have positive : 0 < t.tolerance := by
    refine lt_of_le_of_ne nonneg fun zero => ?_
    rw [← zero, mul_zero] at total
    exact lt_irrefl 0 total
  have many : (1 : ℚ) < rows.card := (lt_mul_iff_one_lt_left positive).1 total
  refine ⟨positive, (Nat.one_lt_cast.1 many).trans_le ?_⟩
  exact (Finset.card_filter_le _ _).trans_eq (Finset.card_range _)

end Tableau

namespace FeasibleStart

variable {p : LinearProgram ℚ} (upkeep : Upkeep) (rule : PivotRule) (config : Config ℚ) (limit : ℕ)

def Visits (p : LinearProgram ℚ) (upkeep : Upkeep) (rule : PivotRule) (config : Config ℚ)
    (limit : ℕ) (s : Tableau ℚ) : Prop :=
  ∃ t, p.artificialStart upkeep config = .ok t ∧ ∃ pivots < limit,
    Primal.visited rule config t pivots = some s ∧ s.checkFeasible config = .ok ()

theorem Visits.artificial {s : Tableau ℚ} (visits : Visits p upkeep rule config limit s)
    (nonneg : ∀ value ∈ p.rhs, 0 ≤ value) :
    s.Supported ∧ s.problem.IsArtificial p ∧ s.tolerance = config.tolerance := by
  obtain ⟨t, started, pivots, -, reached, -⟩ := visits
  obtain ⟨t', started', feasible, artificial, tolerance_eq⟩ :=
    p.artificialStart_eq upkeep config nonneg
  cases started.symm.trans started'
  have follows := Primal.visited_follows rule config feasible.supported reached
  exact ⟨follows.supported, follows.problem_eq ▸ artificial, follows.tolerance_eq.trans tolerance_eq⟩

theorem find_eq_unbounded_iff (nonneg : ∀ value ∈ p.rhs, 0 ≤ value) :
    (find p upkeep rule config limit).outcome = .error (.failed .unbounded) ↔
      ∃ s, Visits p upkeep rule config limit s ∧
        ∃ j column, s.Overlooks rule p.numVariables j column := by
  obtain ⟨t, started, feasible, artificial, -⟩ := p.artificialStart_eq upkeep config nonneg
  have step_iff {pivots : ℕ} {s : Tableau ℚ}
      (reached : Primal.visited rule config t pivots = some s) :
      Primal.attempt rule config s = .error (.failed .unbounded) ↔
        s.checkFeasible config = .ok () ∧ ∃ j column, s.Overlooks rule p.numVariables j column := by
    obtain ⟨supported, problem_eq, -⟩ :=
      Primal.visited_follows rule config feasible.supported reached
    rw [← problem_eq] at artificial
    rw [Primal.attempt_eq_unbounded_iff rule config supported,
      supported.exists_overlooks_iff artificial rule]
  have run_iff := Primal.run_outcome_eq_error_iff rule config feasible.supported
    (.failed .unbounded) (by simp) limit 0
  rw [find_eq_error_iff upkeep rule config limit nonneg (Or.inl rfl)]
  constructor
  · rintro ⟨t', started', failed⟩
    cases started.symm.trans started'
    obtain ⟨pivots, below, s, reached, failed⟩ := run_iff.1 failed
    obtain ⟨passes, overlooks⟩ := (step_iff reached).1 failed
    exact ⟨s, ⟨t, started, pivots, below, reached, passes⟩, overlooks⟩
  · rintro ⟨s, ⟨t', started', pivots, below, reached, passes⟩, overlooks⟩
    cases started.symm.trans started'
    exact ⟨t, started, run_iff.2 ⟨pivots, below, s, reached,
      (step_iff reached).2 ⟨passes, overlooks⟩⟩⟩

end FeasibleStart

namespace LinearProgram

open FeasibleStart

variable {p : LinearProgram ℚ} {upkeep : Upkeep} {rule : PivotRule} {config : Config ℚ} {limit : ℕ}

def Overlooks (p : LinearProgram ℚ) (upkeep : Upkeep) (rule : PivotRule) (config : Config ℚ)
    (limit : ℕ) : Prop :=
  ∃ k r s j column, p.reduction? upkeep rule config limit k = some r ∧
    Visits r.problem upkeep rule config limit s ∧
    s.Overlooks rule r.problem.numVariables j column

theorem findFeasible_eq_unbounded_iff :
    (p.findFeasible upkeep rule config limit).outcome = .error (.failed .unbounded) ↔
      p.Overlooks upkeep rule config limit := by
  rw [findFeasible_eq_error_iff]
  constructor
  · rintro ⟨k, r, comes, failed⟩
    obtain ⟨s, visits, j, column, overlooks⟩ :=
      (find_eq_unbounded_iff upkeep rule config limit (rhs_nonneg_of_reduction? comes)).1 failed
    exact ⟨k, r, s, j, column, comes, visits, overlooks⟩
  · rintro ⟨k, r, s, j, column, comes, visits, overlooks⟩
    exact ⟨k, r, comes,
      (find_eq_unbounded_iff upkeep rule config limit (rhs_nonneg_of_reduction? comes)).2
        ⟨s, visits, j, column, overlooks⟩⟩

theorem Overlooks.pos_and_two_le (overlooks : p.Overlooks upkeep rule config limit)
    (nonneg : 0 ≤ config.tolerance) : 0 < config.tolerance ∧ 2 ≤ p.numEquations := by
  obtain ⟨k, r, s, j, column, comes, visits, overlooks⟩ := overlooks
  obtain ⟨-, artificial, tolerance_eq⟩ :=
    visits.artificial upkeep rule config limit (rhs_nonneg_of_reduction? comes)
  have fewer := (reduction?_accounted comes).length_add_eq
  rw [← tolerance_eq] at nonneg
  obtain ⟨positive, two_le⟩ := overlooks.pos_and_two_le nonneg
  rw [artificial.numEquations_eq] at two_le
  exact ⟨tolerance_eq ▸ positive, by omega⟩

/-- The search for a start fails as infeasible, with a singular matrix, or as unbounded, and the last
exactly if it overlooks a column, for which it takes a tolerance and two equations.  If it does not,
a solve that calls its problem unbounded has come to that from a start. -/
theorem findFeasible_failures (p : LinearProgram ℚ) (upkeep : Upkeep) (rule : PivotRule)
    {config : Config ℚ} (nonneg : 0 ≤ config.tolerance) (limit : ℕ) :
    (∀ failure, (p.findFeasible upkeep rule config limit).outcome = .error (.failed failure) →
      failure = .infeasible ∨ failure = .singularMatrix ∨ failure = .unbounded) ∧
    ((p.findFeasible upkeep rule config limit).outcome = .error (.failed .unbounded) ↔
      p.Overlooks upkeep rule config limit) ∧
    (p.Overlooks upkeep rule config limit → 0 < config.tolerance ∧ 2 ≤ p.numEquations) ∧
    ((p.solve upkeep rule config limit).outcome = .error (.failed .unbounded) →
      ¬p.Overlooks upkeep rule config limit →
      ∃ start, (p.findFeasible upkeep rule config limit).outcome = .ok start ∧
        (start.problem.solvePrimal upkeep rule start.basis config limit).outcome =
          .error (.failed .unbounded)) := by
  refine ⟨fun failure failed => ?_, findFeasible_eq_unbounded_iff,
    fun overlooks => overlooks.pos_and_two_le nonneg, fun failed sees => ?_⟩
  · have accepts := (p.findFeasible_keeps upkeep rule config limit).of_eq_error failed
    cases failure with
    | infeasible => exact Or.inl rfl
    | singularMatrix => exact Or.inr (Or.inl rfl)
    | unbounded => exact Or.inr (Or.inr rfl)
    | dimensionMismatch cause => exact absurd trivial accepts
    | invalidBasis defect => exact absurd trivial accepts
  · cases found : (p.findFeasible upkeep rule config limit).outcome with
    | error fault =>
        rw [solve, Traced.outcome_bind, found, error_bind] at failed
        cases failed
        exact absurd (findFeasible_eq_unbounded_iff.1 found) sees
    | ok start => exact ⟨start, rfl, (solve_outcome found).symm.trans failed⟩

def scattered : LinearProgram ℚ where
  cost := [0, 0, 0]
  constraints := ⟨[[1 / 4, 0, 0], [1 / 4, 0, 0]], 3, by decide⟩
  rhs := [1, 2]
  cost_length := rfl
  rhs_length := rfl
  height_lt_width := by decide

theorem findFeasible_failures_scattered :
    (0 : ℚ) ≤ 1 / 4 ∧ scattered.Overlooks .reinversion .mostNegative ⟨1 / 4, 0, true⟩ 1 := by
  have failed : (scattered.findFeasible .reinversion .mostNegative ⟨1 / 4, 0, true⟩ 1).outcome =
      .error (.failed .unbounded) := by decide +kernel
  have nonneg : (0 : ℚ) ≤ 1 / 4 := by norm_num
  exact ⟨nonneg, (scattered.findFeasible_failures .reinversion .mostNegative nonneg 1).2.1.1 failed⟩

theorem exists_findFeasible_unbounded :
    (scattered.findFeasible .productForm .leastIndex ⟨1 / 4, 0, true⟩ 1).outcome =
        .error (.failed .unbounded) ∧
      (scattered.solve .productForm .leastIndex ⟨1 / 4, 0, true⟩ 1).outcome =
        .error (.failed .unbounded) ∧
      ∀ x, ¬scattered.Feasible x := by
  have failed : (scattered.findFeasible .productForm .leastIndex ⟨1 / 4, 0, true⟩ 1).outcome =
      .error (.failed .unbounded) := by decide +kernel
  have called : (scattered.findFeasible .productForm .leastIndex ⟨0, 0, true⟩ 9).outcome =
      .error (.failed .infeasible) := by decide +kernel
  have ends := (scattered.findFeasible_yields .productForm .leastIndex rfl 9).2.of_eq_error called
  refine ⟨failed, ?_, ?_⟩
  · rw [solve, Traced.outcome_bind, failed, error_bind]
  · cases ends with
    | infeasible none => exact none

end LinearProgram

end SimplexMethod
