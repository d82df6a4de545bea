import SimplexMethod.Proofs.CheckedRun
import SimplexMethod.Proofs.Cycling

namespace SimplexMethod
open Matrix Vec Outcome

namespace Tableau

/-- No column smaller than the leaving one limits the step just as much. -/
def LeavesLeast (t : Tableau ℚ) (pivot : Pivot ℚ) : Prop :=
  ∀ i < t.numEquations, t.tolerance < pivot.column.getD i 0 →
    t.values.getD (t.basis.getD i 0) 0 / pivot.column.getD i 0 = pivot.step →
    pivot.leaving ≤ t.basis.getD i 0

end Tableau

namespace Primal

variable {t : Tableau ℚ} (rule : PivotRule) (config : Config ℚ)

theorem visited_yields (feasible : t.BasicFeasible) (exact : t.tolerance = 0) {pivots : ℕ}
    {s : Tableau ℚ} (reached : visited rule config t pivots = some s) :
    s.BasicFeasible ∧ s.problem = t.problem ∧ s.tolerance = 0 := by
  induction pivots generalizing s with
  | zero =>
      cases reached
      exact ⟨feasible, rfl, exact⟩
  | succ pivots ih =>
      obtain ⟨before, reachedBefore, follows⟩ := iterate?_succ_eq_some_iff.1 reached
      obtain ⟨feasibleBefore, same, exactBefore⟩ := ih reachedBefore
      obtain ⟨-, cost, pivot, offered, pivoted⟩ :=
        (next?_eq_some_iff rule config feasibleBefore.toWellFormed).1 follows
      obtain ⟨j, row, enters, pivots⟩ := feasibleBefore.toWellFormed.exists_pivots offered
      obtain ⟨feasible', inverse, members, values, rfl, -⟩ :=
        (feasibleBefore.pivot_yields exactBefore enters.outside pivots).of_eq_ok pivoted
      exact ⟨feasible', same, exactBefore⟩

end Primal

namespace Tableau

variable {p : LinearProgram ℚ} {s next : Tableau ℚ}

def Basic.vertex (basic : s.Basic) (same : s.problem = p) : Vertex p.matrix p.sides :=
  same ▸
    { column := basic.column
      inverse := s.inverseMatrix
      point := s.point
      injective := basic.basis.column_injective
      mul_eq_one := basic.inverse.mul_eq_one
      zero := basic.zero_of_notMem_range
      equations := basic.equations }

theorem BasicFeasible.turn (feasible : s.BasicFeasible) (exact : s.tolerance = 0)
    {j : Fin s.problem.numVariables} (enters : feasible.Enters .leastIndex j) {pivot : Pivot ℚ}
    {row : Fin s.problem.numEquations} (pivots : feasible.Pivots pivot j row)
    (pivoted : s.pivot pivot = .ok next) (basic : next.Basic) (same : next.problem = s.problem) :
    Turn s.problem.costs (feasible.toBasic.vertex rfl) (basic.vertex same) j row pivot.step := by
  have yields := feasible.pivot_yields exact enters.outside pivots
  rw [pivoted] at yields
  obtain ⟨-, inverse, members, values, rfl, moved⟩ := yields
  obtain ⟨exchanged, columns⟩ := feasible.basis.exchange row enters.outside
  constructor
  · exact feasible.notMem_range enters.outside
  · exact enters.falls.trans_eq (by rw [exact, neg_zero])
  · intro k below outside
    have bound := enters.least rfl k below fun inside =>
      outside (feasible.basis.mem_range_iff.2 inside)
    exact (by rw [exact, neg_zero] : (0 : ℚ) = -s.tolerance).trans_le bound
  · exact exact.symm.trans_lt pivots.limits.direction
  · exact (feasible.step_nonneg exact enters.outside pivots.limits).1
  · exact moved
  · exact columns

theorem LeavesLeast.le (feasible : s.BasicFeasible) (exact : s.tolerance = 0)
    {j : Fin s.problem.numVariables} {pivot : Pivot ℚ} {row : Fin s.problem.numEquations}
    (pivots : feasible.Pivots pivot j row) (least : s.LeavesLeast pivot)
    {i : Fin s.problem.numEquations} (limits : 0 < WellFormed.expressed s j i)
    (ties : s.point (feasible.column i) / WellFormed.expressed s j i = pivot.step) :
    feasible.column row ≤ feasible.column i := by
  have entry : pivot.column.getD i 0 = WellFormed.expressed s j i := congrFun pivots.column_eq i
  have bound := least i i.isLt
  rw [entry, feasible.basis.getD_eq, exact, pivots.leaving_eq] at bound
  exact bound limits ties

theorem BasicFeasible.exists_turn (feasible : s.BasicFeasible) (exact : s.tolerance = 0)
    (same : s.problem = p) {config : Config ℚ}
    (follows : Primal.next? .leastIndex config s = some next) (basic : next.Basic)
    (same' : next.problem = p) :
    ∃ j row step, Turn p.costs (feasible.toBasic.vertex same) (basic.vertex same') j row step ∧
      ∃ cost pivot, s.prospect .leastIndex = .ok (.pivot cost pivot) ∧
        (s.LeavesLeast pivot → ∀ i, 0 < (feasible.toBasic.vertex same).expressed j i →
          (feasible.toBasic.vertex same).point ((feasible.toBasic.vertex same).column i) /
            (feasible.toBasic.vertex same).expressed j i = step →
          (feasible.toBasic.vertex same).column row ≤ (feasible.toBasic.vertex same).column i) := by
  subst same
  obtain ⟨-, cost, pivot, offered, pivoted⟩ :=
    (Primal.next?_eq_some_iff .leastIndex config feasible.toWellFormed).1 follows
  obtain ⟨j, row, enters, pivots⟩ := feasible.toWellFormed.exists_pivots offered
  refine ⟨j, row, pivot.step, feasible.turn exact enters pivots pivoted basic same', cost, pivot,
    offered, ?_⟩
  intro least i limits ties
  exact least.le feasible exact pivots limits ties

end Tableau

namespace Primal

def LeavesLeastFrom (config : Config ℚ) (t : Tableau ℚ) (start : ℕ) : Prop :=
  ∀ n ≥ start, ∀ s cost pivot, visited .leastIndex config t n = some s →
    s.prospect .leastIndex = .ok (.pivot cost pivot) → s.LeavesLeast pivot

theorem exists_visited_eq_none {t : Tableau ℚ} {config : Config ℚ} (feasible : t.BasicFeasible)
    (exact : t.tolerance = 0) {start : ℕ} (least : LeavesLeastFrom config t start) :
    ∃ n, visited .leastIndex config t n = none := by
  by_contra unending
  obtain ⟨s, reached⟩ := exists_states fun n ended => unending ⟨n, ended⟩
  have invariant := fun n => visited_yields .leastIndex config feasible exact (reached n).1
  choose entering row step turn cost pivot offered passes using fun n =>
    (invariant n).1.exists_turn (invariant n).2.2 (invariant n).2.1 (reached n).2
      (invariant (n + 1)).1.toBasic (invariant (n + 1)).2.1
  obtain ⟨n, late, i, limits, ties, smaller⟩ := exists_passed_over_after turn start
  have leaves := least n late (s n) (cost n) (pivot n) (reached n).1 (offered n)
  exact (passes n leaves i limits ties).not_gt smaller

end Primal

namespace LinearProgram

def cycling : LinearProgram ℚ where
  cost := [1, 3, 0, 0, 0, -2]
  constraints := ⟨[[3, -2, 1, -2, 0, 1], [1, -3, 0, -2, 1, 2]], 6, by decide⟩
  rhs := [0, 0]
  cost_length := rfl
  rhs_length := rfl
  height_lt_width := by decide

theorem cycling_returns (upkeep : Upkeep) :
    ∃ t s, cycling.primalStart upkeep [2, 4] ⟨0, 0, true⟩ = .ok t ∧
      Primal.visited .leastIndex ⟨0, 0, true⟩ t 1 = some s ∧
      Primal.visited .leastIndex ⟨0, 0, true⟩ s 6 = some s := by
  have returns : (cycling.primalStart upkeep [2, 4] ⟨0, 0, true⟩).toOption.map (fun t =>
      (Primal.visited .leastIndex ⟨0, 0, true⟩ t 1).map fun s =>
        decide (Primal.visited .leastIndex ⟨0, 0, true⟩ s 6 = some s)) = some (some true) := by
    cases upkeep with
    | productForm => decide +kernel
    | reinversion => decide +kernel
  obtain ⟨t, started, mapped⟩ := Option.map_eq_some_iff.1 returns
  obtain ⟨s, first, again⟩ := Option.map_eq_some_iff.1 mapped
  exact ⟨t, s, toOption_eq_some_iff.1 started, first, of_decide_eq_true again⟩

theorem cycling_visited {upkeep : Upkeep} {t : Tableau ℚ}
    (started : cycling.primalStart upkeep [2, 4] ⟨0, 0, true⟩ = .ok t) (pivots : ℕ) :
    Primal.visited .leastIndex ⟨0, 0, true⟩ t pivots ≠ none := by
  intro ended
  obtain ⟨t', s, started', first, again⟩ := cycling_returns upkeep
  cases started.symm.trans started'
  have later := iterate?_eq_none_of_le (Nat.le_add_left pivots 1) ended
  have shifted := iterate?_add (Primal.next? .leastIndex ⟨0, 0, true⟩) t 1 pivots
  have one : iterate? (Primal.next? .leastIndex ⟨0, 0, true⟩) t 1 = some s := first
  rw [one, Option.bind_some] at shifted
  exact iterate?_ne_none_of_period (by decide) again pivots (shifted.symm.trans later)

theorem cycling_outcome {upkeep : Upkeep} {t : Tableau ℚ}
    (started : cycling.primalStart upkeep [2, 4] ⟨0, 0, true⟩ = .ok t) (limit : ℕ) :
    (t.primal .leastIndex ⟨0, 0, true⟩ limit).outcome = .error .iterationLimit := by
  obtain ⟨feasible, -⟩ := (cycling.primalStart_yields upkeep [2, 4] rfl).of_eq_ok started
  apply (Primal.run_outcome_eq_iterationLimit_iff .leastIndex ⟨0, 0, true⟩
    feasible.toBasic.supported limit 0).2
  exact cycling_visited started limit

theorem exists_primal_unending :
    (∃ t, cycling.primalStart .productForm [2, 4] ⟨0, 0, true⟩ = .ok t ∧
      ∀ limit, (t.primal .leastIndex ⟨0, 0, true⟩ limit).outcome = .error .iterationLimit) ∧
    ∃ t, cycling.primalStart .reinversion [2, 4] ⟨0, 0, true⟩ = .ok t ∧
      ∀ limit, (t.primal .leastIndex ⟨0, 0, true⟩ limit).outcome = .error .iterationLimit := by
  constructor
  · obtain ⟨t, -, started, -⟩ := cycling_returns .productForm
    exact ⟨t, started, cycling_outcome started⟩
  · obtain ⟨t, -, started, -⟩ := cycling_returns .reinversion
    exact ⟨t, started, cycling_outcome started⟩

/-- With the profitable column of least index a run ends if and only if the leaving column is the
least that limits the step as well, from some pivot on. -/
theorem primal_ends_iff {p : LinearProgram ℚ} {upkeep : Upkeep} {basis : List ℕ}
    {config : Config ℚ} {t : Tableau ℚ} (exact : config.tolerance = 0)
    (started : p.primalStart upkeep basis config = .ok t) :
    (∃ limit, (t.primal .leastIndex config limit).outcome ≠ .error .iterationLimit) ↔
      ∃ start, Primal.LeavesLeastFrom config t start := by
  obtain ⟨feasible, -, -, exact'⟩ := (p.primalStart_yields upkeep basis exact).of_eq_ok started
  have ends_iff (limit : ℕ) :=
    Primal.run_outcome_eq_iterationLimit_iff .leastIndex config feasible.toBasic.supported limit 0
  constructor
  · intro given
    obtain ⟨limit, ends⟩ := given
    rw [Tableau.primal, Ne, ends_iff, not_not] at ends
    refine ⟨limit, fun n late s cost pivot reached => ?_⟩
    rw [Primal.visited, iterate?_eq_none_of_le late ends] at reached
    cases reached
  · intro given
    obtain ⟨start, least⟩ := given
    obtain ⟨limit, ended⟩ := Primal.exists_visited_eq_none feasible exact' least
    refine ⟨limit, fun same => ?_⟩
    exact (ends_iff limit).1 same ended

theorem primal_ends_iff_cycling :
    ∃ t, cycling.primalStart .reinversion [2, 4] ⟨0, 0, true⟩ = .ok t ∧
      ¬∃ start, Primal.LeavesLeastFrom ⟨0, 0, true⟩ t start := by
  obtain ⟨t, -, started, -⟩ := cycling_returns .reinversion
  refine ⟨t, started, fun least => ?_⟩
  obtain ⟨limit, ends⟩ := (primal_ends_iff rfl started).2 least
  exact ends (cycling_outcome started limit)

end LinearProgram

end SimplexMethod
