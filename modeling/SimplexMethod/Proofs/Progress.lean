import SimplexMethod.Proofs.ArtificialProblem
import SimplexMethod.Proofs.Termination

namespace SimplexMethod
open Matrix Vec Outcome

namespace Tableau

variable {t s next : Tableau ℚ}

theorem WellFormed.reducedCost_eq (wellFormed : t.WellFormed) (j : Fin t.problem.numVariables) :
    t.reducedCost j = .ok (wellFormed.reducedCosts j) := by
  obtain ⟨y, computed, length, entries⟩ := wellFormed.multipliers_eq
  have lengthColumn := RowMatrix.length_column t.problem.constraints j
  have inside : (j : ℕ) < t.problem.cost.length := j.isLt.trans_eq t.problem.costs_length.symm
  have cost : t.problem.cost[(j : ℕ)]? = some (t.problem.costs j) := by
    simp [toFun, inside]
  rw [reducedCost, LinearProgram.column?_eq j.isLt, demand_some, ok_bind, cost, demand_some, ok_bind,
    computed, ok_bind, Vec.dot?, if_pos (length.trans lengthColumn.symm), demand_some, ok_bind,
    Vec.dot_eq length lengthColumn, entries, LinearProgram.toFun_column]
  rfl

theorem BasicFeasible.pivot_lowers (feasible : t.BasicFeasible) (exact : t.tolerance = 0)
    {rule : PivotRule} {cost : ℚ} {pivot : Pivot ℚ}
    (offered : t.prospect rule = .ok (.pivot cost pivot)) (pivoted : t.pivot pivot = .ok next) :
    t.reducedCost pivot.entering = .ok cost ∧ cost < 0 ∧ 0 ≤ pivot.step ∧
      next.problem.value next.values = t.problem.value t.values + pivot.step * cost := by
  obtain ⟨prospect, offered', offers⟩ := feasible.prospect_eq rule
  cases offered.symm.trans offered'
  cases offers with
  | pivot j enters pivot row pivots =>
      obtain ⟨-, inverse, members, values, rfl, moved⟩ :=
        (feasible.pivot_yields exact enters.outside pivots).of_eq_ok pivoted
      refine ⟨?_, ?_, (feasible.step_nonneg exact enters.outside pivots.limits).1, ?_⟩
      · rw [pivots.entering_eq, feasible.reducedCost_eq]
      · exact enters.falls.trans_eq (by rw [exact, neg_zero])
      · rw [LinearProgram.value, LinearProgram.value, moved, dotProduct_add, dotProduct_smul,
          dotProduct_edge, smul_eq_mul]

theorem Basic.value_eq_of_basis (basic : t.Basic) (basic' : s.Basic) (same : s.problem = t.problem)
    (columns : s.basis.toFinset = t.basis.toFinset) :
    s.problem.value s.values = t.problem.value t.values := by
  obtain ⟨p, inverse, basis, members, values, tolerance⟩ := s
  simp only at same columns
  subst same
  have mem_iff (j : ℕ) : j ∈ basis ↔ j ∈ t.basis := by
    rw [← List.mem_toFinset, columns, List.mem_toFinset]
  have point : toFun values t.problem.numVariables = t.point := by
    refine eq_of_basic basic.inverse.mul_eq_one basic.basis.column_injective (fun j outside => ?_)
      basic'.equations basic.zero_of_notMem_range basic.equations
    refine basic'.zero j fun inside => outside ?_
    exact basic.basis.mem_range_iff.2 ((mem_iff j).1 inside)
  rw [LinearProgram.value, LinearProgram.value, point]

theorem WellFormed.toFinset_basis_mem (wellFormed : t.WellFormed) :
    t.basis.toFinset ∈ (Finset.range t.numVariables).powersetCard t.numEquations := by
  rw [Finset.mem_powersetCard]
  constructor
  · intro j member
    exact Finset.mem_range.2 (wellFormed.basis.lt j (List.mem_toFinset.1 member))
  · rw [List.toFinset_card_of_nodup wellFormed.basis.nodup]
    exact wellFormed.basis.length

end Tableau

namespace Primal

variable {p : LinearProgram ℚ} {upkeep : Upkeep} {config : Config ℚ} {t s next : Tableau ℚ}
  {rule : PivotRule}

inductive Starts (p : LinearProgram ℚ) (upkeep : Upkeep) (config : Config ℚ) : Tableau ℚ → Prop
  | given {basis : List ℕ} {t : Tableau ℚ} (started : p.primalStart upkeep basis config = .ok t) :
      Starts p upkeep config t
  | artificial {t : Tableau ℚ} (nonneg : ∀ value ∈ p.rhs, 0 ≤ value)
      (started : p.artificialStart upkeep config = .ok t) : Starts p upkeep config t

theorem Starts.feasible (starts : Starts p upkeep config t) (exact : config.tolerance = 0) :
    t.BasicFeasible ∧ t.tolerance = 0 := by
  cases starts with
  | given started =>
      obtain ⟨feasible, -, -, exact'⟩ := (p.primalStart_yields upkeep _ exact).of_eq_ok started
      exact ⟨feasible, exact'⟩
  | artificial nonneg started =>
      obtain ⟨t', started', feasible, -, tolerance_eq⟩ := p.artificialStart_eq upkeep config nonneg
      cases started.symm.trans started'
      exact ⟨feasible, tolerance_eq.trans exact⟩

theorem visited_of_outcome_eq_ok (supported : t.Supported) {limit iterations : ℕ}
    (ended : (run rule config limit 0 t).outcome = .ok iterations) :
    visited rule config t iterations = some (run rule config limit 0 t).tableau := by
  have cases := run_cases rule config supported limit 0
  rw [ended] at cases
  rcases cases with ⟨⟨⟩, -⟩ | ⟨pivots, -, reached, halts⟩
  cases halts
  rwa [Nat.zero_add]

structure PivotsAt (rule : PivotRule) (config : Config ℚ) (t : Tableau ℚ) (pivots : ℕ)
    (s : Tableau ℚ) (cost : ℚ) (pivot : Pivot ℚ) (next : Tableau ℚ) : Prop where
  reached : visited rule config t pivots = some s
  offered : s.prospect rule = .ok (.pivot cost pivot)
  pivoted : s.pivot pivot = .ok next

def Moves (rule : PivotRule) (config : Config ℚ) (t : Tableau ℚ) (pivots : ℕ) : Prop :=
  ∀ k < pivots, ∀ s cost pivot next, PivotsAt rule config t k s cost pivot next → 0 < pivot.step

section Visited

variable (feasible : t.BasicFeasible) (exact : t.tolerance = 0)
include feasible exact

theorem PivotsAt.lowers {k : ℕ} {cost : ℚ} {pivot : Pivot ℚ}
    (pivots : PivotsAt rule config t k s cost pivot next) :
    s.reducedCost pivot.entering = .ok cost ∧ cost < 0 ∧ 0 ≤ pivot.step ∧
      next.problem.value next.values = s.problem.value s.values + pivot.step * cost := by
  obtain ⟨feasible', -, exact'⟩ := visited_yields rule config feasible exact pivots.reached
  exact feasible'.pivot_lowers exact' pivots.offered pivots.pivoted

theorem exists_pivotsAt {k : ℕ} (reached : visited rule config t k = some s)
    (follows : next? rule config s = some next) :
    ∃ cost pivot, PivotsAt rule config t k s cost pivot next := by
  have feasible' := (visited_yields rule config feasible exact reached).1
  obtain ⟨-, cost, pivot, offered, pivoted⟩ :=
    (next?_eq_some_iff rule config feasible'.toWellFormed).1 follows
  exact ⟨cost, pivot, reached, offered, pivoted⟩

theorem PivotsAt.follows {k : ℕ} {cost : ℚ} {pivot : Pivot ℚ}
    (pivots : PivotsAt rule config t k s cost pivot next) :
    visited rule config t (k + 1) = some next := by
  obtain ⟨feasible', -, exact'⟩ := visited_yields rule config feasible exact pivots.reached
  exact visited_succ rule config pivots.reached
    ((next?_eq_some_iff rule config feasible'.toWellFormed).2
      ⟨feasible'.checkFeasible_eq exact'.ge config, cost, pivot, pivots.offered, pivots.pivoted⟩)

theorem value_le_of_visited {earlier later : ℕ} (before : earlier ≤ later)
    (reached : visited rule config t earlier = some s)
    (reached' : visited rule config t later = some next) :
    next.problem.value next.values ≤ s.problem.value s.values := by
  rcases before.eq_or_lt with rfl | less
  · cases reached.symm.trans reached'
    exact le_rfl
  · refine iterate?_relates (R := fun s next : Tableau ℚ =>
      next.problem.value next.values ≤ s.problem.value s.values) (fun first second =>
      second.trans first) (fun k _ state after reached follows => ?_) less le_rfl reached reached'
    obtain ⟨cost, pivot, pivots⟩ := exists_pivotsAt feasible exact reached follows
    obtain ⟨-, falls, nonneg, value_eq⟩ := pivots.lowers feasible exact
    rw [value_eq]
    exact add_le_of_nonpos_right (mul_nonpos_of_nonneg_of_nonpos nonneg falls.le)

theorem Moves.value_lt {pivots earlier later : ℕ} (moves : Moves rule config t pivots)
    (before : earlier < later) (upTo : later ≤ pivots)
    (reached : visited rule config t earlier = some s)
    (reached' : visited rule config t later = some next) :
    next.problem.value next.values < s.problem.value s.values := by
  refine iterate?_relates (R := fun s next : Tableau ℚ =>
    next.problem.value next.values < s.problem.value s.values) (fun first second =>
    second.trans first) (fun k below state after reached follows => ?_) before upTo reached reached'
  obtain ⟨cost, pivot, pivots⟩ := exists_pivotsAt feasible exact reached follows
  obtain ⟨-, falls, -, value_eq⟩ := pivots.lowers feasible exact
  rw [value_eq]
  exact add_lt_of_neg_right _ (mul_neg_of_pos_of_neg (moves k below _ _ _ _ pivots) falls)

theorem Moves.basis_ne {pivots earlier later : ℕ} (moves : Moves rule config t pivots)
    (before : earlier < later) (upTo : later ≤ pivots)
    (reached : visited rule config t earlier = some s)
    (reached' : visited rule config t later = some next) :
    s.basis.toFinset ≠ next.basis.toFinset := by
  intro columns
  obtain ⟨feasibleEarlier, same, -⟩ := visited_yields rule config feasible exact reached
  obtain ⟨feasibleLater, same', -⟩ := visited_yields rule config feasible exact reached'
  have values := feasibleEarlier.toBasic.value_eq_of_basis feasibleLater.toBasic
    (same'.trans same.symm) columns.symm
  exact (moves.value_lt feasible exact before upTo reached reached').ne values

theorem Moves.lt_choose {pivots : ℕ} (moves : Moves rule config t pivots)
    (reached : visited rule config t pivots = some s) :
    pivots < t.numVariables.choose t.numEquations := by
  have exists_state (k : Fin (pivots + 1)) : ∃ state, visited rule config t k = some state := by
    refine Option.ne_none_iff_exists'.1 fun ended => ?_
    rw [visited, iterate?_eq_none_of_le (Nat.le_of_lt_succ k.isLt) ended] at reached
    cases reached
  choose state reachedState using exists_state
  -- the bases on the way are so many sets of columns, one column for each equation
  have injective : Function.Injective fun k => (state k).basis.toFinset := by
    intro k l same
    rcases lt_trichotomy k l with before | equal | after
    · exact absurd same (moves.basis_ne feasible exact before (Nat.le_of_lt_succ l.isLt)
        (reachedState k) (reachedState l))
    · exact equal
    · exact absurd same.symm (moves.basis_ne feasible exact after (Nat.le_of_lt_succ k.isLt)
        (reachedState l) (reachedState k))
  have chosen (k : Fin (pivots + 1)) : (state k).basis.toFinset ∈
      (Finset.range t.numVariables).powersetCard t.numEquations := by
    obtain ⟨feasible', same, -⟩ := visited_yields rule config feasible exact (reachedState k)
    have member := feasible'.toFinset_basis_mem
    rwa [Tableau.numVariables, Tableau.numEquations, same] at member
  have count := Finset.card_le_card_of_injOn (s := Finset.univ)
    (fun k => (state k).basis.toFinset) (fun k _ => chosen k) injective.injOn
  rwa [Finset.card_univ, Fintype.card_fin, Finset.card_powersetCard, Finset.card_range] at count

end Visited

/-- Every pivot changes the objective by its step times the reduced cost of the column that enters,
and so never raises it.  As long as no step is zero no set of basic columns comes up twice, which
bounds the number of pivots. -/
theorem primal_progress (exact : config.tolerance = 0) (starts : Starts p upkeep config t)
    (rule : PivotRule) :
    (∀ k s cost pivot next, PivotsAt rule config t k s cost pivot next →
      s.reducedCost pivot.entering = .ok cost ∧ cost < 0 ∧ 0 ≤ pivot.step ∧
      ∃ value, s.objective = .ok value ∧ next.objective = .ok (value + pivot.step * cost)) ∧
    (∀ earlier later s next, earlier ≤ later → visited rule config t earlier = some s →
      visited rule config t later = some next →
      ∃ value value', s.objective = .ok value ∧ next.objective = .ok value' ∧ value' ≤ value) ∧
    ∀ pivots, Moves rule config t pivots →
      (∀ earlier later s next, earlier < later → later ≤ pivots →
        visited rule config t earlier = some s → visited rule config t later = some next →
        s.basis.toFinset ≠ next.basis.toFinset) ∧
      ∀ limit, (t.primal rule config limit).outcome = .ok pivots →
        visited rule config t pivots = some (t.primal rule config limit).tableau ∧
        pivots < t.numVariables.choose t.numEquations := by
  obtain ⟨feasible, exact'⟩ := starts.feasible exact
  have objective {k : ℕ} {s : Tableau ℚ} (reached : visited rule config t k = some s) :
      s.objective = .ok (s.problem.value s.values) :=
    (visited_yields rule config feasible exact' reached).1.objective_eq
  refine ⟨?_, ?_, fun pivots moves => ⟨?_, fun limit ended => ?_⟩⟩
  · intro k s cost pivot next pivots
    obtain ⟨cost_eq, falls, nonneg, value_eq⟩ := pivots.lowers feasible exact'
    exact ⟨cost_eq, falls, nonneg, _, objective pivots.reached,
      (objective (pivots.follows feasible exact')).trans (congrArg Except.ok value_eq)⟩
  · intro earlier later s next before reached reached'
    exact ⟨_, _, objective reached, objective reached',
      value_le_of_visited feasible exact' before reached reached'⟩
  · intro earlier later s next before upTo reached reached'
    exact moves.basis_ne feasible exact' before upTo reached reached'
  · have reached := visited_of_outcome_eq_ok feasible.toBasic.supported ended
    exact ⟨reached, moves.lt_choose feasible exact' reached⟩

end Primal

def sloping : LinearProgram ℚ where
  cost := [-1, -2, 0, 0]
  constraints := ⟨[[1, 1, 1, 0], [0, 1, 0, 1]], 4, by decide⟩
  rhs := [4, 3]
  cost_length := rfl
  rhs_length := rfl
  height_lt_width := by decide

def slopingStart : Tableau ℚ :=
  ⟨sloping, .productForm ⟨[[1, 0], [0, 1]], 2, by decide⟩, [2, 3], [2, 3], [0, 0, 4, 3], 0⟩

def Prospect.step : Prospect ℚ → ℚ
  | .pivot _ chosen => chosen.step
  | _ => 0

theorem Primal.sloping_moves : Moves .leastIndex ⟨0, 0, true⟩ slopingStart 2 := by
  have steps : ∀ k < 2, ((visited .leastIndex ⟨0, 0, true⟩ slopingStart k).bind fun s =>
      (s.prospect .leastIndex).toOption.map Prospect.step) = some ((4 : ℚ) - k) := by
    decide +kernel
  intro k below s cost pivot next pivots
  have step_eq := steps k below
  rw [pivots.reached, Option.bind_some, pivots.offered] at step_eq
  have step : pivot.step = 4 - k := Option.some.inj step_eq
  rw [step, sub_pos]
  exact_mod_cast below.trans (by decide)

theorem Primal.primal_progress_sloping :
    sloping.primalStart .productForm [2, 3] ⟨0, 0, true⟩ = .ok slopingStart ∧
      (slopingStart.primal .leastIndex ⟨0, 0, true⟩ 9).outcome = .ok 2 ∧ 2 < Nat.choose 4 2 ∧
      ∃ s next, visited .leastIndex ⟨0, 0, true⟩ slopingStart 1 = some s ∧
        visited .leastIndex ⟨0, 0, true⟩ slopingStart 2 = some next ∧
        s.basis.toFinset ≠ next.basis.toFinset := by
  have started : sloping.primalStart .productForm [2, 3] ⟨0, 0, true⟩ = .ok slopingStart := by
    decide +kernel
  have ended : (slopingStart.primal .leastIndex ⟨0, 0, true⟩ 9).outcome = .ok 2 := by decide +kernel
  have made : (visited .leastIndex ⟨0, 0, true⟩ slopingStart 1).isSome = true := by decide +kernel
  obtain ⟨-, -, bounded⟩ :=
    @primal_progress sloping .productForm ⟨0, 0, true⟩ slopingStart rfl (.given started) .leastIndex
  obtain ⟨distinct, counted⟩ := bounded 2 sloping_moves
  obtain ⟨reached, count⟩ := counted 9 ended
  obtain ⟨s, reachedBefore⟩ := Option.isSome_iff_exists.1 made
  exact ⟨started, ended, count, s, _, reachedBefore, reached,
    distinct 1 2 s _ (by decide) le_rfl reachedBefore reached⟩

end SimplexMethod
