import SimplexMethod.Proofs.Pivoting

namespace SimplexMethod
open Matrix Vec Outcome

namespace Tableau

variable {t : Tableau ℚ}

theorem WellFormed.mem_profitable_iff (wellFormed : t.WellFormed) {costs : Vec ℚ}
    (entries : toFun costs t.problem.numVariables = wellFormed.reducedCosts)
    (candidate : ℕ × ℚ) : candidate ∈ t.profitable costs ↔
      ∃ j : Fin t.problem.numVariables, (j : ℕ) ∉ t.basis ∧
        candidate = ((j : ℕ), wellFormed.reducedCosts j) ∧
        wellFormed.reducedCosts j < -t.tolerance := by
  rw [profitable, List.mem_filter, List.mem_map, decide_eq_true_iff, ← entries]
  constructor
  · intro given
    obtain ⟨⟨j, member, rfl⟩, falls⟩ := given
    obtain ⟨inside, outside⟩ := wellFormed.mem_nonbasic_iff.1 member
    exact ⟨⟨j, inside⟩, outside, rfl, falls⟩
  · intro given
    obtain ⟨j, outside, rfl, falls⟩ := given
    exact ⟨⟨j, wellFormed.mem_nonbasic_iff.2 ⟨j.isLt, outside⟩, rfl⟩, falls⟩

theorem profitable_sorted (t : Tableau ℚ) (costs : Vec ℚ) :
    (t.profitable costs).Pairwise fun first second => first.1 < second.1 := by
  apply List.Pairwise.filter
  rw [List.pairwise_map]
  exact List.pairwise_lt_range.filter _

structure WellFormed.Enters (wellFormed : t.WellFormed) (rule : PivotRule)
    (j : Fin t.problem.numVariables) : Prop where
  outside : (j : ℕ) ∉ t.basis
  falls : wellFormed.reducedCosts j < -t.tolerance
  least : rule = .leastIndex → ∀ k < j, (k : ℕ) ∉ t.basis →
    -t.tolerance ≤ wellFormed.reducedCosts k

theorem WellFormed.enteringColumn_eq (wellFormed : t.WellFormed) (rule : PivotRule) :
    (∃ j : Fin t.problem.numVariables, wellFormed.Enters rule j ∧
        rule.enteringColumn t = .ok (some ((j : ℕ), wellFormed.reducedCosts j))) ∨
      rule.enteringColumn t = .ok none ∧
        ∀ j : Fin t.problem.numVariables, (j : ℕ) ∉ t.basis →
          -t.tolerance ≤ wellFormed.reducedCosts j := by
  obtain ⟨costs, computed, -, entries⟩ := wellFormed.reducedCosts_eq
  have candidates := wellFormed.mem_profitable_iff entries
  rw [PivotRule.enteringColumn, computed, ok_bind, pure_eq_ok]
  have none_iff : rule.choose? (t.profitable costs) = none ↔ t.profitable costs = [] := by
    cases rule with
    | leastIndex => exact List.head?_eq_none_iff
    | mostNegative => exact firstLeast?_eq_none_iff
  have some_mem : ∀ candidate, rule.choose? (t.profitable costs) = some candidate →
      candidate ∈ t.profitable costs := by
    intro candidate found
    cases rule with
    | leastIndex => exact List.mem_of_head? found
    | mostNegative => exact firstLeast?_mem found
  cases found : rule.choose? (t.profitable costs) with
  | none =>
      refine Or.inr ⟨rfl, fun j outside => not_lt.1 fun falls => ?_⟩
      have member := (candidates _).2 ⟨j, outside, rfl, falls⟩
      rw [none_iff.1 found] at member
      cases member
  | some candidate =>
      obtain ⟨j, outside, rfl, falls⟩ := (candidates candidate).1 (some_mem _ found)
      refine Or.inl ⟨j, ⟨outside, falls, ?_⟩, rfl⟩
      rintro rfl k below outsideK
      refine not_lt.1 fun fallsK => ?_
      have member := (candidates _).2 ⟨k, outsideK, rfl, fallsK⟩
      obtain ⟨rest, list⟩ := List.head?_eq_some_iff.1 found
      have sorted := profitable_sorted t costs
      rw [list, List.pairwise_cons] at sorted
      rw [list] at member
      rcases List.mem_cons.1 member with same | later
      · exact below.ne (Fin.ext (congrArg Prod.fst same))
      · exact below.asymm (sorted.1 _ later)

inductive WellFormed.Offers (wellFormed : t.WellFormed) (rule : PivotRule) : Prospect ℚ → Prop
  | optimal (none : ∀ j : Fin t.problem.numVariables, (j : ℕ) ∉ t.basis →
      -t.tolerance ≤ wellFormed.reducedCosts j) : Offers wellFormed rule .optimal
  | unbounded (j : Fin t.problem.numVariables) (enters : wellFormed.Enters rule j)
      (bounded : ∀ i, expressed t j i ≤ t.tolerance) : Offers wellFormed rule (.unbounded j)
  | pivot (j : Fin t.problem.numVariables) (enters : wellFormed.Enters rule j)
      (pivot : Pivot ℚ) (row : Fin t.problem.numEquations)
      (pivots : wellFormed.Pivots pivot j row) :
      Offers wellFormed rule (.pivot (wellFormed.reducedCosts j) pivot)

theorem WellFormed.prospect_eq (wellFormed : t.WellFormed) (rule : PivotRule) :
    ∃ prospect, t.prospect rule = .ok prospect ∧ wellFormed.Offers rule prospect := by
  rcases wellFormed.enteringColumn_eq rule with ⟨j, enters, chosen⟩ | ⟨chosen, none⟩
  · rcases wellFormed.limitingPivot_eq j with ⟨pivot, row, found, pivots⟩ | ⟨found, bounded⟩
    · exact ⟨_, by simp [prospect, chosen, found], .pivot j enters pivot row pivots⟩
    · exact ⟨_, by simp [prospect, chosen, found], .unbounded j enters bounded⟩
  · exact ⟨_, by simp [prospect, chosen], .optimal none⟩

theorem BasicFeasible.optimal (feasible : t.BasicFeasible) (exact : t.tolerance = 0)
    (none : ∀ j : Fin t.problem.numVariables, (j : ℕ) ∉ t.basis →
      -t.tolerance ≤ feasible.reducedCosts j) : t.problem.Optimal t.values := by
  have onBasis : ∀ j : Fin t.problem.numVariables, (j : ℕ) ∈ t.basis →
      feasible.reducedCosts j = 0 := by
    intro j inside
    obtain ⟨i, rfl⟩ := feasible.basis.mem_range_iff.2 inside
    exact reduced_basis feasible.inverse.mul_eq_one i
  refine ⟨feasible.feasible, fun x' feasible' => ?_⟩
  refine optimal_of_complementary feasible.equations ?_ ?_ feasible'.toFun_nonneg
    feasible'.equations (y := multipliersOf t.problem.costs feasible.column t.inverseMatrix)
  · intro j
    by_cases inside : (j : ℕ) ∈ t.basis
    · exact (onBasis j inside).ge
    · simpa [exact] using none j inside
  · intro j
    by_cases inside : (j : ℕ) ∈ t.basis
    · exact Or.inr (onBasis j inside)
    · exact Or.inl (feasible.zero j inside)

theorem WellFormed.ray (wellFormed : t.WellFormed) (exact : t.tolerance = 0)
    {j : Fin t.problem.numVariables} (outside : (j : ℕ) ∉ t.basis)
    (falls : wellFormed.reducedCosts j < -t.tolerance)
    (bounded : ∀ i, expressed t j i ≤ t.tolerance) : ∃ d, t.problem.Ray d := by
  have away := wellFormed.notMem_range outside
  refine ⟨_, LinearProgram.ray_ofFn (d := edge t.problem.matrix wellFormed.column
    t.inverseMatrix j) ?_ (mulVec_edge wellFormed.inverse.mul_eq_one j) ?_⟩
  · intro k
    rw [Pi.zero_apply]
    by_cases enters : k = j
    · rw [enters, edge_self away]
      exact zero_le_one
    · by_cases onBasis : k ∈ Set.range wellFormed.column
      · obtain ⟨i, rfl⟩ := onBasis
        rw [edge_basis away wellFormed.basis.column_injective]
        exact neg_nonneg.2 ((bounded i).trans_eq exact)
      · exact (edge_of_notMem onBasis enters).ge
  · rw [dotProduct_edge]
    simpa [exact] using falls

theorem BasicFeasible.step_nonneg (feasible : t.BasicFeasible) (exact : t.tolerance = 0)
    {j : Fin t.problem.numVariables} (outside : (j : ℕ) ∉ t.basis)
    {row : Fin t.problem.numEquations} {step : ℚ}
    (limits : feasible.Limits (WellFormed.expressed t j) row step) :
    0 ≤ step ∧ 0 ≤ t.point + step • edge t.problem.matrix feasible.column t.inverseMatrix j := by
  have away := feasible.notMem_range outside
  have direction : 0 < WellFormed.expressed t j row := by simpa [exact] using limits.direction
  have growth : 0 ≤ step := by
    rw [limits.step_eq]
    exact div_nonneg (feasible.nonneg _) direction.le
  refine ⟨growth, fun k => ?_⟩
  rw [Pi.zero_apply, Pi.add_apply, Pi.smul_apply, smul_eq_mul]
  by_cases enters : k = j
  · rw [enters, edge_self away, mul_one]
    exact add_nonneg (feasible.nonneg j) growth
  · by_cases onBasis : k ∈ Set.range feasible.column
    · obtain ⟨i, rfl⟩ := onBasis
      rw [edge_basis away feasible.basis.column_injective, mul_neg, ← sub_eq_add_neg, sub_nonneg]
      rcases le_or_gt (WellFormed.expressed t j i) 0 with falls | rises
      · exact (mul_nonpos_of_nonneg_of_nonpos growth falls).trans (feasible.nonneg _)
      · have bound := limits.step_le i (by simpa [exact] using rises)
        exact (le_div_iff₀ rises).1 bound
    · rw [edge_of_notMem onBasis enters, mul_zero, add_zero]
      exact feasible.nonneg k

theorem BasicFeasible.pivot_yields (feasible : t.BasicFeasible) (exact : t.tolerance = 0)
    {j : Fin t.problem.numVariables} (outside : (j : ℕ) ∉ t.basis)
    {row : Fin t.problem.numEquations} {pivot : Pivot ℚ}
    (pivots : feasible.Pivots pivot j row) :
    (t.pivot pivot).Yields
      (fun next => next.BasicFeasible ∧ ∃ inverse members values, next =
          { t with inverse, members, values, basis := t.basis.set row j } ∧
        toFun values t.problem.numVariables = t.point +
          pivot.step • edge t.problem.matrix feasible.column t.inverseMatrix j)
      (· = .failed .singularMatrix) := by
  have direction : WellFormed.expressed t j row ≠ 0 := by
    have positive := pivots.limits.direction
    rw [exact] at positive
    exact positive.ne'
  have reaches : pivot.step * WellFormed.expressed t j row = t.point (feasible.column row) := by
    rw [pivots.limits.step_eq, div_mul_cancel₀ _ direction]
  have exchanged := feasible.toBasic.exchange_yields exact outside pivots.length pivots.column_eq
    reaches
  rw [Tableau.pivot, pivots.entering_eq, pivots.row_eq]
  refine exchanged.mono_value ?_
  intro next given
  obtain ⟨basic, inverse, members, values, rfl, moved⟩ := given
  refine ⟨⟨basic, ?_⟩, inverse, members, values, rfl, moved⟩
  have nonneg := (feasible.step_nonneg exact outside pivots.limits).2
  rw [← moved] at nonneg
  exact nonneg

theorem checkFeasible_eq_ok_iff {config : Config ℚ} : t.checkFeasible config = .ok () ↔
    (config.checked = true → t.isBasicFeasible = .ok true) := by
  unfold checkFeasible
  split
  · rename_i checked
    simp only [bind_eq_ok_iff, require_eq_ok_iff, exists_eq_right, checked, true_imp_iff]
  · rename_i unchecked
    exact iff_of_true rfl fun checked => absurd checked unchecked

theorem BasicFeasible.checkFeasible_eq (feasible : t.BasicFeasible) (nonneg : 0 ≤ t.tolerance)
    (config : Config ℚ) : t.checkFeasible config = .ok () :=
  checkFeasible_eq_ok_iff.2 fun _ => feasible.isBasicFeasible_eq nonneg

end Tableau

namespace Primal

variable {t : Tableau ℚ} (rule : PivotRule) (config : Config ℚ)

inductive EndsWith (p : LinearProgram ℚ) : Fault ℚ → Prop
  | singular : EndsWith p (.failed .singularMatrix)
  | unbounded (d : Vec ℚ) (ray : p.Ray d) : EndsWith p (.failed .unbounded)

theorem progress_eq (wellFormed : t.WellFormed) (iteration : ℕ) :
    (progress config iteration t).outcome = .ok () := by
  unfold progress
  split
  · simp [wellFormed.objective_eq]
  · rfl

def advance (rule : PivotRule) (t : Tableau ℚ) : Outcome ℚ (Option (Tableau ℚ)) := do
  match ← t.prospect rule with
  | .optimal => return none
  | .unbounded _ => fail .unbounded
  | .pivot _ pivot => return some (← t.pivot pivot)

/-- What a step comes to, but for the events. -/
def attempt (rule : PivotRule) (config : Config ℚ) (t : Tableau ℚ) :
    Outcome ℚ (Option (Tableau ℚ)) := do
  let _ ← t.checkedCosts config
  advance rule t

theorem step_outcome_eq (wellFormed : t.WellFormed) (iteration : ℕ) :
    (step rule config iteration t).outcome = attempt rule config t := by
  obtain ⟨prospect, offered, offers⟩ := wellFormed.prospect_eq rule
  unfold step attempt advance
  simp only [Traced.outcome_bind, Traced.outcome_lift, Traced.outcome_emit, ok_bind, offered]
  congr 1
  funext costs
  cases offers with
  | optimal none => simp [wellFormed.objective_eq]
  | unbounded j enters bounded => simp
  | pivot j enters pivot row pivots =>
      have yields := wellFormed.pivot_yields enters.outside pivots
      cases pivoted : t.pivot pivot with
      | error fault => simp [pivoted]
      | ok next =>
          rw [pivoted] at yields
          simp [pivoted, progress_eq config yields.1]

theorem attempt_of_checkFeasible (wellFormed : t.WellFormed)
    (passes : t.checkFeasible config = .ok ()) : attempt rule config t = advance rule t := by
  obtain ⟨costs, computed, -⟩ := wellFormed.reducedCosts_eq
  rw [attempt, Tableau.checkedCosts, passes, ok_bind, computed, ok_bind]

theorem step_outcome (feasible : t.BasicFeasible) (exact : t.tolerance = 0) (iteration : ℕ) :
    (step rule config iteration t).outcome = advance rule t := by
  rw [step_outcome_eq rule config feasible.toWellFormed]
  exact attempt_of_checkFeasible rule config feasible.toWellFormed
    (feasible.checkFeasible_eq exact.ge config)

theorem advance_yields (feasible : t.BasicFeasible) (exact : t.tolerance = 0) :
    (advance rule t).Yields
      (fun result => match result with
        | none => t.problem.Optimal t.values
        | some next => next.BasicFeasible ∧ next.problem = t.problem ∧ next.tolerance = 0)
      (EndsWith t.problem) := by
  obtain ⟨prospect, offered, offers⟩ := feasible.prospect_eq rule
  unfold advance
  rw [offered, ok_bind]
  cases offers with
  | optimal none => exact feasible.optimal exact none
  | unbounded j enters bounded =>
      obtain ⟨d, ray⟩ := feasible.ray exact enters.outside enters.falls bounded
      exact .unbounded d ray
  | pivot j enters pivot row pivots =>
      apply ((feasible.pivot_yields exact enters.outside pivots).mono_fault
        (by rintro _ rfl; exact EndsWith.singular)).bind
      intro next given
      obtain ⟨feasible', inverse, members, values, rfl, -⟩ := given
      exact ⟨feasible', rfl, exact⟩

structure OptimalAt (p : LinearProgram ℚ) (t : Tableau ℚ) : Prop where
  feasible : t.BasicFeasible
  problem_eq : t.problem = p
  exact : t.tolerance = 0
  optimal : p.Optimal t.values

theorem run_yields (feasible : t.BasicFeasible) (exact : t.tolerance = 0) (limit iteration : ℕ) :
    (run rule config limit iteration t).outcome.Yields
      (fun _ => OptimalAt t.problem (run rule config limit iteration t).tableau)
      (fun fault => EndsWith t.problem fault ∨ fault = .iterationLimit) := by
  induction limit generalizing iteration t with
  | zero => exact Or.inr rfl
  | succ limit ih =>
      have yields := advance_yields rule feasible exact
      rw [← step_outcome rule config feasible exact iteration] at yields
      unfold run
      simp only
      cases stepped : (step rule config iteration t).outcome with
      | error fault =>
          rw [stepped] at yields
          exact Or.inl yields
      | ok result =>
          rw [stepped] at yields
          cases result with
          | none => exact ⟨feasible, rfl, exact, yields⟩
          | some next =>
              obtain ⟨feasible', same, exact'⟩ := yields
              have rest := ih feasible' exact' (iteration + 1)
              rw [same] at rest
              exact rest

end Primal

end SimplexMethod
