import SimplexMethod.Proofs.DualRun

namespace SimplexMethod
open Matrix Vec Outcome

namespace Dual

variable {p : LinearProgram ℚ} {config : Config ℚ} {s : State ℚ}

theorem Within.value_le {slack : Fin p.numVariables → ℚ} (within : Within p slack s)
    (wellFormed : WellFormed p s) {N : Matrix (Fin p.numEquations) (Fin p.numEquations) ℚ}
    {values : Vec ℚ} (inverse : N * wellFormed.basis.matrix = 1) (nonneg : 0 ≤ N *ᵥ p.sides)
    (spreads : toFun values p.numVariables = spread wellFormed.basis.column (N *ᵥ p.sides))
    {x : Vec ℚ} (feasible : p.Feasible x) :
    p.value values ≤ p.value x + slack ⬝ᵥ toFun values p.numVariables := by
  have equations : p.matrix *ᵥ toFun values p.numVariables = p.sides := by
    rw [spreads]
    exact mulVec_basicPoint inverse p.sides
  have bound := dotProduct_le_add_reduced equations within.nonneg feasible.toFun_nonneg
    feasible.equations
  refine bound.trans (add_le_add_right ?_ (p.value x))
  refine Finset.sum_le_sum fun j _ => ?_
  rw [spreads]
  by_cases inside : j ∈ Set.range wellFormed.basis.column
  · obtain ⟨i, rfl⟩ := inside
    rw [spread_apply wellFormed.basis.column_injective]
    exact mul_le_mul_of_nonneg_right (within.le _ (wellFormed.basis.column_mem i)) (nonneg i)
  · rw [spread_of_notMem inside, mul_zero, mul_zero]

theorem WellFormed.run_value_le (wellFormed : WellFormed p s) (exact : config.tolerance = 0)
    {slack : Fin p.numVariables → ℚ} (slackNonneg : 0 ≤ slack) (within : Within p slack s)
    (limit iteration : ℕ) :
    (run p config limit iteration s).outcome.Yields
      (fun solution => ∀ x, p.Feasible x → p.value solution.values ≤
        p.value x + slack ⬝ᵥ toFun solution.values p.numVariables)
      (fun _ => True) := by
  induction limit generalizing iteration s with
  | zero => trivial
  | succ limit ih =>
      rw [run, Traced.outcome_bind]
      apply ((wellFormed.step_turns exact iteration).mono_fault fun _ _ => trivial).bind
      intro result turns
      cases turns with
      | optimal N values inverse nonneg length spreads =>
          intro x feasible
          exact within.value_le wellFormed inverse nonneg spreads feasible
      | next N deficit row lacks entering enters y length moved =>
          obtain ⟨exchanged, -⟩ := wellFormed.basis.exchange row enters.outside
          exact ih ⟨exchanged, length⟩ (within.move slackNonneg lacks enters rfl moved)
            (iteration + 1)

end Dual

namespace LinearProgram

/-- The reduced costs that multipliers have on the columns of a basis.  They are all zero only for
the multipliers of that basis. -/
def slackOn (p : LinearProgram ℚ) (basis : List ℕ) (y : Vec ℚ) (j : Fin p.numVariables) : ℚ :=
  if (j : ℕ) ∈ basis then reduced p.matrix p.costs (toFun y p.numEquations) j else 0

/-- A solution found with given multipliers is feasible, and undercut by no more than what their
slack on the first basis makes of it.  It is optimal if it is zero wherever they are slack. -/
theorem solveDual_value_le (p : LinearProgram ℚ) (basis : List ℕ) (y : Vec ℚ) {config : Config ℚ}
    (exact : config.tolerance = 0) {limit : ℕ} {solution : Solution ℚ}
    (solved : (p.solveDual basis (some y) config limit).outcome = .ok solution) :
    p.Feasible solution.values ∧ solution.objective = p.value solution.values ∧
    (∀ x, p.Feasible x → p.value solution.values ≤
      p.value x + p.slackOn basis y ⬝ᵥ toFun solution.values p.numVariables) ∧
    ((∀ j : Fin p.numVariables, p.slackOn basis y j = 0 ∨
      toFun solution.values p.numVariables j = 0) → p.Optimal solution.values) := by
  have yields : (p.solveDual basis (some y) config limit).outcome.Yields
      (fun solution => p.Feasible solution.values ∧ solution.objective = p.value solution.values ∧
        ∀ x, p.Feasible x → p.value solution.values ≤
          p.value x + p.slackOn basis y ⬝ᵥ toFun solution.values p.numVariables)
      (fun _ => True) := by
    rw [solveDual, Traced.outcome_bind, Traced.outcome_lift]
    apply ((Dual.start_given_yields p basis y exact).mono (fun _ started => started)
      fun _ _ => trivial).bind
    intro s given
    obtain ⟨rfl, wellFormed, nonneg⟩ := given
    have slackNonneg : 0 ≤ p.slackOn basis y := by
      intro j
      rw [slackOn]
      split
      · exact nonneg j
      · exact le_rfl
    have within : Dual.Within p (p.slackOn basis y) ⟨basis, y⟩ :=
      ⟨nonneg, fun j inside => (if_pos inside).ge⟩
    have solves := wellFormed.run_yields exact limit 0
    have bounded := wellFormed.run_value_le exact slackNonneg within limit 0
    cases ended : (Dual.run p config limit 0 ⟨basis, y⟩).outcome with
    | error fault => trivial
    | ok solution =>
        rw [ended] at solves bounded
        exact ⟨solves.feasible, solves.objective_eq, bounded⟩
  obtain ⟨feasible, objective_eq, bound⟩ := yields.of_eq_ok solved
  refine ⟨feasible, objective_eq, bound, fun tight => ⟨feasible, fun x feasible' => ?_⟩⟩
  have none : p.slackOn basis y ⬝ᵥ toFun solution.values p.numVariables = 0 := by
    apply Finset.sum_eq_zero
    intro j _
    rcases tight j with zero | zero <;> simp [zero]
  simpa [none] using bound x feasible'

theorem solveDual_value_le_covering :
    ∃ solution, (covering.solveDual [2] (some [-1 / 2]) ⟨0, 0, true⟩ 3).outcome = .ok solution ∧
      covering.Optimal solution.values := by
  have solved : (covering.solveDual [2] (some [-1 / 2]) ⟨0, 0, true⟩ 3).outcome =
      .ok ⟨[1, 0, 0], [0], 1, 1⟩ := by decide +kernel
  refine ⟨_, solved, (covering.solveDual_value_le [2] [-1 / 2] rfl solved).2.2.2 ?_⟩
  decide +kernel

def sharing : LinearProgram ℚ where
  cost := [-1, 0]
  constraints := ⟨[[1, 1]], 2, by decide⟩
  rhs := [1]
  cost_length := rfl
  rhs_length := rfl
  height_lt_width := by decide

theorem exists_solveDual_not_optimal :
    ∃ solution, (sharing.solveDual [1] (some [-1]) ⟨0, 0, true⟩ 1).outcome = .ok solution ∧
      ¬sharing.Optimal solution.values := by
  refine ⟨⟨[0, 1], [1], 0, 0⟩, by decide +kernel, fun optimal => ?_⟩
  have feasible : sharing.Feasible [1, 0] := (isFeasible?_zero_iff rfl).1 (by decide +kernel)
  have worse : sharing.value [1, 0] < sharing.value [0, 1] := by decide +kernel
  exact (optimal.value_le [1, 0] feasible).not_gt worse

end LinearProgram

end SimplexMethod
