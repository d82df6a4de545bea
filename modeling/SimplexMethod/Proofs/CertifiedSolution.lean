import SimplexMethod.Proofs.BasisCertificate
import SimplexMethod.Proofs.PrimalStart

namespace SimplexMethod
open Matrix Vec Outcome

namespace Tableau

variable {t : Tableau ℚ} {inverse : RowMatrix ℚ}

theorem WellFormed.inverse_eq (wellFormed : t.WellFormed)
    (inverted : t.problem.inverseAt t.basis = .ok inverse) : inverse = t.inverse.inverse := by
  obtain ⟨_, inverts⟩ := (t.problem.inverseAt_yields t.basis).of_eq_ok inverted
  exact inverts.inverse_eq wellFormed.inverse

theorem WellFormed.multipliers_at (wellFormed : t.WellFormed)
    (inverted : t.problem.inverseAt t.basis = .ok inverse) :
    t.problem.multipliers t.basis = t.multipliers := by
  rw [LinearProgram.multipliers, inverted, ok_bind, wellFormed.inverse_eq inverted]
  rfl

theorem WellFormed.reducedCosts_at (wellFormed : t.WellFormed)
    (inverted : t.problem.inverseAt t.basis = .ok inverse) :
    t.problem.reducedCosts t.basis = t.reducedCosts := by
  rw [LinearProgram.reducedCosts, wellFormed.multipliers_at inverted]
  rfl

theorem Basic.basicPoint_at (basic : t.Basic)
    (inverted : t.problem.inverseAt t.basis = .ok inverse) :
    t.problem.basicPoint t.basis = .ok t.values := by
  obtain ⟨accepted, inverts, x, computed, length, spreads⟩ :=
    LinearProgram.basicPoint_eq inverted
  have away := basic.zero_of_notMem_range
  have same : toFun x t.problem.numVariables = t.point := by
    rw [spreads, eq_spread accepted.column_injective away,
      basicValues_eq inverts.mul_eq_one accepted.column_injective away basic.equations]
  rw [computed, eq_of_toFun_eq length basic.length same]

theorem Basic.dot_multipliers (basic : t.Basic) {y : Vec ℚ} (computed : t.multipliers = .ok y) :
    Vec.dot? y t.problem.rhs = some (t.problem.value t.values) := by
  obtain ⟨y', computed', length, entries⟩ := basic.multipliers_eq
  cases computed.symm.trans computed'
  have away := basic.zero_of_notMem_range
  rw [Vec.dot?, if_pos (length.trans t.problem.sides_length.symm),
    Vec.dot_eq length t.problem.sides_length, entries]
  congr 1
  calc multipliersOf t.problem.costs basic.column t.inverseMatrix ⬝ᵥ t.problem.sides
      = t.problem.costs ⬝ᵥ spread basic.column (t.inverseMatrix *ᵥ t.problem.sides) :=
        multipliersOf_dotProduct _ _ _ _
    _ = t.problem.costs ⬝ᵥ spread basic.column (t.point ∘ basic.column) := by
        rw [basicValues_eq basic.inverse.mul_eq_one basic.basis.column_injective away
          basic.equations]
    _ = t.problem.value t.values := by
        rw [← eq_spread basic.basis.column_injective away]
        rfl

end Tableau

namespace LinearProgram

variable {p : LinearProgram ℚ} {basis : List ℕ} {config : Config ℚ}

structure Certified (p : LinearProgram ℚ) (solution : Solution ℚ) : Prop where
  optimal : p.Optimal solution.values
  objective_eq : solution.objective = p.value solution.values
  accepted : p.checkBasis solution.basis = .ok ()
  basicPoint_eq : ∀ inverse, p.inverseAt solution.basis = .ok inverse →
    p.basicPoint solution.basis = .ok solution.values
  reducedCosts_nonneg : ∀ inverse, p.inverseAt solution.basis = .ok inverse →
    ∃ costs, p.reducedCosts solution.basis = .ok costs ∧ ∀ cost ∈ costs, 0 ≤ cost
  dot_multipliers : ∀ inverse, p.inverseAt solution.basis = .ok inverse →
    ∃ y, p.multipliers solution.basis = .ok y ∧ Vec.dot? y p.rhs = some solution.objective

end LinearProgram

namespace Primal

variable {t : Tableau ℚ} (rule : PivotRule) (config : Config ℚ)

theorem prospect_of_step_eq_none {iteration : ℕ}
    (stops : (step rule config iteration t).outcome = .ok none) :
    t.prospect rule = .ok .optimal := by
  unfold step at stops
  simp only [Traced.outcome_bind, Traced.outcome_lift, Traced.outcome_emit, ok_bind] at stops
  obtain ⟨costs, -, rest⟩ := bind_eq_ok_iff.1 stops
  obtain ⟨prospect, offered, rest⟩ := bind_eq_ok_iff.1 rest
  cases prospect with
  | optimal => exact offered
  | unbounded column => cases rest
  | pivot cost pivot =>
      simp only [Traced.outcome_bind, Traced.outcome_emit, Traced.outcome_lift, ok_bind] at rest
      obtain ⟨next, -, rest⟩ := bind_eq_ok_iff.1 rest
      obtain ⟨_, -, rest⟩ := bind_eq_ok_iff.1 rest
      cases rest

theorem prospect_of_run_eq_ok {limit iteration iterations : ℕ}
    (ended : (run rule config limit iteration t).outcome = .ok iterations) :
    (run rule config limit iteration t).tableau.prospect rule = .ok .optimal := by
  induction limit generalizing iteration t with
  | zero => cases ended
  | succ limit ih =>
      unfold run at ended ⊢
      simp only at ended ⊢
      cases stepped : (step rule config iteration t).outcome with
      | error fault =>
          rw [stepped] at ended
          cases ended
      | ok result =>
          rw [stepped] at ended
          cases result with
          | none => exact prospect_of_step_eq_none rule config stepped
          | some next => exact ih ended

end Primal

namespace LinearProgram

variable {p : LinearProgram ℚ} {basis : List ℕ} {config : Config ℚ}

theorem certified_of_optimal {t : Tableau ℚ} {rule : PivotRule} (feasible : t.BasicFeasible)
    (exact : t.tolerance = 0) (offered : t.prospect rule = .ok .optimal) (iterations : ℕ) :
    t.problem.Certified ⟨t.values, t.basis, t.problem.value t.values, iterations⟩ := by
  have nonneg : 0 ≤ feasible.reducedCosts := by
    obtain ⟨prospect, offered', offers⟩ := feasible.prospect_eq rule
    cases offered.symm.trans offered'
    cases offers with
    | optimal none =>
        intro j
        by_cases inside : (j : ℕ) ∈ t.basis
        · obtain ⟨i, rfl⟩ := feasible.basis.mem_range_iff.2 inside
          exact (reduced_basis feasible.inverse.mul_eq_one i).ge
        · simpa [exact] using none j inside
  refine ⟨?_, rfl, checkBasis_eq_ok_iff.2 feasible.basis, fun inverse inverted => ?_,
    fun inverse inverted => ?_, fun inverse inverted => ?_⟩
  · exact feasible.optimal exact fun j _ => by simpa [exact] using nonneg j
  · exact feasible.basicPoint_at inverted
  · obtain ⟨costs, computed, length, entries⟩ := feasible.reducedCosts_eq
    refine ⟨costs, (feasible.reducedCosts_at inverted).trans computed, ?_⟩
    rw [← entries] at nonneg
    exact (forall_mem_iff length).2 nonneg
  · obtain ⟨y, computed, -⟩ := feasible.multipliers_eq
    exact ⟨y, (feasible.multipliers_at inverted).trans computed, feasible.dot_multipliers computed⟩

theorem IsBasis.inverseAt_eq (accepted : p.IsBasis basis) (upkeep : Upkeep) :
    p.inverseAt basis = (BasisInverse.ofBasis upkeep p basis).map BasisInverse.inverse := by
  obtain ⟨b, selected, height, width, -⟩ := accepted.basisMatrix?_eq
  rw [inverseAt, checkBasis_eq_ok_iff.2 accepted, ok_bind, BasisInverse.ofBasis, selected,
    demand_some, ok_bind, ok_bind]
  cases inverted : b.invert with
  | error fault => rfl
  | ok left =>
      obtain ⟨inverts, -⟩ := (BasisInverse.invert_inverts height width).of_eq_ok inverted
      cases upkeep with
      | productForm =>
          have square : BasisInverse.ofInverse? left = some (.productForm left) :=
            if_pos (inverts.height.trans inverts.width.symm)
          simp only [ok_bind, square, demand_some]
          rfl
      | reinversion => rfl

theorem IsBasis.mulVec_eq (accepted : p.IsBasis basis) {inverse : RowMatrix ℚ}
    (inverted : p.inverseAt basis = .ok inverse) :
    (inverse.mulVec p.rhs).length = p.numEquations ∧
      toFun (inverse.mulVec p.rhs) p.numEquations = accepted.matrix⁻¹ *ᵥ p.sides := by
  obtain ⟨_, inverts⟩ := (p.inverseAt_yields basis).of_eq_ok inverted
  have height : inverse.height = p.numEquations := inverts.height
  refine ⟨(RowMatrix.length_mulVec _ _).trans height, ?_⟩
  rw [RowMatrix.toFun_mulVec height inverts.width p.sides_length,
    inv_eq_left_inv inverts.mul_eq_one]
  rfl

theorem IsBasis.primalStart_ne_singular (accepted : p.IsBasis basis) {upkeep : Upkeep}
    {inverse : BasisInverse ℚ} (held : BasisInverse.ofBasis upkeep p basis = .ok inverse)
    (config : Config ℚ) :
    p.primalStart upkeep basis config ≠ .error (.failed .singularMatrix) := by
  have inverts := (BasisInverse.ofBasis_yields upkeep accepted).of_eq_ok held
  obtain ⟨values, started, basic⟩ := Tableau.startWith_eq accepted inverts config.tolerance
  obtain ⟨basicValues, computed, -⟩ := basic.basicValues_eq
  rw [primalStart, Tableau.start, checkBasis_eq_ok_iff.2 accepted, ok_bind, held, ok_bind, started,
    ok_bind, computed, ok_bind]
  split <;> simp [fail]

def Refuses (p : LinearProgram ℚ) (basis : List ℕ) : Prop :=
  ¬p.IsBasis basis ∨ ∃ inverse, p.inverseAt basis = .ok inverse ∧
    ∃ value ∈ inverse.mulVec p.rhs, value < 0

theorem IsBasis.not_refuses (accepted : p.IsBasis basis) {upkeep : Upkeep} {fault : Fault ℚ}
    (failed : BasisInverse.ofBasis upkeep p basis = .error fault) : ¬p.Refuses basis := by
  rintro (malformed | ⟨inverse, inverted, -⟩)
  · exact malformed accepted
  · have inverseAt_eq := accepted.inverseAt_eq upkeep
    rw [failed, inverted] at inverseAt_eq
    cases inverseAt_eq

theorem IsBasis.refuses_iff (accepted : p.IsBasis basis) {inverse : RowMatrix ℚ}
    (inverted : p.inverseAt basis = .ok inverse) :
    p.Refuses basis ↔ ∃ i, (accepted.matrix⁻¹ *ᵥ p.sides) i < 0 := by
  obtain ⟨length, entries⟩ := accepted.mulVec_eq inverted
  have all := forall_mem_iff length (P := fun value => ¬value < 0)
  rw [entries, ← not_iff_not] at all
  push Not at all
  rw [← all]
  constructor
  · rintro (malformed | ⟨inverse', inverted', negative⟩)
    · exact absurd accepted malformed
    · cases inverted.symm.trans inverted'
      exact negative
  · intro negative
    exact Or.inr ⟨inverse, inverted, negative⟩

theorem primalStart_refuses (p : LinearProgram ℚ) (upkeep : Upkeep) (basis : List ℕ)
    (exact : config.tolerance = 0) :
    (p.primalStart upkeep basis config).Yields
      (fun t => ¬p.Refuses basis ∧ t.BasicFeasible ∧ t.problem = p ∧ t.tolerance = 0)
      (fun fault => fault = .failed .singularMatrix ∧ ¬p.Refuses basis ∨
        (∃ defect, fault = .failed (.invalidBasis defect)) ∧ p.Refuses basis) := by
  cases checked : p.checkBasis basis with
  | error fault =>
      have rejected := (p.checkBasis_yields basis).of_eq_error checked
      have malformed : ¬p.IsBasis basis := by
        rw [← checkBasis_eq_ok_iff, checked]
        simp
      rw [primalStart, Tableau.start, checked]
      exact Or.inr ⟨rejected, Or.inl malformed⟩
  | ok =>
      have accepted := checkBasis_eq_ok_iff.1 checked
      cases held : BasisInverse.ofBasis upkeep p basis with
      | error fault =>
          have singular := (BasisInverse.ofBasis_yields upkeep accepted).of_eq_error held
          rw [primalStart, Tableau.start, checked, ok_bind, held]
          exact Or.inl ⟨singular, accepted.not_refuses held⟩
      | ok inverse =>
          have inverted := accepted.inverseAt_eq upkeep
          rw [held] at inverted
          rw [accepted.refuses_iff inverted]
          have yields := accepted.primalStart_yields upkeep config
          cases started : p.primalStart upkeep basis config with
          | ok t =>
              obtain ⟨-, bounded, -⟩ := yields.of_eq_ok started
              obtain ⟨feasible, same, -, exact'⟩ :=
                (p.primalStart_yields upkeep basis exact).of_eq_ok started
              refine ⟨?_, feasible, same, exact'⟩
              rintro ⟨i, negative⟩
              have bound := bounded i
              rw [exact, neg_zero] at bound
              exact bound.not_gt negative
          | error fault =>
              rcases yields.of_eq_error started with rfl | ⟨-, i, negative, rfl⟩
              · exact absurd started (accepted.primalStart_ne_singular held config)
              · rw [exact, neg_zero] at negative
                exact Or.inr ⟨⟨_, rfl⟩, i, negative⟩

theorem solvePrimal_yields (p : LinearProgram ℚ) (upkeep : Upkeep) (rule : PivotRule)
    (basis : List ℕ) (exact : config.tolerance = 0) (limit : ℕ) :
    (p.solvePrimal upkeep rule basis config limit).outcome.Yields
      (fun solution => ¬p.Refuses basis ∧ p.Certified solution)
      (fun fault => match fault with
        | .failed (.invalidBasis _) => p.Refuses basis
        | .failed .unbounded => ¬p.Refuses basis ∧ (∃ x, p.Feasible x) ∧ ∃ d, p.Ray d
        | .failed .singularMatrix | .iterationLimit => ¬p.Refuses basis
        | _ => False) := by
  rw [solvePrimal, Traced.outcome_bind, Traced.outcome_lift]
  apply ((p.primalStart_refuses upkeep basis exact).mono_fault ?_).bind
  · intro t given
    obtain ⟨accepts, feasible, rfl, exact'⟩ := given
    have yields := Primal.run_yields rule config feasible exact' limit 0
    rw [Traced.outcome_bind, Primal.Run.optimum, Tableau.primal]
    cases ended : (Primal.run rule config limit 0 t).outcome with
    | error fault =>
        rcases yields.of_eq_error ended with (_ | ⟨d, ray⟩) | rfl
        · exact accepts
        · exact ⟨accepts, ⟨_, feasible.feasible⟩, d, ray⟩
        · exact accepts
    | ok iterations =>
        obtain ⟨feasible', same, exact'', -⟩ := yields.of_eq_ok ended
        have offered := Primal.prospect_of_run_eq_ok rule config ended
        have certified := certified_of_optimal feasible' exact'' offered iterations
        rw [same] at certified
        simp only [Except.map, ok_bind, Traced.outcome_lift, solution_eq feasible'.toWellFormed]
        rw [same]
        exact ⟨accepts, certified⟩
  · rintro fault (⟨rfl, accepts⟩ | ⟨⟨defect, rfl⟩, refuses⟩)
    · exact accepts
    · exact refuses

/-- A solve from a list of columns refuses it exactly if it is no basis or its point has a negative
entry, proves the cost unbounded with a feasible point and a ray, and confirms a solution by the
quantities of its basis. -/
theorem solvePrimal_certified (p : LinearProgram ℚ) (upkeep : Upkeep) (rule : PivotRule)
    (basis : List ℕ) {config : Config ℚ} (exact : config.tolerance = 0) (limit : ℕ) :
    ((∃ defect, (p.solvePrimal upkeep rule basis config limit).outcome =
        .error (.failed (.invalidBasis defect))) ↔
      ¬p.IsBasis basis ∨ ∃ inverse, p.inverseAt basis = .ok inverse ∧
        ∃ value ∈ inverse.mulVec p.rhs, value < 0) ∧
    ((p.solvePrimal upkeep rule basis config limit).outcome = .error (.failed .unbounded) →
      (∃ x, p.Feasible x) ∧ ∃ d, p.Ray d) ∧
    ∀ solution, (p.solvePrimal upkeep rule basis config limit).outcome = .ok solution →
      p.Certified solution := by
  have yields := p.solvePrimal_yields upkeep rule basis exact limit
  refine ⟨⟨fun ⟨defect, refused⟩ => yields.of_eq_error refused, fun refuses => ?_⟩,
    fun unbounded => (yields.of_eq_error unbounded).2,
    fun solution solved => (yields.of_eq_ok solved).2⟩
  cases ended : (p.solvePrimal upkeep rule basis config limit).outcome with
  | ok solution => exact absurd refuses (yields.of_eq_ok ended).1
  | error fault =>
      have given := yields.of_eq_error ended
      split at given
      · exact ⟨_, rfl⟩
      · exact absurd refuses given.1
      · exact absurd refuses given
      · exact absurd refuses given
      · exact given.elim

theorem solvePrimal_certified_covering :
    covering.Optimal [1, 0, 0] ∧ covering.basicPoint [0] = .ok [1, 0, 0] ∧
      ∃ defect, (covering.solvePrimal .reinversion .mostNegative [2] ⟨0, 0, true⟩ 3).outcome =
        .error (.failed (.invalidBasis defect)) := by
  have solved : (covering.solvePrimal .productForm .leastIndex [1] ⟨0, 0, true⟩ 3).outcome =
      .ok ⟨[1, 0, 0], [0], 1, 1⟩ := by decide +kernel
  have certified :=
    (covering.solvePrimal_certified .productForm .leastIndex [1] rfl 3).2.2 _ solved
  have inverted : covering.inverseAt [0] = .ok ⟨[[-1]], 1, by decide⟩ := by decide +kernel
  have slack : covering.inverseAt [2] = .ok ⟨[[1]], 1, by decide⟩ := by decide +kernel
  refine ⟨certified.optimal, certified.basicPoint_eq _ inverted, ?_⟩
  exact (covering.solvePrimal_certified .reinversion .mostNegative [2] rfl 3).1.2
    (Or.inr ⟨_, slack, -1, by decide +kernel, by decide⟩)

end LinearProgram

end SimplexMethod
