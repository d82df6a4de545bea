import SimplexMethod.Proofs.PrimalRun

namespace SimplexMethod
open Matrix Vec Outcome

variable {p : LinearProgram ℚ} {basis : List ℕ} {config : Config ℚ}

namespace Tableau

theorem startWith_eq {inverse : BasisInverse ℚ} (accepted : p.IsBasis basis)
    (inverts : inverse.Inverts accepted.matrix) (tolerance : ℚ) :
    ∃ values, startWith p inverse basis tolerance =
        .ok ⟨p, inverse, basis, basis, values, tolerance⟩ ∧
      Basic ⟨p, inverse, basis, basis, values, tolerance⟩ := by
  have size : inverse.size = p.numEquations := inverts.height
  obtain ⟨image, computed, lengthImage, entries⟩ := inverts.express_eq p.sides_length
  obtain ⟨values, scattered, length, spreads⟩ := accepted.scatter?_eq lengthImage
  rw [entries] at spreads
  refine ⟨values, ?_, ⟨⟨accepted, accepted.nodup, fun _ => Iff.rfl, inverts, length⟩, ?_, ?_⟩⟩
  · rw [startWith, require_of accepted.length, ok_bind, require_of size, ok_bind, computed, ok_bind,
      scattered, demand_some, ok_bind, pure_eq_ok, eraseDups_of_nodup accepted.nodup]
  · intro j outside
    have away := fun inside => outside (accepted.mem_range_iff.1 inside)
    exact (congrFun spreads j).trans (spread_of_notMem away _)
  · exact (congrArg (p.matrix *ᵥ ·) spreads).trans (mulVec_basicPoint inverts.mul_eq_one _)

theorem start_yields (accepted : p.IsBasis basis) (upkeep : Upkeep) (tolerance : ℚ) :
    (start upkeep p basis tolerance).Yields
      (fun t => ∃ inverse values, t = ⟨p, inverse, basis, basis, values, tolerance⟩ ∧ t.Basic)
      (· = .failed .singularMatrix) := by
  rw [start, LinearProgram.checkBasis_eq_ok_iff.2 accepted, ok_bind]
  apply (BasisInverse.ofBasis_yields upkeep accepted).bind
  intro inverse inverts
  obtain ⟨values, started, basic⟩ := startWith_eq accepted inverts tolerance
  rw [started]
  exact ⟨inverse, values, rfl, basic⟩

theorem WellFormed.basicValues_eq {t : Tableau ℚ} (wellFormed : t.WellFormed) :
    ∃ basicValues, (List.range t.numEquations).mapM t.basicValue = .ok basicValues ∧
      basicValues.length = t.problem.numEquations ∧
      toFun basicValues t.problem.numEquations = t.point ∘ wellFormed.column := by
  refine ⟨_, mapM_eq_ok (g := fun i => t.values.getD (t.basis.getD i 0) 0) ?_, ?_, ?_⟩
  · intro i member
    have inside : i < t.problem.numEquations := List.mem_range.1 member
    rw [wellFormed.basicValue_eq ⟨i, inside⟩, wellFormed.basis.getD_eq ⟨i, inside⟩]
    rfl
  · rw [List.length_map, List.length_range]
    rfl
  · funext i
    have inside : (i : ℕ) < t.numEquations := i.isLt
    have present := wellFormed.basis.getElem?_eq i
    simp [toFun, inside, present]

end Tableau

namespace LinearProgram

structure BasicSolution (p : LinearProgram ℚ) (basis : List ℕ) (x : Vec ℚ) : Prop extends
    p.Feasible x where
  accepted : p.IsBasis basis
  zero : ∀ j : Fin p.numVariables, (j : ℕ) ∉ basis → toFun x p.numVariables j = 0

theorem IsBasis.primalStart_yields (accepted : p.IsBasis basis) (upkeep : Upkeep)
    (config : Config ℚ) :
    (p.primalStart upkeep basis config).Yields
      (fun t => IsUnit accepted.matrix ∧
        (∀ i, -config.tolerance ≤ (accepted.matrix⁻¹ *ᵥ p.sides) i) ∧ t.Basic ∧ t.problem = p ∧
        t.basis = basis ∧ t.tolerance = config.tolerance)
      (fun fault => fault = .failed .singularMatrix ∨
        IsUnit accepted.matrix ∧ ∃ i, (accepted.matrix⁻¹ *ᵥ p.sides) i < -config.tolerance ∧
          fault = .failed (.invalidBasis (.negativeValue i ((accepted.matrix⁻¹ *ᵥ p.sides) i)))) := by
  rw [primalStart]
  apply ((Tableau.start_yields accepted upkeep config.tolerance).mono_fault
    fun _ singular => Or.inl singular).bind
  intro _ given
  obtain ⟨inverse, values, rfl, basic⟩ := given
  obtain ⟨basicValues, computed, length, entries⟩ := basic.basicValues_eq
  have regular : IsUnit accepted.matrix := basic.isUnit_matrix
  rw [basic.values_eq] at entries
  rw [computed, ok_bind, ← entries]
  rcases find?_below length (-config.tolerance) with ⟨found, nonneg⟩ | ⟨i, found, negative⟩
  · rw [found]
    exact ⟨regular, nonneg, basic, rfl, rfl, rfl⟩
  · rw [found]
    exact Or.inr ⟨regular, i, negative, rfl⟩

theorem primalStart_yields (p : LinearProgram ℚ) (upkeep : Upkeep) (basis : List ℕ)
    (exact : config.tolerance = 0) :
    (p.primalStart upkeep basis config).Yields
      (fun t => t.BasicFeasible ∧ t.problem = p ∧ t.basis = basis ∧ t.tolerance = 0)
      (fun fault => fault = .failed .singularMatrix ∨
        (∃ defect, fault = .failed (.invalidBasis defect)) ∧ ∀ x, ¬p.BasicSolution basis x) := by
  cases checked : p.checkBasis basis with
  | error fault =>
      have rejected := (p.checkBasis_yields basis).of_eq_error checked
      rw [primalStart, Tableau.start, checked]
      refine Or.inr ⟨rejected, fun x solution => ?_⟩
      rw [checkBasis_eq_ok_iff.2 solution.accepted] at checked
      cases checked
  | ok =>
      have accepted := checkBasis_eq_ok_iff.1 checked
      refine (accepted.primalStart_yields upkeep config).mono (fun t given => ?_) fun fault given => ?_
      · obtain ⟨-, bounded, basic, rfl, rfl, tolerance⟩ := given
        refine ⟨⟨basic, fun j => ?_⟩, rfl, rfl, tolerance.trans exact⟩
        by_cases inside : (j : ℕ) ∈ t.basis
        · obtain ⟨i, rfl⟩ := basic.basis.mem_range_iff.2 inside
          simpa [← basic.values_eq, exact] using bounded i
        · exact (basic.zero j inside).ge
      · rcases given with singular | ⟨regular, i, negative, rfl⟩
        · exact Or.inl singular
        · refine Or.inr ⟨⟨_, rfl⟩, fun x solution => ?_⟩
          rw [← accepted.values_eq regular solution.zero solution.equations, exact, neg_zero]
            at negative
          exact (solution.toFun_nonneg (accepted.column i)).not_gt negative

theorem solution_eq {t : Tableau ℚ} (wellFormed : t.WellFormed) (iterations : ℕ) :
    t.solution iterations =
      .ok ⟨t.values, t.basis, t.problem.value t.values, iterations⟩ := by
  rw [Tableau.solution, wellFormed.basis.solutionAt?_eq wellFormed.length, demand_some]

theorem BasicSolution.solvePrimal_yields {x : Vec ℚ} (solution : p.BasicSolution basis x)
    (upkeep : Upkeep) (rule : PivotRule) (exact : config.tolerance = 0) (limit : ℕ) :
    (p.solvePrimal upkeep rule basis config limit).outcome.Yields
      (fun s => p.Optimal s.values ∧ s.objective = p.value s.values)
      (fun fault => Primal.EndsWith p fault ∨ fault = .iterationLimit ∧
        ∃ t, p.primalStart upkeep basis config = .ok t ∧
          (t.primal rule config limit).outcome = .error .iterationLimit) := by
  have starts := p.primalStart_yields upkeep basis exact
  rw [solvePrimal, Traced.outcome_bind, Traced.outcome_lift]
  cases started : p.primalStart upkeep basis config with
  | error fault =>
      obtain rfl | ⟨-, none⟩ := starts.of_eq_error started
      · exact Or.inl .singular
      · exact absurd solution (none x)
  | ok t =>
      obtain ⟨feasible, rfl, -, exact'⟩ := starts.of_eq_ok started
      have yields := Primal.run_yields rule config feasible exact' limit 0
      rw [ok_bind, Traced.outcome_bind, Primal.Run.optimum, Tableau.primal]
      cases ended : (Primal.run rule config limit 0 t).outcome with
      | error fault =>
          rw [ended] at yields
          rcases yields with ends | rfl
          · exact Or.inl ends
          · exact Or.inr ⟨rfl, t, rfl, ended⟩
      | ok iterations =>
          rw [ended] at yields
          obtain ⟨feasible', same, -, optimal⟩ := yields
          simp only [Except.map, ok_bind, Traced.outcome_lift, solution_eq feasible'.toWellFormed]
          rw [same]
          exact ⟨optimal, rfl⟩

end LinearProgram

end SimplexMethod
