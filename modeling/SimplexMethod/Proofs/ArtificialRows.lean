import SimplexMethod.Proofs.ArtificialOptimum
import SimplexMethod.Proofs.Termination

namespace SimplexMethod
open Matrix Vec Outcome

namespace Tableau

variable {t last : Tableau ℚ} {p : LinearProgram ℚ} {rows : List ℕ} {columns : ℕ}

theorem WellFormed.expressed_eq_zero (wellFormed : t.WellFormed) {row : Fin t.problem.numEquations}
    (blocked : t.problem.Blocked columns t.basis row) {j : Fin t.problem.numVariables}
    (below : (j : ℕ) < columns) : expressed t j row = 0 := by
  obtain ⟨w, vanishes, unit⟩ := blocked
  have onBasis : w ᵥ* wellFormed.basis.matrix = Pi.single row 1 := by
    funext i
    refine (unit i _ (wellFormed.basis.getElem?_eq i)).trans ?_
    simp [Pi.single_apply, Fin.ext_iff]
  -- no other combination is a unit vector on the basis, whenever this one was found
  have same : w = t.inverseMatrix row :=
    calc w = w ᵥ* (wellFormed.basis.matrix * t.inverseMatrix) := by
          rw [mul_eq_one_comm.1 wellFormed.inverse.mul_eq_one, vecMul_one]
      _ = t.inverseMatrix row := by rw [← vecMul_vecMul, onBasis, single_one_vecMul]; rfl
  rw [← WellFormed.row_apply, ← same]
  exact vanishes j below

structure DrivenOut (t : Tableau ℚ) (p : LinearProgram ℚ) (last : Tableau ℚ) (rows : List ℕ) :
    Prop where
  sorted : rows.Pairwise (· < ·)
  mem_iff : ∀ row, row ∈ rows ↔ p.numVariables + row ∈ last.basis
  values_eq : last.values = t.values
  row_zero : ∀ (k row : ℕ), last.basis[k]? = some (p.numVariables + row) →
    ∀ j < p.numVariables, last.expressEntry k j = .ok 0
  row_mem_span : ∀ r : Fin p.numEquations, (r : ℕ) ∈ rows →
    p.matrix.row r ∈ Submodule.span ℚ (p.matrix.row '' {k | (k : ℕ) ∉ rows})

namespace Reduces

theorem mem_iff (reduces : last.Reduces p rows) (row : ℕ) :
    row ∈ rows ↔ p.numVariables + row ∈ last.basis := by
  constructor
  · intro member
    obtain ⟨k, present, -⟩ := reduces.stuck row member
    exact List.mem_of_getElem? present
  · intro member
    obtain ⟨k, present⟩ := List.mem_iff_getElem?.1 member
    rcases reduces.covers k _ present with below | ⟨other, inside, same⟩
    · exact absurd below (Nat.le_add_right _ _).not_gt
    · rwa [Nat.add_left_cancel same]

theorem row_zero (reduces : last.Reduces p rows) {k row : ℕ}
    (present : last.basis[k]? = some (p.numVariables + row)) {j : ℕ} (below : j < p.numVariables) :
    last.expressEntry k j = .ok 0 := by
  have wellFormed := reduces.feasible.toWellFormed
  obtain ⟨k', present', blocked⟩ :=
    reduces.stuck row ((reduces.mem_iff row).2 (List.mem_of_getElem? present))
  have inside : k < last.basis.length := (List.getElem?_eq_some_iff.1 present).1
  have same : k = k' :=
    (List.getElem?_inj inside wellFormed.basis.nodup).1 (present.trans present'.symm)
  subst same
  have column : j < last.problem.numVariables := by
    rw [reduces.artificial.numVariables_eq]
    exact below.trans_le (Nat.le_add_right _ _)
  have position : k < last.problem.numEquations := inside.trans_eq wellFormed.basis.length
  have entry := wellFormed.expressEntry_eq ⟨k, position⟩ ⟨j, column⟩
  rwa [wellFormed.expressed_eq_zero blocked below] at entry

end Reduces

/-- From any tableau of the artificial problem at which the method arrives with a sum of zero, driving
the artificial variables out fails only as singular.  Otherwise those that stay name equations
that are combinations of the remaining ones, and the point has not moved. -/
theorem exchangeArtificials_drivesOut {upkeep : Upkeep} {rule : PivotRule} {config : Config ℚ}
    (exact : config.tolerance = 0) (nonneg : ∀ value ∈ p.rhs, 0 ≤ value) {start : Tableau ℚ}
    {pivots : ℕ} (started : p.artificialStart upkeep config = .ok start)
    (reached : Primal.visited rule config start pivots = some t) (zero : t.objective = .ok 0) :
    (t.exchangeArtificials p.numVariables (t.basicArtificials p.numVariables)).outcome.Yields
      (fun result => t.DrivenOut p result.1 result.2) (· = .failed .singularMatrix) := by
  obtain ⟨start', started', feasible, artificial, tolerance⟩ :=
    p.artificialStart_eq upkeep config nonneg
  cases started.symm.trans started'
  obtain ⟨feasible', problem_eq, exact'⟩ :=
    Primal.visited_yields rule config feasible (tolerance.trans exact) reached
  rw [← problem_eq] at artificial
  have least : t.problem.value t.values ≤ 0 := by
    rw [feasible'.objective_eq, Except.ok.injEq] at zero
    exact zero.le
  have none := artificial.getD_eq_zero feasible'.feasible least
  refine (exchangeArtificials_yields feasible' exact' none
    (t.basicArtificials_locates p.numVariables)).mono_value fun result after => ?_
  have reduces := after.reduces feasible'.toWellFormed artificial least
  exact ⟨reduces.sorted, reduces.mem_iff, after.values_eq, fun k row present j below =>
    reduces.row_zero present below, fun r member => reduces.redundant.row_mem_span r member⟩

def stacked : LinearProgram ℚ where
  cost := [3, 2, 1, 0]
  constraints := ⟨[[1, 1, 1, 0], [2, 2, 2, 0], [0, -1, -1, 0]], 4, by decide⟩
  rhs := [2, 4, 0]
  cost_length := rfl
  rhs_length := rfl
  height_lt_width := by decide

theorem exchangeArtificials_drivesOut_stacked :
    ∃ start t last, stacked.artificialStart .productForm ⟨0, 0, true⟩ = .ok start ∧
      Primal.visited .leastIndex ⟨0, 0, true⟩ start 1 = some t ∧ t.basis = [0, 5, 6] ∧
      t.objective = .ok 0 ∧
      (t.exchangeArtificials 4 (t.basicArtificials 4)).outcome = .ok (last, [1]) ∧
      last.basis = [0, 5, 1] ∧ t.DrivenOut stacked last [1] := by
  have ran : ((stacked.artificialStart .productForm ⟨0, 0, true⟩).toOption.bind fun start =>
      (Primal.visited .leastIndex ⟨0, 0, true⟩ start 1).bind fun t =>
        t.objective.toOption.bind fun objective =>
          (t.exchangeArtificials 4 (t.basicArtificials 4)).outcome.toOption.map fun result =>
            (t.basis, objective, result.1.basis, result.2)) =
      some ([0, 5, 6], 0, [0, 5, 1], [1]) := by
    decide +kernel
  simp only [Option.bind_eq_some_iff, Option.map_eq_some_iff, toOption_eq_some_iff,
    Prod.mk.injEq] at ran
  obtain ⟨start, started, t, reached, objective, zero, ⟨last, rows⟩, exchanged, basis, rfl,
    lastBasis, rfl⟩ := ran
  exact ⟨start, t, last, started, reached, basis, zero, exchanged, lastBasis,
    (exchangeArtificials_drivesOut rfl (by decide) started reached zero).of_eq_ok exchanged⟩

end Tableau

end SimplexMethod
