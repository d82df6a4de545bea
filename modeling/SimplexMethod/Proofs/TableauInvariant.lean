import SimplexMethod.Proofs.BasisInverse
import SimplexMethod.Proofs.Selection
import SimplexMethod.Proofs.Sizes
import SimplexMethod.Primal

namespace SimplexMethod.Tableau
open Matrix Vec Outcome

abbrev point (t : Tableau ℚ) : Fin t.problem.numVariables → ℚ :=
  toFun t.values t.problem.numVariables

abbrev inverseMatrix (t : Tableau ℚ) :
    Matrix (Fin t.problem.numEquations) (Fin t.problem.numEquations) ℚ :=
  t.inverse.matrix t.problem.numEquations

structure WellFormed (t : Tableau ℚ) : Prop where
  basis : t.problem.IsBasis t.basis
  members_nodup : t.members.Nodup
  mem_members : ∀ j, j ∈ t.members ↔ j ∈ t.basis
  inverse : t.inverse.Inverts basis.matrix
  length : t.values.length = t.problem.numVariables

structure Basic (t : Tableau ℚ) : Prop extends WellFormed t where
  zero : ∀ j : Fin t.problem.numVariables, (j : ℕ) ∉ t.basis → t.point j = 0
  equations : t.problem.matrix *ᵥ t.point = t.problem.sides

structure BasicFeasible (t : Tableau ℚ) : Prop extends Basic t where
  nonneg : 0 ≤ t.point

variable {t : Tableau ℚ}

namespace WellFormed

abbrev column (wellFormed : t.WellFormed) : Fin t.problem.numEquations → Fin t.problem.numVariables :=
  wellFormed.basis.column

abbrev expressed (t : Tableau ℚ) (j : Fin t.problem.numVariables) :
    Fin t.problem.numEquations → ℚ :=
  t.inverseMatrix *ᵥ t.problem.matrix.col j

abbrev reducedCosts (wellFormed : t.WellFormed) : Fin t.problem.numVariables → ℚ :=
  reduced t.problem.matrix t.problem.costs
    (multipliersOf t.problem.costs wellFormed.column t.inverseMatrix)

theorem notMem_range (wellFormed : t.WellFormed) {j : Fin t.problem.numVariables}
    (outside : (j : ℕ) ∉ t.basis) : j ∉ Set.range wellFormed.column :=
  fun inside => outside (wellFormed.basis.mem_range_iff.1 inside)

theorem sized (wellFormed : t.WellFormed) : t.Sized := by
  obtain ⟨height, width, -, stored⟩ := wellFormed.inverse
  refine ⟨wellFormed.basis.length, wellFormed.basis.lt, wellFormed.length, height, width, ?_⟩
  intro basisMatrix left same
  obtain ⟨storedHeight, storedWidth, -⟩ := stored basisMatrix left same
  exact ⟨storedHeight, storedWidth⟩

theorem isUnit_matrix (wellFormed : t.WellFormed) : IsUnit wellFormed.basis.matrix :=
  IsUnit.of_mul_eq_one_right _ wellFormed.inverse.mul_eq_one

theorem multipliers_eq (wellFormed : t.WellFormed) :
    ∃ y, t.multipliers = .ok y ∧ y.length = t.problem.numEquations ∧
      toFun y t.problem.numEquations =
        multipliersOf t.problem.costs wellFormed.column t.inverseMatrix := by
  obtain ⟨costs, found, length, entries⟩ := wellFormed.basis.costsOf?_eq
  obtain ⟨y, computed, lengthY, entriesY⟩ := wellFormed.inverse.multipliers_eq length
  refine ⟨y, ?_, lengthY, ?_⟩
  · rw [Tableau.multipliers, found, demand_some, ok_bind, computed]
  · rw [entriesY, entries]
    rfl

theorem reducedCosts_eq (wellFormed : t.WellFormed) :
    ∃ costs, t.reducedCosts = .ok costs ∧ costs.length = t.problem.numVariables ∧
      toFun costs t.problem.numVariables = wellFormed.reducedCosts := by
  obtain ⟨y, computed, length, entries⟩ := wellFormed.multipliers_eq
  obtain ⟨costs, found, lengthCosts, entriesCosts⟩ := t.problem.reducedCostsFor?_eq length
  refine ⟨costs, ?_, lengthCosts, ?_⟩
  · rw [Tableau.reducedCosts, computed, ok_bind, found, demand_some]
  · rw [entriesCosts, entries]

theorem express_eq (wellFormed : t.WellFormed) (j : Fin t.problem.numVariables) :
    ∃ column, t.express j = .ok column ∧ column.length = t.problem.numEquations ∧
      toFun column t.problem.numEquations = expressed t j := by
  obtain ⟨column, computed, length, entries⟩ :=
    wellFormed.inverse.express_eq (RowMatrix.length_column t.problem.constraints j)
  refine ⟨column, ?_, length, ?_⟩
  · rw [Tableau.express, LinearProgram.column?_eq j.isLt, demand_some, ok_bind, computed]
  · rw [entries, LinearProgram.toFun_column]

theorem expressEntry_eq (wellFormed : t.WellFormed) (i : Fin t.problem.numEquations)
    (j : Fin t.problem.numVariables) : t.expressEntry i j = .ok (expressed t j i) := by
  have inside : (i : ℕ) < t.numEquations := i.isLt
  rw [Tableau.expressEntry, require_of inside, ok_bind, LinearProgram.column?_eq j.isLt,
    demand_some, ok_bind,
    wellFormed.inverse.expressEntry_eq i (RowMatrix.length_column t.problem.constraints j),
    LinearProgram.toFun_column]

theorem mem_nonbasic_iff (wellFormed : t.WellFormed) {j : ℕ} :
    j ∈ t.nonbasic ↔ j < t.problem.numVariables ∧ j ∉ t.basis := by
  simp [nonbasic, numVariables, wellFormed.mem_members]

theorem basicValue_eq (wellFormed : t.WellFormed) (i : Fin t.problem.numEquations) :
    t.basicValue i = .ok (t.point (wellFormed.column i)) := by
  rw [wellFormed.sized.basicValue_eq i.isLt, wellFormed.basis.getD_eq]
  rfl

theorem objective_eq (wellFormed : t.WellFormed) :
    t.objective = .ok (t.problem.value t.values) := by
  rw [objective, LinearProgram.objective?_eq wellFormed.length, demand_some]

def ratios (wellFormed : t.WellFormed) (column : Fin t.problem.numEquations → ℚ) :
    List (ℕ × ℚ) :=
  ((List.finRange t.problem.numEquations).filter fun i => t.tolerance < column i).map
    fun (i : Fin t.problem.numEquations) => (i.val, t.point (wellFormed.column i) / column i)

theorem limitingRow_eq_firstLeast? (wellFormed : t.WellFormed) {column : Vec ℚ}
    (length : column.length = t.problem.numEquations) :
    t.limitingRow column =
      .ok (firstLeast? (wellFormed.ratios (toFun column t.problem.numEquations))) := by
  have rows : List.range t.numEquations =
      (List.finRange t.problem.numEquations).map Fin.val :=
    List.map_coe_finRange_eq_range.symm
  rw [wellFormed.sized.limitingRow_eq length, rows, List.filter_map, List.map_map, ratios]
  refine congrArg (Except.ok ∘ firstLeast?) (List.map_congr_left fun i _ => ?_)
  simp only [Function.comp_apply, ratio, wellFormed.basis.getD_eq]
  rfl

structure Limits (wellFormed : t.WellFormed) (column : Fin t.problem.numEquations → ℚ)
    (row : Fin t.problem.numEquations) (step : ℚ) : Prop where
  direction : t.tolerance < column row
  step_eq : step = t.point (wellFormed.column row) / column row
  step_le : ∀ i, t.tolerance < column i → step ≤ t.point (wellFormed.column i) / column i

theorem limitingRow_eq (wellFormed : t.WellFormed) {column : Vec ℚ}
    (length : column.length = t.problem.numEquations) :
    (∃ (row : Fin t.problem.numEquations) (step : ℚ),
        t.limitingRow column = .ok (some ((row : ℕ), step)) ∧
          wellFormed.Limits (toFun column t.problem.numEquations) row step) ∨
      t.limitingRow column = .ok none ∧
        ∀ i, toFun column t.problem.numEquations i ≤ t.tolerance := by
  rw [wellFormed.limitingRow_eq_firstLeast? length]
  generalize toFun column t.problem.numEquations = entries
  have candidate (i) (large : t.tolerance < entries i) :
      ((i : ℕ), t.point (wellFormed.column i) / entries i) ∈ wellFormed.ratios entries :=
    List.mem_map.2 ⟨i, List.mem_filter.2 ⟨List.mem_finRange i, decide_eq_true large⟩, rfl⟩
  cases found : firstLeast? (wellFormed.ratios entries) with
  | none =>
      refine Or.inr ⟨rfl, fun i => not_lt.1 fun large => ?_⟩
      have member := candidate i large
      rw [firstLeast?_eq_none_iff.1 found] at member
      cases member
  | some least =>
      obtain ⟨row, member, rfl⟩ := List.mem_map.1 (firstLeast?_mem found)
      have large := of_decide_eq_true (List.mem_filter.1 member).2
      exact Or.inl ⟨row, _, rfl, large, rfl, fun i positive =>
        firstLeast?_le found (candidate i positive)⟩

structure Pivots (wellFormed : t.WellFormed) (pivot : Pivot ℚ)
    (entering : Fin t.problem.numVariables) (row : Fin t.problem.numEquations) : Prop where
  entering_eq : pivot.entering = entering
  row_eq : pivot.row = row
  leaving_eq : pivot.leaving = wellFormed.column row
  length : pivot.column.length = t.problem.numEquations
  column_eq : toFun pivot.column t.problem.numEquations = expressed t entering
  limits : wellFormed.Limits (expressed t entering) row pivot.step

theorem limitingPivot_eq (wellFormed : t.WellFormed) (entering : Fin t.problem.numVariables) :
    (∃ pivot row, t.limitingPivot entering = .ok (some pivot) ∧
        wellFormed.Pivots pivot entering row) ∨
      t.limitingPivot entering = .ok none ∧ ∀ i, expressed t entering i ≤ t.tolerance := by
  obtain ⟨column, computed, length, entries⟩ := wellFormed.express_eq entering
  rw [limitingPivot, computed, ok_bind]
  rcases wellFormed.limitingRow_eq length with ⟨row, step, found, limits⟩ | ⟨found, bounded⟩
  · left
    rw [found, ok_bind]
    simp only [wellFormed.basis.getElem?_eq, demand_some, ok_bind, pure_eq_ok]
    exact ⟨_, row, rfl, rfl, rfl, rfl, length, entries, entries ▸ limits⟩
  · right
    rw [found, ok_bind]
    exact ⟨rfl, entries ▸ bounded⟩

end WellFormed

theorem Basic.zero_of_notMem_range (basic : t.Basic) (j : Fin t.problem.numVariables)
    (outside : j ∉ Set.range basic.column) : t.point j = 0 :=
  basic.zero j fun inside => outside (basic.basis.mem_range_iff.2 inside)

theorem Basic.values_eq (basic : t.Basic) :
    t.point ∘ basic.column = basic.basis.matrix⁻¹ *ᵥ t.problem.sides :=
  basic.basis.values_eq basic.isUnit_matrix basic.zero basic.equations

theorem BasicFeasible.feasible (feasible : t.BasicFeasible) : t.problem.Feasible t.values :=
  ⟨feasible.length, (forall_mem_iff feasible.length).2 feasible.nonneg, feasible.equations⟩

theorem BasicFeasible.isBasicFeasible_eq (feasible : t.BasicFeasible)
    (nonneg : 0 ≤ t.tolerance) : t.isBasicFeasible = .ok true := by
  have tested := feasible.feasible.isNearlyFeasible?_eq nonneg
  have outside : (t.nonbasic.all fun j => t.values.getD j 0 == 0) = true := by
    rw [List.all_eq_true]
    intro j member
    obtain ⟨inside, other⟩ := feasible.mem_nonbasic_iff.1 member
    exact beq_iff_eq.2 (feasible.zero ⟨j, inside⟩ other)
  rw [isBasicFeasible, tested, demand_some, ok_bind, outside]
  rfl

end SimplexMethod.Tableau
