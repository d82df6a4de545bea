import SimplexMethod.Proofs.Dictionary
import SimplexMethod.Proofs.MatrixView
import SimplexMethod.BasisQuantities

namespace SimplexMethod.LinearProgram
open Matrix Vec

abbrev matrix (p : LinearProgram ℚ) : Matrix (Fin p.numEquations) (Fin p.numVariables) ℚ :=
  p.constraints.toMatrix p.numEquations p.numVariables

abbrev costs (p : LinearProgram ℚ) : Fin p.numVariables → ℚ := toFun p.cost p.numVariables

abbrev sides (p : LinearProgram ℚ) : Fin p.numEquations → ℚ := toFun p.rhs p.numEquations

structure Feasible (p : LinearProgram ℚ) (x : Vec ℚ) : Prop where
  length : x.length = p.numVariables
  nonneg : ∀ value ∈ x, 0 ≤ value
  equations : p.matrix *ᵥ toFun x p.numVariables = p.sides

def value (p : LinearProgram ℚ) (x : Vec ℚ) : ℚ := p.costs ⬝ᵥ toFun x p.numVariables

structure Optimal (p : LinearProgram ℚ) (x : Vec ℚ) : Prop extends p.Feasible x where
  value_le : ∀ x', p.Feasible x' → p.value x ≤ p.value x'

/-- A direction of falling cost that leads from no feasible point out of the feasible ones. -/
structure Ray (p : LinearProgram ℚ) (d : Vec ℚ) : Prop where
  length : d.length = p.numVariables
  nonneg : ∀ value ∈ d, 0 ≤ value
  equations : p.matrix *ᵥ toFun d p.numVariables = 0
  value_neg : p.value d < 0

theorem feasible_iff {p : LinearProgram ℚ} {m : ℕ} (height : p.numEquations = m) {x : Vec ℚ} :
    p.Feasible x ↔ x.length = p.numVariables ∧ (∀ value ∈ x, 0 ≤ value) ∧
      p.constraints.toMatrix m p.numVariables *ᵥ toFun x p.numVariables = toFun p.rhs m := by
  subst height
  exact ⟨fun feasible => ⟨feasible.length, feasible.nonneg, feasible.equations⟩,
    fun ⟨length, nonneg, equations⟩ => ⟨length, nonneg, equations⟩⟩

theorem Feasible.toFun_nonneg {p : LinearProgram ℚ} {x : Vec ℚ} (feasible : p.Feasible x) :
    0 ≤ toFun x p.numVariables :=
  (forall_mem_iff feasible.length).1 feasible.nonneg

theorem ray_ofFn {p : LinearProgram ℚ} {d : Fin p.numVariables → ℚ} (nonneg : 0 ≤ d)
    (equations : p.matrix *ᵥ d = 0) (falls : p.costs ⬝ᵥ d < 0) : p.Ray (List.ofFn d) := by
  have length : (List.ofFn d).length = p.numVariables := List.length_ofFn
  refine ⟨length, (forall_mem_iff length).2 ?_, ?_, ?_⟩
  · rw [toFun_ofFn]
    exact nonneg
  · rw [toFun_ofFn, equations]
  · rw [value, toFun_ofFn]
    exact falls

theorem sides_length (p : LinearProgram ℚ) : p.rhs.length = p.numEquations := p.rhs_length

theorem costs_length (p : LinearProgram ℚ) : p.cost.length = p.numVariables := p.cost_length

theorem objective?_eq {p : LinearProgram ℚ} {x : Vec ℚ} (length : x.length = p.numVariables) :
    p.objective? x = some (p.value x) := by
  rw [objective?, value, dot?, if_pos (p.costs_length.trans length.symm), dot_eq p.costs_length length]

theorem toFun_column {p : LinearProgram ℚ} (j : Fin p.numVariables) :
    toFun (p.constraints.column j) p.numEquations = p.matrix.col j :=
  RowMatrix.toFun_column _ _

theorem reducedCostsFor?_eq {p : LinearProgram ℚ} {y : Vec ℚ} (length : y.length = p.numEquations) :
    ∃ costs, p.reducedCostsFor? y = some costs ∧ costs.length = p.numVariables ∧
      toFun costs p.numVariables = reduced p.matrix p.costs (toFun y p.numEquations) := by
  have width : (RowMatrix.vecMul y p.constraints).length = p.numVariables :=
    RowMatrix.length_vecMul y
  have lengths : p.cost.length = List.length (RowMatrix.vecMul y p.constraints) :=
    p.costs_length.trans width.symm
  refine ⟨Vec.sub p.cost (RowMatrix.vecMul y p.constraints), ?_, ?_, ?_⟩
  · exact congrArg (Option.map _) (if_pos length)
  · rw [Vec.sub, List.length_zipWith, width, p.costs_length, min_self]
  · funext j
    rw [toFun_apply, getD_sub lengths, reduced, Pi.sub_apply,
      ← RowMatrix.toFun_vecMul (m := p.numEquations) rfl length]
    rfl

theorem isWithin?_iff {p : LinearProgram ℚ} {x : Vec ℚ} (length : x.length = p.numVariables)
    {above : ℚ → Bool} {near : ℚ → ℚ → Bool} :
    p.isWithin? above near x = some true ↔ (∀ value ∈ x, above value = true) ∧
      ∀ i, near (Max.max (supNorm p.rhs) 1)
        |(p.matrix *ᵥ toFun x p.numVariables) i - p.sides i| = true := by
  have products : toFun (p.constraints.mulVec x) p.numEquations =
      p.matrix *ᵥ toFun x p.numVariables := RowMatrix.toFun_mulVec rfl rfl length
  have lengthProducts : (p.constraints.mulVec x).length = p.numEquations :=
    RowMatrix.length_mulVec _ _
  have residuals := forall_mem_zip_iff lengthProducts p.sides_length
    (P := fun product side => near (Max.max (supNorm p.rhs) 1) |product - side| = true)
  rw [products] at residuals
  rw [isWithin?, if_pos length, Option.some_inj, Bool.and_eq_true, List.all_eq_true,
    List.all_eq_true]
  simp only [Scalar.abs_eq, Scalar.max_eq]
  exact and_congr Iff.rfl residuals

theorem isFeasible?_iff {p : LinearProgram ℚ} {x : Vec ℚ} (length : x.length = p.numVariables)
    (tolerance : ℚ) :
    p.isFeasible? x tolerance = some true ↔ (∀ value ∈ x, -tolerance ≤ value) ∧
      ∀ i, |(p.matrix *ᵥ toFun x p.numVariables) i - p.sides i| ≤
        tolerance * Max.max (supNorm p.rhs) 1 := by
  rw [isFeasible?, isWithin?_iff length]
  simp only [decide_eq_true_iff]

theorem isNearlyFeasible?_iff {p : LinearProgram ℚ} {x : Vec ℚ}
    (length : x.length = p.numVariables) {tolerance : ℚ} (nonneg : 0 ≤ tolerance) :
    p.isNearlyFeasible? x tolerance = some true ↔
      (∀ value ∈ x, -√(tolerance : ℝ) ≤ value) ∧
      ∀ i, ((|(p.matrix *ᵥ toFun x p.numVariables) i - p.sides i| : ℚ) : ℝ) ≤
        √tolerance * (Max.max (supNorm p.rhs) 1 : ℚ) := by
  rw [isNearlyFeasible?, isWithin?_iff length]
  simp only [Scalar.negSqrtLe_iff nonneg, Scalar.leSqrtMul_iff nonneg]

theorem isFeasible?_zero_iff {p : LinearProgram ℚ} {x : Vec ℚ}
    (length : x.length = p.numVariables) : p.isFeasible? x 0 = some true ↔ p.Feasible x := by
  rw [isFeasible?_iff length]
  simp only [neg_zero, zero_mul, abs_nonpos_iff, sub_eq_zero, ← funext_iff]
  exact ⟨fun ⟨nonneg, equations⟩ => ⟨length, nonneg, equations⟩,
    fun feasible => ⟨feasible.nonneg, feasible.equations⟩⟩

theorem Feasible.isNearlyFeasible?_eq {p : LinearProgram ℚ} {x : Vec ℚ} (feasible : p.Feasible x)
    {tolerance : ℚ} (nonneg : 0 ≤ tolerance) : p.isNearlyFeasible? x tolerance = some true := by
  refine (isNearlyFeasible?_iff feasible.length nonneg).2 ⟨fun value member => ?_, fun i => ?_⟩
  · exact (neg_nonpos.2 (Real.sqrt_nonneg _)).trans (Rat.cast_nonneg.2 (feasible.nonneg value member))
  · rw [feasible.equations, sub_self, abs_zero, Rat.cast_zero]
    have scale : (0 : ℚ) ≤ Max.max (supNorm p.rhs) 1 := zero_le_one.trans (le_max_right _ _)
    exact mul_nonneg (Real.sqrt_nonneg _) (Rat.cast_nonneg.2 scale)

end SimplexMethod.LinearProgram
