import SimplexMethod.Proofs.DualRun
import SimplexMethod.Proofs.ExactInverse

namespace SimplexMethod.LinearProgram
open Matrix Vec Outcome

variable {p : LinearProgram ℚ} {basis : List ℕ}

theorem basicPoint_eq {inverse : RowMatrix ℚ} (inverted : p.inverseAt basis = .ok inverse) :
    ∃ accepted : p.IsBasis basis, (BasisInverse.productForm inverse).Inverts accepted.matrix ∧
      ∃ x, p.basicPoint basis = .ok x ∧ x.length = p.numVariables ∧
        toFun x p.numVariables = spread accepted.column
          ((BasisInverse.productForm inverse).matrix p.numEquations *ᵥ p.sides) := by
  obtain ⟨accepted, inverts⟩ := (p.inverseAt_yields basis).of_eq_ok inverted
  obtain ⟨values, computed, lengthValues, entries⟩ :=
    RowMatrix.mulVec?_eq inverts.height inverts.width p.sides_length
  obtain ⟨x, scattered, length, spreads⟩ := accepted.scatter?_eq lengthValues
  have multiplied : inverse.mulVec? p.rhs = some values := computed
  refine ⟨accepted, inverts, x, ?_, length, spreads.trans (congrArg _ entries)⟩
  rw [basicPoint, inverted, ok_bind, multiplied, demand_some, ok_bind, scattered, demand_some]

theorem exists_inverse_of_basicPoint {x : Vec ℚ} (pointed : p.basicPoint basis = .ok x) :
    ∃ inverse, p.inverseAt basis = .ok inverse := by
  rw [basicPoint, bind_eq_ok_iff] at pointed
  obtain ⟨inverse, inverted, -⟩ := pointed
  exact ⟨inverse, inverted⟩

/-- A point and multipliers as a basis has them: the point solves the equations, the multipliers price
the columns of the basis at their cost, and both are worth the same. -/
structure BelongTo (p : LinearProgram ℚ) (basis : List ℕ) (x y : Vec ℚ) : Prop where
  length : x.length = p.numVariables
  equations : p.matrix *ᵥ toFun x p.numVariables = p.sides
  lengthMultipliers : y.length = p.numEquations
  lt : ∀ j ∈ basis, j < p.numVariables
  zero : ∀ j : Fin p.numVariables, (j : ℕ) ∈ basis →
    reduced p.matrix p.costs (toFun y p.numEquations) j = 0
  worth : toFun y p.numEquations ⬝ᵥ p.sides = p.value x

theorem belongTo_of_computed {x y : Vec ℚ} (pointed : p.basicPoint basis = .ok x)
    (computed : p.multipliers basis = .ok y) : p.BelongTo basis x y := by
  obtain ⟨inverse, inverted⟩ := exists_inverse_of_basicPoint pointed
  obtain ⟨accepted, inverts, _, pointed', length, spreads⟩ := basicPoint_eq inverted
  cases pointed.symm.trans pointed'
  obtain ⟨_, lengthMultipliers, N, leftInverse, multipliers_eq⟩ :=
    (p.multipliers_yields basis).of_eq_ok computed
  rw [← left_inv_eq_right_inv leftInverse inverts.mul_matrix_eq_one] at spreads
  refine ⟨length, ?_, lengthMultipliers, accepted.lt, fun j member => ?_, ?_⟩
  · rw [spreads]
    exact mulVec_basicPoint leftInverse p.sides
  · obtain ⟨i, rfl⟩ := accepted.mem_range_iff.2 member
    rw [multipliers_eq]
    exact reduced_basis leftInverse i
  · rw [multipliers_eq, multipliersOf_dotProduct, ← spreads]
    rfl

namespace BelongTo

variable {x y : Vec ℚ}

theorem mulVec?_eq (belong : p.BelongTo basis x y) : p.constraints.mulVec? x = some p.rhs := by
  obtain ⟨image, multiplied, length, entries⟩ :=
    RowMatrix.mulVec?_eq (a := p.constraints) (m := p.numEquations) rfl rfl belong.length
  rw [multiplied, eq_of_toFun_eq length p.sides_length (entries.trans belong.equations)]

theorem dot?_eq (belong : p.BelongTo basis x y) : Vec.dot? y p.rhs = some (p.value x) := by
  rw [Vec.dot?, if_pos (belong.lengthMultipliers.trans p.sides_length.symm),
    Vec.dot_eq belong.lengthMultipliers p.sides_length, belong.worth]

theorem reducedCostsFor?_eq (belong : p.BelongTo basis x y) {d : Vec ℚ}
    (found : p.reducedCostsFor? y = some d) :
    (∀ j ∈ basis, d[j]? = some 0) ∧ ∀ δ, (∀ cost ∈ d, -δ ≤ cost) →
      ∀ j, -δ ≤ reduced p.matrix p.costs (toFun y p.numEquations) j := by
  obtain ⟨_, found', length, entries⟩ := p.reducedCostsFor?_eq belong.lengthMultipliers
  cases found.symm.trans found'
  rw [← entries]
  refine ⟨fun j member => ?_, fun δ => (forall_mem_iff length).1⟩
  have zero := belong.zero ⟨j, belong.lt j member⟩ member
  rw [getElem?_eq_toFun length ⟨j, belong.lt j member⟩, entries, zero]

theorem value_le (belong : p.BelongTo basis x y) {δ : ℚ}
    (above : ∀ j, -δ ≤ reduced p.matrix p.costs (toFun y p.numEquations) j) {x' : Vec ℚ}
    (feasible : p.Feasible x') : p.value x ≤ p.value x' + δ * Vec.sum x' := by
  rw [← belong.worth, sum_eq_sum_toFun feasible.length]
  exact dotProduct_le_add_mul_sum above feasible.toFun_nonneg feasible.equations

end BelongTo

theorem reducedCosts_eq_ok_iff {d : Vec ℚ} :
    p.reducedCosts basis = .ok d ↔
      ∃ y, p.multipliers basis = .ok y ∧ p.reducedCostsFor? y = some d := by
  rw [reducedCosts, bind_eq_ok_iff]
  exact exists_congr fun y => and_congr_right fun _ => demand_eq_ok_iff

/-- A basis at which both quantities can be computed gives a point that solves the equations and costs
what the right-hand side is worth at the multipliers.  If no reduced cost is below `-δ`, the cost of a
feasible point is less by at most `δ` for each unit of its variables. -/
theorem basicPoint_certified {x d : Vec ℚ} (pointed : p.basicPoint basis = .ok x)
    (priced : p.reducedCosts basis = .ok d) :
    p.constraints.mulVec? x = some p.rhs ∧ ((∀ value ∈ x, 0 ≤ value) → p.Feasible x) ∧
    (∀ j ∈ basis, d[j]? = some 0) ∧
    (∃ y, p.multipliers basis = .ok y ∧ Vec.dot? y p.rhs = some (p.value x)) ∧
    p.objective? x = some (p.value x) ∧
    ∀ δ, (∀ cost ∈ d, -δ ≤ cost) →
      ∀ x', p.Feasible x' → p.value x ≤ p.value x' + δ * Vec.sum x' := by
  obtain ⟨y, computed, found⟩ := reducedCosts_eq_ok_iff.1 priced
  have belong := belongTo_of_computed pointed computed
  obtain ⟨zero, above⟩ := belong.reducedCostsFor?_eq found
  exact ⟨belong.mulVec?_eq, fun nonneg => ⟨belong.length, nonneg, belong.equations⟩, zero,
    ⟨y, computed, belong.dot?_eq⟩, objective?_eq belong.length,
    fun δ bounded x' feasible => belong.value_le (above δ bounded) feasible⟩

theorem basicPoint_certified_covering :
    covering.basicPoint [1] = .ok [0, 1, 0] ∧ covering.reducedCosts [1] = .ok [-1, 0, 2] ∧
      ∀ x, covering.Feasible x → 2 ≤ covering.value x + 1 * Vec.sum x := by
  have pointed : covering.basicPoint [1] = .ok [0, 1, 0] := by decide +kernel
  have priced : covering.reducedCosts [1] = .ok [-1, 0, 2] := by decide +kernel
  obtain ⟨-, -, -, -, cost, within⟩ := basicPoint_certified pointed priced
  have value_eq : covering.value [0, 1, 0] = 2 :=
    Option.some_inj.1 (cost.symm.trans (by decide +kernel))
  have bound := within 1 (by decide +kernel)
  rw [value_eq] at bound
  exact ⟨pointed, priced, bound⟩

end SimplexMethod.LinearProgram
