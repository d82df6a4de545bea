import SimplexMethod.Proofs.Inversion
import SimplexMethod.Proofs.Problem
import SimplexMethod.Proofs.Structure
import SimplexMethod.Solution

namespace SimplexMethod.LinearProgram
open Matrix Vec

structure IsBasis (p : LinearProgram ℚ) (basis : List ℕ) : Prop where
  length : basis.length = p.numEquations
  lt : ∀ j ∈ basis, j < p.numVariables
  nodup : basis.Nodup

theorem checkBasis_eq_ok_iff {p : LinearProgram ℚ} {basis : List ℕ} :
    p.checkBasis basis = .ok () ↔ p.IsBasis basis :=
  checkBasis_ok_iff.trans ⟨fun given => ⟨given.1, given.2.1, given.2.2⟩,
    fun accepted => ⟨accepted.length, accepted.lt, accepted.nodup⟩⟩

namespace IsBasis

variable {p : LinearProgram ℚ} {basis : List ℕ}

theorem val_lt (accepted : p.IsBasis basis) (i : Fin p.numEquations) : (i : ℕ) < basis.length :=
  i.isLt.trans_eq accepted.length.symm

def column (accepted : p.IsBasis basis) (i : Fin p.numEquations) : Fin p.numVariables :=
  ⟨basis.get ⟨i, accepted.val_lt i⟩, accepted.lt _ (List.get_mem _ _)⟩

theorem getElem?_eq (accepted : p.IsBasis basis) (i : Fin p.numEquations) :
    basis[(i : ℕ)]? = some (accepted.column i : ℕ) := by
  simp [column, accepted.val_lt i]

theorem getD_eq (accepted : p.IsBasis basis) (i : Fin p.numEquations) :
    basis.getD i 0 = accepted.column i := by
  rw [List.getD_eq_getElem?_getD, accepted.getElem?_eq, Option.getD_some]

theorem column_injective (accepted : p.IsBasis basis) : Function.Injective accepted.column := by
  intro i k same
  have positions := congrArg (fun j : Fin p.numVariables => (j : ℕ)) same
  exact Fin.ext ((List.Nodup.getElem_inj_iff accepted.nodup).1 positions)

theorem mem_range_iff (accepted : p.IsBasis basis) {j : Fin p.numVariables} :
    j ∈ Set.range accepted.column ↔ (j : ℕ) ∈ basis := by
  constructor
  · intro given
    obtain ⟨i, rfl⟩ := given
    exact List.get_mem _ _
  · intro member
    obtain ⟨i, inside, same⟩ := List.getElem_of_mem member
    exact ⟨⟨i, inside.trans_eq accepted.length⟩, Fin.ext same⟩

theorem column_mem (accepted : p.IsBasis basis) (i : Fin p.numEquations) :
    (accepted.column i : ℕ) ∈ basis :=
  accepted.mem_range_iff.1 ⟨i, rfl⟩

abbrev matrix (accepted : p.IsBasis basis) :
    Matrix (Fin p.numEquations) (Fin p.numEquations) ℚ :=
  p.matrix.submatrix id accepted.column

theorem basisMatrix?_eq (accepted : p.IsBasis basis) :
    ∃ b, p.basisMatrix? basis = some b ∧ b.height = p.numEquations ∧ b.width = p.numEquations ∧
      b.toMatrix p.numEquations p.numEquations = accepted.matrix := by
  refine ⟨p.constraints.columnsAt basis, if_pos accepted.lt, ?_, accepted.length, ?_⟩
  · simp [RowMatrix.height, RowMatrix.columnsAt, numEquations]
  · ext i k
    exact RowMatrix.entry_columnsAt _ _ (accepted.val_lt k) _

theorem costsOf?_eq (accepted : p.IsBasis basis) :
    ∃ costs, p.costsOf? basis = some costs ∧ costs.length = p.numEquations ∧
      toFun costs p.numEquations = p.costs ∘ accepted.column := by
  refine ⟨basis.map fun j => p.cost.getD j 0, if_pos accepted.lt, ?_, ?_⟩
  · rw [List.length_map, accepted.length]
  · funext i
    simp only [toFun_apply, List.getD_eq_getElem?_getD, List.getElem?_map, accepted.getElem?_eq]
    rfl

theorem mem_set_iff (accepted : p.IsBasis basis) (row : Fin p.numEquations) {entering : ℕ}
    (outside : entering ∉ basis) (j : ℕ) :
    j ∈ basis.set row entering ↔ j = entering ∨ j ≠ accepted.column row ∧ j ∈ basis :=
  SimplexMethod.mem_set_iff accepted.nodup (accepted.getElem?_eq row) outside j

theorem exchange (accepted : p.IsBasis basis) (row : Fin p.numEquations)
    {entering : Fin p.numVariables} (outside : (entering : ℕ) ∉ basis) :
    ∃ exchanged : p.IsBasis (basis.set row entering),
      exchanged.column = Function.update accepted.column row entering := by
  have exchanged : p.IsBasis (basis.set row entering) := by
    refine ⟨by rw [List.length_set, accepted.length], ?_, accepted.nodup.set outside⟩
    intro j member
    rcases List.mem_or_eq_of_mem_set member with old | new
    · exact accepted.lt j old
    · exact new ▸ entering.isLt
  refine ⟨exchanged, ?_⟩
  funext i
  apply Fin.ext
  simp only [column, List.get_eq_getElem, List.getElem_set, Function.update_apply]
  by_cases same : i = row
  · subst same
    simp
  · have other : (row : ℕ) ≠ i := fun equal => same (Fin.ext equal.symm)
    simp [same, other]

theorem scatter?_eq (accepted : p.IsBasis basis) {values : Vec ℚ}
    (length : values.length = p.numEquations) :
    ∃ x, scatter? p.numVariables basis values = some x ∧ x.length = p.numVariables ∧
      toFun x p.numVariables = spread accepted.column (toFun values p.numEquations) := by
  have lengths : basis.length = values.length := accepted.length.trans length.symm
  have keys : (basis.zip values).map Prod.fst = basis :=
    List.map_fst_zip lengths.le
  obtain ⟨same, others, written⟩ := foldl_set (fun entry _ => entry.2) (basis.zip values)
    (zeros p.numVariables) (keys.symm ▸ accepted.nodup)
  refine ⟨scatter p.numVariables basis values, if_pos accepted.lt, ?_, ?_⟩
  · exact same.trans (length_zeros _)
  · funext j
    by_cases inside : j ∈ Set.range accepted.column
    · obtain ⟨i, rfl⟩ := inside
      have inBasis : (i : ℕ) < basis.length := accepted.val_lt i
      have inValues : (i : ℕ) < values.length := inBasis.trans_eq lengths
      have member : ((accepted.column i : ℕ), values[(i : ℕ)]) ∈ basis.zip values := by
        rw [List.mem_iff_getElem]
        exact ⟨i, by simpa using ⟨inBasis, inValues⟩, by simp [column]⟩
      rw [spread_apply accepted.column_injective]
      refine (written _ member (by simp)).trans ?_
      simp [toFun, inValues]
    · have outside := fun member => inside (accepted.mem_range_iff.2 member)
      rw [spread_of_notMem inside]
      exact (others j (keys.symm ▸ outside)).trans (getD_zeros _ _)

theorem solutionAt?_eq (accepted : p.IsBasis basis) {x : Vec ℚ}
    (length : x.length = p.numVariables) (iterations : ℕ) :
    Solution.at? p x basis iterations = some ⟨x, basis, p.value x, iterations⟩ := by
  have inside : ∀ j ∈ basis, j < x.length :=
    fun j member => (accepted.lt j member).trans_eq length.symm
  rw [Solution.at?, objective?_eq length]
  exact if_pos inside

theorem values_eq (accepted : p.IsBasis basis) (regular : IsUnit accepted.matrix)
    {x : Fin p.numVariables → ℚ} (zero : ∀ j : Fin p.numVariables, (j : ℕ) ∉ basis → x j = 0)
    (equations : p.matrix *ᵥ x = p.sides) :
    x ∘ accepted.column = accepted.matrix⁻¹ *ᵥ p.sides := by
  have inverse : accepted.matrix⁻¹ * accepted.matrix = 1 :=
    nonsing_inv_mul _ ((isUnit_iff_isUnit_det _).1 regular)
  refine basicValues_eq inverse accepted.column_injective (fun j away => zero j ?_) equations
  exact fun inside => away (accepted.mem_range_iff.2 inside)

end IsBasis

end SimplexMethod.LinearProgram
