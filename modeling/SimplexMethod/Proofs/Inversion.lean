import SimplexMethod.Proofs.MatrixView
import SimplexMethod.Proofs.Shapes

namespace SimplexMethod.RowMatrix
open Matrix Vec

theorem pivotThreshold_pos (a : RowMatrix ℚ) : 0 < a.pivotThreshold := by
  unfold pivotThreshold
  rw [Scalar.max_eq]
  exact mul_pos Scalar.pivotTolerance_pos (lt_max_of_lt_right one_pos)

theorem entry_clearColumn (a : RowMatrix ℚ) {column pivot i : ℕ} (factor : ℚ) (factors : Vec ℚ)
    (hColumn : column < a.height) (hPivot : pivot < a.height) (inside : i < a.height) (j : ℕ) :
    (((a.swapRows column pivot).scaleRow column factor).addRowMultiples column factors).entry i j =
      if i = column then a.entry pivot j * factor
      else a.entry (Equiv.swap column pivot i) j + factors.getD i 0 * (a.entry pivot j * factor) := by
  rw [entry_addRowMultiples _ _ _ (by simpa using inside), entry_scaleRow, entry_scaleRow,
    entry_swapRows a hColumn hPivot, entry_swapRows a hColumn hPivot]
  split <;> simp_all

namespace Elimination

structure Cleared {size : ℕ} (A : Matrix (Fin size) (Fin size) ℚ) (columns : ℕ)
    (state : Elimination ℚ) : Prop where
  work_height : state.work.height = size
  work_width : state.work.width = size
  inverse_height : state.inverse.height = size
  inverse_width : state.inverse.width = size
  product : ∀ i < size, ∀ j : Fin size,
    ∑ k : Fin size, state.inverse.entry i k * A k j = state.work.entry i j
  unit : ∀ i < size, ∀ j < columns, state.work.entry i j = if i = j then 1 else 0

theorem Cleared.clear {size : ℕ} {A : Matrix (Fin size) (Fin size) ℚ} {column pivot : ℕ}
    {state : Elimination ℚ} {factors : Vec ℚ} (cleared : Cleared A column state)
    (low : column ≤ pivot) (high : pivot < size) (nonzero : state.work.entry pivot column ≠ 0)
    (eliminates : ∀ i < size, i ≠ column →
      factors.getD i 0 = -state.work.entry (Equiv.swap column pivot i) column) :
    let clear (a : RowMatrix ℚ) := ((a.swapRows column pivot).scaleRow column
      (1 / state.work.entry pivot column)).addRowMultiples column factors
    Cleared A (column + 1) ⟨clear state.work, clear state.inverse⟩ := by
  obtain ⟨workHeight, workWidth, inverseHeight, inverseWidth, product, unit⟩ := cleared
  have inside : column < size := low.trans_lt high
  have swapped : ∀ i < size, Equiv.swap column pivot i < size := by
    intro i below
    rw [Equiv.swap_apply_def]
    grind
  have work := fun i (below : i < size) => entry_clearColumn state.work
    (1 / state.work.entry pivot column) factors (workHeight ▸ inside) (workHeight ▸ high)
    (workHeight ▸ below)
  have inverse := fun i (below : i < size) => entry_clearColumn state.inverse
    (1 / state.work.entry pivot column) factors (inverseHeight ▸ inside) (inverseHeight ▸ high)
    (inverseHeight ▸ below)
  refine ⟨by simpa, workWidth, by simpa, inverseWidth, ?_, ?_⟩
  · intro i below j
    rw [work i below]
    simp only [inverse i below]
    split
    · rw [← product pivot high j, Finset.sum_mul]
      exact Finset.sum_congr rfl fun k _ => by ring
    · rw [← product pivot high j, ← product _ (swapped i below) j, Finset.sum_mul, Finset.mul_sum,
        ← Finset.sum_add_distrib]
      exact Finset.sum_congr rfl fun k _ => by ring
  · intro i below j before
    have later : ∀ k < size, column ≤ k → j < column → state.work.entry k j = 0 := by
      intro k bound above finished
      rw [unit k bound j finished, if_neg (by omega)]
    rw [work i below]
    by_cases here : i = column
    · rw [if_pos here]
      rcases Nat.lt_succ_iff_lt_or_eq.1 before with finished | rfl
      · rw [later pivot high low finished, if_neg (by omega), zero_mul]
      · rw [if_pos here, mul_one_div_cancel nonzero]
    · rw [if_neg here, eliminates i below here]
      rcases Nat.lt_succ_iff_lt_or_eq.1 before with finished | rfl
      · rw [later pivot high low finished, zero_mul, mul_zero, add_zero]
        by_cases exchanged : i = pivot
        · rw [exchanged, Equiv.swap_apply_right, later column inside le_rfl finished,
            if_neg (by omega)]
        · rw [Equiv.swap_apply_of_ne_of_ne here exchanged, unit i below j finished]
      · rw [mul_one_div_cancel nonzero, if_neg here]
        ring

theorem clearColumn_yields {size : ℕ} {A : Matrix (Fin size) (Fin size) ℚ} {threshold : ℚ}
    (nonneg : 0 ≤ threshold) {column : ℕ} (inside : column < size) {state : Elimination ℚ}
    (cleared : Cleared A column state) :
    (clearColumn threshold state column).Yields (Cleared A (column + 1))
      (· = .failed .singularMatrix) := by
  have height := cleared.work_height
  obtain ⟨low, high⟩ := pivotRow_mem state.work (height ▸ inside)
  rw [height] at high
  unfold clearColumn
  simp only
  split
  · simp
  · rename_i large
    have nonzero : state.work.entry (state.work.pivotRow column) column ≠ 0 := by
      intro zero
      simp [zero, Scalar.abs_eq, nonneg] at large
    apply cleared.clear low high nonzero
    intro i below other
    rw [getD_neg, getD_column, entry_scaleRow, if_neg other,
      entry_swapRows _ (height ▸ inside) (height ▸ high)]

end Elimination

theorem invert_yields {a : RowMatrix ℚ} {size : ℕ} (height : a.height = size)
    (width : a.width = size) :
    a.invert.Yields
      (fun inverse => inverse.height = size ∧ inverse.width = size ∧
        inverse.toMatrix size size * a.toMatrix size size = 1)
      (· = .failed .singularMatrix) := by
  have start : Elimination.Cleared (a.toMatrix size size) 0 ⟨a, identity a.height⟩ := by
    refine ⟨height, width, by simpa, by simpa, ?_, by simp⟩
    intro i below j
    rw [height]
    calc ∑ k : Fin size, (identity size : RowMatrix ℚ).entry i k * a.toMatrix size size k j
        = ((identity size : RowMatrix ℚ).toMatrix size size * a.toMatrix size size) ⟨i, below⟩ j :=
          by rw [Matrix.mul_apply]; rfl
      _ = a.entry i j := by rw [toMatrix_identity, Matrix.one_mul]; rfl
  unfold invert
  rw [Outcome.require_of (height.trans width.symm), Outcome.ok_bind]
  apply Outcome.Yields.bind (Outcome.Yields.foldlM_range start fun column inside state cleared =>
    Elimination.clearColumn_yields (pivotThreshold_pos a).le (height ▸ inside) cleared)
  intro last cleared
  rw [height] at cleared
  refine ⟨cleared.inverse_height, cleared.inverse_width, ?_⟩
  ext i j
  rw [Matrix.mul_apply, Matrix.one_apply]
  refine (cleared.product i i.isLt j).trans ?_
  rw [cleared.unit i i.isLt j j.isLt]
  simp [Fin.ext_iff]

end SimplexMethod.RowMatrix
