import SimplexMethod.Proofs.Inversion

namespace SimplexMethod
open Matrix Vec

section Elimination

variable {size : ℕ}

def clearedAt (W : Matrix (Fin size) (Fin size) ℚ) (column pivot : Fin size) :
    Matrix (Fin size) (Fin size) ℚ :=
  Matrix.of fun i j =>
    if i = column then W pivot j / W pivot column
    else W (Equiv.swap column pivot i) j -
      W (Equiv.swap column pivot i) column * (W pivot j / W pivot column)

structure IsPivot (W : Matrix (Fin size) (Fin size) ℚ) (column pivot : Fin size) : Prop where
  candidate : column ≤ pivot
  largest : ∀ i, column ≤ i → |W i column| ≤ |W pivot column|
  first : ∀ i, column ≤ i → i < pivot → |W i column| < |W pivot column|

theorem IsPivot.unique {W : Matrix (Fin size) (Fin size) ℚ} {column pivot pivot' : Fin size}
    (isPivot : IsPivot W column pivot) (isPivot' : IsPivot W column pivot') : pivot = pivot' := by
  rcases lt_trichotomy pivot pivot' with before | same | after
  · have smaller := isPivot'.first pivot isPivot.candidate before
    exact absurd smaller (isPivot.largest pivot' isPivot'.candidate).not_gt
  · exact same
  · have smaller := isPivot.first pivot' isPivot'.candidate after
    exact absurd smaller (isPivot'.largest pivot isPivot.candidate).not_gt

inductive EliminatesTo (A : Matrix (Fin size) (Fin size) ℚ) (threshold : ℚ) :
    ℕ → Matrix (Fin size) (Fin size) ℚ → Prop
  | start : EliminatesTo A threshold 0 A
  | clear {column : ℕ} {W : Matrix (Fin size) (Fin size) ℚ} (inside : column < size)
      (pivot : Fin size) (before : EliminatesTo A threshold column W)
      (isPivot : IsPivot W ⟨column, inside⟩ pivot)
      (usable : threshold < |W pivot ⟨column, inside⟩|) :
      EliminatesTo A threshold (column + 1) (clearedAt W ⟨column, inside⟩ pivot)

variable {A W W' : Matrix (Fin size) (Fin size) ℚ} {threshold : ℚ} {column last : ℕ}

theorem EliminatesTo.unique (eliminates : EliminatesTo A threshold column W)
    (eliminates' : EliminatesTo A threshold column W') : W = W' := by
  induction eliminates generalizing W' with
  | start =>
      cases eliminates'
      rfl
  | clear inside pivot before isPivot usable ih =>
      cases eliminates' with
      | clear inside' pivot' before' isPivot' usable' =>
          cases ih before'
          rw [isPivot.unique isPivot']

theorem EliminatesTo.exists_of_lt (eliminates : EliminatesTo A threshold last W)
    (before : column < last) :
    ∃ (inside : column < size) (W' : _) (pivot : Fin size), EliminatesTo A threshold column W' ∧
      ⟨column, inside⟩ ≤ pivot ∧ threshold < |W' pivot ⟨column, inside⟩| := by
  induction eliminates with
  | start => exact absurd before (Nat.not_lt_zero column)
  | clear inside pivot earlier isPivot usable ih =>
      rcases Nat.lt_succ_iff_lt_or_eq.1 before with earlierColumn | rfl
      · exact ih earlierColumn
      · exact ⟨inside, _, pivot, earlier, isPivot.candidate, usable⟩

/-- Elimination comes to a column without an entry above the threshold. -/
def Stuck (A : Matrix (Fin size) (Fin size) ℚ) (threshold : ℚ) : Prop :=
  ∃ (column : Fin size) (W : Matrix (Fin size) (Fin size) ℚ), EliminatesTo A threshold column W ∧
    ∀ i, column ≤ i → |W i column| ≤ threshold

theorem EliminatesTo.not_stuck (eliminates : EliminatesTo A threshold size W) :
    ¬Stuck A threshold := by
  rintro ⟨column, W', reached, small⟩
  obtain ⟨inside, W'', pivot, reached', candidate, usable⟩ := eliminates.exists_of_lt column.isLt
  cases reached.unique reached'
  exact (small pivot candidate).not_gt usable

end Elimination

theorem foldl_largest (f : ℕ → ℚ) (first count : ℕ) :
    let best := (List.range' (first + 1) count).foldl
      (fun best i => if f best < f i then i else best) first
    first ≤ best ∧ best ≤ first + count ∧ (∀ i, first ≤ i → i ≤ first + count → f i ≤ f best) ∧
      ∀ i, first ≤ i → i < best → f i < f best := by
  induction count with
  | zero =>
      refine ⟨le_rfl, le_rfl, fun i low high => ?_, fun i low high => ?_⟩
      · rw [le_antisymm high low]
        exact le_rfl
      · exact absurd high low.not_gt
  | succ count ih =>
      obtain ⟨low, high, largest, before⟩ := ih
      rw [List.range'_1_concat, List.foldl_append, List.foldl_cons, List.foldl_nil]
      generalize List.foldl _ first (List.range' (first + 1) count) = best at *
      have next : first + 1 + count = first + (count + 1) := by omega
      rw [next]
      simp only
      split
      · rename_i above
        refine ⟨Nat.le_add_right .., le_rfl, fun i from_ upTo => ?_, fun i from_ below => ?_⟩
        · rcases Nat.lt_or_ge i (first + (count + 1)) with old | new
          · exact (largest i from_ (by omega)).trans above.le
          · rw [le_antisymm upTo new]
        · exact (largest i from_ (by omega)).trans_lt above
      · rename_i notAbove
        refine ⟨low, by omega, fun i from_ upTo => ?_, before⟩
        rcases Nat.lt_or_ge i (first + (count + 1)) with old | new
        · exact largest i from_ (by omega)
        · rw [le_antisymm upTo new]
          exact not_lt.1 notAbove

namespace RowMatrix

variable {size : ℕ}

theorem pivotRow_isPivot {a : RowMatrix ℚ} (height : a.height = size) {column : ℕ}
    (inside : column < size) :
    ∃ pivot : Fin size, a.pivotRow column = pivot ∧
      IsPivot (a.toMatrix size size) ⟨column, inside⟩ pivot := by
  obtain ⟨low, high, largest, first⟩ :=
    foldl_largest (fun i => |a.entry i column|) column (a.height - (column + 1))
  have row : a.pivotRow column < size := by
    refine high.trans_lt ?_
    omega
  refine ⟨⟨a.pivotRow column, row⟩, rfl, low, fun i from_ => ?_, fun i from_ before => ?_⟩
  · exact largest i from_ (by omega)
  · exact first i from_ before

theorem toMatrix_clearColumn {a : RowMatrix ℚ} (height : a.height = size)
    (column pivot : Fin size) :
    let scaled := (a.swapRows column pivot).scaleRow column (1 / a.entry pivot column)
    (scaled.addRowMultiples column ((scaled.column column).map fun factor => -factor)).toMatrix
      size size = clearedAt (a.toMatrix size size) column pivot := by
  have inside (i : Fin size) : (i : ℕ) < a.height := i.isLt.trans_eq height.symm
  ext i j
  simp only [clearedAt, Matrix.of_apply, toMatrix_apply, Fin.ext_iff]
  have swapped : ((Equiv.swap column pivot i : Fin size) : ℕ) =
      Equiv.swap (column : ℕ) pivot i := by
    simp only [Equiv.swap_apply_def, Fin.ext_iff]
    split_ifs <;> rfl
  rw [entry_clearColumn a _ _ (inside column) (inside pivot) (inside i), getD_neg, getD_column,
    entry_scaleRow, entry_swapRows a (inside column) (inside pivot), swapped]
  split_ifs with here
  · rw [mul_one_div]
  · rw [mul_one_div, neg_mul, ← sub_eq_add_neg]

namespace Elimination

theorem clearColumn_yields_cleared {A : Matrix (Fin size) (Fin size) ℚ} {threshold : ℚ}
    {column : ℕ} (inside : column < size) {state : Elimination ℚ}
    (height : state.work.height = size)
    (reached : EliminatesTo A threshold column (state.work.toMatrix size size)) :
    (clearColumn threshold state column).Yields
      (fun next => next.work.height = size ∧
        EliminatesTo A threshold (column + 1) (next.work.toMatrix size size))
      (fun fault => fault = .failed .singularMatrix ∧ Stuck A threshold) := by
  obtain ⟨pivot, found, isPivot⟩ := pivotRow_isPivot height inside
  unfold clearColumn
  simp only [found, Scalar.abs_eq]
  split
  · rename_i small
    refine ⟨rfl, ⟨column, inside⟩, _, reached, fun i candidate => ?_⟩
    exact (isPivot.largest i candidate).trans small
  · rename_i large
    refine ⟨by simpa using height, ?_⟩
    have cleared := toMatrix_clearColumn height ⟨column, inside⟩ pivot
    simp only at cleared
    rw [cleared]
    exact .clear inside pivot reached isPivot (not_le.1 large)

end Elimination

theorem invert_yields_eliminated {a : RowMatrix ℚ} (height : a.height = size)
    (width : a.width = size) :
    a.invert.Yields (fun _ => ∃ W, EliminatesTo (a.toMatrix size size) a.pivotThreshold size W)
      (fun fault => fault = .failed .singularMatrix ∧
        Stuck (a.toMatrix size size) a.pivotThreshold) := by
  unfold invert
  rw [Outcome.require_of (height.trans width.symm), Outcome.ok_bind]
  apply Outcome.Yields.bind (@Outcome.Yields.foldlM_range ℚ _ _ (fun column state =>
    state.work.height = size ∧
      EliminatesTo (a.toMatrix size size) a.pivotThreshold column (state.work.toMatrix size size))
    _ _ _ ⟨height, .start⟩ fun column inside state given =>
      Elimination.clearColumn_yields_cleared (height ▸ inside) given.1 given.2)
  intro last given
  exact ⟨_, height ▸ given.2⟩

theorem isGreatest_supNorm (x : Vec ℚ) :
    IsGreatest (insert 0 {magnitude | ∃ entry ∈ x, magnitude = |entry|}) (Vec.supNorm x) := by
  induction x using List.reverseRecOn with
  | nil => exact ⟨Or.inl rfl, by simp [Vec.supNorm, upperBounds]⟩
  | append_singleton rest last ih =>
      obtain ⟨attained, bound⟩ := ih
      have step : Vec.supNorm (rest ++ [last]) = Max.max (Vec.supNorm rest) |last| := by
        rw [Vec.supNorm, List.foldl_append, List.foldl_cons, List.foldl_nil, Scalar.max_eq]
        rfl
      rw [step]
      constructor
      · rcases max_choice (Vec.supNorm rest) |last| with old | new
        · rw [old]
          rcases attained with zero | ⟨entry, member, same⟩
          · exact Or.inl zero
          · exact Or.inr ⟨entry, List.mem_append_left _ member, same⟩
        · rw [new]
          exact Or.inr ⟨last, by simp, rfl⟩
      · rintro magnitude (rfl | ⟨entry, member, rfl⟩)
        · exact le_max_of_le_left (bound (Or.inl rfl))
        · rcases List.mem_append.1 member with old | new
          · exact le_max_of_le_left (bound (Or.inr ⟨entry, old, rfl⟩))
          · rw [List.mem_singleton.1 new]
            exact le_max_right _ _

theorem mem_flatten_rows_iff {a : RowMatrix ℚ} {m n : ℕ} (height : a.height = m)
    (width : a.width = n) {value : ℚ} :
    value ∈ a.rows.flatten ↔ ∃ i j, a.toMatrix m n i j = value := by
  subst height width
  rw [List.mem_flatten]
  constructor
  · rintro ⟨row, present, member⟩
    obtain ⟨i, inside, rfl⟩ := List.mem_iff_getElem.1 present
    obtain ⟨j, below, rfl⟩ := List.mem_iff_getElem.1 member
    refine ⟨⟨i, inside⟩, ⟨j, below.trans_eq (a.rectangular _ present)⟩, ?_⟩
    simp [toMatrix_apply, entry, row_eq_getElem a inside, below]
  · rintro ⟨i, j, rfl⟩
    have present : (a.row i)[(j : ℕ)]? = some (a.toMatrix a.height a.width i j) := by
      simp [toMatrix_apply, entry, length_row]
    exact ⟨a.row i, List.mem_of_getElem? (getElem?_rows i.isLt), List.mem_of_getElem? present⟩

theorem isGreatest_max_supNorm {a : RowMatrix ℚ} {m n : ℕ} (height : a.height = m)
    (width : a.width = n) :
    IsGreatest (insert 1 (Set.range fun position : Fin m × Fin n =>
      |a.toMatrix m n position.1 position.2|)) (Max.max a.supNorm 1) := by
  obtain ⟨attained, bound⟩ := isGreatest_supNorm a.rows.flatten
  have members {value : ℚ} :
      value ∈ a.rows.flatten ↔ ∃ i j, a.toMatrix m n i j = value :=
    mem_flatten_rows_iff height width
  constructor
  · rcases le_total a.supNorm 1 with small | large
    · exact Or.inl (max_eq_right small)
    · rw [max_eq_left large]
      rcases attained with zero | ⟨entry, member, same⟩
      · exact absurd (large.trans_eq zero) (by norm_num)
      · obtain ⟨i, j, rfl⟩ := members.1 member
        exact Or.inr ⟨(i, j), same.symm⟩
  · rintro magnitude (rfl | ⟨⟨i, j⟩, rfl⟩)
    · exact le_max_right _ _
    · exact le_max_of_le_left (bound (Or.inr ⟨_, members.2 ⟨i, j, rfl⟩, rfl⟩))

/-- Inversion of a square matrix finds its inverse or calls it singular, which it does for every
matrix without an inverse, and for just those on which elimination with partial pivoting gets stuck:
the entries left in some column are all below the tolerance, relative to the largest of the
matrix. -/
theorem invert_inverts_or_stuck {a : RowMatrix ℚ} {size : ℕ} (height : a.height = size)
    (width : a.width = size) :
    let A := a.toMatrix size size
    ((∃ inverse, a.invert = .ok inverse ∧ inverse.height = size ∧ inverse.width = size ∧
        A * inverse.toMatrix size size = 1 ∧ inverse.toMatrix size size * A = 1) ∨
      a.invert = .error (.failed .singularMatrix)) ∧
    (¬IsUnit A → a.invert = .error (.failed .singularMatrix)) ∧
    ∃ scale, IsGreatest (insert 1 (Set.range fun position : Fin size × Fin size =>
        |A position.1 position.2|)) scale ∧
      (a.invert = .error (.failed .singularMatrix) ↔ Stuck A (Scalar.pivotTolerance * scale)) := by
  intro A
  have threshold : a.pivotThreshold = Scalar.pivotTolerance * Max.max a.supNorm 1 := by
    rw [pivotThreshold, Scalar.max_eq]
  have inverts := invert_yields height width
  have eliminates := invert_yields_eliminated height width
  rw [threshold] at eliminates
  cases inverted : a.invert with
  | ok inverse =>
      obtain ⟨leftHeight, leftWidth, product⟩ := inverts.of_eq_ok inverted
      obtain ⟨W, reached⟩ := eliminates.of_eq_ok inverted
      refine ⟨Or.inl ⟨inverse, rfl, leftHeight, leftWidth, mul_eq_one_comm.1 product, product⟩,
        fun singular => ?_, _, isGreatest_max_supNorm height width, ?_⟩
      · exact absurd (IsUnit.of_mul_eq_one_right _ product) singular
      · exact iff_of_false nofun reached.not_stuck
  | error fault =>
      obtain ⟨rfl, stuck⟩ := eliminates.of_eq_error inverted
      exact ⟨Or.inr rfl, fun _ => rfl, _, isGreatest_max_supNorm height width,
        iff_of_true rfl stuck⟩

def swapping : RowMatrix ℚ := ⟨[[0, 2], [4, 1]], 2, by decide⟩

def lopsided : RowMatrix ℚ := ⟨[[0, 1], [1e-11, 0]], 2, by decide⟩

theorem invert_inverts_or_stuck_lopsided :
    (∃ inverse, swapping.invert = .ok inverse ∧
      swapping.toMatrix 2 2 * inverse.toMatrix 2 2 = 1) ∧
    IsUnit (lopsided.toMatrix 2 2) ∧ lopsided.invert = .error (.failed .singularMatrix) := by
  refine ⟨?_, ?_, ?_⟩
  · obtain ⟨found | singular, -⟩ := @invert_inverts_or_stuck swapping 2 rfl rfl
    · obtain ⟨inverse, inverted, -, -, product, -⟩ := found
      exact ⟨inverse, inverted, product⟩
    · have inverted : swapping.invert.toOption.isSome = true := by decide +kernel
      rw [singular] at inverted
      cases inverted
  · rw [isUnit_iff_isUnit_det, det_fin_two, isUnit_iff_ne_zero]
    decide +kernel
  · obtain ⟨-, -, scale, greatest, singular_iff⟩ :=
      @invert_inverts_or_stuck lopsided 2 rfl rfl
    refine singular_iff.2 ⟨0, _, .start, fun i _ => ?_⟩
    have one_le : 1 ≤ scale := greatest.2 (Or.inl rfl)
    have small : |lopsided.toMatrix 2 2 i 0| ≤ Scalar.pivotTolerance := by
      revert i
      decide +kernel
    exact small.trans (le_mul_of_one_le_right Scalar.pivotTolerance_pos.le one_le)

end RowMatrix

end SimplexMethod
