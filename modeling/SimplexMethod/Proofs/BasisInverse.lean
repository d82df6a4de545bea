import SimplexMethod.Proofs.Basis
import SimplexMethod.BasisInverse

namespace SimplexMethod
open Matrix Vec Outcome

namespace RowMatrix

theorem mulVec?_eq {a : RowMatrix ℚ} {m n : ℕ} (height : a.height = m) (width : a.width = n)
    {x : Vec ℚ} (length : x.length = n) :
    ∃ image, a.mulVec? x = some image ∧ image.length = m ∧
      toFun image m = a.toMatrix m n *ᵥ toFun x n :=
  ⟨a.mulVec x, if_pos (length.trans width.symm), (length_mulVec a x).trans height,
    toFun_mulVec height width length⟩

theorem vecMul?_eq {a : RowMatrix ℚ} {m n : ℕ} (height : a.height = m) (width : a.width = n)
    {y : Vec ℚ} (length : y.length = m) :
    ∃ image, vecMul? y a = some image ∧ image.length = n ∧
      toFun image n = toFun y m ᵥ* a.toMatrix m n :=
  ⟨vecMul y a, if_pos (length.trans height.symm), (length_vecMul y).trans width,
    toFun_vecMul height length n⟩

theorem entry_eliminateWith (a : RowMatrix ℚ) (eta : Vec ℚ) (position : ℕ) {i : ℕ}
    (inside : i < a.height) (j : ℕ) :
    (a.eliminateWith eta position).entry i j =
      if i = position then a.entry i j * eta.getD position 0
      else a.entry i j + eta.getD i 0 * a.entry position j := by
  rw [eliminateWith, entry_scaleRow, entry_addRowMultiples _ _ _ inside]
  split <;> rfl

end RowMatrix

theorem eliminationColumn_eq {column : Vec ℚ} {position : ℕ} (inside : position < column.length) :
    eliminationColumn column position =
      if |column.getD position 0| ≤ Scalar.pivotTolerance then fail .singularMatrix
      else .ok (scale (column.set position (-1)) (-1 / column.getD position 0)) := by
  have entry : column[position]? = some (column.getD position 0) := by simp [inside]
  rw [eliminationColumn, entry, demand_some, ok_bind, Scalar.abs_eq, pure_eq_ok]

theorem eliminationColumn_yields {column : Vec ℚ} {position : ℕ}
    (inside : position < column.length) :
    (eliminationColumn column position).Yields
      (fun eta => column.getD position 0 ≠ 0 ∧ eta.length = column.length ∧
        eta.getD position 0 = 1 / column.getD position 0 ∧
        ∀ i ≠ position, eta.getD i 0 = -(column.getD i 0 / column.getD position 0))
      (· = .failed .singularMatrix) := by
  rw [eliminationColumn_eq inside]
  generalize column.getD position 0 = pivot
  split
  · simp
  · rename_i large
    have nonzero : pivot ≠ 0 := by
      intro zero
      simp [zero, Scalar.pivotTolerance_pos.le] at large
    refine ⟨nonzero, by simp [scale], ?_, fun i other => ?_⟩
    · rw [getD_scale, getD_set, if_pos ⟨rfl, inside⟩]
      ring
    · rw [getD_scale, getD_set, if_neg fun same => other same.1.symm]
      ring

namespace BasisInverse

abbrev matrix (inverse : BasisInverse ℚ) (m : ℕ) : Matrix (Fin m) (Fin m) ℚ :=
  inverse.inverse.toMatrix m m

structure Inverts {m : ℕ} (inverse : BasisInverse ℚ) (B : Matrix (Fin m) (Fin m) ℚ) : Prop where
  height : inverse.inverse.height = m
  width : inverse.inverse.width = m
  mul_eq_one : inverse.matrix m * B = 1
  stored : ∀ basisMatrix left, inverse = .reinversion basisMatrix left →
    basisMatrix.height = m ∧ basisMatrix.width = m ∧ basisMatrix.toMatrix m m = B

theorem identity_inverts (upkeep : Upkeep) (m : ℕ) :
    (identity upkeep m).Inverts (1 : Matrix (Fin m) (Fin m) ℚ) := by
  have one := RowMatrix.toMatrix_identity m
  cases upkeep with
  | productForm =>
      refine ⟨by simp [identity, inverse], rfl, ?_, by simp [identity]⟩
      exact (congrArg (· * (1 : Matrix (Fin m) (Fin m) ℚ)) one).trans (one_mul 1)
  | reinversion =>
      refine ⟨by simp [identity, inverse], rfl, ?_, ?_⟩
      · exact (congrArg (· * (1 : Matrix (Fin m) (Fin m) ℚ)) one).trans (one_mul 1)
      · rintro basisMatrix left same
        cases same
        exact ⟨by simp, rfl, one⟩

theorem invert_inverts {m : ℕ} {a : RowMatrix ℚ} (height : a.height = m) (width : a.width = m) :
    a.invert.Yields
      (fun left => (productForm left).Inverts (a.toMatrix m m) ∧
        (reinversion a left).Inverts (a.toMatrix m m))
      (· = .failed .singularMatrix) := by
  refine (RowMatrix.invert_yields height width).mono_value ?_
  intro left given
  obtain ⟨leftHeight, leftWidth, product⟩ := given
  refine ⟨⟨leftHeight, leftWidth, product, by simp⟩, ⟨leftHeight, leftWidth, product, ?_⟩⟩
  rintro basisMatrix left' same
  cases same
  exact ⟨height, width, rfl⟩

theorem ofBasis_inverts {p : LinearProgram ℚ} {basis : List ℕ} {a : RowMatrix ℚ} {m : ℕ}
    (upkeep : Upkeep) (selected : p.basisMatrix? basis = some a) (height : a.height = m)
    (width : a.width = m) :
    (ofBasis upkeep p basis).Yields (fun inverse => inverse.Inverts (a.toMatrix m m))
      (· = .failed .singularMatrix) := by
  rw [ofBasis, selected, demand_some, ok_bind]
  apply (invert_inverts height width).bind
  intro left given
  obtain ⟨product, reinverted⟩ := given
  cases upkeep with
  | productForm =>
      have square : ofInverse? left = some (productForm left) :=
        if_pos (product.height.trans product.width.symm)
      simpa [square] using product
  | reinversion => exact reinverted

theorem ofBasis_yields {p : LinearProgram ℚ} {basis : List ℕ} (upkeep : Upkeep)
    (accepted : p.IsBasis basis) :
    (ofBasis upkeep p basis).Yields (fun inverse => inverse.Inverts accepted.matrix)
      (· = .failed .singularMatrix) := by
  obtain ⟨a, selected, height, width, entries⟩ := accepted.basisMatrix?_eq
  rw [← entries]
  exact ofBasis_inverts upkeep selected height width

section Quantities

variable {m : ℕ} {inverse : BasisInverse ℚ} {B : Matrix (Fin m) (Fin m) ℚ}

theorem Inverts.express_eq (inverts : inverse.Inverts B) {column : Vec ℚ}
    (length : column.length = m) :
    ∃ image, inverse.express column = .ok image ∧ image.length = m ∧
      toFun image m = inverse.matrix m *ᵥ toFun column m := by
  obtain ⟨image, found, lengthImage, entries⟩ :=
    RowMatrix.mulVec?_eq inverts.height inverts.width length
  exact ⟨image, by rw [express, found, demand_some], lengthImage, entries⟩

theorem Inverts.row_eq (inverts : inverse.Inverts B) (i : Fin m) :
    ∃ row, inverse.row i = .ok row ∧ row.length = m ∧ toFun row m = inverse.matrix m i := by
  have inside : (i : ℕ) < inverse.inverse.height := i.isLt.trans_eq inverts.height.symm
  refine ⟨inverse.inverse.row i, ?_, (RowMatrix.length_row _ _).trans inverts.width, rfl⟩
  rw [row, RowMatrix.row?, if_pos inside, demand_some]

theorem Inverts.expressEntry_eq (inverts : inverse.Inverts B) (i : Fin m) {column : Vec ℚ}
    (length : column.length = m) :
    inverse.expressEntry i column = .ok ((inverse.matrix m *ᵥ toFun column m) i) := by
  obtain ⟨row, found, lengthRow, entries⟩ := inverts.row_eq i
  rw [BasisInverse.row] at found
  rw [expressEntry, found, ok_bind, pure_eq_ok, dot_eq lengthRow length, entries]
  rfl

theorem Inverts.multipliers_eq (inverts : inverse.Inverts B) {costs : Vec ℚ}
    (length : costs.length = m) :
    ∃ y, inverse.multipliers costs = .ok y ∧ y.length = m ∧
      toFun y m = toFun costs m ᵥ* inverse.matrix m := by
  obtain ⟨y, found, lengthY, entries⟩ :=
    RowMatrix.vecMul?_eq inverts.height inverts.width length
  exact ⟨y, by rw [multipliers, found, demand_some], lengthY, entries⟩

end Quantities

theorem eliminateWith_inverts {m : ℕ} {left : RowMatrix ℚ} {B : Matrix (Fin m) (Fin m) ℚ}
    (inverts : (productForm left).Inverts B) {position : Fin m} {entering : Fin m → ℚ}
    {eta : Vec ℚ} (pivot : (left.toMatrix m m *ᵥ entering) position ≠ 0)
    (scaled : eta.getD position 0 = 1 / (left.toMatrix m m *ᵥ entering) position)
    (added : ∀ i : Fin m, i ≠ position → eta.getD i 0 =
      -((left.toMatrix m m *ᵥ entering) i / (left.toMatrix m m *ᵥ entering) position)) :
    (productForm (left.eliminateWith eta position)).Inverts (B.updateCol position entering) := by
  have height : left.height = m := inverts.height
  have inside (i : Fin m) : (i : ℕ) < left.height := i.isLt.trans_eq height.symm
  refine ⟨?_, inverts.width, ?_, by simp⟩
  · exact (RowMatrix.height_eliminateWith _ _ _).trans height
  · apply inverse_updateCol inverts.mul_eq_one pivot
    · intro k
      refine (RowMatrix.entry_eliminateWith left eta position (inside position) k).trans ?_
      rw [if_pos rfl, scaled]
      rfl
    · intro i other k
      refine (RowMatrix.entry_eliminateWith left eta position (inside i) k).trans ?_
      rw [if_neg fun same => other (Fin.ext same), added i other, neg_mul, ← sub_eq_add_neg]
      rfl

theorem Inverts.exchange_yields {m : ℕ} {inverse : BasisInverse ℚ}
    {B : Matrix (Fin m) (Fin m) ℚ} (inverts : inverse.Inverts B) (position : Fin m)
    {entering column : Vec ℚ}
    (lengthEntering : entering.length = m) (lengthColumn : column.length = m)
    (expressed : toFun column m = inverse.matrix m *ᵥ toFun entering m) :
    (inverse.exchange position entering column).Yields
      (fun exchanged => exchanged.Inverts (B.updateCol position (toFun entering m)))
      (· = .failed .singularMatrix) := by
  cases inverse with
  | productForm left =>
      have entries (i : Fin m) : column.getD i 0 = (left.toMatrix m m *ᵥ toFun entering m) i :=
        congrFun expressed i
      have inside : (position : ℕ) < column.length := position.isLt.trans_eq lengthColumn.symm
      rw [exchange]
      apply (eliminationColumn_yields inside).bind
      intro eta given
      obtain ⟨nonzero, length, scaled, added⟩ := given
      have height : left.height = m := inverts.height
      rw [RowMatrix.eliminateWith?_eq (position.isLt.trans_eq height.symm)
        (length.trans (lengthColumn.trans height.symm)), demand_some, ok_bind, pure_eq_ok, yields_ok]
      rw [entries] at nonzero scaled
      apply eliminateWith_inverts inverts nonzero scaled
      intro i other
      rw [added i fun same => other (Fin.ext same), entries, entries]
  | reinversion basisMatrix left =>
      obtain ⟨height, width, same⟩ := inverts.stored basisMatrix left rfl
      have inside : (position : ℕ) < basisMatrix.width := position.isLt.trans_eq width.symm
      have length : entering.length = basisMatrix.height := lengthEntering.trans height.symm
      have fits : basisMatrix.withColumn? position entering =
          some (basisMatrix.withColumn position entering) := if_pos ⟨inside, length⟩
      rw [exchange, fits, demand_some, ok_bind]
      have heightNew : (basisMatrix.withColumn position entering).height = m :=
        (RowMatrix.height_withColumn _ _ length).trans height
      rw [← same, ← RowMatrix.toMatrix_withColumn height width lengthEntering position]
      apply (invert_inverts heightNew width).bind
      intro left' given
      obtain ⟨-, reinverted⟩ := given
      exact reinverted

end BasisInverse

end SimplexMethod
