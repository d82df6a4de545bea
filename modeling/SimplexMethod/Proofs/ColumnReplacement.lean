import SimplexMethod.Proofs.ExactInverse
import SimplexMethod.Proofs.InPlace

namespace SimplexMethod
open Matrix Vec Outcome

namespace RowMatrix

variable {m : ℕ} {N B a b : RowMatrix ℚ}

structure Inverses (m : ℕ) (a b : RowMatrix ℚ) : Prop where
  left : a.mul? b = some (identity m)
  right : b.mul? a = some (identity m)

theorem mul?_eq_identity_iff {k : ℕ} (width : a.width = k) :
    a.mul? b = some (identity m) ↔ a.height = m ∧ b.height = k ∧ b.width = m ∧
      a.toMatrix m k * b.toMatrix k m = 1 := by
  rw [mul?]
  constructor
  · intro product
    split at product
    · rename_i fits
      have same : a.mul b = identity m := Option.some_inj.1 product
      have height : a.height = m := by rw [← height_mul a b, same, height_identity]
      have widthB : b.width = m := congrArg RowMatrix.width same
      have heightB : b.height = k := fits.symm.trans width
      refine ⟨height, heightB, widthB, ?_⟩
      rw [← toMatrix_mul height width heightB widthB, same, toMatrix_identity]
    · cases product
  · rintro ⟨height, heightB, widthB, product⟩
    rw [if_pos (width.trans heightB.symm), Option.some_inj]
    refine eq_of_toMatrix_eq ((height_mul a b).trans height) widthB (height_identity m) rfl ?_
    rw [toMatrix_mul height width heightB widthB, product, toMatrix_identity]

theorem inverses_iff : Inverses m a b ↔ a.height = m ∧ a.width = m ∧ b.height = m ∧ b.width = m ∧
    a.toMatrix m m * b.toMatrix m m = 1 := by
  constructor
  · rintro ⟨left, right⟩
    have width : a.width = m := ((mul?_eq_identity_iff rfl).1 right).2.2.1
    obtain ⟨height, heightB, widthB, product⟩ := (mul?_eq_identity_iff width).1 left
    exact ⟨height, width, heightB, widthB, product⟩
  · rintro ⟨height, width, heightB, widthB, product⟩
    exact ⟨(mul?_eq_identity_iff width).2 ⟨height, heightB, widthB, product⟩,
      (mul?_eq_identity_iff widthB).2 ⟨heightB, height, width, mul_eq_one_comm.1 product⟩⟩

theorem eliminateWith_eq_mul {eta : Vec ℚ} (height : a.height = m) (width : a.width = m)
    (length : eta.length = m) (position : Fin m) :
    ((identity m).withColumn position eta).mul? a = some (a.eliminateWith eta position) := by
  have fits : eta.length = (identity m : RowMatrix ℚ).height := length.trans (height_identity m).symm
  have heightQ : ((identity m).withColumn position eta).height = m :=
    (height_withColumn _ _ fits).trans (height_identity m)
  have widthQ : ((identity m).withColumn position eta).width = m := rfl
  have heightNew : (a.eliminateWith eta position).height = m :=
    (height_eliminateWith _ _ _).trans height
  rw [mul?, if_pos (widthQ.trans height.symm), Option.some_inj]
  refine eq_of_toMatrix_eq ((height_mul _ _).trans heightQ) width heightNew width ?_
  rw [toMatrix_mul heightQ widthQ height width, toMatrix_withColumn (height_identity m) rfl length,
    toMatrix_identity]
  ext i j
  rw [updateCol_one_mul_apply, toMatrix_apply (a.eliminateWith eta position),
    entry_eliminateWith a eta position (i.isLt.trans_eq height.symm)]
  simp only [Fin.ext_iff]
  rfl

theorem inverseAfterExchange_eq (height : a.height = m) (width : a.width = m) {entering : Vec ℚ}
    (length : entering.length = m) {position : ℕ} (inside : position < m) :
    a.inverseAfterExchange entering position =
      (eliminationColumn (a.mulVec entering) position).map (a.eliminateWith · position) := by
  have row : position < a.height := inside.trans_eq height.symm
  have column : a.mulVec? entering = some (a.mulVec entering) := if_pos (length.trans width.symm)
  rw [inverseAfterExchange, require_of row, ok_bind, column, demand_some, ok_bind]
  cases computed : eliminationColumn (a.mulVec entering) position with
  | error fault => rfl
  | ok eta =>
      have lengthEta := (BasisInverse.length_of_eliminationColumn computed).trans (length_mulVec _ _)
      rw [ok_bind, eliminateWith?_eq row lengthEta]
      rfl

theorem exchange_productForm_eq (height : a.height = m) (width : a.width = m) {entering : Vec ℚ}
    (length : entering.length = m) {position : ℕ} (inside : position < m) :
    (BasisInverse.productForm a).exchange position entering (a.mulVec entering) =
      (a.inverseAfterExchange entering position).map BasisInverse.productForm := by
  have row : position < a.height := inside.trans_eq height.symm
  rw [inverseAfterExchange_eq height width length inside, BasisInverse.exchange]
  cases computed : eliminationColumn (a.mulVec entering) position with
  | error fault => rfl
  | ok eta =>
      have lengthEta := (BasisInverse.length_of_eliminationColumn computed).trans (length_mulVec _ _)
      rw [ok_bind, eliminateWith?_eq row lengthEta]
      rfl

section Replacement

variable {entering : Vec ℚ} {position : ℕ}

theorem inverseAfterExchange_of_le (height : a.height = m) (width : a.width = m)
    (length : entering.length = m) (inside : position < m)
    (small : |(a.mulVec entering).getD position 0| ≤ Scalar.pivotTolerance) :
    a.inverseAfterExchange entering position = .error (.failed .singularMatrix) := by
  have row : position < (a.mulVec entering).length :=
    inside.trans_eq ((length_mulVec a entering).trans height).symm
  rw [inverseAfterExchange_eq height width length inside, eliminationColumn_eq row, if_pos small]
  rfl

theorem inverseAfterExchange_of_lt (height : a.height = m) (width : a.width = m)
    (length : entering.length = m) (inside : position < m)
    (large : Scalar.pivotTolerance < |(a.mulVec entering).getD position 0|) :
    ∃ eta, eta.length = m ∧
      (∀ i < m, eta.getD i 0 = if i = position then 1 / (a.mulVec entering).getD position 0
        else -((a.mulVec entering).getD i 0 / (a.mulVec entering).getD position 0)) ∧
      a.inverseAfterExchange entering position = .ok (a.eliminateWith eta position) := by
  have lengthColumn : (a.mulVec entering).length = m := (length_mulVec a entering).trans height
  have row : position < (a.mulVec entering).length := inside.trans_eq lengthColumn.symm
  obtain ⟨eta, eliminated⟩ :
      ∃ eta, eliminationColumn (a.mulVec entering) position = .ok eta :=
    ⟨_, (eliminationColumn_eq row).trans (if_neg large.not_ge)⟩
  obtain ⟨-, lengthEta, scaled, added⟩ := (eliminationColumn_yields row).of_eq_ok eliminated
  refine ⟨eta, lengthEta.trans lengthColumn, fun i _ => ?_, ?_⟩
  · split
    · rename_i here
      rw [here, scaled]
    · rename_i other
      exact added i other
  · rw [inverseAfterExchange_eq height width length inside, eliminated]
    rfl

theorem Inverses.isUnit_withColumn_iff (inverses : Inverses m N B) (length : entering.length = m)
    (inside : position < m) :
    IsUnit ((B.withColumn position entering).toMatrix m m) ↔
      (N.mulVec entering).getD position 0 ≠ 0 := by
  obtain ⟨height, width, heightB, widthB, product⟩ := inverses_iff.1 inverses
  have replaced : (B.withColumn position entering).toMatrix m m =
      (B.toMatrix m m).updateCol ⟨position, inside⟩ (toFun entering m) :=
    toMatrix_withColumn heightB widthB length ⟨position, inside⟩
  rw [replaced, isUnit_updateCol_iff product, ← toFun_mulVec height width length]
  rfl

theorem Inverses.of_inverseAfterExchange (inverses : Inverses m N B)
    (length : entering.length = m) (inside : position < m) {inverse : RowMatrix ℚ}
    (updated : N.inverseAfterExchange entering position = .ok inverse) :
    Inverses m inverse (B.withColumn position entering) := by
  obtain ⟨height, width, heightB, widthB, product⟩ := inverses_iff.1 inverses
  have inverts : (BasisInverse.productForm N).Inverts (B.toMatrix m m) :=
    ⟨height, width, product, nofun⟩
  have exchanged := inverts.exchange_yields ⟨position, inside⟩ length
    ((length_mulVec N entering).trans height) (toFun_mulVec height width length)
  rw [exchange_productForm_eq height width length inside, updated,
    ← toMatrix_withColumn heightB widthB length ⟨position, inside⟩] at exchanged
  have lengths : entering.length = B.height := length.trans heightB.symm
  exact inverses_iff.2 ⟨exchanged.height, exchanged.width,
    (height_withColumn B position lengths).trans heightB, widthB, exchanged.mul_eq_one⟩

end Replacement

/-- The inverse of a matrix becomes that of the matrix with a column replaced by a product with an
elementary matrix, unless the entry to divide by is too small, which it is for every singular
replacement.  The exchange of a maintained inverse leaves the same, also when it is made in place. -/
theorem inverseAfterExchange_inverts (inverses : Inverses m N B) {entering : Vec ℚ}
    (length : entering.length = m) {position : ℕ} (inside : position < m) :
    let column := N.mulVec entering
    let pivot := column.getD position 0
    let replaced := B.withColumn position entering
    let updated := N.inverseAfterExchange entering position
    (updated = .error (.failed .singularMatrix) ↔ |pivot| ≤ Scalar.pivotTolerance) ∧
    (¬IsUnit (replaced.toMatrix m m) → updated = .error (.failed .singularMatrix)) ∧
    (Scalar.pivotTolerance < |pivot| → ∃ eta inverse, eta.length = m ∧
      (∀ i < m, eta.getD i 0 = if i = position then 1 / pivot else -(column.getD i 0 / pivot)) ∧
      updated = .ok inverse ∧ Inverses m inverse replaced ∧
      ((identity m).withColumn position eta).mul? N = some inverse) ∧
    (BasisInverse.productForm N).exchange position entering column =
      updated.map BasisInverse.productForm ∧
    BasisInverse.overwrite position entering column (.productForm N) =
      Update.commit (updated.map BasisInverse.productForm) (.productForm N) := by
  intro column pivot replaced updated
  obtain ⟨height, width, -⟩ := inverses_iff.1 inverses
  have singular (small : |pivot| ≤ Scalar.pivotTolerance) :
      updated = .error (.failed .singularMatrix) :=
    inverseAfterExchange_of_le height width length inside small
  have regular (large : Scalar.pivotTolerance < |pivot|) :=
    inverseAfterExchange_of_lt height width length inside large
  have exchanged : (BasisInverse.productForm N).exchange position entering column =
      updated.map BasisInverse.productForm := exchange_productForm_eq height width length inside
  have shaped : (BasisInverse.productForm N).Shaped m := ⟨height, width, nofun⟩
  have overwritten := shaped.overwrite_eq inside length ((length_mulVec N entering).trans height)
  rw [exchanged] at overwritten
  refine ⟨⟨fun failed => not_lt.1 fun large => ?_, singular⟩, fun irregular => singular ?_,
    fun large => ?_, exchanged, overwritten⟩
  · obtain ⟨eta, -, -, succeeded⟩ := regular large
    cases failed.symm.trans succeeded
  · have zero : pivot = 0 :=
      not_not.1 fun nonzero => irregular ((inverses.isUnit_withColumn_iff length inside).2 nonzero)
    rw [zero, abs_zero]
    exact Scalar.pivotTolerance_pos.le
  · obtain ⟨eta, lengthEta, entries, succeeded⟩ := regular large
    exact ⟨eta, _, lengthEta, entries, succeeded,
      inverses.of_inverseAfterExchange length inside succeeded,
      eliminateWith_eq_mul height width lengthEta ⟨position, inside⟩⟩

def leaning : RowMatrix ℚ := ⟨[[2, 1], [1, 1]], 2, by decide⟩

def upright : RowMatrix ℚ := ⟨[[1, -1], [-1, 2]], 2, by decide⟩

theorem inverseAfterExchange_inverts_leaning :
    (∃ inverse, upright.inverseAfterExchange [1, 3] 0 = .ok inverse ∧
      Inverses 2 inverse (leaning.withColumn 0 [1, 3])) ∧
    upright.inverseAfterExchange [1, 1] 0 = .error (.failed .singularMatrix) := by
  have inverses : Inverses 2 upright leaning := ⟨by decide +kernel, by decide +kernel⟩
  obtain ⟨-, -, regular, -⟩ :=
    @inverseAfterExchange_inverts 2 upright leaning inverses [1, 3] rfl 0 (by decide)
  obtain ⟨-, singular, -⟩ :=
    @inverseAfterExchange_inverts 2 upright leaning inverses [1, 1] rfl 0 (by decide)
  obtain ⟨_, inverse, -, -, updated, inverts, -⟩ := regular (by decide +kernel)
  refine ⟨⟨inverse, updated, inverts⟩, singular ?_⟩
  rw [isUnit_iff_isUnit_det, det_fin_two, isUnit_iff_ne_zero]
  decide +kernel

end RowMatrix

end SimplexMethod
