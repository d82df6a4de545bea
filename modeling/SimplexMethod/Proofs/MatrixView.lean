import SimplexMethod.Proofs.Exact
import SimplexMethod.Proofs.Shapes

namespace SimplexMethod.RowMatrix
open Matrix Vec

def toMatrix (a : RowMatrix ℚ) (m n : ℕ) : Matrix (Fin m) (Fin n) ℚ :=
  Matrix.of fun i j => a.entry i j

theorem toMatrix_apply (a : RowMatrix ℚ) {m n : ℕ} (i : Fin m) (j : Fin n) :
    a.toMatrix m n i j = a.entry i j := rfl

theorem entry_of_height_le {a : RowMatrix ℚ} {i : ℕ} (outside : a.height ≤ i) (j : ℕ) :
    a.entry i j = 0 := by
  have absent : a.rows[i]? = none := List.getElem?_eq_none outside
  have zero : a.row i = Vec.zeros a.width := by simp [RowMatrix.row, absent]
  rw [entry, zero, getD_zeros]

theorem entry_identity {n i j : ℕ} (row : i < n) (column : j < n) :
    (identity n : RowMatrix ℚ).entry i j = if i = j then 1 else 0 := by
  simp [entry, RowMatrix.row, identity, row, column]

theorem toMatrix_identity (n : ℕ) : (identity n : RowMatrix ℚ).toMatrix n n = 1 := by
  ext i j
  rw [toMatrix_apply, entry_identity i.isLt j.isLt, Matrix.one_apply]
  simp [Fin.ext_iff]

theorem entry_scaleRow (a : RowMatrix ℚ) (i : ℕ) (factor : ℚ) (k j : ℕ) :
    (a.scaleRow i factor).entry k j =
      if k = i then a.entry k j * factor else a.entry k j := by
  rcases lt_or_ge k a.height with inside | outside
  · have scaled : (a.scaleRow i factor).row k =
        if k = i then scale (a.row k) factor else a.row k := by
      apply row_eq_of_getElem?
      simp only [scaleRow, List.getElem?_modify, getElem?_rows inside]
      grind
    rw [entry, scaled]
    split
    · exact getD_scale _ _ _
    · rfl
  · rw [entry_of_height_le outside, entry_of_height_le (by simpa using outside)]
    simp

theorem entry_addRowMultiples (a : RowMatrix ℚ) (source : ℕ) (factors : Vec ℚ) {k : ℕ}
    (inside : k < a.height) (j : ℕ) :
    (a.addRowMultiples source factors).entry k j =
      if k = source then a.entry k j
      else a.entry k j + factors.getD k 0 * a.entry source j := by
  have added : (a.addRowMultiples source factors).row k =
      if k = source || factors.getD k 0 == 0 then a.row k
      else addScaled (a.row k) (factors.getD k 0) (a.row source) := by
    apply row_eq_of_getElem?
    simp only [addRowMultiples, List.getElem?_mapIdx, getElem?_rows inside, Option.map_some]
  have lengths : List.length (a.row k) = List.length (a.row source) := by simp only [length_row]
  rw [entry, added]
  generalize factors.getD k 0 = factor
  by_cases same : k = source
  · simp [same, entry]
  · by_cases zero : factor = 0
    · simp [zero, same, entry]
    · rw [if_neg (by simp [same, zero]), if_neg same, getD_addScaled lengths]
      rfl

theorem entry_swapRows (a : RowMatrix ℚ) {i j : ℕ} (first : i < a.height)
    (second : j < a.height) (k c : ℕ) :
    (a.swapRows i j).entry k c = a.entry (Equiv.swap i j k) c := by
  rcases lt_or_ge k a.height with inside | outside
  · have swapped : (a.swapRows i j).row k = a.row (Equiv.swap i j k) := by
      apply row_eq_of_getElem?
      simp only [swapRows, List.getElem?_modify, getElem?_rows inside, Equiv.swap_apply_def]
      grind
    rw [entry, swapped, entry]
  · have left : k ≠ i := by omega
    have right : k ≠ j := by omega
    rw [Equiv.swap_apply_of_ne_of_ne left right, entry_of_height_le outside,
      entry_of_height_le (by simpa using outside)]

theorem getD_column (a : RowMatrix ℚ) (i j : ℕ) : (a.column j).getD i 0 = a.entry i j := by
  rcases lt_or_ge i a.height with inside | outside
  · simp [column, entry, getElem?_rows inside]
  · rw [entry_of_height_le outside, getD_of_le (by simpa using outside)]

theorem toFun_column (a : RowMatrix ℚ) {m n : ℕ} (j : Fin n) :
    toFun (a.column j) m = (a.toMatrix m n).col j := by
  funext i
  exact getD_column a i j

theorem entry_columnsAt (a : RowMatrix ℚ) (positions : List ℕ) {k : ℕ}
    (inside : k < positions.length) (i : ℕ) :
    (a.columnsAt positions).entry i k = a.entry i positions[k] := by
  rw [← getD_column a, ← getD_column]
  simp only [column, columnsAt, List.map_map, Function.comp_def, List.getD_eq_getElem?_getD,
    List.getElem?_map]
  cases a.rows[i]? <;> simp [inside]

theorem entry_withColumn (a : RowMatrix ℚ) {j : ℕ} {values : Vec ℚ} (column : j < a.width)
    (length : values.length = a.height) (i k : ℕ) :
    (a.withColumn j values).entry i k = if k = j then values.getD i 0 else a.entry i k := by
  rcases lt_or_ge i a.height with inside | outside
  · have inValues : i < values.length := length ▸ inside
    have changed : (a.withColumn j values).row i = (a.row i).set j (values.getD i 0) := by
      apply row_eq_of_getElem?
      simp [withColumn, List.getElem?_zipWith, getElem?_rows inside, inValues]
    rw [entry, changed, getD_set, length_row, entry]
    grind
  · rw [entry_of_height_le outside, getD_of_le (length.trans_le outside),
      entry_of_height_le ((height_withColumn a j length).trans_le outside)]
    simp

theorem toMatrix_withColumn {a : RowMatrix ℚ} {m : ℕ} (height : a.height = m) (width : a.width = m)
    {values : Vec ℚ} (length : values.length = m) (position : Fin m) :
    (a.withColumn position values).toMatrix m m =
      (a.toMatrix m m).updateCol position (toFun values m) := by
  ext i k
  rw [toMatrix_apply, entry_withColumn a (position.isLt.trans_eq width.symm)
    (length.trans height.symm), updateCol_apply]
  simp only [Fin.ext_iff]
  rfl

theorem entry_beside (a b : RowMatrix ℚ) {i : ℕ} (first : i < a.height) (second : i < b.height)
    (j : ℕ) : (a.beside b).entry i j =
      if j < a.width then a.entry i j else b.entry i (j - a.width) := by
  have joined : (a.beside b).row i = a.row i ++ b.row i := by
    apply row_eq_of_getElem?
    simp [beside, List.getElem?_zipWith, getElem?_rows first, getElem?_rows second]
  have length := length_row a i
  simp only [entry, joined, List.getD_eq_getElem?_getD, List.getElem?_append, length]
  split <;> rfl

theorem toFun_mulVec {a : RowMatrix ℚ} {x : Vec ℚ} {m n : ℕ} (height : a.height = m)
    (width : a.width = n) (length : x.length = n) :
    toFun (a.mulVec x) m = a.toMatrix m n *ᵥ toFun x n := by
  funext i
  have inside : (i : ℕ) < a.height := height ▸ i.isLt
  have entry : (a.mulVec x).getD i 0 = dot (a.row i) x := by
    simp [mulVec, getElem?_rows inside]
  rw [toFun_apply, entry, dot_eq ((length_row a i).trans width) length]
  rfl

theorem toMatrix_mul {a b : RowMatrix ℚ} {l m n : ℕ} (height : a.height = l) (width : a.width = m)
    (heightB : b.height = m) (widthB : b.width = n) :
    (a.mul b).toMatrix l n = a.toMatrix l m * b.toMatrix m n := by
  ext i j
  have inside : (i : ℕ) < a.height := i.isLt.trans_eq height.symm
  have below : (j : ℕ) < b.width := j.isLt.trans_eq widthB.symm
  have row : (a.mul b).row i = (List.range b.width).map fun j => dot (a.row i) (b.column j) := by
    apply row_eq_of_getElem?
    simp [mul, getElem?_rows inside]
  have entry : (a.mul b).entry i j = dot (a.row i) (b.column j) := by
    simp [entry, row, below]
  rw [toMatrix_apply, entry,
    dot_eq ((length_row a i).trans width) ((length_column b j).trans heightB), toFun_column]
  rfl

theorem vecMul_foldl {n : ℕ} (weighted : List (Vec ℚ × ℚ)) (total : Vec ℚ)
    (fits : ∀ entry ∈ weighted, entry.1.length = n) (length : total.length = n) :
    let result := weighted.foldl
      (fun total weighted =>
        if weighted.2 == 0 then total else addScaled total weighted.2 weighted.1) total
    result.length = n ∧ ∀ j, result.getD j 0 =
      total.getD j 0 + (weighted.map fun entry => entry.2 * entry.1.getD j 0).sum := by
  induction weighted generalizing total with
  | nil => simp [length]
  | cons first rest ih =>
      have fitsFirst := fits first (by simp)
      have fitsRest : ∀ entry ∈ rest, entry.1.length = n :=
        fun entry member => fits entry (by simp [member])
      rw [List.foldl_cons]
      by_cases zero : first.2 = 0
      · obtain ⟨lengthRest, entries⟩ := ih total fitsRest length
        rw [if_pos (by simpa using zero)]
        refine ⟨lengthRest, fun j => ?_⟩
        rw [entries j]
        simp [zero]
      · have longer : (addScaled total first.2 first.1).length = n := by
          simp [addScaled, length, fitsFirst]
        obtain ⟨lengthRest, entries⟩ := ih _ fitsRest longer
        rw [if_neg (by simpa using zero)]
        refine ⟨lengthRest, fun j => ?_⟩
        rw [entries j, getD_addScaled (length.trans fitsFirst.symm)]
        simp [add_assoc]

theorem toFun_vecMul {a : RowMatrix ℚ} {y : Vec ℚ} {m : ℕ} (height : a.height = m)
    (length : y.length = m) (n : ℕ) :
    toFun (vecMul y a) n = toFun y m ᵥ* a.toMatrix m n := by
  funext j
  have entries := (vecMul_foldl (n := a.width) (a.rows.zip y) (Vec.zeros a.width)
    (fun entry member => a.rectangular _ (List.of_mem_zip member).1) (by simp)).2 j
  rw [toFun_apply, vecMul, entries, getD_zeros, zero_add]
  have terms : (a.rows.zip y).map (fun entry => entry.2 * entry.1.getD j 0) =
      List.ofFn fun i : Fin m => toFun y m i * a.toMatrix m n i j := by
    apply List.ext_getElem
    · simp only [RowMatrix.height] at height
      simp [height, length]
    · intro i inLeft inRight
      simp only [List.length_map, List.length_zip] at inLeft
      have inRows : i < a.rows.length := by omega
      have inFactors : i < y.length := by omega
      simp [toFun, toMatrix_apply, entry, row_eq_getElem a inRows, inFactors]
  rw [terms, List.sum_ofFn]
  rfl

end SimplexMethod.RowMatrix
