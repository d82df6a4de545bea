import SimplexMethod.BasisInverse
import SimplexMethod.Proofs.Yields

namespace SimplexMethod

variable {α : Type} [Scalar α]

namespace RowMatrix

omit [Scalar α] in
theorem eq_of_rows_eq {a b : RowMatrix α} (rows : a.rows = b.rows) (width : a.width = b.width) :
    a = b := by
  cases a
  cases b
  cases rows
  cases width
  rfl

theorem row_eq_of_getElem? {a : RowMatrix α} {i : ℕ} {row : Vec α}
    (present : a.rows[i]? = some row) : a.row i = row := by
  simp [RowMatrix.row, present]

theorem row_eq_getElem (a : RowMatrix α) {i : ℕ} (inside : i < a.rows.length) :
    a.row i = a.rows[i] :=
  row_eq_of_getElem? (List.getElem?_eq_getElem inside)

theorem getElem?_rows {a : RowMatrix α} {i : ℕ} (inside : i < a.height) :
    a.rows[i]? = some (a.row i) := by
  have present : i < a.rows.length := inside
  rw [List.getElem?_eq_getElem present, row_eq_getElem a present]

@[simp] theorem length_column (a : RowMatrix α) (j : ℕ) : (a.column j).length = a.height := by
  simp [column, height]

@[simp] theorem length_mulVec (a : RowMatrix α) (x : Vec α) :
    (a.mulVec x).length = a.height := by
  simp [mulVec, height]

@[simp] theorem height_mul (a b : RowMatrix α) : (a.mul b).height = a.height := by
  simp [mul, height]

theorem length_vecMul {a : RowMatrix α} (y : Vec α) : (vecMul y a).length = a.width := by
  apply List.foldlRecOn (motive := fun total : Vec α => total.length = a.width)
  · exact List.length_replicate
  · intro total length weighted member
    have fits := a.rectangular _ (List.of_mem_zip member).1
    split
    · exact length
    · simp [Vec.addScaled, length, fits]

@[simp] theorem width_identity (n : ℕ) : (identity n : RowMatrix α).width = n := rfl

@[simp] theorem height_identity (n : ℕ) : (identity n : RowMatrix α).height = n := by
  simp [identity, height]

@[simp] theorem height_scaleRow (a : RowMatrix α) (i : ℕ) (factor : α) :
    (a.scaleRow i factor).height = a.height := by simp [height, scaleRow]

@[simp] theorem height_addRowMultiples (a : RowMatrix α) (source : ℕ) (factors : Vec α) :
    (a.addRowMultiples source factors).height = a.height := by simp [height, addRowMultiples]

@[simp] theorem height_swapRows (a : RowMatrix α) (i j : ℕ) :
    (a.swapRows i j).height = a.height := by simp [height, swapRows]

theorem eliminateWith?_eq {a : RowMatrix α} {eta : Vec α} {position : ℕ}
    (inside : position < a.height) (length : eta.length = a.height) :
    a.eliminateWith? eta position = some (a.eliminateWith eta position) :=
  if_pos ⟨inside, length.ge⟩

@[simp] theorem height_eliminateWith (a : RowMatrix α) (eta : Vec α) (position : ℕ) :
    (a.eliminateWith eta position).height = a.height := by simp [eliminateWith]

omit [Scalar α] in
theorem height_withColumn (a : RowMatrix α) (j : ℕ) {values : Vec α}
    (length : values.length = a.height) : (a.withColumn j values).height = a.height := by
  simp only [height] at length
  simp [height, withColumn, length]

theorem pivotRow_mem (a : RowMatrix α) {column : ℕ} (inside : column < a.height) :
    column ≤ a.pivotRow column ∧ a.pivotRow column < a.height := by
  unfold pivotRow
  apply List.foldlRecOn (motive := fun best => column ≤ best ∧ best < a.height)
  · exact ⟨le_rfl, inside⟩
  · intro best bounds i member
    have range := List.mem_range'_1.1 member
    split
    · omega
    · exact bounds

theorem clearColumn_yields_shape {threshold : α} {state : Elimination α} {column size : ℕ}
    (shape : state.inverse.height = size ∧ state.inverse.width = size) :
    (Elimination.clearColumn threshold state column).Yields
      (fun next => next.inverse.height = size ∧ next.inverse.width = size)
      (· = .failed .singularMatrix) := by
  unfold Elimination.clearColumn
  simp only
  split
  · rfl
  · exact ⟨by simpa using shape.1, shape.2⟩

theorem invert_yields_shape {a : RowMatrix α} (square : a.height = a.width) :
    a.invert.Yields (fun inverse => inverse.height = a.height ∧ inverse.width = a.height)
      (· = .failed .singularMatrix) := by
  unfold invert
  rw [Outcome.require_of square, Outcome.ok_bind]
  refine Outcome.Yields.bind (@Outcome.Yields.foldlM_range α _ _
    (fun _ state => state.inverse.height = a.height ∧ state.inverse.width = a.height) _ _ _
    ⟨by simp, rfl⟩ fun column _ state shape => clearColumn_yields_shape shape) ?_
  exact fun last shape => shape

end RowMatrix

namespace BasisInverse

open Outcome

def upkeep : BasisInverse α → Upkeep
  | productForm _ => .productForm
  | reinversion _ _ => .reinversion

structure Shaped (b : BasisInverse α) (size : ℕ) : Prop where
  height : b.inverse.height = size
  width : b.inverse.width = size
  stored : ∀ basisMatrix left, b = .reinversion basisMatrix left →
    basisMatrix.height = size ∧ basisMatrix.width = size

variable {b next : BasisInverse α} {size position : ℕ} {entering column : Vec α}

theorem identity_shaped (upkeep : Upkeep) (size : ℕ) :
    (identity upkeep size : BasisInverse α).Shaped size := by
  cases upkeep with
  | productForm => exact ⟨by simp [identity, inverse], rfl, nofun⟩
  | reinversion =>
      refine ⟨by simp [identity, inverse], rfl, ?_⟩
      rintro basisMatrix left same
      cases same
      exact ⟨by simp, rfl⟩

theorem upkeep_identity (upkeep : Upkeep) (size : ℕ) :
    (identity upkeep size : BasisInverse α).upkeep = upkeep := by
  cases upkeep <;> rfl

theorem reinversion_yields_shaped {a : RowMatrix α} (height : a.height = size)
    (width : a.width = size) :
    a.invert.Yields (fun left => (productForm left).Shaped size ∧ (reinversion a left).Shaped size)
      (· = .failed .singularMatrix) := by
  refine (RowMatrix.invert_yields_shape (height.trans width.symm)).mono_value ?_
  intro left given
  obtain ⟨leftHeight, leftWidth⟩ := given
  refine ⟨⟨leftHeight.trans height, leftWidth.trans height, nofun⟩,
    leftHeight.trans height, leftWidth.trans height, ?_⟩
  rintro basisMatrix left' same
  cases same
  exact ⟨height, width⟩

theorem ofBasis_yields_shaped {p : LinearProgram α} {basis : List ℕ} (upkeep : Upkeep)
    (length : basis.length = p.numEquations) (below : ∀ j ∈ basis, j < p.numVariables) :
    (ofBasis upkeep p basis).Yields (fun b => b.Shaped p.numEquations ∧ b.upkeep = upkeep)
      (· = .failed .singularMatrix) := by
  have selected : p.basisMatrix? basis = some (p.constraints.columnsAt basis) := if_pos below
  have height : (p.constraints.columnsAt basis).height = p.numEquations := List.length_map _
  rw [ofBasis, selected, demand_some, ok_bind]
  apply (reinversion_yields_shaped height length).bind
  intro left given
  obtain ⟨updated, inverted⟩ := given
  cases upkeep with
  | productForm =>
      have square : left.height = left.width := updated.height.trans updated.width.symm
      rw [ofInverse?, if_pos square]
      exact ⟨updated, rfl⟩
  | reinversion => exact ⟨inverted, rfl⟩

theorem length_of_eliminationColumn {eta : Vec α}
    (computed : eliminationColumn column position = .ok eta) : eta.length = column.length := by
  rw [eliminationColumn, bind_eq_ok_iff] at computed
  obtain ⟨pivot, -, computed⟩ := computed
  split at computed
  · cases computed
  · cases computed
    simp [Vec.scale]

theorem Shaped.exchange_yields (shaped : b.Shaped size) (inside : position < size)
    (lengthEntering : entering.length = size) (lengthColumn : column.length = size) :
    (b.exchange position entering column).Yields
      (fun next => next.Shaped size ∧ next.upkeep = b.upkeep) (· = .failed .singularMatrix) := by
  cases b with
  | productForm left =>
      have present : column[position]? = some column[position] :=
        List.getElem?_eq_getElem (inside.trans_eq lengthColumn.symm)
      rw [exchange]
      cases computed : eliminationColumn column position with
      | error fault =>
          rw [eliminationColumn, present, demand_some, ok_bind] at computed
          split at computed
          · cases computed
            rfl
          · cases computed
      | ok eta =>
          have height : left.height = size := shaped.height
          have length := (length_of_eliminationColumn computed).trans lengthColumn
          rw [ok_bind, RowMatrix.eliminateWith?_eq (inside.trans_eq height.symm)
            (length.trans height.symm), demand_some, ok_bind]
          exact ⟨⟨(RowMatrix.height_eliminateWith _ _ _).trans height, shaped.width, nofun⟩, rfl⟩
  | reinversion basisMatrix left =>
      obtain ⟨height, width⟩ := shaped.stored basisMatrix left rfl
      have length : entering.length = basisMatrix.height := lengthEntering.trans height.symm
      have fits : basisMatrix.withColumn? position entering =
          some (basisMatrix.withColumn position entering) :=
        if_pos ⟨inside.trans_eq width.symm, length⟩
      rw [exchange, fits, demand_some, ok_bind]
      have heightNew : (basisMatrix.withColumn position entering).height = size :=
        (RowMatrix.height_withColumn _ _ length).trans height
      apply (reinversion_yields_shaped heightNew width).bind
      intro left' given
      exact ⟨given.2, rfl⟩

end BasisInverse

end SimplexMethod
