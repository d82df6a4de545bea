import SimplexMethod.Proofs.InPlace

namespace SimplexMethod

open Outcome

variable {α : Type} [Scalar α]

namespace RowMatrix

theorem entry?_eq {a : RowMatrix α} {i j : ℕ} (row : i < a.height) (column : j < a.width) :
    a.entry? i j = some (a.entry i j) := if_pos ⟨row, column⟩

def columnsAtChecked (a : RowMatrix α) (positions : List ℕ) : Outcome α (RowMatrix α) := do
  require (∀ j ∈ positions, j < a.width)
  let rows ← a.rows.mapM fun row => positions.mapM fun j => demand row[j]?
  demand (ofRows? rows positions.length)

theorem columnsAtChecked_eq (a : RowMatrix α) (positions : List ℕ) :
    a.columnsAtChecked positions = demand (a.columnsAt? positions) := by
  unfold columnsAtChecked columnsAt?
  by_cases below : ∀ j ∈ positions, j < a.width
  · rw [require_of below, ok_bind, if_pos below, mapM_eq_ok fun row member =>
      mapM_getElem?_eq_ok 0 fun j inside => (below j inside).trans_eq (a.rectangular row member).symm]
    rw [ok_bind, ofRows?, dif_pos (by simp)]
    rfl
  · rw [require, if_neg below, if_neg below]
    rfl

def mulVecChecked (a : RowMatrix α) (x : Vec α) : Outcome α (Vec α) := do
  require (x.length = a.width)
  a.rows.mapM fun row => demand (Vec.dot? row x)

theorem mulVecChecked_eq (a : RowMatrix α) (x : Vec α) :
    a.mulVecChecked x = demand (a.mulVec? x) := by
  unfold mulVecChecked mulVec?
  by_cases fits : x.length = a.width
  · rw [require_of fits, ok_bind, if_pos fits]
    apply mapM_eq_ok
    intro row member
    rw [Vec.dot?, if_pos ((a.rectangular row member).trans fits.symm)]
    rfl
  · rw [require, if_neg fits, if_neg fits]
    rfl

def vecMulChecked (y : Vec α) (a : RowMatrix α) : Outcome α (Vec α) := do
  require (y.length = a.height)
  (a.rows.zip y).foldlM
    (fun total weighted =>
      if weighted.2 == 0 then return total
      else demand (Vec.addScaled? total weighted.2 weighted.1))
    (Vec.zeros a.width)

theorem vecMulChecked_eq (y : Vec α) (a : RowMatrix α) :
    vecMulChecked y a = demand (vecMul? y a) := by
  unfold vecMulChecked vecMul?
  by_cases fits : y.length = a.height
  · rw [require_of fits, ok_bind, if_pos fits]
    apply foldlM_eq_ok fun total : Vec α => total.length = a.width
    · exact List.length_replicate
    · intro weighted member total length
      have width := a.rectangular _ (List.of_mem_zip member).1
      split
      · exact ⟨rfl, length⟩
      · rw [Vec.addScaled?, if_pos (length.trans width.symm)]
        exact ⟨rfl, by simp [Vec.addScaled, length, width]⟩
  · rw [require, if_neg fits, if_neg fits]
    rfl

def pivotRowChecked (a : RowMatrix α) (column : ℕ) : Outcome α ℕ :=
  (List.range' (column + 1) (a.height - (column + 1))).foldlM
    (fun best i => do
      let magnitude := Scalar.abs (← demand (a.entry? i column))
      let largest := Scalar.abs (← demand (a.entry? best column))
      return if largest < magnitude then i else best)
    column

theorem pivotRowChecked_eq {a : RowMatrix α} {column : ℕ} (row : column < a.height)
    (inside : column < a.width) : a.pivotRowChecked column = .ok (a.pivotRow column) := by
  apply foldlM_eq_ok (fun best => best < a.height) row
  intro i member best below
  have range := List.mem_range'_1.1 member
  have above : i < a.height := by omega
  rw [entry?_eq above inside, demand_some, ok_bind, entry?_eq below inside, demand_some, ok_bind]
  refine ⟨rfl, ?_⟩
  split
  · exact above
  · exact below

namespace Elimination

def clearRowChecked (column : ℕ) (state : Elimination α) (i : ℕ) : Outcome α (Elimination α) := do
  let factor := -(← demand (state.work.entry? i column))
  if i = column || factor == 0 then return state
  else
    let work ← demand (state.work.addRowMultiple? column i factor)
    let inverse ← demand (state.inverse.addRowMultiple? column i factor)
    return ⟨work, inverse⟩

def clearColumnChecked (threshold : α) (state : Elimination α) (column : ℕ) :
    Outcome α (Elimination α) := do
  let pivot ← state.work.pivotRowChecked column
  let value ← demand (state.work.entry? pivot column)
  if Scalar.abs value ≤ threshold then fail .singularMatrix
  else
    let work ← demand (state.work.swapRows? column pivot)
    let inverse ← demand (state.inverse.swapRows? column pivot)
    let work ← demand (work.scaleRow? column (1 / value))
    let inverse ← demand (inverse.scaleRow? column (1 / value))
    (List.range work.height).foldlM (clearRowChecked column) ⟨work, inverse⟩

structure Square (state : Elimination α) (size : ℕ) : Prop where
  work_height : state.work.height = size
  work_width : state.work.width = size
  inverse_height : state.inverse.height = size

variable {state : Elimination α} {threshold : α} {column size : ℕ}

theorem Square.clearColumn_yields (square : state.Square size) (column : ℕ) :
    (clearColumn threshold state column).Yields (Square · size) (· = .failed .singularMatrix) := by
  unfold clearColumn
  simp only
  split
  · rfl
  · exact ⟨by simpa using square.work_height, square.work_width,
      by simpa using square.inverse_height⟩

theorem Square.clearRowChecked_eq (square : state.Square size) {i : ℕ} (row : column < size)
    (below : i < size) {factors : Vec α}
    (factor : factors.getD i 0 = -state.work.entry i column) :
    clearRowChecked column state i = .ok ⟨withRowEliminated factors column state.work i,
      withRowEliminated factors column state.inverse i⟩ := by
  obtain ⟨workHeight, workWidth, inverseHeight⟩ := square
  unfold clearRowChecked withRowEliminated
  rw [entry?_eq (below.trans_eq workHeight.symm) (row.trans_eq workWidth.symm), demand_some,
    ok_bind, factor]
  by_cases kept : (decide (i = column) || -state.work.entry i column == 0) = true
  · simp only [if_pos kept]
    rfl
  · have other : column ≠ i := by
      rintro rfl
      simp at kept
    simp only [if_neg kept]
    rw [addRowMultiple?, if_pos ⟨row.trans_eq workHeight.symm, below.trans_eq workHeight.symm, other⟩,
      addRowMultiple?,
      if_pos ⟨row.trans_eq inverseHeight.symm, below.trans_eq inverseHeight.symm, other⟩]
    rfl

theorem Square.withRowsEliminated (square : state.Square size) (factors : Vec α) (column : ℕ)
    (count : ℕ) :
    Square ⟨(List.range count).foldl (withRowEliminated factors column) state.work,
      (List.range count).foldl (withRowEliminated factors column) state.inverse⟩ size := by
  have height (a : RowMatrix α) :
      ((List.range count).foldl (withRowEliminated factors column) a).height = a.height := by
    apply List.foldlRecOn (motive := fun b : RowMatrix α => b.height = a.height)
    · rfl
    · intro b same i _
      rw [height_withRowEliminated, same]
  exact ⟨(height _).trans square.work_height,
    (foldl_withRowEliminated state.work factors column count).1.trans square.work_width,
    (height _).trans square.inverse_height⟩

theorem Square.clearRowsChecked_eq (square : state.Square size) (row : column < size)
    {factors : Vec α} (factor : ∀ i < size, factors.getD i 0 = -state.work.entry i column)
    {count : ℕ} (bound : count ≤ size) :
    (List.range count).foldlM (clearRowChecked column) state =
      .ok ⟨(List.range count).foldl (withRowEliminated factors column) state.work,
        (List.range count).foldl (withRowEliminated factors column) state.inverse⟩ := by
  induction count with
  | zero => rfl
  | succ count ih =>
      have below : count < size := bound
      obtain ⟨width, rows⟩ := foldl_withRowEliminated state.work factors column count
      -- no row changes before it is cleared, so its factor is the one from before
      have unchanged : ((List.range count).foldl (withRowEliminated factors column)
          state.work).row count = state.work.row count := by
        simp [RowMatrix.row, rows, width]
      rw [List.range_succ, List.foldlM_append, ih below.le, ok_bind, List.foldlM_cons,
        (square.withRowsEliminated factors column count).clearRowChecked_eq row below
          (by rw [factor count below, entry, entry, unchanged])]
      simp only [List.foldl_append, List.foldl_cons, List.foldl_nil]
      rfl

theorem Square.clearAllRowsChecked_eq (square : state.Square size) (row : column < size) :
    let factors := (state.work.column column).map fun factor => -factor
    (List.range state.work.height).foldlM (clearRowChecked column) state =
      .ok ⟨state.work.addRowMultiples column factors,
        state.inverse.addRowMultiples column factors⟩ := by
  intro factors
  have factor (i : ℕ) (below : i < size) : factors.getD i 0 = -state.work.entry i column := by
    have present := getElem?_rows (below.trans_eq square.work_height.symm)
    simp [factors, RowMatrix.column, entry, present]
  have heights : state.inverse.height = state.work.height :=
    square.inverse_height.trans square.work_height.symm
  rw [square.clearRowsChecked_eq row factor square.work_height.le, foldl_withRowEliminated_eq,
    ← heights, foldl_withRowEliminated_eq]

theorem Square.clearColumnChecked_eq (square : state.Square size) (row : column < size) :
    clearColumnChecked threshold state column = clearColumn threshold state column := by
  obtain ⟨workHeight, workWidth, inverseHeight⟩ := square
  have inside : column < state.work.height := row.trans_eq workHeight.symm
  have besides : column < state.inverse.height := row.trans_eq inverseHeight.symm
  have below : column < state.work.width := row.trans_eq workWidth.symm
  obtain ⟨-, high⟩ := pivotRow_mem state.work inside
  have highBesides : state.work.pivotRow column < state.inverse.height := by
    rwa [inverseHeight, ← workHeight]
  unfold clearColumnChecked clearColumn
  rw [pivotRowChecked_eq inside below, ok_bind, entry?_eq high below, demand_some, ok_bind]
  simp only
  split
  · rfl
  · rw [swapRows?, if_pos ⟨inside, high⟩, demand_some, ok_bind, swapRows?,
      if_pos ⟨besides, highBesides⟩, demand_some, ok_bind, scaleRow?, if_pos (by simpa using inside),
      demand_some, ok_bind, scaleRow?, if_pos (by simpa using besides), demand_some, ok_bind]
    apply Square.clearAllRowsChecked_eq _ row
    exact ⟨by simpa using workHeight, workWidth, by simpa using inverseHeight⟩

end Elimination

def invertChecked (a : RowMatrix α) : Outcome α (RowMatrix α) := do
  require (a.height = a.width)
  let last ← (List.range a.height).foldlM (Elimination.clearColumnChecked a.pivotThreshold)
    ⟨a, identity a.height⟩
  return last.inverse

theorem invertChecked_eq (a : RowMatrix α) : a.invertChecked = a.invert := by
  unfold invertChecked invert
  by_cases square : a.height = a.width
  · rw [require_of square, ok_bind, ok_bind]
    congr 1
    apply foldlM_congr (Elimination.Square · a.height)
    · exact ⟨rfl, square.symm, height_identity _⟩
    · intro column member state kept
      have row := List.mem_range.1 member
      exact ⟨kept.clearColumnChecked_eq row, (kept.clearColumn_yields column).mono_fault
        fun _ _ => trivial⟩
  · rw [require, if_neg square]
    rfl

end RowMatrix

end SimplexMethod
