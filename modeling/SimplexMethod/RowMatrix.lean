import SimplexMethod.Vec

/-!
# Matrices by rows

A matrix is the list of its rows, all of one width; the width is kept apart, so that a matrix
without rows still has columns.  As for vectors, the checked operations carry a question mark and
are `none` exactly when a position is out of range or two shapes do not fit.
-/

namespace SimplexMethod

structure RowMatrix (α : Type) where
  rows : List (Vec α)
  width : Nat
  rectangular : ∀ row ∈ rows, row.length = width
deriving DecidableEq

namespace RowMatrix

variable {α : Type} [Scalar α]

def height (a : RowMatrix α) : Nat := a.rows.length

/-! ## Construction -/

def ofRows? (rows : List (Vec α)) (width : Nat) : Option (RowMatrix α) :=
  if h : ∀ row ∈ rows, row.length = width then some ⟨rows, width, h⟩ else none

def ofData? (rows : List (Vec α)) : Option (RowMatrix α) :=
  ofRows? rows ((rows.head?.map List.length).getD 0)

def identity (size : Nat) : RowMatrix α where
  rows := (List.range size).map fun i => (List.range size).map fun j => if i = j then 1 else 0
  width := size
  rectangular := by simp

def zeros (height width : Nat) : RowMatrix α where
  rows := List.replicate height (Vec.zeros width)
  width := width
  rectangular := by simp [Vec.zeros]

/-! ## Entries, rows and columns -/

/-- The row in position `i`, a row of zeros past the last one. -/
def row (a : RowMatrix α) (i : Nat) : Vec α := a.rows.getD i (Vec.zeros a.width)

theorem length_row (a : RowMatrix α) (i : Nat) : (a.row i).length = a.width := by
  rw [row, List.getD_eq_getElem?_getD]
  cases present : a.rows[i]? with
  | none => simp [Vec.zeros]
  | some row => exact a.rectangular row (List.mem_of_getElem? present)

def entry (a : RowMatrix α) (i j : Nat) : α := (a.row i).getD j 0

def column (a : RowMatrix α) (j : Nat) : Vec α := a.rows.map fun row => row.getD j 0

def entry? (a : RowMatrix α) (i j : Nat) : Option α :=
  if i < a.height ∧ j < a.width then some (a.entry i j) else none

def row? (a : RowMatrix α) (i : Nat) : Option (Vec α) :=
  if i < a.height then some (a.row i) else none

def column? (a : RowMatrix α) (j : Nat) : Option (Vec α) :=
  if j < a.width then some (a.column j) else none

/-! ## Row operations -/

omit [Scalar α] in
theorem length_of_mem_modify {rows : List (Vec α)} {width i : Nat} {change : Vec α → Vec α}
    (rectangular : ∀ row ∈ rows, row.length = width)
    (keeps : ∀ row : Vec α, row.length = width → (change row).length = width) :
    ∀ row ∈ rows.modify i change, row.length = width := by
  intro row member
  obtain ⟨k, bound, rfl⟩ := List.mem_iff_getElem.1 member
  rw [List.getElem_modify]
  have fits := rectangular _ (List.getElem_mem (List.length_modify .. ▸ bound))
  split
  · exact keeps _ fits
  · exact fits

def scaleRow (a : RowMatrix α) (i : Nat) (factor : α) : RowMatrix α where
  rows := a.rows.modify i fun row => Vec.scale row factor
  width := a.width
  rectangular := length_of_mem_modify a.rectangular (by simp [Vec.scale])

def scaleRow? (a : RowMatrix α) (i : Nat) (factor : α) : Option (RowMatrix α) :=
  if i < a.height then some (a.scaleRow i factor) else none

def addRowMultiple (a : RowMatrix α) (source target : Nat) (factor : α) : RowMatrix α where
  rows := a.rows.modify target fun row => Vec.addScaled row factor (a.row source)
  width := a.width
  rectangular := length_of_mem_modify a.rectangular
    (by simp +contextual [Vec.addScaled, length_row])

def addRowMultiple? (a : RowMatrix α) (source target : Nat) (factor : α) :
    Option (RowMatrix α) :=
  if source < a.height ∧ target < a.height ∧ source ≠ target then
    some (a.addRowMultiple source target factor)
  else none

/-- Adds `factors[i]` times the source row to every other row `i` whose factor is not zero. -/
def addRowMultiples (a : RowMatrix α) (source : Nat) (factors : Vec α) : RowMatrix α where
  rows := a.rows.mapIdx fun i row =>
    if i = source || factors.getD i 0 == 0 then row
    else Vec.addScaled row (factors.getD i 0) (a.row source)
  width := a.width
  rectangular := by
    intro row member
    obtain ⟨i, bound, rfl⟩ := List.mem_mapIdx.1 member
    have fits := a.rectangular _ (List.getElem_mem bound)
    split
    · exact fits
    · simp [Vec.addScaled, length_row, fits]

def swapRows (a : RowMatrix α) (i j : Nat) : RowMatrix α where
  rows := (a.rows.modify i fun _ => a.row j).modify j fun _ => a.row i
  width := a.width
  rectangular := length_of_mem_modify
    (length_of_mem_modify a.rectangular fun _ _ => a.length_row j) fun _ _ => a.length_row i

def swapRows? (a : RowMatrix α) (i j : Nat) : Option (RowMatrix α) :=
  if i < a.height ∧ j < a.height then some (a.swapRows i j) else none

/-! ## Shape changes -/

def withColumn (a : RowMatrix α) (j : Nat) (values : Vec α) : RowMatrix α where
  rows := List.zipWith (fun row value => row.set j value) a.rows values
  width := a.width
  rectangular := by
    intro row member
    obtain ⟨i, hi⟩ := List.mem_iff_getElem?.1 member
    obtain ⟨row, value, present, -, rfl⟩ := List.getElem?_zipWith_eq_some.1 hi
    simpa using a.rectangular row (List.mem_of_getElem? present)

def withColumn? (a : RowMatrix α) (j : Nat) (values : Vec α) : Option (RowMatrix α) :=
  if j < a.width ∧ values.length = a.height then some (a.withColumn j values) else none

def dropRows (a : RowMatrix α) (positions : List Nat) : RowMatrix α where
  rows := Vec.dropPositions a.rows positions
  width := a.width
  rectangular := by
    intro row member
    simp only [Vec.dropPositions, List.mem_map, List.mem_filter] at member
    obtain ⟨⟨row, i⟩, ⟨inside, -⟩, rfl⟩ := member
    exact a.rectangular row (List.fst_mem_of_mem_zipIdx inside)

def dropRows? (a : RowMatrix α) (positions : List Nat) : Option (RowMatrix α) :=
  if Vec.IsSelection positions a.height then some (a.dropRows positions) else none

def beside (a b : RowMatrix α) : RowMatrix α where
  rows := List.zipWith (· ++ ·) a.rows b.rows
  width := a.width + b.width
  rectangular := by
    intro row member
    obtain ⟨i, hi⟩ := List.mem_iff_getElem?.1 member
    obtain ⟨left, right, inLeft, inRight, rfl⟩ := List.getElem?_zipWith_eq_some.1 hi
    simp [a.rectangular left (List.mem_of_getElem? inLeft),
      b.rectangular right (List.mem_of_getElem? inRight)]

def beside? (a b : RowMatrix α) : Option (RowMatrix α) :=
  if a.height = b.height then some (a.beside b) else none

def columnsAt (a : RowMatrix α) (positions : List Nat) : RowMatrix α where
  rows := a.rows.map fun row => positions.map fun j => row.getD j 0
  width := positions.length
  rectangular := by simp

def columnsAt? (a : RowMatrix α) (positions : List Nat) : Option (RowMatrix α) :=
  if ∀ j ∈ positions, j < a.width then some (a.columnsAt positions) else none

/-! ## Measures and comparison -/

def supNorm (a : RowMatrix α) : α := Vec.supNorm a.rows.flatten

instance : BEq (RowMatrix α) where
  beq a b := a.rows == b.rows && a.width == b.width

end RowMatrix

end SimplexMethod
