import SimplexMethod.Scalar

/-!
# Vectors

A vector is the list of its entries.  Each operation that needs operands of one length, or a
position in range, has a checked form with a question mark, which is `none` exactly when the
operands do not fit.
-/

namespace SimplexMethod

abbrev Vec (α : Type) := List α

namespace Vec

variable {α : Type} [Scalar α]

def zeros (length : Nat) : Vec α := List.replicate length 0

def sum (entries : Vec α) : α := entries.foldl (· + ·) Scalar.emptySum

def dot (x y : Vec α) : α := sum (List.zipWith (· * ·) x y)

def dot? (x y : Vec α) : Option α :=
  if x.length = y.length then some (dot x y) else none

def addScaled (x : Vec α) (factor : α) (y : Vec α) : Vec α :=
  List.zipWith (fun entry other => entry + factor * other) x y

def addScaled? (x : Vec α) (factor : α) (y : Vec α) : Option (Vec α) :=
  if x.length = y.length then some (addScaled x factor y) else none

def sub (x y : Vec α) : Vec α := List.zipWith (· - ·) x y

def scale (x : Vec α) (factor : α) : Vec α := x.map (· * factor)

def oneNorm (x : Vec α) : α := sum (x.map Scalar.abs)

def supNorm (x : Vec α) : α := x.foldl (fun most entry => Scalar.max most (Scalar.abs entry)) 0

def set? (x : Vec α) (i : Nat) (value : α) : Option (Vec α) :=
  if i < x.length then some (x.set i value) else none

/-- The vector of the given length with `values` at the positions `support` and zero elsewhere. -/
def scatter (length : Nat) (support : List Nat) (values : Vec α) : Vec α :=
  (support.zip values).foldl (fun x entry => x.set entry.1 entry.2) (zeros length)

def scatter? (length : Nat) (support : List Nat) (values : Vec α) : Option (Vec α) :=
  if ∀ j ∈ support, j < length then some (scatter length support values) else none

def IsSelection (positions : List Nat) (bound : Nat) : Prop :=
  positions.Pairwise (· < ·) ∧ ∀ i ∈ positions, i < bound

instance (positions : List Nat) (bound : Nat) : Decidable (IsSelection positions bound) :=
  inferInstanceAs (Decidable (_ ∧ _))

def dropPositions {β : Type} (entries : List β) (positions : List Nat) : List β :=
  (entries.zipIdx.filter fun entry => entry.2 ∉ positions).map (·.1)

def dropPositions? {β : Type} (entries : List β) (positions : List Nat) : Option (List β) :=
  if IsSelection positions entries.length then some (dropPositions entries positions) else none

theorem length_dropPositions {β : Type} (entries : List β) (positions : List Nat) :
    (dropPositions entries positions).length =
      (List.range entries.length).countP (· ∉ positions) := by
  rw [List.range_eq_range', ← List.zipIdx_map_snd 0 entries, List.countP_map]
  simp [dropPositions, ← List.countP_eq_length_filter, Function.comp_def]

theorem length_dropPositions_le {β : Type} (entries : List β) (positions : List Nat) :
    (dropPositions entries positions).length ≤ entries.length := by
  simpa [dropPositions] using List.length_filter_le _ entries.zipIdx

end Vec

end SimplexMethod
