import SimplexMethod.Proofs.Structure

namespace SimplexMethod

open Outcome

variable {α : Type} [Scalar α]

theorem BasisInverse.Shaped.of_exchange {b next : BasisInverse α} {size position : ℕ}
    {entering column : Vec α} (shaped : b.Shaped size) (length : entering.length = size)
    (followed : b.exchange position entering column = .ok next) : next.Shaped size := by
  cases b with
  | productForm left =>
      simp only [exchange, bind_eq_ok_iff] at followed
      obtain ⟨eta, -, eliminated, applied, same⟩ := followed
      cases same
      simp only [demand_eq_ok_iff, RowMatrix.eliminateWith?, Option.ite_none_right_eq_some,
        Option.some.injEq] at applied
      obtain ⟨-, rfl⟩ := applied
      refine ⟨(RowMatrix.height_eliminateWith _ _ _).trans shaped.height, shaped.width, ?_⟩
      intro basisMatrix left' other
      cases other
  | reinversion basisMatrix left =>
      obtain ⟨height, width⟩ := shaped.stored basisMatrix left rfl
      simp only [exchange, bind_eq_ok_iff] at followed
      obtain ⟨changed, written, inverse, inverted, same⟩ := followed
      cases same
      simp only [demand_eq_ok_iff, RowMatrix.withColumn?, Option.ite_none_right_eq_some,
        Option.some.injEq] at written
      obtain ⟨-, rfl⟩ := written
      have heightNew := (RowMatrix.height_withColumn basisMatrix position
        (length.trans height.symm)).trans height
      exact ((reinversion_yields_shaped heightNew width).of_eq_ok inverted).2

namespace Tableau

structure Sized (t : Tableau α) : Prop where
  length : t.basis.length = t.numEquations
  lt : ∀ j ∈ t.basis, j < t.numVariables
  length_values : t.values.length = t.numVariables
  shaped : t.inverse.Shaped t.numEquations

inductive Arises : Tableau α → Prop
  | start {p : LinearProgram α} {inverse : BasisInverse α} {basis : List ℕ} {tolerance : α}
      {t : Tableau α} (shaped : inverse.Shaped p.numEquations)
      (started : startWith p inverse basis tolerance = .ok t) : Arises t
  | exchange {t next : Tableau α} {entering row : ℕ} {column : Vec α} {step : α}
      (arises : Arises t) (exchanged : t.exchange entering row column step = .ok next) :
      Arises next

variable {t next : Tableau α}

theorem Structured.sized (structured : t.Structured) : t.Sized :=
  ⟨structured.length, structured.lt, structured.values.length_eq, structured.shaped⟩

theorem length_moveValues (t : Tableau α) (entering row : ℕ) (column : Vec α) (step : α) :
    (t.moveValues entering row column step).length = t.values.length := by
  unfold moveValues
  rw [List.length_set, List.length_set]
  apply List.foldlRecOn (motive := fun x : Vec α => x.length = t.values.length)
  · rfl
  · intro x same basic _
    split
    · exact same
    · rw [List.length_set, same]

theorem sized_of_startWith {p : LinearProgram α} {inverse : BasisInverse α} {basis : List ℕ}
    {tolerance : α} (shaped : inverse.Shaped p.numEquations)
    (started : startWith p inverse basis tolerance = .ok t) : t.Sized := by
  simp only [startWith, bind_eq_ok_iff] at started
  obtain ⟨_, covers, _, -, basicValues, -, values, scattered, same⟩ := started
  cases same
  simp only [demand_eq_ok_iff, Vec.scatter?, Option.ite_none_right_eq_some,
    Option.some.injEq] at scattered
  obtain ⟨below, rfl⟩ := scattered
  exact ⟨require_eq_ok_iff.1 covers, below, (Vec.scatter_vanishesOutside _ _ _).length_eq, shaped⟩

namespace Sized

theorem of_exchange (sized : t.Sized) {entering row : ℕ} {column : Vec α} {step : α}
    (exchanged : t.exchange entering row column step = .ok next) : next.Sized := by
  obtain ⟨-, -, bound, followed, -, -, -⟩ := exchange_eq_ok_iff.1 exchanged
  refine ⟨(List.length_set ..).trans sized.length, fun j member => ?_,
    (t.length_moveValues entering row column step).trans sized.length_values,
    sized.shaped.of_exchange (RowMatrix.length_column t.problem.constraints entering) followed⟩
  rcases List.mem_or_eq_of_mem_set member with old | rfl
  · exact sized.lt j old
  · exact bound

theorem basicValue_eq (sized : t.Sized) {i : ℕ} (row : i < t.numEquations) :
    t.basicValue i = .ok (t.values.getD (t.basis.getD i 0) 0) := by
  have present : t.basis[i]? = some (t.basis.getD i 0) := by simp [row.trans_eq sized.length.symm]
  have inside : t.basis.getD i 0 < t.values.length :=
    (sized.lt _ (List.mem_of_getElem? present)).trans_eq sized.length_values.symm
  rw [basicValue, require_of row, ok_bind, present, demand_some, ok_bind,
    List.getElem?_eq_getElem inside, demand_some, List.getD_eq_getElem _ _ inside]

theorem exists_quantities (sized : t.Sized) :
    ∃ y costs, t.multipliers = .ok y ∧ t.reducedCosts = .ok costs := by
  obtain ⟨y, multiplied, length⟩ : ∃ y, t.multipliers = .ok y ∧ y.length = t.numEquations := by
    have found :
        t.problem.costsOf? t.basis = some (t.basis.map fun j => t.problem.cost.getD j 0) :=
      if_pos sized.lt
    have fits : (t.basis.map fun j => t.problem.cost.getD j 0).length = t.inverse.inverse.height := by
      rw [List.length_map, sized.length, sized.shaped.height]
    refine ⟨RowMatrix.vecMul (t.basis.map fun j => t.problem.cost.getD j 0) t.inverse.inverse, ?_, ?_⟩
    · rw [Tableau.multipliers, found, demand_some, ok_bind, BasisInverse.multipliers,
        RowMatrix.vecMul?, if_pos fits, demand_some]
    · rw [RowMatrix.length_vecMul, sized.shaped.width]
  refine ⟨y, Vec.sub t.problem.cost (RowMatrix.vecMul y t.problem.constraints), multiplied, ?_⟩
  have fits : y.length = t.problem.constraints.height := length
  rw [Tableau.reducedCosts, multiplied, ok_bind, LinearProgram.reducedCostsFor?, RowMatrix.vecMul?,
    if_pos fits]
  rfl

end Sized

theorem Arises.sized (arises : t.Arises) : t.Sized := by
  induction arises with
  | start shaped started => exact sized_of_startWith shaped started
  | exchange _ exchanged ih => exact ih.of_exchange exchanged

def ratio (t : Tableau α) (column : Vec α) (i : ℕ) : α :=
  t.values.getD (t.basis.getD i 0) 0 / column.getD i 0

theorem Sized.limitingRow_eq (sized : t.Sized) {column : Vec α}
    (length : column.length = t.numEquations) :
    t.limitingRow column = .ok (firstLeast?
      (((List.range t.numEquations).filter fun i => t.tolerance < column.getD i 0).map
        fun i => (i, t.ratio column i))) := by
  have indexed : column.zipIdx =
      (List.range t.numEquations).map fun i => (column.getD i 0, i) := by
    apply List.ext_getElem
    · simp [length]
    · intro i inLeft inRight
      have inside : i < column.length := by simpa using inLeft
      simp [inside]
  have values : (column.zipIdx.filter fun entry => t.tolerance < entry.1).mapM
      (fun entry => do return (entry.2, (← t.basicValue entry.2) / entry.1)) =
        (.ok (((List.range t.numEquations).filter fun i => t.tolerance < column.getD i 0).map
          fun i => (i, t.ratio column i)) : Outcome α (List (ℕ × α))) := by
    rw [indexed, List.filter_map, List.mapM_map]
    apply mapM_eq_ok
    intro i member
    have row : i < t.numEquations := List.mem_range.1 (List.mem_filter.1 member).1
    simp only [Function.comp_apply, sized.basicValue_eq row, ok_bind, pure_eq_ok]
    rfl
  unfold limitingRow
  rw [require_of length, ok_bind]
  dsimp only
  rw [values, ok_bind, pure_eq_ok]

end Tableau

end SimplexMethod
