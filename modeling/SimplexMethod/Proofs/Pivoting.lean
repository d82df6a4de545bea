import SimplexMethod.Proofs.TableauInvariant

namespace SimplexMethod.Tableau
open Matrix Vec Outcome

variable {t : Tableau ℚ}

theorem set_getD_self (x : Vec ℚ) (i : ℕ) : x.set i (x.getD i 0) = x := by
  apply List.ext_getElem?
  intro k
  rw [List.getElem?_set]
  split
  · subst_vars
    split
    · rename_i inside
      simp [inside]
    · rename_i outside
      simp [outside]
  · rfl

def stepped (t : Tableau ℚ) (row : ℕ) (column : Vec ℚ) (step : ℚ) : Vec ℚ :=
  t.basis.zipIdx.foldl
    (fun values basic =>
      if basic.2 = row then values
      else values.set basic.1
        (t.clamp (values.getD basic.1 0 - step * column.getD basic.2 0)))
    t.values

theorem WellFormed.stepped_entries (wellFormed : t.WellFormed)
    (row : Fin t.problem.numEquations) (column : Vec ℚ) (step : ℚ) :
    (t.stepped row column step).length = t.problem.numVariables ∧
      (∀ j ∉ t.basis, (t.stepped row column step).getD j 0 = t.values.getD j 0) ∧
      ∀ i ≠ row, (t.stepped row column step).getD (wellFormed.column i) 0 =
        t.clamp (t.point (wellFormed.column i) - step * column.getD i 0) := by
  let change (basic : ℕ × ℕ) (value : ℚ) : ℚ :=
    if basic.2 = row then value else t.clamp (value - step * column.getD basic.2 0)
  have keys : t.basis.zipIdx.map Prod.fst = t.basis := List.zipIdx_map_fst 0 t.basis
  have fold : t.stepped row column step = t.basis.zipIdx.foldl
      (fun (x : Vec ℚ) basic => x.set basic.1 (change basic (x.getD basic.1 0))) t.values := by
    unfold stepped
    congr 1
    funext x basic
    simp only [change]
    split
    · exact (set_getD_self x basic.1).symm
    · rfl
  obtain ⟨length, others, written⟩ := foldl_set change t.basis.zipIdx t.values
    (keys.symm ▸ wellFormed.basis.nodup)
  rw [fold]
  refine ⟨length.trans wellFormed.length, ?_, ?_⟩
  · intro j outside
    exact others j (keys.symm ▸ outside)
  · intro i other
    have member : ((wellFormed.column i : ℕ), (i : ℕ)) ∈ t.basis.zipIdx :=
      List.mem_zipIdx_iff_getElem?.2 (wellFormed.basis.getElem?_eq i)
    have inside : (wellFormed.column i : ℕ) < t.values.length :=
      (wellFormed.column i).isLt.trans_eq wellFormed.length.symm
    refine (written _ member inside).trans (if_neg fun same => other (Fin.ext same))

theorem WellFormed.moveValues_eq (wellFormed : t.WellFormed) (entering : ℕ)
    (row : Fin t.problem.numEquations) (column : Vec ℚ) (step : ℚ) :
    t.moveValues entering row column step =
      ((t.stepped row column step).set (wellFormed.column row) 0).set entering step := by
  rw [moveValues, wellFormed.basis.getD_eq]
  rfl

/-- Where a step along a column takes the basic variable of a row, but for the clamping. -/
def landing (t : Tableau ℚ) (column : Vec ℚ) (step : ℚ) (i : ℕ) : ℚ :=
  t.values.getD (t.basis.getD i 0) 0 - step * column.getD i 0

/-- What the clamping adds to the basic variable of a row. -/
def lift (t : Tableau ℚ) (row : ℕ) (column : Vec ℚ) (step : ℚ) (i : ℕ) : ℚ :=
  if i = row then 0 else t.clamp (t.landing column step i) - t.landing column step i

theorem WellFormed.landing_eq (wellFormed : t.WellFormed) (column : Vec ℚ) (step : ℚ)
    (i : Fin t.problem.numEquations) :
    t.landing column step i = t.point (wellFormed.column i) - step * column.getD i 0 := by
  rw [landing, wellFormed.basis.getD_eq]
  rfl

theorem WellFormed.moveValues_entries (wellFormed : t.WellFormed)
    {entering : Fin t.problem.numVariables} (outside : (entering : ℕ) ∉ t.basis)
    (row : Fin t.problem.numEquations) (column : Vec ℚ) (step : ℚ) :
    (t.moveValues entering row column step).getD entering 0 = step ∧
      (t.moveValues entering row column step).getD (wellFormed.column row) 0 = 0 ∧
      (∀ i ≠ row, (t.moveValues entering row column step).getD (wellFormed.column i) 0 =
        t.clamp (t.landing column step i)) ∧
      ∀ j ≠ (entering : ℕ), j ∉ t.basis →
        (t.moveValues entering row column step).getD j 0 = t.values.getD j 0 := by
  obtain ⟨length, others, written⟩ := wellFormed.stepped_entries row column step
  have fresh (i : Fin t.problem.numEquations) : (entering : ℕ) ≠ wellFormed.column i := fun same =>
    outside (same ▸ wellFormed.basis.column_mem i)
  rw [wellFormed.moveValues_eq]
  refine ⟨?_, ?_, fun i other => ?_, fun j other away => ?_⟩
  · rw [getD_set, List.length_set, length, if_pos ⟨rfl, entering.isLt⟩]
  · rw [getD_set, if_neg fun same => fresh row same.1, getD_set, length,
      if_pos ⟨rfl, (wellFormed.column row).isLt⟩]
  · have apart : (wellFormed.column row : ℕ) ≠ wellFormed.column i := fun same =>
      other (wellFormed.basis.column_injective (Fin.ext same)).symm
    rw [getD_set, if_neg fun same => fresh i same.1, getD_set, if_neg fun same => apart same.1,
      written i other, wellFormed.landing_eq]
  · have apart : (wellFormed.column row : ℕ) ≠ j := fun same =>
      away (same ▸ wellFormed.basis.column_mem row)
    rw [getD_set, if_neg fun same => other same.1.symm, getD_set, if_neg fun same => apart same.1]
    exact others j away

theorem WellFormed.toFun_moveValues (wellFormed : t.WellFormed)
    {entering : Fin t.problem.numVariables} (outside : (entering : ℕ) ∉ t.basis)
    (absent : t.point entering = 0) {row : Fin t.problem.numEquations} {column : Vec ℚ} {step : ℚ}
    (entries : toFun column t.problem.numEquations = expressed t entering)
    (reaches : step * expressed t entering row = t.point (wellFormed.column row)) :
    toFun (t.moveValues entering row column step) t.problem.numVariables =
      t.point + step • edge t.problem.matrix wellFormed.column t.inverseMatrix entering +
        spread wellFormed.column fun i => t.lift row column step i := by
  obtain ⟨enters, leaves, written, others⟩ :=
    wellFormed.moveValues_entries outside row column step
  have away := wellFormed.notMem_range outside
  have injective := wellFormed.basis.column_injective
  funext j
  rw [Pi.add_apply, Pi.add_apply, Pi.smul_apply, smul_eq_mul, toFun_apply]
  by_cases new : j = entering
  · rw [new, enters, edge_self away, absent, zero_add, mul_one, spread_of_notMem away, add_zero]
  · by_cases onBasis : j ∈ Set.range wellFormed.column
    · obtain ⟨i, rfl⟩ := onBasis
      rw [edge_basis away injective, spread_apply injective]
      by_cases here : i = row
      · rw [here, leaves, lift, if_pos rfl, mul_neg, reaches, add_neg_cancel, add_zero]
      · have moved : t.landing column step i =
            t.point (wellFormed.column i) + step * -expressed t entering i := by
          rw [wellFormed.landing_eq, ← toFun_apply column i, entries, mul_neg, ← sub_eq_add_neg]
        rw [written i here, lift, if_neg fun same => here (Fin.ext same), ← moved,
          add_sub_cancel]
    · have apart : (j : ℕ) ∉ t.basis := fun inside =>
        onBasis (wellFormed.basis.mem_range_iff.2 inside)
      rw [edge_of_notMem onBasis new, mul_zero, add_zero, spread_of_notMem onBasis, add_zero]
      exact others j (fun same => new (Fin.ext same)) apart

theorem clamp_of_exact (exact : t.tolerance = 0) (value : ℚ) : t.clamp value = value := by
  unfold clamp
  rw [exact, neg_zero]
  exact if_neg fun ⟨below, above⟩ => below.asymm above

theorem Basic.toFun_moveValues (basic : t.Basic) (exact : t.tolerance = 0)
    {entering : Fin t.problem.numVariables} (outside : (entering : ℕ) ∉ t.basis)
    {row : Fin t.problem.numEquations} {column : Vec ℚ} {step : ℚ}
    (entries : toFun column t.problem.numEquations = WellFormed.expressed t entering)
    (reaches : step * WellFormed.expressed t entering row = t.point (basic.column row)) :
    toFun (t.moveValues entering row column step) t.problem.numVariables =
      t.point + step • edge t.problem.matrix basic.column t.inverseMatrix entering := by
  have unchanged (i : ℕ) : t.lift row column step i = 0 := by
    simp only [lift, clamp_of_exact exact, sub_self, ite_self]
  rw [basic.toWellFormed.toFun_moveValues outside (basic.zero entering outside) entries reaches]
  simp only [unchanged, spread, Pi.single_zero, Finset.sum_const_zero, add_zero]

theorem WellFormed.exchange_eq (wellFormed : t.WellFormed) {entering : Fin t.problem.numVariables}
    (outside : (entering : ℕ) ∉ t.basis) (row : Fin t.problem.numEquations) {column : Vec ℚ}
    (length : column.length = t.problem.numEquations) (step : ℚ) :
    t.exchange entering row column step = (do
      let inverse ← t.inverse.exchange row (t.problem.constraints.column entering) column
      return { t with
        inverse
        basis := t.basis.set row entering
        members := entering :: t.members.erase (wellFormed.column row)
        values := t.moveValues entering row column step }) := by
  have inside : (row : ℕ) < t.numEquations := row.isLt
  have fresh : (entering : ℕ) ∉ t.members := fun member =>
    outside ((wellFormed.mem_members _).1 member)
  have covers : ∀ i < t.numEquations, i ≠ (row : ℕ) → i < column.length :=
    fun i below _ => below.trans_eq length.symm
  have leaves : (wellFormed.column row : ℕ) ∈ t.members :=
    (wellFormed.mem_members _).2 (wellFormed.basis.column_mem row)
  exact exchange_of_contract inside fresh entering.isLt covers (wellFormed.basis.getElem?_eq row)
    leaves

theorem WellFormed.of_exchange (wellFormed : t.WellFormed) {entering : Fin t.problem.numVariables}
    (outside : (entering : ℕ) ∉ t.basis) (row : Fin t.problem.numEquations)
    {inverse : BasisInverse ℚ}
    (inverts : inverse.Inverts (wellFormed.basis.matrix.updateCol row
      (toFun (t.problem.constraints.column entering) t.problem.numEquations)))
    (column : Vec ℚ) (step : ℚ) :
    WellFormed { t with
      inverse
      basis := t.basis.set row entering
      members := entering :: t.members.erase (wellFormed.column row)
      values := t.moveValues entering row column step } := by
  obtain ⟨exchanged, columns⟩ := wellFormed.basis.exchange row outside
  refine ⟨exchanged, ?_, ?_, ?_, (t.length_moveValues ..).trans wellFormed.length⟩
  · refine List.nodup_cons.2 ⟨fun member => outside ?_, wellFormed.members_nodup.erase _⟩
    exact (wellFormed.mem_members _).1 (List.mem_of_mem_erase member)
  · intro j
    rw [List.mem_cons, wellFormed.members_nodup.mem_erase_iff, wellFormed.mem_members]
    exact (wellFormed.basis.mem_set_iff row outside j).symm
  · have replaced : exchanged.matrix = wellFormed.basis.matrix.updateCol row
        (toFun (t.problem.constraints.column entering) t.problem.numEquations) := by
      rw [LinearProgram.IsBasis.matrix, columns, submatrix_update, LinearProgram.toFun_column]
    exact replaced ▸ inverts

theorem WellFormed.exchange_inverse_yields (wellFormed : t.WellFormed)
    (entering : Fin t.problem.numVariables) (row : Fin t.problem.numEquations) {column : Vec ℚ}
    (length : column.length = t.problem.numEquations)
    (entries : toFun column t.problem.numEquations = expressed t entering) :
    (t.inverse.exchange row (t.problem.constraints.column entering) column).Yields
      (fun inverse => inverse.Inverts (wellFormed.basis.matrix.updateCol row
        (toFun (t.problem.constraints.column entering) t.problem.numEquations)))
      (· = .failed .singularMatrix) := by
  apply wellFormed.inverse.exchange_yields row
    (RowMatrix.length_column t.problem.constraints entering) length
  rw [entries, LinearProgram.toFun_column]

theorem WellFormed.exchange_yields (wellFormed : t.WellFormed)
    {entering : Fin t.problem.numVariables} (outside : (entering : ℕ) ∉ t.basis)
    (row : Fin t.problem.numEquations) {column : Vec ℚ}
    (length : column.length = t.problem.numEquations)
    (entries : toFun column t.problem.numEquations = expressed t entering) (step : ℚ) :
    (t.exchange entering row column step).Yields
      (fun next => next.WellFormed ∧ ∃ inverse members, next =
        { t with
          inverse, members
          basis := t.basis.set row entering
          values := t.moveValues entering row column step })
      (· = .failed .singularMatrix) := by
  rw [wellFormed.exchange_eq outside row length step]
  apply (wellFormed.exchange_inverse_yields entering row length entries).bind
  intro inverse inverts
  rw [pure_eq_ok, yields_ok]
  exact ⟨wellFormed.of_exchange outside row inverts column step, inverse, _, rfl⟩

theorem WellFormed.pivot_yields (wellFormed : t.WellFormed) {entering : Fin t.problem.numVariables}
    (outside : (entering : ℕ) ∉ t.basis) {row : Fin t.problem.numEquations} {pivot : Pivot ℚ}
    (pivots : wellFormed.Pivots pivot entering row) :
    (t.pivot pivot).Yields
      (fun next => next.WellFormed ∧ ∃ inverse members, next =
        { t with
          inverse, members
          basis := t.basis.set row entering
          values := t.moveValues entering row pivot.column pivot.step })
      (· = .failed .singularMatrix) := by
  rw [Tableau.pivot, pivots.entering_eq, pivots.row_eq]
  exact wellFormed.exchange_yields outside row pivots.length pivots.column_eq pivot.step

theorem Basic.exchange_yields (basic : t.Basic) (exact : t.tolerance = 0)
    {entering : Fin t.problem.numVariables} (outside : (entering : ℕ) ∉ t.basis)
    {row : Fin t.problem.numEquations} {column : Vec ℚ}
    (length : column.length = t.problem.numEquations)
    (entries : toFun column t.problem.numEquations = WellFormed.expressed t entering) {step : ℚ}
    (reaches : step * WellFormed.expressed t entering row = t.point (basic.column row)) :
    (t.exchange entering row column step).Yields
      (fun next => next.Basic ∧ ∃ inverse members values, next =
          { t with inverse, members, values, basis := t.basis.set row entering } ∧
        toFun values t.problem.numVariables =
          t.point + step • edge t.problem.matrix basic.column t.inverseMatrix entering)
      (· = .failed .singularMatrix) := by
  refine (basic.toWellFormed.exchange_yields outside row length entries step).mono ?_
    fun _ same => same
  intro next given
  obtain ⟨wellFormed, inverse, members, rfl⟩ := given
  have moved := basic.toFun_moveValues exact outside entries reaches
  refine ⟨⟨wellFormed, ?_, ?_⟩, inverse, members, _, rfl, moved⟩
  · intro j gone
    have left := basic.basis.mem_set_iff row outside j
    obtain ⟨enters, other⟩ := not_or.1 (mt left.2 gone)
    change toFun (t.moveValues entering row column step) t.problem.numVariables j = 0
    rw [moved, Pi.add_apply, Pi.smul_apply, smul_eq_mul]
    by_cases leaves : j = basic.column row
    · rw [leaves, edge_basis (basic.notMem_range outside) basic.basis.column_injective, mul_neg,
        reaches, add_neg_cancel]
    · have away : (j : ℕ) ∉ t.basis := fun inside =>
        other ⟨fun same => leaves (Fin.ext same), inside⟩
      rw [basic.zero j away, edge_of_notMem (basic.notMem_range away)
        (fun same => enters (congrArg Fin.val same)), mul_zero, add_zero]
  · change t.problem.matrix *ᵥ toFun (t.moveValues entering row column step) _ = t.problem.sides
    rw [moved, mulVec_add, mulVec_smul, mulVec_edge basic.inverse.mul_eq_one, smul_zero, add_zero,
      basic.equations]

end SimplexMethod.Tableau
