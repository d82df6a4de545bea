import SimplexMethod.Proofs.ArtificialProblem

namespace SimplexMethod
open Matrix Vec Outcome

namespace LinearProgram

/-- A combination of the equations that vanishes on the first columns, and on all columns of the
basis but the one in the given position. -/
def Blocked (a : LinearProgram ℚ) (columns : ℕ) (basis : List ℕ) (position : ℕ) : Prop :=
  ∃ w : Fin a.numEquations → ℚ,
    (∀ j : Fin a.numVariables, (j : ℕ) < columns → (w ᵥ* a.matrix) j = 0) ∧
    ∀ (k : ℕ) (j : Fin a.numVariables), basis[k]? = some (j : ℕ) →
      (w ᵥ* a.matrix) j = if k = position then 1 else 0

theorem Blocked.set {a : LinearProgram ℚ} {columns position : ℕ} {basis : List ℕ}
    (blocked : Blocked a columns basis position) {row entering : ℕ} (other : row ≠ position)
    (below : entering < columns) : Blocked a columns (basis.set row entering) position := by
  obtain ⟨w, vanishes, unit⟩ := blocked
  refine ⟨w, vanishes, fun k j present => ?_⟩
  by_cases here : row = k
  · subst here
    have entered : entering = j := by
      rw [List.getElem?_set_self'] at present
      cases found : basis[row]? <;> simp_all
    rw [vanishes j (entered ▸ below), if_neg other]
  · rw [List.getElem?_set_ne here] at present
    exact unit k j present

end LinearProgram

namespace Tableau

variable {t : Tableau ℚ} {columns : ℕ}

theorem BasicFeasible.exchange_yields (feasible : t.BasicFeasible) (exact : t.tolerance = 0)
    {entering : Fin t.problem.numVariables} (outside : (entering : ℕ) ∉ t.basis)
    {row : Fin t.problem.numEquations} {column : Vec ℚ}
    (length : column.length = t.problem.numEquations)
    (entries : toFun column t.problem.numEquations = WellFormed.expressed t entering)
    (zero : t.point (feasible.column row) = 0) :
    (t.exchange entering row column 0).Yields
      (fun next => next.BasicFeasible ∧ next.problem = t.problem ∧ next.tolerance = 0 ∧
        next.values = t.values ∧ next.basis = t.basis.set row entering)
      (· = .failed .singularMatrix) := by
  have reaches : 0 * WellFormed.expressed t entering row = t.point (feasible.column row) := by
    rw [zero, zero_mul]
  refine (feasible.toBasic.exchange_yields exact outside length entries reaches).mono ?_
    fun _ same => same
  intro next given
  obtain ⟨basic, inverse, members, values, rfl, moved⟩ := given
  rw [zero_smul, add_zero] at moved
  have same : values = t.values := eq_of_toFun_eq basic.length feasible.length moved
  refine ⟨⟨basic, ?_⟩, rfl, exact, same, rfl⟩
  have nonneg := feasible.nonneg
  rw [← moved] at nonneg
  exact nonneg

theorem WellFormed.row_apply (t : Tableau ℚ) (row : Fin t.problem.numEquations)
    (j : Fin t.problem.numVariables) :
    (t.inverseMatrix row ᵥ* t.problem.matrix) j = WellFormed.expressed t j row := rfl

def element (t : Tableau ℚ) (row : Fin t.problem.numEquations) (j : ℕ) : ℕ × ℚ :=
  (j, if inside : j < t.problem.numVariables then WellFormed.expressed t ⟨j, inside⟩ row else 0)

theorem WellFormed.mem_candidates (wellFormed : t.WellFormed) {j : ℕ}
    (member : j ∈ t.nonbasic.filter (· < columns)) :
    j < columns ∧ j < t.problem.numVariables ∧ j ∉ t.basis := by
  rw [List.mem_filter, decide_eq_true_iff] at member
  exact ⟨member.2, wellFormed.mem_nonbasic_iff.1 member.1⟩

theorem WellFormed.replacement_eq_find? (wellFormed : t.WellFormed) (columns : ℕ)
    (row : Fin t.problem.numEquations) :
    t.replacement columns row = .ok ((((t.nonbasic.filter (· < columns)).map (t.element row)).find?
      fun element => t.tolerance < Scalar.abs element.2).map (·.1)) := by
  have computed : (t.nonbasic.filter (· < columns)).mapM
      (fun j => do return (j, ← t.expressEntry row j)) =
        (.ok ((t.nonbasic.filter (· < columns)).map (t.element row)) : Outcome ℚ (List (ℕ × ℚ))) := by
    apply mapM_eq_ok
    intro j member
    have inside := (wellFormed.mem_candidates member).2.1
    rw [wellFormed.expressEntry_eq row ⟨j, inside⟩, ok_bind, pure_eq_ok]
    simp only [element, dif_pos inside]
  rw [replacement, computed, ok_bind, pure_eq_ok]

theorem WellFormed.replacement_outside (wellFormed : t.WellFormed) (columns : ℕ)
    (row : Fin t.problem.numEquations) :
    ∃ chosen, t.replacement columns row = .ok chosen ∧
      ∀ j ∈ chosen, j < columns ∧ j < t.problem.numVariables ∧ j ∉ t.basis := by
  refine ⟨_, wellFormed.replacement_eq_find? columns row, fun j member => ?_⟩
  obtain ⟨_, found, rfl⟩ := Option.map_eq_some_iff.1 (Option.mem_def.1 member)
  obtain ⟨j, inside, rfl⟩ := List.mem_map.1 (List.mem_of_find?_eq_some found)
  exact wellFormed.mem_candidates inside

theorem WellFormed.replacement_eq (wellFormed : t.WellFormed) (exact : t.tolerance = 0)
    {row : Fin t.problem.numEquations} (artificial : columns ≤ (wellFormed.column row : ℕ)) :
    (∃ j : Fin t.problem.numVariables, t.replacement columns row = .ok (some (j : ℕ)) ∧
        (j : ℕ) < columns ∧ (j : ℕ) ∉ t.basis) ∨
      t.replacement columns row = .ok none ∧ t.problem.Blocked columns t.basis row := by
  rw [wellFormed.replacement_eq_find? columns row, exact]
  cases found : ((t.nonbasic.filter (· < columns)).map (t.element row)).find?
      fun element => decide (0 < Scalar.abs element.2) with
  | some chosen =>
      obtain ⟨j, member, rfl⟩ := List.mem_map.1 (List.mem_of_find?_eq_some found)
      obtain ⟨below, inside, away⟩ := wellFormed.mem_candidates member
      exact Or.inl ⟨⟨j, inside⟩, rfl, below, away⟩
  | none =>
      refine Or.inr ⟨rfl, t.inverseMatrix row, fun j below => ?_, fun k j present => ?_⟩
      · by_cases basic : (j : ℕ) ∈ t.basis
        · obtain ⟨i, rfl⟩ := wellFormed.basis.mem_range_iff.2 basic
          have other : row ≠ i := by
            rintro rfl
            exact artificial.not_gt below
          rw [row_basis wellFormed.inverse.mul_eq_one, if_neg other]
        · have member : (j : ℕ) ∈ t.nonbasic.filter (· < columns) :=
            List.mem_filter.2 ⟨wellFormed.mem_nonbasic_iff.2 ⟨j.isLt, basic⟩, decide_eq_true below⟩
          have small := List.find?_eq_none.1 found _ (List.mem_map_of_mem member)
          simpa [element, Scalar.abs_eq, WellFormed.row_apply] using small
      · have inside : k < t.problem.numEquations := by
          rw [← wellFormed.basis.length]
          exact (List.getElem?_eq_some_iff.1 present).1
        have same : j = wellFormed.column ⟨k, inside⟩ := by
          have here := wellFormed.basis.getElem?_eq ⟨k, inside⟩
          exact Fin.ext (Option.some_inj.1 (present.symm.trans here))
        rw [same, row_basis wellFormed.inverse.mul_eq_one]
        simp [Fin.ext_iff, eq_comm]

structure Locates (t : Tableau ℚ) (columns : ℕ) (items : List (ℕ × ℕ)) : Prop where
  sorted : items.Pairwise fun first second => first.1 < second.1
  artificial : ∀ item ∈ items, columns ≤ item.1
  located : ∀ item ∈ items, t.basis[item.2]? = some item.1

theorem Locates.places {items : List (ℕ × ℕ)} (locates : t.Locates columns items) :
    Places columns t.basis items :=
  ⟨locates.sorted, locates.artificial, locates.located⟩

theorem basicArtificials_locates (t : Tableau ℚ) (columns : ℕ) :
    t.Locates columns (t.basicArtificials columns) :=
  let places := t.basicArtificials_places columns
  ⟨places.sorted, places.artificial, places.located⟩

structure Exchanged (t : Tableau ℚ) (columns : ℕ) (items : List (ℕ × ℕ)) (last : Tableau ℚ)
    (rows : List ℕ) : Prop where
  feasible : last.BasicFeasible
  problem_eq : last.problem = t.problem
  exact : last.tolerance = 0
  values_eq : last.values = t.values
  sorted : rows.Pairwise (· < ·)
  others : ∀ k, (∀ item ∈ items, item.2 ≠ k) → last.basis[k]? = t.basis[k]?
  stays_blocked : ∀ k, (∀ item ∈ items, item.2 ≠ k) → t.problem.Blocked columns t.basis k →
    t.problem.Blocked columns last.basis k
  replaced : ∀ item ∈ items, ∀ j, last.basis[item.2]? = some j →
    j < columns ∨ ∃ row ∈ rows, j = columns + row
  stuck : ∀ row ∈ rows, ∃ item ∈ items, item.1 = columns + row ∧
    last.basis[item.2]? = some (columns + row) ∧ t.problem.Blocked columns last.basis item.2

section Cons

variable {item : ℕ × ℕ} {rest : List (ℕ × ℕ)} {last : Tableau ℚ} {rows : List ℕ}

theorem Exchanged.drives {items : List (ℕ × ℕ)} (exchanged : t.Exchanged columns items last rows) :
    Drives columns items t.basis last.basis rows := by
  refine ⟨exchanged.sorted, exchanged.others, exchanged.replaced, fun row member => ?_⟩
  obtain ⟨item, inside, artificial, present, -⟩ := exchanged.stuck row member
  exact ⟨item, inside, artificial, present⟩

theorem Exchanged.replace (locates : t.Locates columns (item :: rest)) {next : Tableau ℚ}
    {entering : ℕ} (below : entering < columns) (problem_eq : next.problem = t.problem)
    (values_eq : next.values = t.values) (basis_eq : next.basis = t.basis.set item.2 entering)
    (after : next.Exchanged columns rest last rows) :
    t.Exchanged columns (item :: rest) last rows := by
  have drives := after.drives
  rw [basis_eq] at drives
  have all := drives.replace locates.places below
  refine ⟨after.feasible, after.problem_eq.trans problem_eq, after.exact,
    after.values_eq.trans values_eq, all.sorted, all.others, fun k others blocked => ?_,
    all.replaced, fun row member => ?_⟩
  · have still := blocked.set (others item (by simp)) below
    rw [← basis_eq, ← problem_eq] at still
    rw [← problem_eq]
    exact after.stays_blocked k (fun other member => others other (by simp [member])) still
  · obtain ⟨other, later, facts⟩ := after.stuck row member
    rw [problem_eq] at facts
    exact ⟨other, by simp [later], facts⟩

theorem Exchanged.keep (locates : t.Locates columns (item :: rest))
    (blocked : t.problem.Blocked columns t.basis item.2)
    (after : t.Exchanged columns rest last rows) :
    t.Exchanged columns (item :: rest) last ((item.1 - columns) :: rows) := by
  have places := locates.places
  have all := after.drives.keep places
  have restored : columns + (item.1 - columns) = item.1 :=
    Nat.add_sub_cancel' (locates.artificial item (by simp))
  have present : last.basis[item.2]? = some item.1 :=
    (after.others _ places.other_row).trans (locates.located item (by simp))
  refine ⟨after.feasible, after.problem_eq, after.exact, after.values_eq, all.sorted, all.others,
    fun k others blocked => ?_, all.replaced, fun row member => ?_⟩
  · exact after.stays_blocked k (fun other member => others other (by simp [member])) blocked
  · rcases List.mem_cons.1 member with rfl | later
    · refine ⟨item, by simp, restored.symm, ?_, after.stays_blocked _ places.other_row blocked⟩
      rw [present, restored]
    · obtain ⟨other, inside, facts⟩ := after.stuck row later
      exact ⟨other, by simp [inside], facts⟩

end Cons

theorem exchangeArtificials_yields (feasible : t.BasicFeasible) (exact : t.tolerance = 0)
    (zero : ∀ j, columns ≤ j → t.values.getD j 0 = 0) {items : List (ℕ × ℕ)}
    (locates : t.Locates columns items) :
    (t.exchangeArtificials columns items).outcome.Yields
      (fun result => t.Exchanged columns items result.1 result.2)
      (· = .failed .singularMatrix) := by
  induction items generalizing t with
  | nil =>
      exact ⟨feasible, rfl, exact, rfl, .nil, fun _ _ => rfl, fun _ _ blocked => blocked, by simp,
        by simp⟩
  | cons item rest ih =>
      obtain ⟨artificial, position⟩ := item
      have above : columns ≤ artificial := locates.artificial (artificial, position) (by simp)
      have present : t.basis[position]? = some artificial :=
        locates.located (artificial, position) (by simp)
      have later : ∀ other ∈ rest, columns ≤ other.1 := fun other member =>
        locates.artificial other (by simp [member])
      obtain ⟨row, rfl, same⟩ : ∃ row : Fin t.problem.numEquations, position = row ∧
          (feasible.column row : ℕ) = artificial := by
        have inside : position < t.problem.numEquations := by
          rw [← feasible.basis.length]
          exact (List.getElem?_eq_some_iff.1 present).1
        have here := feasible.basis.getElem?_eq ⟨position, inside⟩
        exact ⟨⟨position, inside⟩, rfl, Option.some_inj.1 (here.symm.trans present)⟩
      rw [exchangeArtificials, Traced.outcome_bind, Traced.outcome_lift]
      rcases feasible.replacement_eq exact (above.trans_eq same.symm) with
        ⟨entering, found, below, away⟩ | ⟨found, blocked⟩
      · obtain ⟨column, computed, length, entries⟩ := feasible.express_eq entering
        have leaves : t.point (feasible.column row) = 0 :=
          zero _ (above.trans_eq same.symm)
        rw [found, ok_bind]
        simp only [Traced.outcome_bind, Traced.outcome_emit, Traced.outcome_lift, ok_bind, computed]
        apply (feasible.exchange_yields exact away length entries leaves).bind
        intro next given
        obtain ⟨feasible', problem_eq, exact', values_eq, basis_eq⟩ := given
        have locates' : next.Locates columns rest := by
          refine ⟨(List.pairwise_cons.1 locates.sorted).2, later, fun other member => ?_⟩
          rw [basis_eq, List.getElem?_set_ne (locates.places.other_row other member).symm]
          exact locates.located other (by simp [member])
        refine (ih feasible' exact' (by rwa [values_eq]) locates').mono_value ?_
        intro result after
        exact after.replace locates below problem_eq values_eq basis_eq
      · have locates' : t.Locates columns rest :=
          ⟨(List.pairwise_cons.1 locates.sorted).2, later, fun other member =>
            locates.located other (by simp [member])⟩
        rw [found, ok_bind]
        simp only [Traced.outcome_bind, Traced.outcome_pure]
        apply (ih feasible exact zero locates').bind
        intro result after
        exact after.keep locates blocked

end Tableau

end SimplexMethod
