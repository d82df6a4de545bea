import SimplexMethod.Proofs.ArtificialExchange

namespace SimplexMethod.Tableau
open Matrix Vec Outcome

/-- One pivot of a column outside the basis, by the ratio test or without a step. -/
inductive PivotsTo (t : Tableau ℚ) : Tableau ℚ → Prop
  | limiting {j row : ℕ} {column : Vec ℚ} {step : ℚ} {next : Tableau ℚ} (nonbasic : j ∈ t.nonbasic)
      (expressed : t.express j = .ok column)
      (limits : t.limitingRow column = .ok (some (row, step)))
      (exchanged : t.exchange j row column step = .ok next) : PivotsTo t next
  | degenerate {j row : ℕ} {column : Vec ℚ} {next : Tableau ℚ} (nonbasic : j ∈ t.nonbasic)
      (expressed : t.express j = .ok column) (zero : t.basicValue row = .ok 0)
      (nonzero : column.getD row 0 ≠ 0)
      (exchanged : t.exchange j row column 0 = .ok next) : PivotsTo t next

variable {t next : Tableau ℚ}

theorem lt_of_basicValue {row : ℕ} {value : ℚ} (found : t.basicValue row = .ok value) :
    row < t.problem.numEquations := by
  by_contra beyond
  have outside : ¬row < t.numEquations := beyond
  rw [basicValue, require, if_neg outside] at found
  cases found

theorem BasicFeasible.of_pivotsTo (feasible : t.BasicFeasible) (exact : t.tolerance = 0)
    (pivots : t.PivotsTo next) :
    next.BasicFeasible ∧ next.problem = t.problem ∧ next.tolerance = 0 := by
  cases pivots with
  | @limiting j row column step _ nonbasic expressed limits exchanged =>
      obtain ⟨inside, outside⟩ := feasible.mem_nonbasic_iff.1 nonbasic
      obtain ⟨column', expressed', length, entries⟩ := feasible.express_eq ⟨j, inside⟩
      cases expressed.symm.trans expressed'
      rcases feasible.limitingRow_eq length with ⟨row', step', found, limiting⟩ | ⟨found, -⟩
      · cases limits.symm.trans found
        have pivots : feasible.Pivots ⟨j, column, row', feasible.column row', step⟩ ⟨j, inside⟩ row' :=
          ⟨rfl, rfl, rfl, length, entries, entries ▸ limiting⟩
        obtain ⟨feasible', inverse, members, values, rfl, -⟩ :=
          (feasible.pivot_yields exact outside pivots).of_eq_ok exchanged
        exact ⟨feasible', rfl, exact⟩
      · cases limits.symm.trans found
  | @degenerate j row column _ nonbasic expressed zero nonzero exchanged =>
      obtain ⟨inside, outside⟩ := feasible.mem_nonbasic_iff.1 nonbasic
      obtain ⟨j, rfl⟩ : ∃ k : Fin t.problem.numVariables, j = k := ⟨⟨j, inside⟩, rfl⟩
      obtain ⟨column', expressed', length, entries⟩ := feasible.express_eq j
      cases expressed.symm.trans expressed'
      obtain ⟨row, rfl⟩ : ∃ i : Fin t.problem.numEquations, row = i :=
        ⟨⟨row, lt_of_basicValue zero⟩, rfl⟩
      rw [feasible.basicValue_eq] at zero
      obtain ⟨feasible', problem_eq, exact', -⟩ :=
        (feasible.exchange_yields exact outside length entries (Except.ok.inj zero)).of_eq_ok exchanged
      exact ⟨feasible', problem_eq, exact'⟩

theorem BasicFeasible.of_pivots (feasible : t.BasicFeasible) (exact : t.tolerance = 0)
    (pivots : Relation.ReflTransGen PivotsTo t next) :
    next.BasicFeasible ∧ next.problem = t.problem ∧ next.tolerance = 0 := by
  induction pivots with
  | refl => exact ⟨feasible, rfl, exact⟩
  | tail _ last ih =>
      obtain ⟨feasible', problem_eq, exact'⟩ := ih
      obtain ⟨feasible'', problem_eq', exact''⟩ := feasible'.of_pivotsTo exact' last
      exact ⟨feasible'', problem_eq'.trans problem_eq, exact''⟩

theorem isBasis_of_start {p : LinearProgram ℚ} {upkeep : Upkeep} {basis : List ℕ} {tolerance : ℚ}
    (started : start upkeep p basis tolerance = .ok t) : p.IsBasis basis := by
  rw [← LinearProgram.checkBasis_eq_ok_iff]
  cases checked : p.checkBasis basis with
  | ok => rfl
  | error fault =>
      rw [start, checked] at started
      cases started

/-- From a start without negative values, every sequence of pivots leads to a tableau that holds the
nonnegative solution of its own basis. -/
theorem basicFeasible_of_pivots {p : LinearProgram ℚ} {upkeep : Upkeep} {basis : List ℕ}
    (started : start upkeep p basis 0 = .ok t) (nonneg : ∀ value ∈ t.values, 0 ≤ value)
    (pivots : Relation.ReflTransGen PivotsTo t next) :
    next.problem = p ∧ p.Feasible next.values ∧ next.isBasicFeasible = .ok true ∧
    ∃ accepted : p.IsBasis next.basis, IsUnit accepted.matrix ∧
      (∀ i, toFun next.values p.numVariables (accepted.column i) =
        (accepted.matrix⁻¹ *ᵥ p.sides) i) ∧
      ∀ j : Fin p.numVariables, (j : ℕ) ∉ next.basis → toFun next.values p.numVariables j = 0 := by
  obtain ⟨inverse, values, rfl, basic⟩ :=
    (start_yields (isBasis_of_start started) upkeep 0).of_eq_ok started
  have feasible : BasicFeasible ⟨p, inverse, basis, basis, values, 0⟩ :=
    ⟨basic, (forall_mem_iff basic.length).1 nonneg⟩
  obtain ⟨feasible', same, exact⟩ := feasible.of_pivots rfl pivots
  simp only at same
  subst same
  exact ⟨rfl, feasible'.feasible, feasible'.isBasicFeasible_eq exact.ge, feasible'.basis,
    feasible'.isUnit_matrix, congrFun feasible'.values_eq, feasible'.zero⟩

def pinched : LinearProgram ℚ where
  cost := [0, 0, 0, 0]
  constraints := ⟨[[1, -1, 1, 0], [1, 2, 0, 1]], 4, by decide⟩
  rhs := [0, 3]
  cost_length := rfl
  rhs_length := rfl
  height_lt_width := by decide

def pinchedAt (inverse : List (Vec ℚ)) (basis members : List ℕ) (values : Vec ℚ)
    (fits : ∀ row ∈ inverse, row.length = 2) : Tableau ℚ :=
  ⟨pinched, .productForm ⟨inverse, 2, fits⟩, basis, members, values, 0⟩

theorem basicFeasible_of_pivots_pinched :
    ∃ t next, start .productForm pinched [2, 3] 0 = .ok t ∧
      Relation.ReflTransGen PivotsTo t next ∧ next.basis = [1, 0] ∧
      pinched.Feasible next.values ∧ next.isBasicFeasible = .ok true := by
  let t := pinchedAt [[1, 0], [0, 1]] [2, 3] [2, 3] [0, 0, 0, 3] (by decide)
  let s := pinchedAt [[-1, 0], [2, 1]] [1, 3] [1, 3] [0, 0, 0, 3] (by decide)
  let next := pinchedAt [[-1 / 3, 1 / 3], [2 / 3, 1 / 3]] [1, 0] [0, 1] [1, 1, 0, 0] (by decide)
  have started : start .productForm pinched [2, 3] 0 = .ok t := by decide +kernel
  have first : t.PivotsTo s := @PivotsTo.degenerate t 1 0 [-1, 2] s
    (by decide +kernel) (by decide +kernel) (by decide +kernel) (by decide +kernel)
    (by decide +kernel)
  have second : s.PivotsTo next := @PivotsTo.limiting s 0 1 [-1, 3] 1 next
    (by decide +kernel) (by decide +kernel) (by decide +kernel) (by decide +kernel)
  have pivots := (Relation.ReflTransGen.single first).tail second
  obtain ⟨-, feasible, tested, -⟩ :=
    basicFeasible_of_pivots started (by decide +kernel) pivots
  exact ⟨t, next, started, pivots, rfl, feasible, tested⟩

end SimplexMethod.Tableau
