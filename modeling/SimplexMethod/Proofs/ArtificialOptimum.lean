import SimplexMethod.Proofs.ArtificialExchange
import SimplexMethod.Proofs.RowChanges

namespace SimplexMethod
open Matrix Vec Outcome

namespace LinearProgram

variable {p : LinearProgram ℚ}

theorem redundant_iff {m : ℕ} (height : p.numEquations = m) {rows : List ℕ} :
    p.Redundant rows ↔ SimplexMethod.Redundant
      (p.constraints.toMatrix m p.numVariables) (toFun p.rhs m) rows := by
  subst height
  exact Iff.rfl

theorem eq_zero_of_vecMul_eq_zero {m : ℕ} {N B : Matrix (Fin m) (Fin m) ℚ} (inverse : N * B = 1)
    {u : Fin m → ℚ} (vanishes : u ᵥ* B = 0) : u = 0 := by
  rw [← vecMul_one u, ← mul_eq_one_comm.1 inverse, ← vecMul_vecMul, vanishes, zero_vecMul]

theorem IsBasis.isUnit_matrix {basis : List ℕ} (accepted : p.IsBasis basis) {m : ℕ}
    (height : p.numEquations = m)
    (independent : ∀ u : Fin m → ℚ, (∀ j : Fin p.numVariables, (j : ℕ) ∈ basis →
      (u ᵥ* p.constraints.toMatrix m p.numVariables) j = 0) → u = 0) :
    IsUnit accepted.matrix := by
  subst height
  rw [← vecMul_injective_iff_isUnit]
  intro u u' same
  rw [← sub_eq_zero]
  apply independent
  intro j member
  obtain ⟨i, rfl⟩ := accepted.mem_range_iff.2 member
  have entry := congrFun (sub_eq_zero.2 same) i
  rw [← sub_vecMul] at entry
  exact entry

end LinearProgram

namespace Tableau

variable {t : Tableau ℚ} {p : LinearProgram ℚ} {rows : List ℕ}

/-- A tableau of the artificial problem at a point of sum zero, in the basis of which there are no
artificial variables left but those of the given equations. -/
structure Reduces (t : Tableau ℚ) (p : LinearProgram ℚ) (rows : List ℕ) : Prop where
  feasible : t.BasicFeasible
  artificial : t.problem.IsArtificial p
  zero : t.problem.value t.values ≤ 0
  sorted : rows.Pairwise (· < ·)
  covers : ∀ k j : ℕ, t.basis[k]? = some j → j < p.numVariables ∨ ∃ row ∈ rows, j = p.numVariables + row
  stuck : ∀ row ∈ rows, ∃ k : ℕ, t.basis[k]? = some (p.numVariables + row) ∧
    t.problem.Blocked p.numVariables t.basis k

namespace Reduces

theorem lt_numEquations (reduces : t.Reduces p rows) {row : ℕ} (member : row ∈ rows) :
    row < t.problem.numEquations := by
  obtain ⟨k, present, -⟩ := reduces.stuck row member
  have below := reduces.feasible.basis.lt _ (List.mem_of_getElem? present)
  rw [reduces.artificial.numVariables_eq] at below
  exact Nat.lt_of_add_lt_add_left below

theorem independent (reduces : t.Reduces p rows) {u : Fin t.problem.numEquations → ℚ}
    (zero : ∀ r : Fin t.problem.numEquations, (r : ℕ) ∈ rows → u r = 0)
    (vanishes : ∀ j : Fin p.numVariables, (j : ℕ) ∈ t.basis →
      (u ᵥ* LinearProgram.IsArtificial.given t.problem p) j = 0) : u = 0 := by
  have basis := reduces.feasible.basis
  apply LinearProgram.eq_zero_of_vecMul_eq_zero reduces.feasible.inverse.mul_eq_one
  funext i
  change (u ᵥ* t.problem.matrix) (basis.column i) = 0
  rcases reduces.covers i _ (basis.getElem?_eq i) with below | ⟨row, member, same⟩
  · rw [reduces.artificial.vecMul_eq u below]
    exact vanishes ⟨basis.column i, below⟩ (basis.column_mem i)
  · have inside := reduces.lt_numEquations member
    rw [reduces.artificial.vecMul_artificial u ⟨row, inside⟩ same]
    exact zero ⟨row, inside⟩ member

theorem artificial_zero (reduces : t.Reduces p rows) {row : ℕ} (member : row ∈ rows) :
    t.values.getD (p.numVariables + row) 0 = 0 :=
  (reduces.artificial.restrict reduces.feasible.feasible reduces.zero).2
    ⟨row, reduces.lt_numEquations member⟩

theorem dependent (reduces : t.Reduces p rows) {r : Fin t.problem.numEquations}
    (member : (r : ℕ) ∈ rows) : ∃ w : Fin t.problem.numEquations → ℚ, w r = 1 ∧
      (∀ k ≠ r, (k : ℕ) ∈ rows → w k = 0) ∧
      w ᵥ* LinearProgram.IsArtificial.given t.problem p = 0 ∧ w ⬝ᵥ t.problem.sides = 0 := by
  obtain ⟨position, present, w, vanishes, unit⟩ := reduces.stuck r member
  have basis := reduces.feasible.basis
  have artificial := reduces.artificial
  have below {row : ℕ} (inside : row ∈ rows) :
      p.numVariables + row < t.problem.numVariables := by
    rw [artificial.numVariables_eq]
    exact Nat.add_lt_add_left (reduces.lt_numEquations inside) _
  refine ⟨w, ?_, fun k other inside => ?_, funext fun j => ?_, ?_⟩
  · rw [← artificial.vecMul_artificial w r (j := ⟨_, below member⟩) rfl,
      unit position _ present, if_pos rfl]
  · obtain ⟨position', present', -⟩ := reduces.stuck k inside
    have away : position' ≠ position := by
      rintro rfl
      rw [present, Option.some_inj, Nat.add_left_cancel_iff] at present'
      exact other (Fin.ext present'.symm)
    rw [← artificial.vecMul_artificial w k (j := ⟨_, below inside⟩) rfl,
      unit position' _ present', if_neg away]
  · have inside : (j : ℕ) < t.problem.numVariables := by
      rw [artificial.numVariables_eq]
      exact j.isLt.trans_le (Nat.le_add_right _ _)
    rw [← artificial.vecMul_eq w (j := ⟨j, inside⟩) j.isLt]
    exact vanishes ⟨j, inside⟩ j.isLt
  · rw [← reduces.feasible.equations, dotProduct_mulVec]
    apply Finset.sum_eq_zero
    intro j _
    by_cases inside : (j : ℕ) ∈ t.basis
    · obtain ⟨i, rfl⟩ := basis.mem_range_iff.2 inside
      rw [unit i _ (basis.getElem?_eq i)]
      split
      · rename_i here
        have same := (basis.getElem?_eq i).symm.trans (here ▸ present)
        rw [one_mul]
        change t.values.getD (basis.column i) 0 = 0
        rw [Option.some_inj.1 same]
        exact reduces.artificial_zero member
      · exact zero_mul _
    · rw [reduces.feasible.zero j inside, mul_zero]

theorem redundant (reduces : t.Reduces p rows) : p.Redundant rows := by
  rw [LinearProgram.redundant_iff reduces.artificial.numEquations_eq.symm]
  refine ⟨⟨reduces.sorted, fun row member => reduces.lt_numEquations member⟩, fun r member => ?_,
    fun u zero vanishes => reduces.independent zero fun j _ => congrFun vanishes j⟩
  have dependent := reduces.dependent member
  rwa [reduces.artificial.sides_eq] at dependent

theorem solution (reduces : t.Reduces p []) :
    ∃ solution : p.BasicSolution t.basis (t.values.take p.numVariables),
      IsUnit solution.accepted.matrix := by
  have height := reduces.artificial.numEquations_eq.symm
  have accepted : p.IsBasis t.basis := by
    refine ⟨reduces.feasible.basis.length.trans height.symm, fun j member => ?_,
      reduces.feasible.basis.nodup⟩
    obtain ⟨k, present⟩ := List.mem_iff_getElem?.1 member
    simpa using reduces.covers k j present
  refine ⟨⟨(reduces.artificial.restrict reduces.feasible.feasible reduces.zero).1, accepted,
    fun j outside => ?_⟩, accepted.isUnit_matrix height fun u vanishes =>
      reduces.independent (by simp) vanishes⟩
  have inside : (j : ℕ) < t.problem.numVariables := by
    rw [reduces.artificial.numVariables_eq]
    exact j.isLt.trans_le (Nat.le_add_right _ _)
  have taken : toFun (t.values.take p.numVariables) p.numVariables j = t.point ⟨j, inside⟩ := by
    simp [toFun]
  rw [taken]
  exact reduces.feasible.zero ⟨j, inside⟩ outside

end Reduces

theorem Exchanged.reduces {last : Tableau ℚ}
    (after : t.Exchanged p.numVariables (t.basicArtificials p.numVariables) last rows)
    (wellFormed : t.WellFormed) (artificial : t.problem.IsArtificial p)
    (zero : t.problem.value t.values ≤ 0) : last.Reduces p rows := by
  refine ⟨after.feasible, ?_, ?_, after.sorted, fun k j present => ?_, fun row member => ?_⟩
  · rwa [after.problem_eq]
  · rwa [after.problem_eq, after.values_eq]
  · by_cases located : ∃ item ∈ t.basicArtificials p.numVariables, item.2 = k
    · obtain ⟨item, member, rfl⟩ := located
      exact after.replaced item member j present
    · have others : ∀ item ∈ t.basicArtificials p.numVariables, item.2 ≠ k :=
        fun item member same => located ⟨item, member, same⟩
      rw [after.others k others] at present
      refine Or.inl (not_le.1 fun above => ?_)
      exact others _ (mem_basicArtificials wellFormed.basis.nodup wellFormed.basis.lt present above) rfl
  · obtain ⟨item, -, -, present, blocked⟩ := after.stuck row member
    rw [← after.problem_eq] at blocked
    exact ⟨item.2, present, blocked⟩

end Tableau

namespace FeasibleStart

variable {p : LinearProgram ℚ}

inductive Finds (p : LinearProgram ℚ) : Finding ℚ → Prop
  | feasible (basis : List ℕ) (values : Vec ℚ) (solution : p.BasicSolution basis values)
      (regular : IsUnit solution.accepted.matrix) : Finds p (.feasible basis values)
  | redundant (rows : List ℕ) (nonempty : rows ≠ []) (redundant : p.Redundant rows) :
      Finds p (.redundant rows)

inductive EndsWith (p : LinearProgram ℚ) : Fault ℚ → Prop
  | singular : EndsWith p (.failed .singularMatrix)
  | infeasible (none : ∀ x, ¬p.Feasible x) : EndsWith p (.failed .infeasible)
  | exhausted : EndsWith p .iterationLimit

theorem conclude_eq {t : Tableau ℚ} {rows : List ℕ} (reduces : t.Reduces p rows) :
    ∃ finding, conclude t p.numVariables rows = .ok finding ∧ Finds p finding := by
  have ordered : rows.Pairwise (· ≤ ·) := reduces.sorted.imp le_of_lt
  rw [conclude, require_of ordered, ok_bind]
  cases rows with
  | nil =>
      obtain ⟨solution, regular⟩ := reduces.solution
      have inside : ∀ j ∈ t.basis, j < p.numVariables := solution.accepted.lt
      refine ⟨.feasible t.basis (t.values.take p.numVariables), ?_,
        .feasible _ _ solution regular⟩
      rw [if_pos List.isEmpty_nil, require_of inside, ok_bind, pure_eq_ok]
  | cons row rest =>
      refine ⟨.redundant (row :: rest), ?_, .redundant _ (by simp) reduces.redundant⟩
      rw [if_neg (by simp), pure_eq_ok]

theorem settle_yields {least : Tableau ℚ} (optimal : Primal.OptimalAt least.problem least)
    (artificial : least.problem.IsArtificial p) {config : Config ℚ} (exact : config.tolerance = 0)
    (iterations : ℕ) :
    (settle p config least iterations).outcome.Yields (Finds p) (EndsWith p) := by
  obtain ⟨feasible, -, exact', optimal⟩ := optimal
  simp only [settle, Traced.outcome_bind, Traced.outcome_lift, Traced.outcome_emit,
    feasible.objective_eq, ok_bind, exact, zero_mul]
  split
  · rename_i positive
    simp only [Traced.outcome_bind, Traced.outcome_emit, ok_bind, Traced.outcome_fail]
    refine .infeasible fun x feasibleX => ?_
    obtain ⟨z, feasibleZ, zero⟩ := artificial.extend feasibleX
    exact absurd (optimal.value_le z feasibleZ) (by rw [zero]; exact positive.not_ge)
  · rename_i nonpositive
    have zero := not_lt.1 nonpositive
    have none := artificial.getD_eq_zero feasible.feasible zero
    simp only [Traced.outcome_bind, Traced.outcome_lift]
    apply ((Tableau.exchangeArtificials_yields feasible exact' none
      (least.basicArtificials_locates p.numVariables)).mono_fault
      (by rintro _ rfl; exact EndsWith.singular)).bind
    intro given after
    obtain ⟨last, rows⟩ := given
    obtain ⟨finding, concluded, finds⟩ :=
      conclude_eq (after.reduces feasible.toWellFormed artificial zero)
    rw [concluded]
    exact finds

theorem find_yields (upkeep : Upkeep) (rule : PivotRule) {config : Config ℚ}
    (exact : config.tolerance = 0) (limit : ℕ) (nonneg : ∀ value ∈ p.rhs, 0 ≤ value) :
    (find p upkeep rule config limit).outcome.Yields (Finds p) (EndsWith p) := by
  obtain ⟨start, started, feasible, artificial, tolerance⟩ :=
    p.artificialStart_eq upkeep config nonneg
  have yields := Primal.run_yields rule config feasible (tolerance.trans exact) limit 0
  rw [find, Traced.outcome_bind, Traced.outcome_lift, started, ok_bind, Traced.outcome_bind,
    Primal.Run.optimum, Tableau.primal]
  cases ended : (Primal.run rule config limit 0 start).outcome with
  | error fault =>
      rw [ended] at yields
      rcases yields with (_ | ⟨d, ray⟩) | rfl
      · exact .singular
      · exact absurd ray (artificial.not_ray d)
      · exact .exhausted
  | ok iterations =>
      rw [ended] at yields
      have problem_eq := yields.problem_eq
      rw [← problem_eq] at artificial yields
      exact settle_yields yields artificial exact iterations

end FeasibleStart

end SimplexMethod
