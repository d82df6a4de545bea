import SimplexMethod.Proofs.CheckedRun

/-!
# Drift within a tolerance

With a tolerance a pivot may take variables below zero: those of the rows that the ratio test
ignores, and the entering one if the leaving one was negative already.  Of what is negative the
clamping takes away what lies within the tolerance, and no more, and every value that it changes
moves the point a little further away from the equations.  A run meets its requirements as long as
no pivot goes too far below zero and the changes do not add up to too much.
-/

namespace SimplexMethod
open Matrix Vec Outcome

theorem LinearProgram.isNearlyFeasible?_square (p : LinearProgram ℚ) (x : Vec ℚ) {root : ℚ}
    (nonneg : 0 ≤ root) : p.isNearlyFeasible? x (root * root) = p.isFeasible? x root := by
  have root_eq : √((root * root : ℚ) : ℝ) = root := by
    rw [Rat.cast_mul, Real.sqrt_mul_self (Rat.cast_nonneg.2 nonneg)]
  have positive : 0 ≤ root * root := mul_nonneg nonneg nonneg
  have above (value : ℚ) : Scalar.negSqrtLe (root * root) value = decide (-root ≤ value) := by
    rw [Bool.eq_iff_iff, Scalar.negSqrtLe_iff positive, decide_eq_true_iff, root_eq]
    exact_mod_cast Iff.rfl
  have near (scale distance : ℚ) :
      Scalar.leSqrtMul (root * root) scale distance = decide (distance ≤ root * scale) := by
    rw [Bool.eq_iff_iff, Scalar.leSqrtMul_iff positive, decide_eq_true_iff, root_eq]
    exact_mod_cast Iff.rfl
  rw [isNearlyFeasible?, isFeasible?, funext above, funext₂ near]

namespace Tableau

variable {t next : Tableau ℚ}

def residual (t : Tableau ℚ) (e : ℕ) : ℚ :=
  (t.problem.constraints.mulVec t.values).getD e 0 - t.problem.rhs.getD e 0

theorem WellFormed.residual_eq (wellFormed : t.WellFormed) (e : Fin t.problem.numEquations) :
    t.residual e = (t.problem.matrix *ᵥ t.point) e - t.problem.sides e := by
  have products : toFun (t.problem.constraints.mulVec t.values) t.problem.numEquations =
      t.problem.matrix *ᵥ t.point := RowMatrix.toFun_mulVec rfl rfl wellFormed.length
  rw [← products]
  rfl

theorem Basic.residual_eq_zero (basic : t.Basic) (e : Fin t.problem.numEquations) :
    t.residual e = 0 := by
  rw [basic.toWellFormed.residual_eq, basic.equations, sub_self]

theorem Supported.isBasicFeasible_iff (supported : t.Supported) {root : ℚ} (nonneg : 0 ≤ root)
    (square : t.tolerance = root * root) :
    t.isBasicFeasible = .ok true ↔ (∀ value ∈ t.values, -root ≤ value) ∧
      ∀ e : Fin t.problem.numEquations, |t.residual e| ≤ root * Max.max (supNorm t.problem.rhs) 1 := by
  have outside : (t.nonbasic.all fun j => t.values.getD j 0 == 0) = true := by
    rw [List.all_eq_true]
    intro j member
    obtain ⟨inside, other⟩ := supported.mem_nonbasic_iff.1 member
    exact beq_iff_eq.2 (supported.zero ⟨j, inside⟩ other)
  have tested := LinearProgram.isFeasible?_iff supported.length root
  simp only [← supported.residual_eq] at tested
  rw [← tested, isBasicFeasible, square, t.problem.isNearlyFeasible?_square _ nonneg, outside]
  cases t.problem.isFeasible? t.values root with
  | none => exact iff_of_false (fun tested => by cases tested) (by simp)
  | some answer => simp

theorem Basic.isBasicFeasible_iff (basic : t.Basic) {root : ℚ} (nonneg : 0 ≤ root)
    (square : t.tolerance = root * root)
    (bounded : ∀ value ∈ t.values, value < 0 → -t.tolerance ≤ value) :
    t.isBasicFeasible = .ok true ↔ root ≤ 1 ∨ ∀ value ∈ t.values, -root ≤ value := by
  have solved (e : Fin t.problem.numEquations) :
      |t.residual e| ≤ root * Max.max (supNorm t.problem.rhs) 1 := by
    rw [basic.residual_eq_zero, abs_zero]
    exact mul_nonneg nonneg (zero_le_one.trans (le_max_right _ _))
  rw [basic.supported.isBasicFeasible_iff nonneg square]
  constructor
  · exact fun feasible => Or.inr feasible.1
  · rintro (small | within)
    · refine ⟨fun value member => ?_, solved⟩
      rcases lt_or_ge value 0 with negative | above
      · -- only a root above 1 is less than its square
        have shrinks : t.tolerance ≤ root := square.trans_le (mul_le_of_le_one_left nonneg small)
        exact (neg_le_neg shrinks).trans (bounded value member negative)
      · exact (neg_nonpos.2 nonneg).trans above
    · exact ⟨within, solved⟩

/-- What the clamping of a pivot adds to the left-hand side of an equation. -/
def shift (t : Tableau ℚ) (pivot : Pivot ℚ) (e : ℕ) : ℚ :=
  ∑ i ∈ Finset.range t.problem.numEquations,
    t.problem.constraints.entry e (t.basis.getD i 0) * t.lift pivot.row pivot.column pivot.step i

/-- A pivot takes neither the entering variable nor one that the ratio test ignores further below
zero than given, unless the clamping brings it back. -/
structure Lands (t : Tableau ℚ) (pivot : Pivot ℚ) (root : ℚ) : Prop where
  entering : -root ≤ pivot.step
  ignored : ∀ i < t.numEquations, i ≠ pivot.row → pivot.column.getD i 0 ≤ t.tolerance →
    -root ≤ t.landing pivot.column pivot.step i ∨
      -t.tolerance < t.landing pivot.column pivot.step i

theorem neg_le_clamp_iff {root : ℚ} (nonneg : 0 ≤ root) (value : ℚ) :
    -root ≤ t.clamp value ↔ -root ≤ value ∨ -t.tolerance < value := by
  unfold clamp
  split
  · rename_i clamped
    exact iff_of_true (neg_nonpos.2 nonneg) (Or.inr clamped.2)
  · rename_i kept
    refine ⟨Or.inl, fun either => either.elim id fun above => ?_⟩
    have positive : 0 ≤ value := not_lt.1 fun below => kept ⟨below, above⟩
    exact (neg_nonpos.2 nonneg).trans positive

theorem WellFormed.shift_eq (wellFormed : t.WellFormed) (pivot : Pivot ℚ) (e : ℕ) :
    t.shift pivot e = ∑ i : Fin t.problem.numEquations,
      t.problem.constraints.entry e (wellFormed.column i) *
        t.lift pivot.row pivot.column pivot.step i := by
  rw [shift, Finset.sum_range]
  refine Finset.sum_congr rfl fun i _ => ?_
  rw [wellFormed.basis.getD_eq]

section Pivot

variable {supported : t.Supported} {entering : Fin t.problem.numVariables}
  {row : Fin t.problem.numEquations} {pivot : Pivot ℚ}

theorem WellFormed.Pivots.landing_nonneg {wellFormed : t.WellFormed}
    (pivots : wellFormed.Pivots pivot entering row) (positive : 0 ≤ t.tolerance)
    {i : Fin t.problem.numEquations} (large : t.tolerance < pivot.column.getD i 0) :
    0 ≤ t.landing pivot.column pivot.step i := by
  have entry : pivot.column.getD i 0 = WellFormed.expressed t entering i :=
    congrFun pivots.column_eq i
  have rises : 0 < WellFormed.expressed t entering i := by
    rw [← entry]
    exact positive.trans_lt large
  have bound := (le_div_iff₀ rises).1 (pivots.limits.step_le i (by rwa [← entry]))
  rw [wellFormed.landing_eq, entry]
  exact sub_nonneg.2 bound

theorem Supported.values_iff_lands (outside : (entering : ℕ) ∉ t.basis)
    (pivots : supported.Pivots pivot entering row) (positive : 0 ≤ t.tolerance)
    (pivoted : t.pivot pivot = .ok next) {root : ℚ} (nonneg : 0 ≤ root) :
    (∀ value ∈ next.values, -root ≤ value) ↔ t.Lands pivot root := by
  obtain ⟨wellFormed, inverse, members, rfl⟩ :=
    (supported.toWellFormed.pivot_yields outside pivots).of_eq_ok pivoted
  obtain ⟨atEntering, atLeaving, others, elsewhere⟩ :=
    supported.moveValues_entries outside row pivot.column pivot.step
  rw [forall_mem_iff wellFormed.length]
  simp only [toFun_apply]
  constructor
  · intro bounded
    refine ⟨(bounded entering).trans_eq atEntering, fun i below other small => ?_⟩
    have apart : (⟨i, below⟩ : Fin t.problem.numEquations) ≠ row := fun same =>
      other (by rw [pivots.row_eq, ← same])
    have value := bounded (supported.column ⟨i, below⟩)
    rw [others _ apart] at value
    exact (neg_le_clamp_iff nonneg _).1 value
  · intro lands j
    by_cases enters : j = entering
    · rw [enters, atEntering]
      exact lands.entering
    · by_cases inside : (j : ℕ) ∈ t.basis
      · obtain ⟨i, rfl⟩ := supported.basis.mem_range_iff.2 inside
        by_cases leaves : i = row
        · rw [leaves, atLeaving]
          exact neg_nonpos.2 nonneg
        · rw [others i leaves, neg_le_clamp_iff nonneg]
          -- the ratio test sees to the rows with an entry above the tolerance
          rcases lt_or_ge t.tolerance (pivot.column.getD i 0) with large | small
          · exact Or.inl ((neg_nonpos.2 nonneg).trans (pivots.landing_nonneg positive large))
          · refine lands.ignored i i.isLt (fun same => leaves ?_) small
            exact Fin.ext (same.trans pivots.row_eq)
      · have zero : t.values.getD j 0 = 0 := supported.zero j inside
        rw [elsewhere j (fun same => enters (Fin.ext same)) inside, zero]
        exact neg_nonpos.2 nonneg

theorem Supported.residual_pivot (outside : (entering : ℕ) ∉ t.basis)
    (pivots : supported.Pivots pivot entering row) (positive : 0 ≤ t.tolerance)
    (pivoted : t.pivot pivot = .ok next) (e : Fin t.problem.numEquations) :
    next.residual e = t.residual e + t.shift pivot e := by
  obtain ⟨wellFormed, inverse, members, rfl⟩ :=
    (supported.toWellFormed.pivot_yields outside pivots).of_eq_ok pivoted
  have direction : WellFormed.expressed t entering row ≠ 0 :=
    (positive.trans_lt pivots.limits.direction).ne'
  have reaches : pivot.step * WellFormed.expressed t entering row =
      t.point (supported.column row) := by
    rw [pivots.limits.step_eq, div_mul_cancel₀ _ direction]
  have moved := supported.toFun_moveValues outside (supported.zero entering outside)
    pivots.column_eq reaches
  have shifted : (t.problem.matrix *ᵥ
      spread supported.column fun i => t.lift row pivot.column pivot.step i) e = t.shift pivot e := by
    rw [mulVec_spread, supported.shift_eq, pivots.row_eq]
    rfl
  have image : (t.problem.matrix *ᵥ toFun (t.moveValues entering row pivot.column pivot.step)
      t.problem.numVariables) e = (t.problem.matrix *ᵥ t.point) e + t.shift pivot e := by
    -- along the edge the point keeps to the equations, so that only the clamping counts
    rw [moved, mulVec_add, mulVec_add, mulVec_smul, mulVec_edge supported.inverse.mul_eq_one,
      smul_zero, add_zero, Pi.add_apply, shifted]
  refine (wellFormed.residual_eq e).trans ?_
  rw [supported.residual_eq]
  linear_combination image

end Pivot

end Tableau

namespace Primal

variable {t s next : Tableau ℚ} (rule : PivotRule) (config : Config ℚ)

def nextShift (rule : PivotRule) (s : Tableau ℚ) (e : ℕ) : ℚ :=
  match s.prospect rule with
  | .ok (.pivot _ pivot) => s.shift pivot e
  | _ => 0

/-- What the clamping of the first pivots of a run has added to the left-hand side of an equation. -/
def drift (rule : PivotRule) (config : Config ℚ) (t : Tableau ℚ) (pivots e : ℕ) : ℚ :=
  ∑ k ∈ Finset.range pivots, ((visited rule config t k).map (nextShift rule · e)).getD 0

theorem drift_succ {pivots : ℕ} {cost : ℚ} {pivot : Pivot ℚ}
    (reached : visited rule config t pivots = some s)
    (offered : s.prospect rule = .ok (.pivot cost pivot)) (e : ℕ) :
    drift rule config t (pivots + 1) e = drift rule config t pivots e + s.shift pivot e := by
  rw [drift, Finset.sum_range_succ, reached, Option.map_some, Option.getD_some, nextShift, offered]
  rfl

theorem residual_eq_drift (supported : t.Supported) (positive : 0 ≤ t.tolerance)
    (solved : ∀ e < t.numEquations, t.residual e = 0) {pivots : ℕ}
    (reached : visited rule config t pivots = some s) {e : ℕ} (inside : e < t.numEquations) :
    s.residual e = drift rule config t pivots e := by
  induction pivots generalizing s with
  | zero =>
      cases reached
      exact solved e inside
  | succ pivots ih =>
      obtain ⟨before, reachedBefore, follows⟩ := iterate?_succ_eq_some_iff.1 reached
      obtain ⟨supported', problem_eq, tolerance_eq⟩ :=
        visited_follows rule config supported reachedBefore
      obtain ⟨-, cost, pivot, offered, pivoted⟩ :=
        (next?_eq_some_iff rule config supported'.toWellFormed).1 follows
      obtain ⟨j, row, enters, pivots'⟩ := supported'.exists_pivots offered
      have inside' : e < before.problem.numEquations := by
        rw [problem_eq]
        exact inside
      rw [drift_succ rule config reachedBefore offered, ← ih reachedBefore]
      exact supported'.residual_pivot enters.outside pivots' (tolerance_eq ▸ positive) pivoted
        ⟨e, inside'⟩

theorem isBasicFeasible_next_iff (supported : t.Supported) {root : ℚ} (nonneg : 0 ≤ root)
    (square : t.tolerance = root * root) (solved : ∀ e < t.numEquations, t.residual e = 0)
    {pivots : ℕ} {cost : ℚ} {pivot : Pivot ℚ} (reached : visited rule config t pivots = some s)
    (passes : s.checkFeasible config = .ok ())
    (offered : s.prospect rule = .ok (.pivot cost pivot)) (pivoted : s.pivot pivot = .ok next) :
    next.isBasicFeasible = .ok true ↔ s.Lands pivot root ∧ ∀ e < t.numEquations,
      |drift rule config t (pivots + 1) e| ≤ root * Max.max (supNorm t.problem.rhs) 1 := by
  have positive : 0 ≤ t.tolerance := square ▸ mul_nonneg nonneg nonneg
  obtain ⟨supported', -, tolerance_eq⟩ := visited_follows rule config supported reached
  obtain ⟨j, row, enters, pivots'⟩ := supported'.exists_pivots offered
  have follows := (next?_eq_some_iff rule config supported'.toWellFormed).2
    ⟨passes, cost, pivot, offered, pivoted⟩
  have reached' := visited_succ rule config reached follows
  obtain ⟨supportedNext, problem_eq, toleranceNext⟩ := visited_follows rule config supported reached'
  have residuals {e : ℕ} (inside : e < t.numEquations) :=
    residual_eq_drift rule config supported positive solved reached' inside
  rw [supportedNext.isBasicFeasible_iff nonneg (toleranceNext.trans square),
    supported'.values_iff_lands enters.outside pivots' (tolerance_eq ▸ positive) pivoted nonneg,
    problem_eq, Fin.forall_iff]
  refine and_congr Iff.rfl (forall₂_congr fun e inside => ?_)
  rw [residuals inside]

end Primal

namespace LinearProgram

variable {p : LinearProgram ℚ} {upkeep : Upkeep} {basis : List ℕ} {config : Config ℚ}
  {t : Tableau ℚ}

theorem primalStart_basic (started : p.primalStart upkeep basis config = .ok t) :
    t.Basic ∧ t.problem = p ∧ t.tolerance = config.tolerance ∧
      ∀ value ∈ t.values, value < 0 → -config.tolerance ≤ value := by
  cases checked : p.checkBasis basis with
  | error fault =>
      rw [primalStart, Tableau.start, checked] at started
      cases started
  | ok =>
      have accepted := checkBasis_eq_ok_iff.1 checked
      obtain ⟨-, bounded, basic, rfl, rfl, tolerance_eq⟩ :=
        (accepted.primalStart_yields upkeep config).of_eq_ok started
      refine ⟨basic, rfl, tolerance_eq, (forall_mem_iff basic.length).2 fun j negative => ?_⟩
      by_cases inside : (j : ℕ) ∈ t.basis
      · obtain ⟨i, rfl⟩ := basic.basis.mem_range_iff.2 inside
        have bound := bounded i
        rwa [← basic.values_eq] at bound
      · exact absurd (basic.zero j inside) negative.ne

/-- With a tolerance that is the square of a root every requirement of a run that checks its tableaux
is met if and only if its start is within the root, every pivot lands within it, and the drift never
moves an equation by more than the root allows at the scale of the right-hand sides. -/
theorem primal_meets_iff {root : ℚ} (nonneg : 0 ≤ root) (square : config.tolerance = root * root)
    (started : p.primalStart upkeep basis config = .ok t) (rule : PivotRule) :
    (∀ limit, (t.primal rule config limit).outcome ≠ .error .requirement) ↔
      (config.checked = true → (root ≤ 1 ∨ ∀ value ∈ t.values, -root ≤ value) ∧
      ∀ pivots s cost pivot next, Primal.visited rule config t pivots = some s →
        s.prospect rule = .ok (.pivot cost pivot) → s.pivot pivot = .ok next →
        s.Lands pivot root ∧ ∀ e < p.numEquations,
          |Primal.drift rule config t (pivots + 1) e| ≤ root * Max.max (supNorm p.rhs) 1) := by
  obtain ⟨basic, rfl, tolerance_eq, bounded⟩ := primalStart_basic started
  rw [← tolerance_eq] at square bounded
  have solved : ∀ e < t.numEquations, t.residual e = 0 := fun e inside =>
    basic.residual_eq_zero ⟨e, inside⟩
  have atStart := basic.isBasicFeasible_iff nonneg square bounded
  have afterPivot {pivots : ℕ} {s next : Tableau ℚ} {cost : ℚ} {pivot : Pivot ℚ}
      (reached : Primal.visited rule config t pivots = some s)
      (passes : s.checkFeasible config = .ok ())
      (offered : s.prospect rule = .ok (.pivot cost pivot)) (pivoted : s.pivot pivot = .ok next) :=
    Primal.isBasicFeasible_next_iff rule config basic.supported nonneg square solved reached passes
      offered pivoted
  unfold Tableau.primal
  rw [Primal.run_meets_iff rule config basic.supported]
  constructor
  · intro all checks
    have feasible {pivots : ℕ} {s : Tableau ℚ}
        (reached : Primal.visited rule config t pivots = some s) : s.isBasicFeasible = .ok true :=
      Tableau.checkFeasible_eq_ok_iff.1 (all pivots s reached) checks
    have initial : Primal.visited rule config t 0 = some t := rfl
    refine ⟨atStart.1 (feasible initial), ?_⟩
    intro pivots s cost pivot next reached offered pivoted
    have passes := all pivots s reached
    have supported := (Primal.visited_follows rule config basic.supported reached).supported
    have follows := (Primal.next?_eq_some_iff rule config supported.toWellFormed).2
      ⟨passes, cost, pivot, offered, pivoted⟩
    exact (afterPivot reached passes offered pivoted).1
      (feasible (Primal.visited_succ rule config reached follows))
  · intro given pivots s reached
    rw [Tableau.checkFeasible_eq_ok_iff]
    intro checks
    obtain ⟨within, lands⟩ := given checks
    cases pivots with
    | zero =>
        cases reached
        exact atStart.2 within
    | succ pivots =>
        obtain ⟨before, reachedBefore, follows⟩ := iterate?_succ_eq_some_iff.1 reached
        have supported := (Primal.visited_follows rule config basic.supported reachedBefore).supported
        obtain ⟨passes, cost, pivot, offered, pivoted⟩ :=
          (Primal.next?_eq_some_iff rule config supported.toWellFormed).1 follows
        exact (afterPivot reachedBefore passes offered pivoted).2
          (lands pivots before cost pivot s reachedBefore offered pivoted)

/-- The entry of the first column in the first row is not above a tolerance of 1 / 4, and the second
row lets the column grow to 100. -/
def overshooting : LinearProgram ℚ where
  cost := [-1, 0, 0]
  constraints := ⟨[[1 / 4, 1, 0], [1, 0, 1]], 3, by decide⟩
  rhs := [0, 100]
  cost_length := rfl
  rhs_length := rfl
  height_lt_width := by decide

theorem overshooting_outcome :
    ∃ t, overshooting.primalStart .productForm [1, 2] ⟨1 / 4, 0, true⟩ = .ok t ∧
      (t.primal .leastIndex ⟨1 / 4, 0, true⟩ 2).outcome = .error .requirement := by
  have fails : (overshooting.primalStart .productForm [1, 2] ⟨1 / 4, 0, true⟩).toOption.map (fun t =>
      (t.primal .leastIndex ⟨1 / 4, 0, true⟩ 2).outcome) = some (.error .requirement) := by
    decide +kernel
  obtain ⟨t, started, outcome⟩ := Option.map_eq_some_iff.1 fails
  exact ⟨t, toOption_eq_some_iff.1 started, outcome⟩

theorem primal_meets_iff_overshooting :
    ∃ t, overshooting.primalStart .productForm [1, 2] ⟨1 / 4, 0, true⟩ = .ok t ∧
      ¬∀ pivots s cost pivot next,
        Primal.visited .leastIndex ⟨1 / 4, 0, true⟩ t pivots = some s →
        s.prospect .leastIndex = .ok (.pivot cost pivot) → s.pivot pivot = .ok next →
        s.Lands pivot (1 / 2) ∧ ∀ e < overshooting.numEquations,
          |Primal.drift .leastIndex ⟨1 / 4, 0, true⟩ t (pivots + 1) e| ≤
            1 / 2 * Max.max (supNorm overshooting.rhs) 1 := by
  obtain ⟨t, started, fails⟩ := overshooting_outcome
  have half : (0 : ℚ) ≤ 1 / 2 := by norm_num
  have square : (1 / 4 : ℚ) = 1 / 2 * (1 / 2) := by norm_num
  refine ⟨t, started, fun lands => ?_⟩
  exact (primal_meets_iff half square started .leastIndex).2
    (fun _ => ⟨Or.inl (by norm_num), lands⟩) 2 fails

theorem exists_primal_requirement :
    ∃ t, overshooting.primalStart .productForm [1, 2] ⟨1 / 4, 0, true⟩ = .ok t ∧
      (t.primal .leastIndex ⟨1 / 4, 0, true⟩ 2).outcome = .error .requirement :=
  overshooting_outcome

end LinearProgram

end SimplexMethod
