import SimplexMethod.Proofs.FeasibleStart
import SimplexMethod.Proofs.TolerantRun

namespace SimplexMethod
open Matrix Vec Outcome

namespace Tableau

variable {t : Tableau ℚ}

theorem exchangeArtificials_keeps (supported : t.Supported) (columns : ℕ) {items : List (ℕ × ℕ)}
    (inside : ∀ item ∈ items, item.2 < t.problem.numEquations) :
    (t.exchangeArtificials columns items).outcome.Yields (fun result => result.1.Follows t)
      (· = .failed .singularMatrix) := by
  induction items generalizing t with
  | nil => exact supported.follows
  | cons item rest ih =>
      obtain ⟨artificial, position⟩ := item
      obtain ⟨row, rfl⟩ : ∃ row : Fin t.problem.numEquations, position = row :=
        ⟨⟨position, inside _ List.mem_cons_self⟩, rfl⟩
      have later : ∀ item ∈ rest, item.2 < t.problem.numEquations := fun item member =>
        inside item (List.mem_cons_of_mem _ member)
      obtain ⟨chosen, found, outside⟩ := supported.replacement_outside columns row
      rw [exchangeArtificials, Traced.outcome_bind, Traced.outcome_lift, found, ok_bind]
      cases chosen with
      | none =>
          simp only [Traced.outcome_bind, Traced.outcome_pure]
          exact (ih supported later).bind fun result follows => follows
      | some entering =>
          obtain ⟨-, below, fresh⟩ := outside entering rfl
          obtain ⟨entering, rfl⟩ : ∃ j : Fin t.problem.numVariables, entering = j :=
            ⟨⟨entering, below⟩, rfl⟩
          obtain ⟨column, computed, length, entries⟩ := supported.express_eq entering
          simp only [Traced.outcome_bind, Traced.outcome_emit, Traced.outcome_lift, ok_bind, computed]
          apply (supported.exchange_yields fresh row length entries 0).bind
          intro next follows
          exact (ih follows.supported (by rwa [follows.problem_eq])).mono
            (fun _ exchanged => exchanged.trans follows) fun _ fault => fault

end Tableau

namespace LinearProgram

structure SupportedOn (p : LinearProgram ℚ) (basis : List ℕ) (x : Vec ℚ) : Prop where
  accepted : p.IsBasis basis
  length : x.length = p.numVariables
  zero : ∀ j : Fin p.numVariables, (j : ℕ) ∉ basis → toFun x p.numVariables j = 0

end LinearProgram

namespace FeasibleStart

variable {p : LinearProgram ℚ}

def Finding.Keeps (p : LinearProgram ℚ) : Finding ℚ → Prop
  | .feasible basis values => p.SupportedOn basis values
  | .redundant rows => rows ≠ []

theorem conclude_keeps {t : Tableau ℚ} (supported : t.Supported)
    (artificial : t.problem.IsArtificial p) (rows : List ℕ) :
    (conclude t p.numVariables rows).Yields (Finding.Keeps p) (· = .requirement) := by
  rw [conclude]
  apply (require_yields _).bind
  intro _ _
  split
  · apply (require_yields _).bind
    intro _ below
    have fits : p.numVariables ≤ t.problem.numVariables := by
      rw [artificial.numVariables_eq]
      exact Nat.le_add_right _ _
    refine ⟨⟨supported.basis.length.trans artificial.numEquations_eq, below, supported.basis.nodup⟩,
      ?_, fun j outside => ?_⟩
    · rw [List.length_take, supported.length, min_eq_left fits]
    · have taken : toFun (t.values.take p.numVariables) p.numVariables j =
          t.point ⟨j, j.isLt.trans_le fits⟩ := by simp [toFun]
      rw [taken]
      exact supported.zero ⟨j, j.isLt.trans_le fits⟩ outside
  · rename_i nonempty
    exact fun none => nonempty (List.isEmpty_iff.2 none)

theorem find_outcome (upkeep : Upkeep) (rule : PivotRule) (config : Config ℚ) (limit : ℕ)
    {start : Tableau ℚ} (started : p.artificialStart upkeep config = .ok start) :
    (find p upkeep rule config limit).outcome =
      (start.primal rule config limit).optimum.outcome >>= fun ended =>
        (settle p config ended.1 ended.2).outcome := by
  rw [find, Traced.outcome_bind, Traced.outcome_lift, started, ok_bind, Traced.outcome_bind]

theorem settle_keeps {least : Tableau ℚ} (supported : least.Supported)
    (artificial : least.problem.IsArtificial p) (config : Config ℚ) (iterations : ℕ) :
    (settle p config least iterations).outcome.Yields (Finding.Keeps p)
      (fun fault => fault = .requirement ∨ fault = .failed .singularMatrix ∨
        fault = .failed .infeasible) := by
  simp only [settle, Traced.outcome_bind, Traced.outcome_lift, Traced.outcome_emit,
    supported.objective_eq, ok_bind]
  split
  · exact Or.inr (Or.inr rfl)
  · simp only [Traced.outcome_bind, Traced.outcome_lift]
    have inside : ∀ item ∈ least.basicArtificials p.numVariables,
        item.2 < least.problem.numEquations := by
      intro item member
      have present := (least.basicArtificials_locates p.numVariables).located item member
      rw [← supported.basis.length]
      exact (List.getElem?_eq_some_iff.1 present).1
    apply ((Tableau.exchangeArtificials_keeps supported p.numVariables inside).mono_fault
      fun _ singular => Or.inr (Or.inl singular)).bind
    intro result follows
    refine (conclude_keeps follows.supported ?_ result.2).mono_fault
      fun _ required => Or.inl required
    rwa [follows.problem_eq]

theorem find_keeps (p : LinearProgram ℚ) (upkeep : Upkeep) (rule : PivotRule) (config : Config ℚ)
    (limit : ℕ) (nonneg : ∀ value ∈ p.rhs, 0 ≤ value) :
    (find p upkeep rule config limit).outcome.Yields (Finding.Keeps p)
      (fun fault => ¬fault.RejectsInput) := by
  obtain ⟨t, started, feasible, artificial, -⟩ := p.artificialStart_eq upkeep config nonneg
  rw [find_outcome upkeep rule config limit started, Tableau.primal]
  apply ((Primal.run_keeps rule config feasible.supported limit 0).mono_fault
    fun _ ends => Primal.not_rejectsInput ends).bind
  intro ended follows
  obtain ⟨supported, problem_eq, -⟩ := follows
  rw [← problem_eq] at artificial
  refine (settle_keeps supported artificial config ended.2).mono_fault ?_
  rintro _ (rfl | rfl | rfl) <;> exact not_false

theorem find_eq_error_iff (upkeep : Upkeep) (rule : PivotRule) (config : Config ℚ) (limit : ℕ)
    (nonneg : ∀ value ∈ p.rhs, 0 ≤ value) {fault : Fault ℚ}
    (late : fault = .failed .unbounded ∨ fault = .iterationLimit) :
    (find p upkeep rule config limit).outcome = .error fault ↔
      ∃ t, p.artificialStart upkeep config = .ok t ∧
        (t.primal rule config limit).outcome = .error fault := by
  obtain ⟨t, started, feasible, artificial, -⟩ := p.artificialStart_eq upkeep config nonneg
  have keeps := Primal.run_keeps rule config feasible.supported limit 0
  rw [find_outcome upkeep rule config limit started, started]
  simp only [Except.ok.injEq, exists_eq_left', Tableau.primal]
  rw [Primal.Run.optimum] at keeps ⊢
  cases ended : (Primal.run rule config limit 0 t).outcome with
  | error fault' => simp [Except.map]
  | ok iterations =>
      rw [ended] at keeps
      obtain ⟨supported, problem_eq, -⟩ := keeps
      rw [← problem_eq] at artificial
      refine iff_of_false (fun failed => ?_) (by simp)
      rcases (settle_keeps supported artificial config iterations).of_eq_error failed with
        rfl | rfl | rfl <;> simp at late

end FeasibleStart

namespace LinearProgram

theorem rhs_nonneg_of_reduction? {p : LinearProgram ℚ} {upkeep : Upkeep} {rule : PivotRule}
    {config : Config ℚ} {limit k : ℕ} {r : Reduction ℚ}
    (comes : p.reduction? upkeep rule config limit k = some r) :
    ∀ value ∈ r.problem.rhs, 0 ≤ value := by
  rw [(reduction?_accounted comes).restricts.rhs_eq]
  intro value member
  obtain ⟨i, -, rfl⟩ := List.mem_map.1 member
  exact getD_nonneg p.rhs_normalize_nonneg i

theorem findFeasible_keeps (p : LinearProgram ℚ) (upkeep : Upkeep) (rule : PivotRule)
    (config : Config ℚ) (limit : ℕ) :
    (p.findFeasible upkeep rule config limit).outcome.Yields
      (fun start => start.problem.SupportedOn start.basis start.values)
      (fun fault => ¬fault.RejectsInput) := by
  cases searched : (p.findFeasible upkeep rule config limit).outcome with
  | error fault =>
      obtain ⟨k, r, comes, failed⟩ := FeasibleStart.findFeasible_eq_error_iff.1 searched
      exact (FeasibleStart.find_keeps r.problem upkeep rule config limit
        (rhs_nonneg_of_reduction? comes)).of_eq_error failed
  | ok start =>
      obtain ⟨k, r, comes, ends⟩ := (findFeasible_outcome_eq_iff _).1 searched
      cases ends with
      | found found => exact (FeasibleStart.find_keeps r.problem upkeep rule config limit
          (rhs_nonneg_of_reduction? comes)).of_eq_ok found

variable {p : LinearProgram ℚ} {basis : List ℕ} {config : Config ℚ}

theorem IsBasis.solvePrimal_yields (accepted : p.IsBasis basis) (upkeep : Upkeep) (rule : PivotRule)
    (config : Config ℚ) (limit : ℕ) :
    (p.solvePrimal upkeep rule basis config limit).outcome.Yields
      (fun _ => ∀ i, -config.tolerance ≤ (accepted.matrix⁻¹ *ᵥ p.sides) i)
      (fun fault => fault.RejectsInput → IsUnit accepted.matrix ∧
        ∃ i, (accepted.matrix⁻¹ *ᵥ p.sides) i < -config.tolerance ∧
          fault = .failed (.invalidBasis (.negativeValue i ((accepted.matrix⁻¹ *ᵥ p.sides) i)))) := by
  rw [solvePrimal, Traced.outcome_bind, Traced.outcome_lift]
  refine ((accepted.primalStart_yields upkeep config).mono_fault ?_).bind ?_
  · rintro _ (rfl | ⟨regular, i, negative, rfl⟩) rejects
    · exact rejects.elim
    · exact ⟨regular, i, negative, rfl⟩
  · intro t given
    obtain ⟨-, bounded, basic, -⟩ := given
    rw [Traced.outcome_bind, Tableau.primal]
    apply ((Primal.run_keeps rule config basic.supported limit 0).mono_fault
      fun _ ends rejects => absurd rejects (Primal.not_rejectsInput ends)).bind
    intro ended follows
    obtain ⟨last, iterations⟩ := ended
    have solved := solution_eq follows.supported.toWellFormed iterations
    simp only [Traced.outcome_lift, solved]
    exact bounded

theorem IsBasis.solvePrimal_of_negative (accepted : p.IsBasis basis) (upkeep : Upkeep)
    (rule : PivotRule) (limit : ℕ) {i : Fin p.numEquations}
    (negative : (accepted.matrix⁻¹ *ᵥ p.sides) i < -config.tolerance) :
    ∃ fault, (p.solvePrimal upkeep rule basis config limit).outcome = .error fault ∧
      (fault = .failed .singularMatrix ∨ ∃ defect, fault = .failed (.invalidBasis defect)) := by
  rw [solvePrimal, Traced.outcome_bind, Traced.outcome_lift]
  have yields := accepted.primalStart_yields upkeep config
  cases started : p.primalStart upkeep basis config with
  | ok t =>
      obtain ⟨-, bounded, -⟩ := yields.of_eq_ok started
      exact absurd negative (bounded i).not_gt
  | error fault =>
      refine ⟨fault, rfl, ?_⟩
      rcases yields.of_eq_error started with singular | ⟨-, k, -, refused⟩
      · exact Or.inl singular
      · exact Or.inr ⟨_, refused⟩

theorem SupportedOn.solvePrimal_accepts {x : Vec ℚ} (supported : p.SupportedOn basis x)
    (bounded : ∀ value ∈ x, -config.tolerance ≤ value)
    (equations : p.matrix *ᵥ toFun x p.numVariables = p.sides) (upkeep : Upkeep) (rule : PivotRule)
    (limit : ℕ) (defect : BasisDefect ℚ) :
    (p.solvePrimal upkeep rule basis config limit).outcome ≠
      .error (.failed (.invalidBasis defect)) := by
  intro refused
  obtain ⟨accepted, length, zero⟩ := supported
  obtain ⟨regular, i, negative, -⟩ :=
    (accepted.solvePrimal_yields upkeep rule config limit).of_eq_error refused trivial
  rw [← accepted.values_eq regular zero equations] at negative
  have inside : (accepted.column i : ℕ) < x.length := (accepted.column i).isLt.trans_eq length.symm
  have member : toFun x p.numVariables (accepted.column i) ∈ x := by
    simp [toFun, inside]
  exact (bounded _ member).not_gt negative

end LinearProgram

/-- The second phase refuses a start exactly for a negative entry of the point of its basis, unless
it calls the basis matrix singular. -/
structure FeasibleStart.HandedOver (start : FeasibleStart ℚ) (config : Config ℚ) : Prop where
  accepted : start.problem.IsBasis start.basis
  refused (upkeep rule limit defect)
    (refused : (start.problem.solvePrimal upkeep rule start.basis config limit).outcome =
      .error (.failed (.invalidBasis defect))) :
    ∃ i, (accepted.matrix⁻¹ *ᵥ start.problem.sides) i < -config.tolerance ∧
      defect = .negativeValue i ((accepted.matrix⁻¹ *ᵥ start.problem.sides) i)
  negative (upkeep rule limit i)
    (negative : (accepted.matrix⁻¹ *ᵥ start.problem.sides) i < -config.tolerance) :
    ∃ fault, (start.problem.solvePrimal upkeep rule start.basis config limit).outcome = .error fault ∧
      (fault = .failed .singularMatrix ∨ ∃ defect, fault = .failed (.invalidBasis defect))
  solution (bounded : ∀ value ∈ start.values, -config.tolerance ≤ value)
    (equations : start.problem.matrix *ᵥ toFun start.values start.problem.numVariables =
      start.problem.sides) (upkeep rule limit defect) :
    (start.problem.solvePrimal upkeep rule start.basis config limit).outcome ≠
      .error (.failed (.invalidBasis defect))

namespace LinearProgram

variable {p : LinearProgram ℚ} {config : Config ℚ}

theorem SupportedOn.handedOver {start : FeasibleStart ℚ}
    (supported : start.problem.SupportedOn start.basis start.values) (config : Config ℚ) :
    start.HandedOver config := by
  refine ⟨supported.accepted, fun upkeep rule limit defect refused => ?_,
    fun upkeep rule limit i negative =>
      supported.accepted.solvePrimal_of_negative upkeep rule limit negative,
    fun bounded equations upkeep rule limit defect =>
      supported.solvePrimal_accepts bounded equations upkeep rule limit defect⟩
  obtain ⟨-, i, negative, same⟩ :=
    (supported.accepted.solvePrimal_yields upkeep rule config limit).of_eq_error refused trivial
  simp only [Fault.failed.injEq, Failure.invalidBasis.injEq] at same
  exact ⟨i, negative, same⟩

theorem solve_outcome {upkeep : Upkeep} {rule : PivotRule} {limit : ℕ} {start : FeasibleStart ℚ}
    (found : (p.findFeasible upkeep rule config limit).outcome = .ok start) :
    (p.solve upkeep rule config limit).outcome =
      (start.problem.solvePrimal upkeep rule start.basis config limit).outcome := by
  rw [solve, Traced.outcome_bind, found, ok_bind]
  dsimp only
  split
  · rw [Traced.outcome_bind, Traced.outcome_emit, ok_bind]
  · rfl

theorem solve_rejectsInput {upkeep : Upkeep} {rule : PivotRule} {limit : ℕ} {fault : Fault ℚ}
    (failed : (p.solve upkeep rule config limit).outcome = .error fault)
    (rejects : fault.RejectsInput) :
    ∃ start, (p.findFeasible upkeep rule config limit).outcome = .ok start ∧
      ∃ (accepted : start.problem.IsBasis start.basis) (i : Fin start.problem.numEquations),
        (accepted.matrix⁻¹ *ᵥ start.problem.sides) i < -config.tolerance ∧
        fault = .failed (.invalidBasis
          (.negativeValue i ((accepted.matrix⁻¹ *ᵥ start.problem.sides) i))) := by
  have keeps := p.findFeasible_keeps upkeep rule config limit
  cases found : (p.findFeasible upkeep rule config limit).outcome with
  | error fault' =>
      rw [solve, Traced.outcome_bind, found, error_bind] at failed
      cases failed
      exact absurd rejects (keeps.of_eq_error found)
  | ok start =>
      have accepted := (keeps.of_eq_ok found).accepted
      rw [solve_outcome found] at failed
      obtain ⟨-, i, negative, same⟩ :=
        (accepted.solvePrimal_yields upkeep rule config limit).of_eq_error failed rejects
      exact ⟨start, rfl, accepted, i, negative, same⟩

/-- Whatever the tolerance, a start that is found comes with a basis, and the second phase refuses it
only for a negative entry of the point of that basis: never if the values that come with it are a
solution, and never without a tolerance.  A solve finds no other fault with its input. -/
theorem findFeasible_handedOver (p : LinearProgram ℚ) (upkeep : Upkeep) (rule : PivotRule)
    (config : Config ℚ) (limit : ℕ) :
    (∀ start, (p.findFeasible upkeep rule config limit).outcome = .ok start →
      start.HandedOver config ∧ (config.tolerance = 0 → ∀ upkeep' rule' again defect,
        (start.problem.solvePrimal upkeep' rule' start.basis config again).outcome ≠
          .error (.failed (.invalidBasis defect)))) ∧
    ∀ failure, (p.solve upkeep rule config limit).outcome = .error (.failed failure) →
      (∀ cause, failure ≠ .dimensionMismatch cause) ∧
      ∀ defect, failure = .invalidBasis defect →
        ∃ start, (p.findFeasible upkeep rule config limit).outcome = .ok start ∧
          ∃ (accepted : start.problem.IsBasis start.basis) (i : Fin start.problem.numEquations),
            (accepted.matrix⁻¹ *ᵥ start.problem.sides) i < -config.tolerance ∧
            defect = .negativeValue i ((accepted.matrix⁻¹ *ᵥ start.problem.sides) i) := by
  constructor
  · intro start found
    have handed := ((p.findFeasible_keeps upkeep rule config limit).of_eq_ok found).handedOver config
    refine ⟨handed, fun exact upkeep' rule' again defect => ?_⟩
    have solution := ((p.findFeasible_yields upkeep rule exact limit).2.of_eq_ok found).solution
    refine handed.solution (fun value member => ?_) solution.equations upkeep' rule' again defect
    rw [exact, neg_zero]
    exact solution.nonneg value member
  · intro failure failed
    constructor
    · rintro cause rfl
      obtain ⟨start, -, accepted, i, -, same⟩ := solve_rejectsInput failed trivial
      cases same
    · rintro defect rfl
      obtain ⟨start, found, accepted, i, negative, same⟩ := solve_rejectsInput failed trivial
      simp only [Fault.failed.injEq, Failure.invalidBasis.injEq] at same
      exact ⟨start, found, accepted, i, negative, same⟩

/-- At the start the artificial variable is within a tolerance of 1 / 16, and the only column with an
entry large enough to take its place has a negative one. -/
def receding : LinearProgram ℚ where
  cost := [1, 1]
  constraints := ⟨[[-1 / 8, 1 / 64]], 2, by decide⟩
  rhs := [1 / 32]
  cost_length := rfl
  rhs_length := rfl
  height_lt_width := by decide

theorem findFeasible_handedOver_receding :
    ∃ start,
      (receding.findFeasible .reinversion .mostNegative ⟨1 / 16, 0, true⟩ 1).outcome = .ok start ∧
      start.HandedOver ⟨1 / 16, 0, true⟩ ∧
      ∃ (accepted : start.problem.IsBasis start.basis) (i : Fin start.problem.numEquations),
        (accepted.matrix⁻¹ *ᵥ start.problem.sides) i < -(1 / 16) := by
  obtain ⟨handed, faults⟩ :=
    receding.findFeasible_handedOver .reinversion .mostNegative ⟨1 / 16, 0, true⟩ 1
  have solved : (receding.solve .reinversion .mostNegative ⟨1 / 16, 0, true⟩ 1).outcome =
      .error (.failed (.invalidBasis (.negativeValue 0 (-1 / 4)))) := by decide +kernel
  obtain ⟨-, named⟩ := faults _ solved
  obtain ⟨start, found, accepted, i, negative, -⟩ := named _ rfl
  exact ⟨start, found, (handed start found).1, accepted, i, negative⟩

theorem exists_handedOver_refused :
    ∃ start,
      (receding.findFeasible .productForm .leastIndex ⟨1 / 16, 0, true⟩ 1).outcome = .ok start ∧
      (start.problem.solvePrimal .productForm .leastIndex start.basis ⟨1 / 16, 0, true⟩ 1).outcome =
        .error (.failed (.invalidBasis (.negativeValue 0 (-1 / 4)))) ∧
      (receding.solve .productForm .leastIndex ⟨1 / 16, 0, true⟩ 1).outcome =
        .error (.failed (.invalidBasis (.negativeValue 0 (-1 / 4)))) ∧
      receding.Feasible [0, 2] := by
  have solved : (receding.solve .productForm .leastIndex ⟨1 / 16, 0, true⟩ 1).outcome =
      .error (.failed (.invalidBasis (.negativeValue 0 (-1 / 4)))) := by decide +kernel
  have ran :
      (receding.findFeasible .productForm .leastIndex ⟨1 / 16, 0, true⟩ 1).outcome.toBool = true := by
    decide +kernel
  cases found : (receding.findFeasible .productForm .leastIndex ⟨1 / 16, 0, true⟩ 1).outcome with
  | error fault =>
      rw [found] at ran
      cases ran
  | ok start =>
      refine ⟨start, rfl, (solve_outcome found).symm.trans solved, solved, ?_⟩
      exact (isFeasible?_zero_iff rfl).1 (by decide +kernel)

end LinearProgram

end SimplexMethod
