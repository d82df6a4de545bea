import SimplexMethod.Proofs.ArtificialOptimum
import SimplexMethod.Proofs.RowBookkeeping

namespace SimplexMethod
open Matrix Vec Outcome

def Event.isRedundantRows {α : Type} : Event α → Bool
  | .redundantRows _ => true
  | _ => false

namespace Traced

variable {β γ : Type}

def redundantRounds (traced : Traced ℚ β) : ℕ := traced.events.countP Event.isRedundantRows

theorem redundantRounds_bind (first : Traced ℚ β) (next : β → Traced ℚ γ) {here later : ℕ}
    (bound : first.redundantRounds ≤ here)
    (rest : ∀ value, first.outcome = .ok value → (next value).redundantRounds ≤ later) :
    (first >>= next).redundantRounds ≤ here + later := by
  change (Traced.bind first next).redundantRounds ≤ here + later
  unfold Traced.bind
  cases ended : first.outcome with
  | error fault => exact bound.trans (Nat.le_add_right _ _)
  | ok value =>
      simp only [redundantRounds, List.countP_append]
      exact Nat.add_le_add bound (rest value ended)

def Quiet (traced : Traced ℚ β) : Prop := traced.redundantRounds ≤ 0

theorem Quiet.bind_of_outcome {first : Traced ℚ β} {next : β → Traced ℚ γ} (quiet : first.Quiet)
    (rest : ∀ value, first.outcome = .ok value → (next value).Quiet) : (first >>= next).Quiet :=
  redundantRounds_bind first next quiet rest

theorem Quiet.bind {first : Traced ℚ β} {next : β → Traced ℚ γ} (quiet : first.Quiet)
    (rest : ∀ value, (next value).Quiet) : (first >>= next).Quiet :=
  quiet.bind_of_outcome fun value _ => rest value

theorem quiet_pure (value : β) : (pure value : Traced ℚ β).Quiet := le_rfl

theorem quiet_lift (outcome : Outcome ℚ β) : (liftM outcome : Traced ℚ β).Quiet := le_rfl

theorem quiet_fail (failure : Failure ℚ) : (fail failure : Traced ℚ β).Quiet := le_rfl

theorem quiet_emit {event : Event ℚ} (other : event.isRedundantRows = false) :
    (emit event).Quiet := by
  simp [Quiet, redundantRounds, emit, other]

end Traced

open Traced

theorem Primal.step_quiet (rule : PivotRule) (config : Config ℚ) (iteration : ℕ) (t : Tableau ℚ) :
    (Primal.step rule config iteration t).Quiet := by
  unfold Primal.step
  refine (quiet_lift _).bind fun costs => (quiet_emit rfl).bind fun _ =>
    (quiet_lift _).bind fun prospect => ?_
  cases prospect with
  | optimal =>
      exact (quiet_lift _).bind fun _ => (quiet_emit rfl).bind fun _ => quiet_pure _
  | unbounded column => exact (quiet_emit rfl).bind fun _ => quiet_fail _
  | pivot cost pivot =>
      refine (quiet_emit rfl).bind fun _ => (quiet_lift _).bind fun next => ?_
      refine Quiet.bind ?_ fun _ => quiet_pure _
      unfold Primal.progress
      split
      · exact (quiet_lift _).bind fun _ => quiet_emit rfl
      · exact quiet_pure _

theorem Primal.run_quiet (rule : PivotRule) (config : Config ℚ) (limit iteration : ℕ)
    (t : Tableau ℚ) : (Primal.run rule config limit iteration t).optimum.Quiet := by
  induction limit generalizing iteration t with
  | zero => exact le_rfl
  | succ limit ih =>
      have quiet := Primal.step_quiet rule config iteration t
      unfold Primal.run
      simp only
      cases (Primal.step rule config iteration t).outcome with
      | error fault => exact quiet
      | ok result =>
          cases result with
          | none => exact quiet
          | some next =>
              simp only [Quiet, redundantRounds, Primal.Run.optimum, List.countP_append]
              exact Nat.add_le_add quiet (ih (iteration + 1) next)

theorem Tableau.exchangeArtificials_quiet (columns : ℕ) (items : List (ℕ × ℕ)) (t : Tableau ℚ) :
    (t.exchangeArtificials columns items).Quiet := by
  induction items generalizing t with
  | nil => exact quiet_pure _
  | cons item rest ih =>
      rw [Tableau.exchangeArtificials]
      refine (quiet_lift _).bind fun chosen => ?_
      cases chosen with
      | none => exact (ih t).bind fun _ => quiet_pure _
      | some entering =>
          exact (quiet_emit rfl).bind fun _ => (quiet_lift _).bind fun column =>
            (quiet_lift _).bind fun next => ih next

namespace FeasibleStart

variable {p : LinearProgram ℚ}

theorem settle_quiet (p : LinearProgram ℚ) (config : Config ℚ) (least : Tableau ℚ)
    (iterations : ℕ) : (settle p config least iterations).Quiet := by
  unfold settle
  refine (quiet_lift _).bind fun infeasibility => (quiet_emit rfl).bind fun _ => ?_
  split
  · exact (quiet_emit rfl).bind fun _ => quiet_fail _
  · exact (Tableau.exchangeArtificials_quiet _ _ _).bind fun result => quiet_lift _

theorem find_quiet (p : LinearProgram ℚ) (upkeep : Upkeep) (rule : PivotRule) (config : Config ℚ)
    (limit : ℕ) : (find p upkeep rule config limit).Quiet := by
  unfold find
  exact (quiet_lift _).bind fun start => (Primal.run_quiet rule config limit 0 start).bind
    fun ended => settle_quiet p config ended.1 ended.2

structure Settles (q : LinearProgram ℚ) (removed : List ℕ) (start : FeasibleStart ℚ) : Prop where
  problem_eq : start.problem = q
  removedRows_eq : start.removedRows = removed
  solution : q.BasicSolution start.basis start.values
  regular : IsUnit solution.accepted.matrix

theorem EndsWith.of_feasible {q : LinearProgram ℚ} {fault : Fault ℚ} (ends : EndsWith q fault)
    (carries : ∀ x, p.Feasible x → q.Feasible x) : EndsWith p fault := by
  cases ends with
  | singular => exact .singular
  | infeasible none => exact .infeasible fun x feasible => none x (carries x feasible)
  | exhausted => exact .exhausted

theorem create_settles {basis : List ℕ} {values : Vec ℚ} (removed : List ℕ)
    (solution : p.BasicSolution basis values) (regular : IsUnit solution.accepted.matrix) :
    ∃ start, create p basis values removed = .ok start ∧ Settles p removed start := by
  refine ⟨⟨p, basis, values, removed⟩, ?_, rfl, rfl, solution, regular⟩
  rw [create, require_of solution.accepted.length, ok_bind, require_of solution.length, ok_bind,
    pure_eq_ok]

theorem search_of_independent (upkeep : Upkeep) (rule : PivotRule) {config : Config ℚ}
    (exact : config.tolerance = 0) (limit rounds : ℕ) {r : Reduction ℚ}
    (nonneg : ∀ value ∈ r.problem.rhs, 0 ≤ value)
    (independent : ∀ more, r.problem.Redundant more → more = []) :
    (search upkeep rule config limit (rounds + 1) r).Quiet ∧
      (search upkeep rule config limit (rounds + 1) r).outcome.Yields
        (Settles r.problem (Reduction.sorted r.removed)) (EndsWith r.problem) := by
  have yields := find_yields upkeep rule exact limit nonneg
  rw [search]
  constructor
  · refine (find_quiet r.problem upkeep rule config limit).bind_of_outcome fun finding found => ?_
    cases yields.of_eq_ok found with
    | feasible basis values solution regular =>
        exact (quiet_emit rfl).bind fun _ => quiet_lift _
    | redundant rows nonempty redundant => exact absurd (independent rows redundant) nonempty
  · rw [Traced.outcome_bind]
    apply yields.bind
    intro _ either
    obtain ⟨basis, values, solution, regular⟩ | ⟨rows, nonempty, redundant⟩ := either
    · obtain ⟨start, created, settles⟩ :=
        create_settles (Reduction.sorted r.removed) solution regular
      simp only [Traced.outcome_bind, Traced.outcome_emit, ok_bind, Traced.outcome_lift, created]
      exact settles
    · exact absurd (independent rows redundant) nonempty

structure Represents (p : LinearProgram ℚ) (start : FeasibleStart ℚ) : Prop where
  problem_eq : start.problem = p.normalize.dropRows start.removedRows
  redundant : p.normalize.Redundant start.removedRows
  solution : start.problem.BasicSolution start.basis start.values
  regular : IsUnit solution.accepted.matrix

theorem redundant_nil {basis : List ℕ} {accepted : p.IsBasis basis}
    (regular : IsUnit accepted.matrix) : p.Redundant [] := by
  refine ⟨⟨.nil, by simp⟩, by simp, fun u _ vanishes => ?_⟩
  have onBasis : u ᵥ* accepted.matrix = 0 ᵥ* accepted.matrix := by
    rw [zero_vecMul]
    funext i
    exact congrFun vanishes (accepted.column i)
  exact vecMul_injective_iff_isUnit.2 regular onBasis

theorem Settles.represents {removed : List ℕ} {start : FeasibleStart ℚ}
    (redundant : p.normalize.Redundant removed)
    (settles : Settles (p.normalize.dropRows removed) removed start) : Represents p start := by
  obtain ⟨problem, basis, values, removedRows⟩ := start
  obtain ⟨problem_eq, removedRows_eq, solution, regular⟩ := settles
  simp only at problem_eq removedRows_eq
  subst removedRows_eq problem_eq
  exact ⟨rfl, redundant, solution, regular⟩

theorem sorted_of_selection {rows : List ℕ} {n : ℕ} (selection : IsSelection rows n) :
    Reduction.sorted rows = rows := by
  rw [Reduction.sorted_eq]
  exact (selection.1.imp le_of_lt).insertionSort_eq

theorem takeOut_first {rows : List ℕ} (redundant : p.normalize.Redundant rows) :
    (Reduction.first p).takeOut rows =
      .ok ⟨p.normalize.dropRows rows, kept p.numEquations rows, rows⟩ := by
  have selection : IsSelection rows (Reduction.first p).problem.numEquations := redundant.selection
  have length : (Reduction.first p).remaining.length =
      (Reduction.first p).problem.numEquations :=
    List.length_range.trans p.numEquations_normalize.symm
  have positions : dropPositions (List.range p.numEquations) rows = kept p.numEquations rows := by
    rw [dropPositions_eq _ _ 0, List.length_range]
    refine (List.map_congr_left fun i member => ?_).trans (List.map_id _)
    have inside := (mem_kept_iff.1 member).1
    simp [inside]
  have removed : rows.map (fun i => (List.range p.numEquations).getD i 0) = rows := by
    refine (List.map_congr_left fun i member => ?_).trans (List.map_id _)
    have inside := (selection.2 i member).trans_eq p.numEquations_normalize
    simp [inside]
  rw [Reduction.takeOut_eq_ok selection length]
  simp only [Reduction.first, positions, removed, List.nil_append]

theorem search_dropRows (upkeep : Upkeep) (rule : PivotRule) {config : Config ℚ}
    (exact : config.tolerance = 0) (limit : ℕ) {rows : List ℕ} (nonempty : rows ≠ [])
    (redundant : p.normalize.Redundant rows) (remaining : List ℕ) :
    (search upkeep rule config limit p.numEquations
        ⟨p.normalize.dropRows rows, remaining, rows⟩).Quiet ∧
      (search upkeep rule config limit p.numEquations
        ⟨p.normalize.dropRows rows, remaining, rows⟩).outcome.Yields
          (Settles (p.normalize.dropRows rows) rows) (EndsWith (p.normalize.dropRows rows)) := by
  have selection : IsSelection rows p.normalize.numEquations := redundant.selection
  rw [p.numEquations_normalize] at selection
  obtain ⟨rounds, count⟩ : ∃ rounds, rounds + 1 = p.numEquations := by
    obtain ⟨row, member⟩ := List.exists_mem_of_ne_nil rows nonempty
    have below := selection.2 row member
    exact ⟨p.numEquations - 1, by omega⟩
  have nonneg : ∀ value ∈ (p.normalize.dropRows rows).rhs, 0 ≤ value := fun value member =>
    p.rhs_normalize_nonneg value (LinearProgram.mem_rhs_of_dropRows member)
  have last := search_of_independent upkeep rule exact limit rounds
    (r := ⟨p.normalize.dropRows rows, remaining, rows⟩) nonneg
    fun more extra => redundant.eq_nil extra
  rwa [sorted_of_selection selection, count] at last

theorem search_yields (p : LinearProgram ℚ) (upkeep : Upkeep) (rule : PivotRule)
    {config : Config ℚ} (exact : config.tolerance = 0) (limit : ℕ) :
    (search upkeep rule config limit (p.numEquations + 1)
        (Reduction.first p)).redundantRounds ≤ 1 ∧
      (search upkeep rule config limit (p.numEquations + 1) (Reduction.first p)).outcome.Yields
        (Represents p) (EndsWith p) := by
  have yields : (find (Reduction.first p).problem upkeep rule config limit).outcome.Yields
      (Finds p.normalize) (EndsWith p.normalize) :=
    find_yields upkeep rule exact limit p.rhs_normalize_nonneg
  rw [search]
  constructor
  · refine (redundantRounds_bind _ _ (find_quiet _ upkeep rule config limit)
      fun finding found => ?_).trans_eq (zero_add 1)
    cases yields.of_eq_ok found with
    | feasible basis values solution regular =>
        exact ((quiet_emit rfl).bind fun _ => quiet_lift _).trans zero_le_one
    | redundant rows nonempty redundant =>
        have emitted : (emit (Event.redundantRows rows) : Traced ℚ Unit).redundantRounds ≤ 1 :=
          le_rfl
        -- what remains is independent, so that the next round is the last
        refine (redundantRounds_bind _ _ emitted fun _ _ => ?_).trans_eq (add_zero 1)
        refine (quiet_lift _).bind_of_outcome fun result took => ?_
        rw [Traced.outcome_lift, takeOut_first redundant] at took
        cases took
        exact (search_dropRows upkeep rule exact limit nonempty redundant _).1
  · rw [Traced.outcome_bind]
    refine (yields.mono_fault fun fault ends => ?_).bind ?_
    · exact ends.of_feasible fun x feasible => (p.feasible_normalize_iff x).2 feasible
    · intro _ either
      obtain ⟨basis, values, solution, regular⟩ | ⟨rows, nonempty, redundant⟩ := either
      · obtain ⟨start, created, settles⟩ := create_settles [] solution regular
        simp only [Traced.outcome_bind, Traced.outcome_emit, ok_bind, Traced.outcome_lift]
        rw [← p.normalize.dropRows_nil] at settles
        exact (congrArg (Yields · _ _) created).mpr (settles.represents (redundant_nil regular))
      · simp only [Traced.outcome_bind, Traced.outcome_emit, ok_bind, Traced.outcome_lift,
          takeOut_first redundant]
        have next := (search_dropRows upkeep rule exact limit nonempty redundant
          (kept p.numEquations rows)).2
        apply next.mono (fun start settles => settles.represents redundant)
        intro fault ends
        apply ends.of_feasible
        intro x feasible
        rw [redundant.feasible_dropRows_iff, p.feasible_normalize_iff]
        exact feasible

end FeasibleStart

namespace LinearProgram

open FeasibleStart

theorem findFeasible_yields (p : LinearProgram ℚ) (upkeep : Upkeep) (rule : PivotRule)
    {config : Config ℚ} (exact : config.tolerance = 0) (limit : ℕ) :
    (p.findFeasible upkeep rule config limit).redundantRounds ≤ 1 ∧
      (p.findFeasible upkeep rule config limit).outcome.Yields (Represents p)
        (FeasibleStart.EndsWith p) := by
  obtain ⟨rounds, yields⟩ := search_yields p upkeep rule exact limit
  unfold findFeasible
  split
  · constructor
    · exact (redundantRounds_bind _ _ (quiet_emit rfl) fun _ _ => rounds).trans_eq (zero_add 1)
    · rw [Traced.outcome_bind, Traced.outcome_emit, ok_bind]
      exact yields
  · exact ⟨rounds, yields⟩

/-- A basic feasible solution of an equivalent problem, the equations of which are independent. -/
structure Restated (p : LinearProgram ℚ) (start : FeasibleStart ℚ) : Prop where
  feasible_iff : ∀ x, start.problem.Feasible x ↔ p.Feasible x
  cost_eq : start.problem.cost = p.cost
  full_rank : start.problem.matrix.rank = start.problem.numEquations
  selection : IsSelection start.removedRows p.numEquations
  row_mem_span : ∀ r : Fin p.numEquations, (r : ℕ) ∈ start.removedRows →
    p.matrix.row r ∈ Submodule.span ℚ (p.matrix.row '' {k | (k : ℕ) ∉ start.removedRows})
  length_add_rank : start.removedRows.length + p.matrix.rank = p.numEquations
  accepted : start.problem.IsBasis start.basis
  regular : IsUnit accepted.matrix
  length : start.values.length = start.problem.numVariables
  basic : ∀ i, toFun start.values start.problem.numVariables (accepted.column i) =
    (accepted.matrix⁻¹ *ᵥ start.problem.sides) i
  zero : ∀ j : Fin start.problem.numVariables, (j : ℕ) ∉ start.basis →
    toFun start.values start.problem.numVariables j = 0
  nonneg : ∀ value ∈ start.values, 0 ≤ value

theorem restated_of_represents {p : LinearProgram ℚ} {start : FeasibleStart ℚ}
    (represents : Represents p start) : p.Restated start := by
  obtain ⟨problem, basis, values, removedRows⟩ := start
  obtain ⟨problem_eq, redundant, solution, regular⟩ := represents
  simp only at problem_eq redundant solution regular
  subst problem_eq
  have original := redundant.of_normalize
  have accepted := solution.accepted
  refine ⟨fun x => ?_, rfl, ?_, original.selection, fun r member => original.row_mem_span r member,
    original.length_add_rank, accepted, regular, solution.length, fun i => ?_, solution.zero,
    solution.nonneg⟩
  · exact (redundant.feasible_dropRows_iff x).trans (p.feasible_normalize_iff x)
  · simpa using (redundant_nil regular).length_add_rank
  · exact congrFun (accepted.values_eq regular solution.zero solution.equations) i

/-- What is found in place of a problem is equivalent to it, of full rank, and comes with a basic
feasible solution, and a problem called infeasible has no feasible point. -/
theorem findFeasible_sound (p : LinearProgram ℚ) (upkeep : Upkeep) (rule : PivotRule)
    {config : Config ℚ} (exact : config.tolerance = 0) (limit : ℕ) :
    (∀ start, (p.findFeasible upkeep rule config limit).outcome = .ok start → p.Restated start) ∧
    ((p.findFeasible upkeep rule config limit).outcome = .error (.failed .infeasible) →
      ∀ x, ¬p.Feasible x) ∧
    (p.findFeasible upkeep rule config limit).redundantRounds ≤ 1 := by
  obtain ⟨rounds, yields⟩ := p.findFeasible_yields upkeep rule exact limit
  refine ⟨fun start found => restated_of_represents (yields.of_eq_ok found), fun called => ?_, rounds⟩
  have ends := yields.of_eq_error called
  cases ends with
  | infeasible none => exact none

def doubled : LinearProgram ℚ where
  cost := [2, 1, 0]
  constraints := ⟨[[1, 1, 0], [-1, -1, 0]], 3, by decide⟩
  rhs := [2, -2]
  cost_length := rfl
  rhs_length := rfl
  height_lt_width := by decide

theorem findFeasible_sound_doubled :
    ∃ start, (doubled.findFeasible .productForm .leastIndex ⟨0, 0, true⟩ 9).outcome = .ok start ∧
      start.removedRows = [1] ∧ doubled.Restated start := by
  have ran : (doubled.findFeasible .productForm .leastIndex ⟨0, 0, true⟩ 9).outcome.toOption.map
      FeasibleStart.removedRows = some [1] := by decide +kernel
  cases found : (doubled.findFeasible .productForm .leastIndex ⟨0, 0, true⟩ 9).outcome with
  | error fault =>
      rw [found] at ran
      cases ran
  | ok start =>
      rw [found] at ran
      exact ⟨start, rfl, Option.some_inj.1 ran,
        (doubled.findFeasible_sound .productForm .leastIndex rfl 9).1 start found⟩

end LinearProgram

end SimplexMethod
