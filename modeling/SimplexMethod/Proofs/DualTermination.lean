import SimplexMethod.Proofs.DualCycling
import SimplexMethod.Proofs.DualRun
import SimplexMethod.Proofs.Iteration

namespace SimplexMethod
open Matrix Vec Outcome

theorem multipliers_eq {m n : ℕ} {A : Matrix (Fin m) (Fin n) ℚ} {c : Fin n → ℚ} {σ : Fin m → Fin n}
    {N : Matrix (Fin m) (Fin m) ℚ} (inverse : N * A.submatrix id σ = 1) {y : Fin m → ℚ}
    (tight : ∀ i, reduced A c y (σ i) = 0) : y = multipliersOf c σ N := by
  have onBasis : y ᵥ* A.submatrix id σ = c ∘ σ := by
    funext i
    exact (sub_eq_zero.1 (tight i)).symm
  rw [multipliersOf, ← onBasis, vecMul_vecMul, mul_eq_one_comm.1 inverse, vecMul_one]

namespace Dual

variable {p : LinearProgram ℚ} {config : Config ℚ} {s next : State ℚ}

/-- No column of the basis smaller than the leaving one has a negative value. -/
def Deficit.LeavesLeast (basis : List ℕ) (deficit : Deficit ℚ) : Prop :=
  ∀ i < basis.length, deficit.basicValues.getD i 0 < 0 → deficit.leaving ≤ basis.getD i 0

def next? (p : LinearProgram ℚ) (config : Config ℚ) (s : State ℚ) : Option (State ℚ) :=
  match (step p config 0 s).outcome with
  | .ok (.next next) => some next
  | _ => none

def visited (p : LinearProgram ℚ) (config : Config ℚ) (s : State ℚ) (pivots : ℕ) :
    Option (State ℚ) :=
  iterate? (next? p config) s pivots

theorem step_next_iff (iteration : ℕ) :
    (step p config iteration s).outcome = .ok (.next next) ↔
      ∃ deficit entering ratio, locate p config s = .ok (.deficient deficit) ∧
        firstLeast? (candidates p config s.basis deficit) = some (entering, ratio) ∧
        move s deficit entering ratio = .ok next := by
  rw [outcome_step]
  cases located : locate p config s with
  | error fault => simp
  | ok position =>
      cases position with
      | optimal basicValues => simp [bind_eq_ok_iff]
      | deficient deficit =>
          cases found : firstLeast? (candidates p config s.basis deficit) with
          | none => simp [found, fail]
          | some candidate =>
              obtain ⟨entering, ratio⟩ := candidate
              simp [found, bind_eq_ok_iff]

theorem next?_eq_some_iff (iteration : ℕ) :
    next? p config s = some next ↔ (step p config iteration s).outcome = .ok (.next next) := by
  rw [step_next_iff, ← step_next_iff 0, next?]
  split
  · rename_i state stepped
    simp [stepped]
  · rename_i other
    exact iff_of_false (by simp) (other next)

theorem next?_eq_none (iteration : ℕ)
    (ended : ∀ next, (step p config iteration s).outcome ≠ .ok (.next next)) :
    next? p config s = none := by
  apply Option.eq_none_iff_forall_ne_some.2
  intro next follows
  exact ended next ((next?_eq_some_iff iteration).1 follows)

theorem WellFormed.outcome_eq_iterationLimit_iff (wellFormed : WellFormed p s)
    (exact : config.tolerance = 0) (limit iteration : ℕ) :
    (run p config limit iteration s).outcome = .error .iterationLimit ↔
      visited p config s limit ≠ none := by
  induction limit generalizing iteration s with
  | zero => exact iff_of_true rfl (Option.some_ne_none s)
  | succ limit ih =>
      have yields := wellFormed.step_yields exact iteration
      rw [run, Traced.outcome_bind, visited]
      cases stepped : (step p config iteration s).outcome with
      | error fault =>
          have ended : next? p config s = none := next?_eq_none iteration (by simp [stepped])
          rw [iterate?_succ_of_ended ended]
          rw [stepped] at yields
          refine iff_of_false (fun same => ?_) (not_not.2 rfl)
          cases same
          cases yields
      | ok result =>
          rw [stepped] at yields
          cases result with
          | optimal solution =>
              have ended : next? p config s = none := next?_eq_none iteration (by simp [stepped])
              rw [iterate?_succ_of_ended ended]
              exact iff_of_false (by simp) (not_not.2 rfl)
          | next next =>
              rw [iterate?_succ_of_next ((next?_eq_some_iff iteration).2 stepped)]
              exact ih yields.1 (iteration + 1)

theorem WellFormed.visited_keeps (wellFormed : WellFormed p s) (complementary : Complementary p s)
    (exact : config.tolerance = 0) {pivots : ℕ} {state : State ℚ}
    (reached : visited p config s pivots = some state) :
    WellFormed p state ∧ Complementary p state := by
  induction pivots generalizing state with
  | zero =>
      cases reached
      exact ⟨wellFormed, complementary⟩
  | succ pivots ih =>
      obtain ⟨before, reachedBefore, follows⟩ := iterate?_succ_eq_some_iff.1 reached
      obtain ⟨wellFormedBefore, complementaryBefore⟩ := ih reachedBefore
      have yields := wellFormedBefore.step_yields exact 0
      rw [(next?_eq_some_iff 0).1 follows] at yields
      obtain ⟨wellFormed', keeps⟩ := yields
      exact ⟨wellFormed', keeps complementaryBefore⟩

theorem candidates_sorted (basis : List ℕ) (deficit : Deficit ℚ) :
    (candidates p config basis deficit).Pairwise fun earlier later => earlier.1 < later.1 := by
  rw [candidates, List.pairwise_map]
  exact (List.pairwise_lt_range.filter _).filter _

section Vertex

variable {N : Matrix (Fin p.numEquations) (Fin p.numEquations) ℚ}

def WellFormed.vertex (wellFormed : WellFormed p s) (inverse : N * wellFormed.basis.matrix = 1) :
    Vertex p.matrix p.sides where
  column := wellFormed.basis.column
  inverse := N
  point := spread wellFormed.basis.column (N *ᵥ p.sides)
  injective := wellFormed.basis.column_injective
  mul_eq_one := inverse
  zero := fun _ outside => spread_of_notMem outside _
  equations := mulVec_basicPoint inverse p.sides

theorem WellFormed.vertex_point_column (wellFormed : WellFormed p s)
    (inverse : N * wellFormed.basis.matrix = 1) (i : Fin p.numEquations) :
    (wellFormed.vertex inverse).point ((wellFormed.vertex inverse).column i) =
      (N *ᵥ p.sides) i :=
  spread_apply wellFormed.basis.column_injective _ i

theorem Complementary.vertex_reducedCosts (complementary : Complementary p s)
    (wellFormed : WellFormed p s) (inverse : N * wellFormed.basis.matrix = 1) :
    (wellFormed.vertex inverse).reducedCosts p.costs = s.reducedCosts p := by
  have own : toFun s.multipliers p.numEquations = _ :=
    multipliers_eq inverse fun i => complementary.zero _ (wellFormed.basis.column_mem i)
  rw [State.reducedCosts, own]
  rfl

end Vertex

structure WellFormed.Pivots (wellFormed : WellFormed p s) (config : Config ℚ) (next : State ℚ)
    (N : Matrix (Fin p.numEquations) (Fin p.numEquations) ℚ) (deficit : Deficit ℚ)
    (row : Fin p.numEquations) (entering : Fin p.numVariables) : Prop where
  located : locate p config s = .ok (.deficient deficit)
  lacks : wellFormed.Lacks N deficit row
  outside : (entering : ℕ) ∉ s.basis
  falls : (N row ᵥ* p.matrix) entering < 0
  first : ∀ j < entering, (j : ℕ) ∉ s.basis → (N row ᵥ* p.matrix) j < 0 →
    s.ratio p (N row ᵥ* p.matrix) entering < s.ratio p (N row ᵥ* p.matrix) j
  basis_eq : next.basis = s.basis.set row entering
  moved : next.reducedCosts p = s.reducedCosts p +
    s.ratio p (N row ᵥ* p.matrix) entering • (N row ᵥ* p.matrix)

theorem WellFormed.exists_pivots (wellFormed : WellFormed p s) (exact : config.tolerance = 0)
    (follows : next? p config s = some next) :
    ∃ N deficit row entering, wellFormed.Pivots config next N deficit row entering := by
  obtain ⟨deficit, entering, ratio, located, found, moved⟩ :=
    (step_next_iff 0).1 ((next?_eq_some_iff 0).1 follows)
  have finds := (wellFormed.locate_yields exact).of_eq_ok located
  cases finds with
  | deficient N deficit row lacks =>
      obtain ⟨entering, outside, falls, same⟩ :=
        (lacks.mem_candidates_iff exact).1 (firstLeast?_mem found)
      cases same
      obtain ⟨y, moved', -, reducedCosts⟩ := lacks.move_eq entering
        (s.ratio p (N row ᵥ* p.matrix) entering)
      cases moved.symm.trans moved'
      refine ⟨N, deficit, row, entering, located, lacks, outside, falls, ?_, rfl, reducedCosts⟩
      intro j smaller away sinks
      have member := (lacks.mem_candidates_iff exact).2 ⟨j, away, sinks, rfl⟩
      exact firstLeast?_lt found (candidates_sorted _ _) member smaller

section Pivots

variable {wellFormed : WellFormed p s} {N N' : Matrix (Fin p.numEquations) (Fin p.numEquations) ℚ}
  {deficit : Deficit ℚ} {row : Fin p.numEquations} {entering : Fin p.numVariables}

theorem WellFormed.Pivots.turn (pivots : wellFormed.Pivots config next N deficit row entering)
    (complementary : Complementary p s) (wellFormed' : WellFormed p next)
    (complementary' : Complementary p next) (inverse : N' * wellFormed'.basis.matrix = 1) :
    DualTurn p.costs (wellFormed.vertex pivots.lacks.inverse) (wellFormed'.vertex inverse) entering
      row (s.ratio p (N row ᵥ* p.matrix) entering) := by
  have costs := complementary.vertex_reducedCosts wellFormed pivots.lacks.inverse
  have ratio_eq (j : Fin p.numVariables) : s.ratio p (N row ᵥ* p.matrix) j =
      s.reducedCosts p j / -(N row ᵥ* p.matrix) j :=
    congrArg (· / -(N row ᵥ* p.matrix) j) (max_eq_left (complementary.nonneg j))
  constructor
  · exact fun inside => pivots.outside (wellFormed.basis.mem_range_iff.1 inside)
  · rw [WellFormed.vertex_point_column]
    exact pivots.lacks.negative
  · rw [costs]
    exact complementary.nonneg
  · exact pivots.falls
  · rw [costs]
    exact ratio_eq entering
  · intro j smaller outside sinks
    rw [costs]
    refine (pivots.first j smaller (fun inside => ?_) sinks).trans_eq (ratio_eq j)
    exact outside (wellFormed.basis.mem_range_iff.2 inside)
  · rw [costs, complementary'.vertex_reducedCosts wellFormed' inverse]
    exact pivots.moved
  · obtain ⟨exchanged, columns⟩ := wellFormed.basis.exchange row pivots.outside
    obtain ⟨basis, multipliers⟩ := next
    cases pivots.basis_eq
    exact columns

theorem Deficit.LeavesLeast.le (least : deficit.LeavesLeast s.basis)
    (lacks : wellFormed.Lacks N deficit row) {i : Fin p.numEquations}
    (negative : (N *ᵥ p.sides) i < 0) :
    wellFormed.basis.column row ≤ wellFormed.basis.column i := by
  have entry : deficit.basicValues.getD i 0 = (N *ᵥ p.sides) i := congrFun lacks.basicValues_eq i
  have bound := least i (wellFormed.basis.val_lt i)
  rw [entry, wellFormed.basis.getD_eq, lacks.leaving_eq] at bound
  exact bound negative

end Pivots

def LeavesLeastFrom (p : LinearProgram ℚ) (config : Config ℚ) (s : State ℚ) (start : ℕ) : Prop :=
  ∀ n ≥ start, ∀ state deficit, visited p config s n = some state →
    locate p config state = .ok (.deficient deficit) → deficit.LeavesLeast state.basis

theorem WellFormed.exists_visited_eq_none (wellFormed : WellFormed p s)
    (complementary : Complementary p s) (exact : config.tolerance = 0) {start : ℕ}
    (least : LeavesLeastFrom p config s start) : ∃ n, visited p config s n = none := by
  by_contra unending
  -- the turns of a run without end pass over a smaller column after the start
  obtain ⟨state, reached⟩ := exists_states fun n ended => unending ⟨n, ended⟩
  have invariant := fun n => wellFormed.visited_keeps complementary exact (reached n).1
  choose N deficit row entering pivots using fun n =>
    (invariant n).1.exists_pivots exact (reached n).2
  have turn := fun n => (pivots n).turn (invariant n).2 (invariant (n + 1)).1
    (invariant (n + 1)).2 (pivots (n + 1)).lacks.inverse
  obtain ⟨n, late, i, negative, smaller⟩ := exists_negative_passed_over_after turn start
  rw [WellFormed.vertex_point_column] at negative
  have leaves := least n late (state n) (deficit n) (reached n).1 (pivots n).located
  exact (leaves.le (pivots n).lacks negative).not_gt smaller

end Dual

namespace LinearProgram

theorem solveDual_outcome {p : LinearProgram ℚ} {basis : List ℕ} {multipliers : Option (Vec ℚ)}
    {config : Config ℚ} {s : Dual.State ℚ}
    (started : Dual.start p basis multipliers config = .ok s) (limit : ℕ) :
    (p.solveDual basis multipliers config limit).outcome = (Dual.run p config limit 0 s).outcome := by
  rw [solveDual, Traced.outcome_bind, Traced.outcome_lift, started, ok_bind]

def circling : LinearProgram ℚ where
  cost := [0, 0, 0, 0, 0, 0]
  constraints := ⟨[[0, 0, 1, -1, 4, 1], [1, 0, 1, -2, 3, 0], [0, 1, -1, 4, -2, 0]], 6, by decide⟩
  rhs := [-1, -3, 3]
  cost_length := rfl
  rhs_length := rfl
  height_lt_width := by decide

theorem circling_start :
    Dual.start circling [5, 0, 1] none ⟨0, 0, true⟩ = .ok ⟨[5, 0, 1], [0, 0, 0]⟩ := by
  decide +kernel

theorem circling_returns :
    Dual.visited circling ⟨0, 0, true⟩ ⟨[5, 0, 1], [0, 0, 0]⟩ 6 = some ⟨[5, 0, 1], [0, 0, 0]⟩ := by
  decide +kernel

theorem circling_outcome (limit : ℕ) :
    (circling.solveDual [5, 0, 1] none ⟨0, 0, true⟩ limit).outcome = .error .iterationLimit := by
  obtain ⟨wellFormed, -⟩ := (Dual.start_yields circling [5, 0, 1] none rfl).of_eq_ok circling_start
  rw [solveDual_outcome circling_start]
  apply (wellFormed.outcome_eq_iterationLimit_iff rfl limit 0).2
  exact iterate?_ne_none_of_period (by decide) circling_returns limit

theorem exists_dual_unending :
    ∃ s, Dual.start circling [5, 0, 1] none ⟨0, 0, true⟩ = .ok s ∧
      ∀ limit,
        (circling.solveDual [5, 0, 1] none ⟨0, 0, true⟩ limit).outcome = .error .iterationLimit :=
  ⟨_, circling_start, circling_outcome⟩

/-- A run with the multipliers of its basis ends if and only if the leaving column is the least with
a negative value, from some pivot on. -/
theorem dual_ends_iff {p : LinearProgram ℚ} {basis : List ℕ} {config : Config ℚ}
    {s : Dual.State ℚ} (exact : config.tolerance = 0)
    (started : Dual.start p basis none config = .ok s) :
    (∃ limit, (p.solveDual basis none config limit).outcome ≠ .error .iterationLimit) ↔
      ∃ start, Dual.LeavesLeastFrom p config s start := by
  obtain ⟨wellFormed, own⟩ := (Dual.start_yields p basis none exact).of_eq_ok started
  have ends_iff (limit : ℕ) := wellFormed.outcome_eq_iterationLimit_iff exact limit 0
  simp only [solveDual_outcome started, Ne, ends_iff, not_not]
  constructor
  · intro given
    obtain ⟨limit, ends⟩ := given
    refine ⟨limit, fun n late state deficit reached => ?_⟩
    rw [Dual.visited, iterate?_eq_none_of_le late ends] at reached
    cases reached
  · intro given
    obtain ⟨start, least⟩ := given
    exact wellFormed.exists_visited_eq_none (own rfl) exact least

theorem dual_ends_iff_circling :
    Dual.start circling [5, 0, 1] none ⟨0, 0, true⟩ = .ok ⟨[5, 0, 1], [0, 0, 0]⟩ ∧
      ¬∃ start, Dual.LeavesLeastFrom circling ⟨0, 0, true⟩ ⟨[5, 0, 1], [0, 0, 0]⟩ start := by
  refine ⟨circling_start, fun least => ?_⟩
  obtain ⟨limit, ends⟩ := (dual_ends_iff rfl circling_start).2 least
  exact ends (circling_outcome limit)

end LinearProgram

end SimplexMethod
