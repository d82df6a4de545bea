import SimplexMethod.Proofs.DualTermination

namespace SimplexMethod
open Matrix Vec Outcome

namespace Dual

variable {p : LinearProgram ℚ} {config : Config ℚ} {s next state : State ℚ}

structure Priced (p : LinearProgram ℚ) (s : State ℚ) : Prop extends WellFormed p s,
    Complementary p s where
  regular : IsUnit basis.matrix

namespace Priced

theorem multipliers_of_inverse (priced : Priced p s)
    {N : Matrix (Fin p.numEquations) (Fin p.numEquations) ℚ}
    (inverse : N * priced.basis.matrix = 1) :
    toFun s.multipliers p.numEquations = multipliersOf p.costs priced.basis.column N :=
  multipliers_eq inverse fun i => priced.zero _ (priced.basis.column_mem i)

theorem inv_mul_matrix (priced : Priced p s) : priced.basis.matrix⁻¹ * priced.basis.matrix = 1 :=
  nonsing_inv_mul _ ((isUnit_iff_isUnit_det _).1 priced.regular)

theorem eq_of_computed (priced : Priced p s) {y : Vec ℚ}
    (computed : p.multipliers s.basis = .ok y) : y = s.multipliers := by
  obtain ⟨accepted, length, N, inverse, entries⟩ :=
    (p.multipliers_yields s.basis).of_eq_ok computed
  exact eq_of_toFun_eq length priced.length (entries.trans (priced.multipliers_of_inverse inverse).symm)

theorem multipliers_eq_of_basis (priced : Priced p s) (priced' : Priced p next)
    (columns : s.basis.toFinset = next.basis.toFinset) : s.multipliers = next.multipliers := by
  refine eq_of_toFun_eq priced.length priced'.length ?_
  rw [priced.multipliers_of_inverse priced.inv_mul_matrix]
  refine (multipliers_eq priced.inv_mul_matrix fun i => priced'.zero _ ?_).symm
  rw [← List.mem_toFinset, ← columns, List.mem_toFinset]
  exact priced.basis.column_mem i

theorem reducedCostsFor?_eq (priced : Priced p s) :
    ∃ costs, p.reducedCostsFor? s.multipliers = some costs ∧ (∀ cost ∈ costs, 0 ≤ cost) ∧
      ∀ j ∈ s.basis, costs[j]? = some 0 := by
  obtain ⟨costs, found, length, entries⟩ := p.reducedCostsFor?_eq priced.length
  refine ⟨costs, found, (forall_mem_iff length).2 fun j => ?_, fun j member => ?_⟩
  · rw [entries]
    exact priced.nonneg j
  · have inside : j < p.numVariables := priced.basis.lt j member
    refine (getElem?_eq_toFun length ⟨j, inside⟩).trans ?_
    rw [entries]
    exact congrArg some (priced.zero ⟨j, inside⟩ member)

end Priced

theorem priced_of_start {basis : List ℕ} (exact : config.tolerance = 0)
    (started : start p basis none config = .ok s) : Priced p s := by
  obtain ⟨wellFormed, complementary⟩ := (start_yields p basis none exact).of_eq_ok started
  refine ⟨wellFormed, complementary rfl, ?_⟩
  simp only [start, bind_eq_ok_iff] at started
  obtain ⟨_, -, y, computed, costs, -, ended⟩ := started
  obtain ⟨accepted, -, N, inverse, -⟩ := (p.multipliers_yields basis).of_eq_ok computed
  split at ended
  · cases ended
  · cases ended
    exact IsUnit.of_mul_eq_one_right _ inverse

theorem locate_value {deficit : Deficit ℚ}
    (located : locate p config s = .ok (.deficient deficit)) :
    deficit.basicValues[deficit.row]? = some deficit.value := by
  simp only [locate, bind_eq_ok_iff] at located
  obtain ⟨inverse, -, basicValues, -, located⟩ := located
  split at located
  · cases located
  · rename_i value row found
    simp only [bind_eq_ok_iff] at located
    obtain ⟨leaving, -, inverseRow, -, tableauRow, -, costs, -, same⟩ := located
    cases same
    exact List.mem_zipIdx_iff_getElem?.1 (List.mem_of_find?_eq_some found)

theorem State.ratio_nonneg (p : LinearProgram ℚ) (s : State ℚ) {entries : Fin p.numVariables → ℚ}
    {j : Fin p.numVariables} (falls : entries j < 0) : 0 ≤ s.ratio p entries j :=
  div_nonneg (le_max_right _ _) (neg_nonneg.2 falls.le)

section Lacks

variable {wellFormed : WellFormed p s} {N : Matrix (Fin p.numEquations) (Fin p.numEquations) ℚ}
  {deficit : Deficit ℚ} {row : Fin p.numEquations}

theorem WellFormed.Lacks.value_eq (lacks : wellFormed.Lacks N deficit row)
    (located : locate p config s = .ok (.deficient deficit)) :
    deficit.value = (N *ᵥ p.sides) row := by
  have present := locate_value located
  rw [lacks.row_eq] at present
  rw [← lacks.basicValues_eq, toFun_apply, List.getD_eq_getElem?_getD, present, Option.getD_some]

theorem WellFormed.Lacks.dot_move (lacks : wellFormed.Lacks N deficit row) {entering : ℕ}
    {step : ℚ} (moved : move s deficit entering step = .ok next) :
    dot next.multipliers p.rhs = dot s.multipliers p.rhs + step * -(N *ᵥ p.sides) row := by
  have lengths : s.multipliers.length = deficit.inverseRow.length :=
    wellFormed.length.trans lacks.length.symm
  have length : (addScaled s.multipliers (-step) deficit.inverseRow).length = p.numEquations := by
    rw [addScaled, List.length_zipWith, ← lengths, min_self, wellFormed.length]
  have entries : toFun (addScaled s.multipliers (-step) deficit.inverseRow) p.numEquations =
      toFun s.multipliers p.numEquations + -step • N row := by
    funext i
    rw [toFun_apply, getD_addScaled lengths, ← lacks.inverseRow_eq]
    rfl
  rw [move, addScaled?, if_pos lengths, demand_some, ok_bind] at moved
  cases moved
  rw [dot_eq length p.sides_length, dot_eq wellFormed.length p.sides_length, entries, add_dotProduct,
    smul_dotProduct, smul_eq_mul, neg_mul, mul_neg]
  rfl

end Lacks

structure PivotsAt (p : LinearProgram ℚ) (config : Config ℚ) (s : State ℚ) (pivots : ℕ)
    (state : State ℚ) (deficit : Deficit ℚ) (entering : ℕ) (step : ℚ) (next : State ℚ) : Prop where
  reached : visited p config s pivots = some state
  located : locate p config state = .ok (.deficient deficit)
  chosen : firstLeast? (candidates p config state.basis deficit) = some (entering, step)
  moved : move state deficit entering step = .ok next

def Moves (p : LinearProgram ℚ) (config : Config ℚ) (s : State ℚ) (pivots : ℕ) : Prop :=
  ∀ k < pivots, ∀ state deficit entering step next,
    PivotsAt p config s k state deficit entering step next → 0 < step

section Pivot

variable {deficit : Deficit ℚ} {entering : ℕ} {step : ℚ} (priced : Priced p s)
  (exact : config.tolerance = 0) (located : locate p config s = .ok (.deficient deficit))
  (chosen : firstLeast? (candidates p config s.basis deficit) = some (entering, step))
  (moved : move s deficit entering step = .ok next)
include priced exact located chosen moved

theorem Priced.of_pivot : Priced p next := by
  have yields := priced.step_yields exact 0
  rw [(step_next_iff 0).2 ⟨deficit, entering, step, located, chosen, moved⟩] at yields
  obtain ⟨wellFormed, complementary⟩ := yields
  refine ⟨wellFormed, complementary priced.toComplementary, ?_⟩
  have finds := (priced.locate_yields exact).of_eq_ok located
  cases finds with
  | deficient N deficit row lacks =>
      obtain ⟨j, outside, falls, same⟩ :=
        (lacks.mem_candidates_iff exact).1 (firstLeast?_mem chosen)
      cases same
      obtain ⟨y, moved', -⟩ := lacks.move_eq j (s.ratio p (N row ᵥ* p.matrix) j)
      cases moved.symm.trans moved'
      obtain ⟨exchanged, columns⟩ := priced.basis.exchange row outside
      have regular := (isUnit_updateCol_iff lacks.inverse (a := p.matrix.col j)).2 falls.ne
      rw [← submatrix_update, ← columns] at regular
      exact regular

theorem Priced.pivot_raises : deficit.value < 0 ∧ 0 ≤ step ∧
    dot next.multipliers p.rhs = dot s.multipliers p.rhs + step * -deficit.value := by
  have finds := (priced.locate_yields exact).of_eq_ok located
  cases finds with
  | deficient N deficit row lacks =>
      obtain ⟨j, outside, falls, same⟩ :=
        (lacks.mem_candidates_iff exact).1 (firstLeast?_mem chosen)
      cases same
      rw [lacks.value_eq located]
      exact ⟨lacks.negative, s.ratio_nonneg p falls, lacks.dot_move moved⟩

end Pivot

theorem Priced.of_visited (priced : Priced p s) (exact : config.tolerance = 0) {pivots : ℕ}
    (reached : visited p config s pivots = some state) : Priced p state := by
  induction pivots generalizing state with
  | zero =>
      cases reached
      exact priced
  | succ pivots ih =>
      obtain ⟨before, reachedBefore, follows⟩ := iterate?_succ_eq_some_iff.1 reached
      obtain ⟨deficit, entering, step, located, chosen, moved⟩ :=
        (step_next_iff 0).1 ((next?_eq_some_iff 0).1 follows)
      exact (ih reachedBefore).of_pivot exact located chosen moved

theorem Moves.value_lt {pivots earlier later : ℕ} (moves : Moves p config s pivots)
    (priced : Priced p s) (exact : config.tolerance = 0) (before : earlier < later)
    (upTo : later ≤ pivots) (reached : visited p config s earlier = some state)
    (reached' : visited p config s later = some next) :
    dot state.multipliers p.rhs < dot next.multipliers p.rhs := by
  refine iterate?_relates (R := fun state next : State ℚ =>
    dot state.multipliers p.rhs < dot next.multipliers p.rhs) (fun first second =>
    first.trans second) (fun k below state next reached follows => ?_) before upTo reached reached'
  obtain ⟨deficit, entering, step, located, chosen, moved⟩ :=
    (step_next_iff 0).1 ((next?_eq_some_iff 0).1 follows)
  obtain ⟨negative, -, value_eq⟩ :=
    (priced.of_visited exact reached).pivot_raises exact located chosen moved
  have positive := moves k below state deficit entering step next ⟨reached, located, chosen, moved⟩
  rw [value_eq, lt_add_iff_pos_right]
  exact mul_pos positive (neg_pos.2 negative)

/-- At any time the multipliers are those of the basis, without a negative reduced cost.  Every
iteration raises what the right-hand side is worth at them, and as long as no step is zero no set of
basic columns comes up twice. -/
theorem multipliers_follow {basis : List ℕ} (exact : config.tolerance = 0)
    (started : start p basis none config = .ok s) :
    (∀ k state, visited p config s k = some state →
      ∃ accepted : p.IsBasis state.basis, IsUnit accepted.matrix ∧
        state.multipliers.length = p.numEquations ∧
        toFun state.multipliers p.numEquations =
          (p.costs ∘ accepted.column) ᵥ* accepted.matrix⁻¹ ∧
        (∀ y, p.multipliers state.basis = .ok y → y = state.multipliers) ∧
        ∃ costs, p.reducedCostsFor? state.multipliers = some costs ∧ (∀ cost ∈ costs, 0 ≤ cost) ∧
          ∀ j ∈ state.basis, costs[j]? = some 0) ∧
    (∀ k state deficit entering step next,
      PivotsAt p config s k state deficit entering step next →
      deficit.basicValues[deficit.row]? = some deficit.value ∧ deficit.value < 0 ∧ 0 ≤ step ∧
      dot next.multipliers p.rhs = dot state.multipliers p.rhs + step * -deficit.value) ∧
    ∀ pivots, Moves p config s pivots →
      ∀ earlier later state next, earlier < later → later ≤ pivots →
        visited p config s earlier = some state → visited p config s later = some next →
        state.basis.toFinset ≠ next.basis.toFinset := by
  have priced := priced_of_start exact started
  refine ⟨fun k state reached => ?_, ?_, ?_⟩
  · have priced' := priced.of_visited exact reached
    exact ⟨priced'.basis, priced'.regular, priced'.length,
      priced'.multipliers_of_inverse priced'.inv_mul_matrix, fun y => priced'.eq_of_computed,
      priced'.reducedCostsFor?_eq⟩
  · intro k state deficit entering step next pivots
    exact ⟨locate_value pivots.located, (priced.of_visited exact pivots.reached).pivot_raises exact
      pivots.located pivots.chosen pivots.moved⟩
  · intro pivots moves earlier later state next before upTo reached reached' columns
    have same := (priced.of_visited exact reached).multipliers_eq_of_basis
      (priced.of_visited exact reached') columns
    have raised := moves.value_lt priced exact before upTo reached reached'
    rw [same] at raised
    exact lt_irrefl _ raised

theorem multipliers_follow_covering :
    start LinearProgram.covering [2] none ⟨0, 0, true⟩ = .ok ⟨[2], [0]⟩ ∧
      visited LinearProgram.covering ⟨0, 0, true⟩ ⟨[2], [0]⟩ 1 = some ⟨[0], [-1]⟩ ∧
      (∀ y, LinearProgram.covering.multipliers [0] = .ok y → y = [-1]) ∧
      Moves LinearProgram.covering ⟨0, 0, true⟩ ⟨[2], [0]⟩ 1 ∧
      [2].toFinset ≠ [0].toFinset := by
  have started : start LinearProgram.covering [2] none ⟨0, 0, true⟩ = .ok ⟨[2], [0]⟩ := by
    decide +kernel
  have reached : visited LinearProgram.covering ⟨0, 0, true⟩ ⟨[2], [0]⟩ 1 = some ⟨[0], [-1]⟩ := by
    decide +kernel
  obtain ⟨belong, raises, distinct⟩ := multipliers_follow rfl started
  have moves : Moves LinearProgram.covering ⟨0, 0, true⟩ ⟨[2], [0]⟩ 1 := by
    intro k below state deficit entering step next pivots
    obtain rfl := Nat.lt_one_iff.1 below
    obtain ⟨-, -, nonneg, value_eq⟩ := raises 0 state deficit entering step next pivots
    cases pivots.reached
    have follows := (next?_eq_some_iff 0).2
      ((step_next_iff 0).2 ⟨deficit, entering, step, pivots.located, pivots.chosen, pivots.moved⟩)
    have first : next? LinearProgram.covering ⟨0, 0, true⟩ ⟨[2], [0]⟩ = some ⟨[0], [-1]⟩ := reached
    cases first.symm.trans follows
    refine nonneg.lt_of_ne' ?_
    rintro rfl
    rw [zero_mul, add_zero] at value_eq
    revert value_eq
    decide +kernel
  obtain ⟨-, -, -, -, computed, -⟩ := belong 1 _ reached
  exact ⟨started, reached, computed, moves,
    distinct 1 moves 0 1 _ _ (by decide) le_rfl rfl reached⟩

end Dual

end SimplexMethod
