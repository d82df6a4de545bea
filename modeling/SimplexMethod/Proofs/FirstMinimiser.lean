import SimplexMethod.Proofs.DualStructure
import SimplexMethod.Proofs.Sizes
import SimplexMethod.PivotRule

namespace SimplexMethod

open Outcome

variable {α : Type} [Scalar α]

def minimisers (candidates : Set ℕ) (value : ℕ → α) : Set ℕ :=
  {i | i ∈ candidates ∧ ∀ k ∈ candidates, value i ≤ value k}

/-- The choice is the lowest of the favoured candidates, together with its value. -/
structure Selects (candidates favoured : Set ℕ) (value : ℕ → α) (choice : Option (ℕ × α)) :
    Prop where
  eq_none_iff : choice = none ↔ ∀ i, i ∉ candidates
  eq_some_iff : ∀ i chosen, choice = some (i, chosen) ↔ IsLeast favoured i ∧ chosen = value i

omit [Scalar α] in
theorem Selects.intro {candidates favoured : Set ℕ} {value : ℕ → α} {choice : Option (ℕ × α)}
    (none_iff : choice = none ↔ ∀ i, i ∉ candidates) (subset : favoured ⊆ candidates)
    (some : ∀ i chosen, choice = some (i, chosen) → IsLeast favoured i ∧ chosen = value i) :
    Selects candidates favoured value choice := by
  refine ⟨none_iff, fun i chosen => ⟨some i chosen, ?_⟩⟩
  rintro ⟨least, rfl⟩
  cases selected : choice with
  | none => exact absurd (subset least.1) (none_iff.1 selected i)
  | some other =>
      obtain ⟨j, chosen⟩ := other
      obtain ⟨least', rfl⟩ := some j chosen selected
      rw [least'.unique least]

section Sorted

variable {indices : List ℕ} (sorted : indices.Pairwise (· < ·)) (value : ℕ → α)

include sorted

omit [Scalar α] in
theorem selects_head? :
    Selects {i | i ∈ indices} {i | i ∈ indices} value
      (indices.map fun i => (i, value i)).head? := by
  refine .intro ?_ subset_rfl ?_
  · simp [List.eq_nil_iff_forall_not_mem]
  · intro i chosen found
    obtain ⟨rest, list⟩ := List.head?_eq_some_iff.1 found
    obtain ⟨first, others, rfl, same, -⟩ := List.map_eq_cons_iff.1 list
    cases same
    refine ⟨⟨by simp, fun k member => ?_⟩, rfl⟩
    rcases List.mem_cons.1 member with rfl | later
    · exact le_rfl
    · exact ((List.pairwise_cons.1 sorted).1 k later).le

theorem selects_firstLeast? [Scalar.TotalOrder α] :
    Selects {i | i ∈ indices} (minimisers {i | i ∈ indices} value) value
      (firstLeast? (indices.map fun i => (i, value i))) := by
  have ordered : (indices.map fun i => (i, value i)).Pairwise
      fun earlier later => earlier.1 < later.1 := List.pairwise_map.2 sorted
  refine .intro ?_ (fun i given => given.1) ?_
  · rw [firstLeast?_eq_none_iff, List.map_eq_nil_iff, List.eq_nil_iff_forall_not_mem]
    rfl
  · intro i chosen found
    obtain ⟨_, member, same⟩ := List.mem_map.1 (firstLeast?_mem found)
    cases same
    refine ⟨⟨⟨member, fun k other => ?_⟩, fun k given => ?_⟩, rfl⟩
    · exact firstLeast?_le found (List.mem_map_of_mem (f := fun i => (i, value i)) other)
    · -- An earlier candidate would have a larger value, and so not be a minimiser.
      by_contra earlier
      have above := firstLeast?_lt found ordered
        (List.mem_map_of_mem (f := fun i => (i, value i)) given.1) (not_le.1 earlier)
      exact Scalar.TotalOrder.lt_iff_not_le.1 above (given.2 i member)

end Sorted

namespace Tableau

variable {t : Tableau α}

def limitingRows (t : Tableau α) (column : Vec α) : Set ℕ :=
  {i | i < t.numEquations ∧ t.tolerance < column.getD i 0}

theorem Sized.limitingRow_selects [Scalar.TotalOrder α] (sized : t.Sized) {column : Vec α}
    (length : column.length = t.numEquations) :
    ∃ choice, t.limitingRow column = .ok choice ∧
      Selects (t.limitingRows column) (minimisers (t.limitingRows column) (t.ratio column))
        (t.ratio column) choice := by
  have rows : t.limitingRows column = {i | i ∈ (List.range t.numEquations).filter
      fun i => t.tolerance < column.getD i 0} := by
    ext i
    simp [limitingRows]
  rw [rows]
  exact ⟨_, sized.limitingRow_eq length,
    selects_firstLeast? (List.pairwise_lt_range.filter _) (t.ratio column)⟩

def profitableColumns (t : Tableau α) (costs : Vec α) : Set ℕ :=
  {j | j < t.numVariables ∧ j ∉ t.members ∧ costs.getD j 0 < -t.tolerance}

theorem profitable_eq (t : Tableau α) (costs : Vec α) :
    t.profitable costs = (t.nonbasic.filter fun j => costs.getD j 0 < -t.tolerance).map
      fun j => (j, costs.getD j 0) := by
  rw [profitable, List.filter_map]
  rfl

theorem profitableColumns_eq (t : Tableau α) (costs : Vec α) :
    t.profitableColumns costs =
      {j | j ∈ t.nonbasic.filter fun j => costs.getD j 0 < -t.tolerance} := by
  ext j
  simp [profitableColumns, nonbasic, and_comm]

theorem nonbasic_sorted (t : Tableau α) (costs : Vec α) :
    (t.nonbasic.filter fun j => costs.getD j 0 < -t.tolerance).Pairwise (· < ·) :=
  (List.pairwise_lt_range.filter _).filter _

theorem leastIndex_selects (t : Tableau α) (costs : Vec α) :
    Selects (t.profitableColumns costs) (t.profitableColumns costs) (fun j => costs.getD j 0)
      (PivotRule.leastIndex.choose? (t.profitable costs)) := by
  rw [profitableColumns_eq, profitable_eq]
  exact selects_head? (t.nonbasic_sorted costs) fun j => costs.getD j 0

theorem mostNegative_selects [Scalar.TotalOrder α] (t : Tableau α) (costs : Vec α) :
    Selects (t.profitableColumns costs)
      (minimisers (t.profitableColumns costs) fun j => costs.getD j 0) (fun j => costs.getD j 0)
      (PivotRule.mostNegative.choose? (t.profitable costs)) := by
  rw [profitableColumns_eq, profitable_eq]
  exact selects_firstLeast? (t.nonbasic_sorted costs) fun j => costs.getD j 0

theorem enteringColumn_eq {costs : Vec α} (priced : t.reducedCosts = .ok costs)
    (rule : PivotRule) :
    rule.enteringColumn t = .ok (rule.choose? (t.profitable costs)) := by
  rw [PivotRule.enteringColumn, priced, ok_bind, pure_eq_ok]

end Tableau

namespace Dual

variable {p : LinearProgram α} {config : Config α} {s : State α} {deficit : Deficit α}

def enteringColumns (p : LinearProgram α) (config : Config α) (basis : List ℕ)
    (deficit : Deficit α) : Set ℕ :=
  {j | j < p.numVariables ∧ j ∉ basis ∧ deficit.tableauRow.getD j 0 < -config.tolerance}

def Deficit.ratio (deficit : Deficit α) (j : ℕ) : α :=
  Scalar.max (deficit.reducedCosts.getD j 0) 0 / -deficit.tableauRow.getD j 0

theorem firstLeast?_selects [Scalar.TotalOrder α] (p : LinearProgram α) (config : Config α)
    (basis : List ℕ) (deficit : Deficit α) :
    Selects (enteringColumns p config basis deficit)
      (minimisers (enteringColumns p config basis deficit) deficit.ratio) deficit.ratio
      (firstLeast? (candidates p config basis deficit)) := by
  have columns : enteringColumns p config basis deficit =
      {j | j ∈ ((List.range p.numVariables).filter fun j => !basis.contains j).filter
        fun j => deficit.tableauRow.getD j 0 < -config.tolerance} := by
    ext j
    simp [enteringColumns, and_comm]
  rw [columns]
  exact selects_firstLeast? ((List.pairwise_lt_range.filter _).filter _) deficit.ratio

theorem outcome_step_of_deficient (located : locate p config s = .ok (.deficient deficit))
    (iteration : ℕ) :
    (step p config iteration s).outcome =
      match firstLeast? (candidates p config s.basis deficit) with
      | none => .error (.failed .infeasible)
      | some (entering, ratio) => (move s deficit entering ratio).map Step.next := by
  rw [outcome_step, located, ok_bind]
  dsimp only
  cases firstLeast? (candidates p config s.basis deficit) with
  | none => rfl
  | some chosen => cases move s deficit chosen.1 chosen.2 <;> rfl

end Dual

/-- Over scalars that all compare, the two ratio tests and the rule of the most negative cost choose
the first minimiser of their candidates, and the rule of the least index the first candidate.  The
test of the dual method decides how its iteration ends. -/
theorem choices_first_minimiser [Scalar.TotalOrder α] :
    (∀ t : Tableau α, t.Arises →
      (∀ column : Vec α, column.length = t.numEquations → ∃ choice,
        t.limitingRow column = .ok choice ∧
        (choice = none ↔ ∀ entry ∈ column, ¬t.tolerance < entry) ∧
        (∀ i < t.numEquations, ∃ value, t.basicValue i = .ok value ∧
          t.ratio column i = value / column.getD i 0) ∧
        Selects (t.limitingRows column) (minimisers (t.limitingRows column) (t.ratio column))
          (t.ratio column) choice) ∧
      ∃ costs least steepest, t.reducedCosts = .ok costs ∧
        PivotRule.leastIndex.enteringColumn t = .ok least ∧
        PivotRule.mostNegative.enteringColumn t = .ok steepest ∧
        (least = none ↔ steepest = none) ∧
        Selects (t.profitableColumns costs) (t.profitableColumns costs)
          (fun j => costs.getD j 0) least ∧
        Selects (t.profitableColumns costs)
          (minimisers (t.profitableColumns costs) fun j => costs.getD j 0)
          (fun j => costs.getD j 0) steepest) ∧
    ∀ (p : LinearProgram α) (config : Config α) (s : Dual.State α) (deficit : Dual.Deficit α),
      Dual.locate p config s = .ok (.deficient deficit) →
        Selects (Dual.enteringColumns p config s.basis deficit)
          (minimisers (Dual.enteringColumns p config s.basis deficit) deficit.ratio)
          deficit.ratio (firstLeast? (Dual.candidates p config s.basis deficit)) ∧
        ∀ iteration, (Dual.step p config iteration s).outcome =
          match firstLeast? (Dual.candidates p config s.basis deficit) with
          | none => .error (.failed .infeasible)
          | some (entering, ratio) => (Dual.move s deficit entering ratio).map Dual.Step.next := by
  refine ⟨fun t arises => ⟨fun column length => ?_, ?_⟩, fun p config s deficit located => ?_⟩
  · obtain ⟨choice, chosen, selects⟩ := arises.sized.limitingRow_selects length
    refine ⟨choice, chosen, ?_, fun i row => ⟨_, arises.sized.basicValue_eq row, rfl⟩, selects⟩
    rw [selects.eq_none_iff, List.forall_mem_iff_getElem]
    simp only [Tableau.limitingRows, Set.mem_ofPred_eq, not_and, ← length]
    refine forall_congr' fun i => forall_congr' fun inside => ?_
    rw [List.getD_eq_getElem _ _ inside]
  · obtain ⟨-, costs, -, priced⟩ := arises.sized.exists_quantities
    have least := t.leastIndex_selects costs
    have steepest := t.mostNegative_selects costs
    exact ⟨costs, _, _, priced, Tableau.enteringColumn_eq priced _,
      Tableau.enteringColumn_eq priced _, least.eq_none_iff.trans steepest.eq_none_iff.symm, least,
      steepest⟩
  · exact ⟨Dual.firstLeast?_selects p config s.basis deficit,
      Dual.outcome_step_of_deficient located⟩

def tied : LinearProgram ℚ where
  cost := [-1, -3, -3, 0, 0]
  constraints := ⟨[[-1, -1, -1, 1, 0], [-1, -1, -1, 0, 1]], 5, by decide⟩
  rhs := [-2, -2]
  cost_length := rfl
  rhs_length := rfl
  height_lt_width := by decide

def tiedTableau : Tableau ℚ :=
  ⟨tied, .identity .productForm 2, [3, 4], [3, 4], [0, 0, 0, -2, -2], 0⟩

def tiedState : Dual.State ℚ := ⟨[3, 4], [5, 0]⟩

theorem choices_first_minimiser_tied :
    tiedTableau.Arises ∧
    (tiedTableau.limitingRow [1, 1] = .ok (some (0, -2)) ∧
      IsLeast (minimisers (tiedTableau.limitingRows [1, 1]) (tiedTableau.ratio [1, 1])) 0) ∧
    (∃ costs, PivotRule.leastIndex.enteringColumn tiedTableau = .ok (some (0, -1)) ∧
      IsLeast (tiedTableau.profitableColumns costs) 0 ∧
      PivotRule.mostNegative.enteringColumn tiedTableau = .ok (some (1, -3)) ∧
      IsLeast (minimisers (tiedTableau.profitableColumns costs) fun j => costs.getD j 0) 1) ∧
    ∃ deficit, Dual.locate tied ⟨0, 0, true⟩ tiedState = .ok (.deficient deficit) ∧
      firstLeast? (Dual.candidates tied ⟨0, 0, true⟩ tiedState.basis deficit) = some (1, 2) ∧
      IsLeast (minimisers (Dual.enteringColumns tied ⟨0, 0, true⟩ tiedState.basis deficit)
        deficit.ratio) 1 := by
  obtain ⟨primal, dual⟩ := @choices_first_minimiser ℚ _ _
  have arises : tiedTableau.Arises :=
    .start (BasisInverse.identity_shaped .productForm 2) (by decide +kernel :
      Tableau.startWith tied (.identity .productForm 2) [3, 4] 0 = .ok tiedTableau)
  obtain ⟨rows, costs, least, steepest, -, entersLeast, entersSteepest, -, selectsLeast,
    selectsSteepest⟩ := primal tiedTableau arises
  have limits : tiedTableau.limitingRow [1, 1] = .ok (some (0, -2)) := by decide +kernel
  have first : PivotRule.leastIndex.enteringColumn tiedTableau = .ok (some (0, -1)) := by
    decide +kernel
  have cheapest : PivotRule.mostNegative.enteringColumn tiedTableau = .ok (some (1, -3)) := by
    decide +kernel
  refine ⟨arises, ⟨limits, ?_⟩, ⟨costs, first, ?_, cheapest, ?_⟩, ?_⟩
  · obtain ⟨choice, chosen, -, -, selects⟩ := rows [1, 1] rfl
    cases chosen.symm.trans limits
    exact ((selects.eq_some_iff 0 (-2)).1 rfl).1
  · cases entersLeast.symm.trans first
    exact ((selectsLeast.eq_some_iff 0 (-1)).1 rfl).1
  · cases entersSteepest.symm.trans cheapest
    exact ((selectsSteepest.eq_some_iff 1 (-3)).1 rfl).1
  · have raised : (Dual.locate tied ⟨0, 0, true⟩ tiedState).toOption.bind (fun
          | .optimal _ => none
          | .deficient deficit =>
            firstLeast? (Dual.candidates tied ⟨0, 0, true⟩ tiedState.basis deficit)) = some (1, 2) := by
      decide +kernel
    cases located : Dual.locate tied ⟨0, 0, true⟩ tiedState with
    | error fault =>
        rw [located] at raised
        cases raised
    | ok position =>
        rw [located] at raised
        cases position with
        | optimal basicValues => cases raised
        | deficient deficit =>
            obtain ⟨selects, -⟩ := dual tied ⟨0, 0, true⟩ tiedState deficit located
            exact ⟨deficit, rfl, raised, ((selects.eq_some_iff 1 2).1 raised).1⟩

end SimplexMethod
