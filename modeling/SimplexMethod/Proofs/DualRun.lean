import SimplexMethod.Proofs.BasisInverse
import SimplexMethod.Proofs.DualStructure

namespace SimplexMethod
open Matrix Vec Outcome

namespace LinearProgram

variable {p : LinearProgram ℚ}

theorem inverseAt_yields (p : LinearProgram ℚ) (basis : List ℕ) :
    (p.inverseAt basis).Yields
      (fun inverse => ∃ accepted : p.IsBasis basis,
        (BasisInverse.productForm inverse).Inverts accepted.matrix)
      (fun fault => fault = .failed .singularMatrix ∨
        ∃ defect, fault = .failed (.invalidBasis defect)) := by
  rw [inverseAt]
  apply ((p.checkBasis_yields basis).mono (fun _ => checkBasis_eq_ok_iff.1)
    fun _ rejected => Or.inr rejected).bind
  intro _ accepted
  obtain ⟨b, found, height, width, entries⟩ := accepted.basisMatrix?_eq
  rw [found, demand_some, ok_bind]
  refine (BasisInverse.invert_inverts height width).mono ?_ fun _ singular => Or.inl singular
  intro inverse given
  obtain ⟨inverts, -⟩ := given
  exact ⟨accepted, entries ▸ inverts⟩

theorem multipliers_yields (p : LinearProgram ℚ) (basis : List ℕ) :
    (p.multipliers basis).Yields
      (fun y => ∃ accepted : p.IsBasis basis, y.length = p.numEquations ∧
        ∃ N, N * accepted.matrix = 1 ∧
          toFun y p.numEquations = multipliersOf p.costs accepted.column N)
      (fun fault => fault = .failed .singularMatrix ∨
        ∃ defect, fault = .failed (.invalidBasis defect)) := by
  rw [multipliers]
  apply (p.inverseAt_yields basis).bind
  intro inverse given
  obtain ⟨accepted, inverts⟩ := given
  obtain ⟨costs, found, length, entries⟩ := accepted.costsOf?_eq
  obtain ⟨y, computed, lengthY, entriesY⟩ :=
    RowMatrix.vecMul?_eq inverts.height inverts.width length
  have multiplied : RowMatrix.vecMul? costs inverse = some y := computed
  rw [found, demand_some, ok_bind, multiplied, demand_some]
  refine ⟨accepted, lengthY, _, inverts.mul_eq_one, ?_⟩
  rw [entriesY, entries]
  rfl

end LinearProgram

namespace Dual

variable {p : LinearProgram ℚ} {config : Config ℚ} {s : State ℚ}

abbrev State.reducedCosts (p : LinearProgram ℚ) (s : State ℚ) : Fin p.numVariables → ℚ :=
  reduced p.matrix p.costs (toFun s.multipliers p.numEquations)

structure WellFormed (p : LinearProgram ℚ) (s : State ℚ) : Prop where
  basis : p.IsBasis s.basis
  length : s.multipliers.length = p.numEquations

structure Complementary (p : LinearProgram ℚ) (s : State ℚ) : Prop where
  nonneg : 0 ≤ s.reducedCosts p
  zero : ∀ j : Fin p.numVariables, (j : ℕ) ∈ s.basis → s.reducedCosts p j = 0

/-- The multipliers are feasible for the dual problem, and slack on the basis by no more than
given. -/
structure Within (p : LinearProgram ℚ) (slack : Fin p.numVariables → ℚ) (s : State ℚ) : Prop where
  nonneg : 0 ≤ s.reducedCosts p
  le : ∀ j : Fin p.numVariables, (j : ℕ) ∈ s.basis → s.reducedCosts p j ≤ slack j

theorem complementary_iff : Complementary p s ↔ Within p 0 s := by
  constructor
  · intro complementary
    exact ⟨complementary.nonneg, fun j inside => (complementary.zero j inside).le⟩
  · intro within
    exact ⟨within.nonneg, fun j inside => (within.le j inside).antisymm (within.nonneg j)⟩

structure WellFormed.Lacks (wellFormed : WellFormed p s)
    (N : Matrix (Fin p.numEquations) (Fin p.numEquations) ℚ) (deficit : Deficit ℚ)
    (row : Fin p.numEquations) : Prop where
  inverse : N * wellFormed.basis.matrix = 1
  negative : (N *ᵥ p.sides) row < 0
  row_eq : deficit.row = row
  leaving_eq : deficit.leaving = wellFormed.basis.column row
  basicValues_eq : toFun deficit.basicValues p.numEquations = N *ᵥ p.sides
  length : deficit.inverseRow.length = p.numEquations
  inverseRow_eq : toFun deficit.inverseRow p.numEquations = N row
  tableauRow_eq : toFun deficit.tableauRow p.numVariables = N row ᵥ* p.matrix
  reducedCosts_eq : toFun deficit.reducedCosts p.numVariables = s.reducedCosts p

inductive WellFormed.Finds (wellFormed : WellFormed p s) : Position ℚ → Prop
  | optimal (N : Matrix (Fin p.numEquations) (Fin p.numEquations) ℚ) (basicValues : Vec ℚ)
      (inverse : N * wellFormed.basis.matrix = 1)
      (length : basicValues.length = p.numEquations)
      (entries : toFun basicValues p.numEquations = N *ᵥ p.sides)
      (nonneg : 0 ≤ N *ᵥ p.sides) : Finds wellFormed (.optimal basicValues)
  | deficient (N : Matrix (Fin p.numEquations) (Fin p.numEquations) ℚ) (deficit : Deficit ℚ)
      (row : Fin p.numEquations) (lacks : wellFormed.Lacks N deficit row) :
      Finds wellFormed (.deficient deficit)

theorem WellFormed.locate_yields (wellFormed : WellFormed p s) (exact : config.tolerance = 0) :
    (locate p config s).Yields wellFormed.Finds (· = .failed .singularMatrix) := by
  rw [locate]
  apply (BasisInverse.ofBasis_yields .reinversion wellFormed.basis).bind
  intro inverse inverts
  obtain ⟨basicValues, computed, length, entries⟩ := inverts.express_eq p.sides_length
  rw [computed, ok_bind]
  rcases find?_below length (-config.tolerance) with ⟨found, nonneg⟩ | ⟨row, found, negative⟩
  · rw [found]
    refine .optimal _ basicValues inverts.mul_eq_one length entries fun i => ?_
    simpa [entries, exact] using nonneg i
  · obtain ⟨inverseRow, rowFound, lengthRow, rowEntries⟩ := inverts.row_eq row
    obtain ⟨tableauRow, tableauFound, -, tableauEntries⟩ :=
      RowMatrix.vecMul?_eq (a := p.constraints) rfl rfl lengthRow
    obtain ⟨costs, costsFound, -, costsEntries⟩ := p.reducedCostsFor?_eq wellFormed.length
    rw [found]
    simp only [wellFormed.basis.getElem?_eq, demand_some, ok_bind, rowFound, tableauFound,
      costsFound, pure_eq_ok, yields_ok]
    refine .deficient _ _ row
      ⟨inverts.mul_eq_one, ?_, rfl, rfl, entries, lengthRow, rowEntries, ?_, costsEntries⟩
    · simpa [entries, exact] using negative
    · rw [← rowEntries]
      exact tableauEntries

section Lacks

variable {wellFormed : WellFormed p s} {N : Matrix (Fin p.numEquations) (Fin p.numEquations) ℚ}
  {deficit : Deficit ℚ} {row : Fin p.numEquations}

def State.ratio (p : LinearProgram ℚ) (s : State ℚ) (entries : Fin p.numVariables → ℚ)
    (j : Fin p.numVariables) : ℚ :=
  Max.max (s.reducedCosts p j) 0 / -entries j

structure State.Enters (p : LinearProgram ℚ) (s : State ℚ) (entries : Fin p.numVariables → ℚ)
    (entering : Fin p.numVariables) : Prop where
  outside : (entering : ℕ) ∉ s.basis
  falls : entries entering < 0
  least : ∀ j : Fin p.numVariables, (j : ℕ) ∉ s.basis → entries j < 0 →
    s.ratio p entries entering ≤ s.ratio p entries j

theorem WellFormed.Lacks.mem_candidates_iff (lacks : wellFormed.Lacks N deficit row)
    (exact : config.tolerance = 0) {candidate : ℕ × ℚ} :
    candidate ∈ candidates p config s.basis deficit ↔
      ∃ j : Fin p.numVariables, (j : ℕ) ∉ s.basis ∧ (N row ᵥ* p.matrix) j < 0 ∧
        candidate = ((j : ℕ), s.ratio p (N row ᵥ* p.matrix) j) := by
  have entry (j : Fin p.numVariables) : deficit.tableauRow.getD j 0 = (N row ᵥ* p.matrix) j :=
    congrFun lacks.tableauRow_eq j
  have cost (j : Fin p.numVariables) : deficit.reducedCosts.getD j 0 = s.reducedCosts p j :=
    congrFun lacks.reducedCosts_eq j
  simp only [candidates, List.mem_map, List.mem_filter, List.mem_range, exact, Scalar.max_eq]
  constructor
  · intro given
    obtain ⟨j, ⟨⟨inside, outside⟩, falls⟩, rfl⟩ := given
    refine ⟨⟨j, inside⟩, by simpa using outside, ?_, ?_⟩
    · simpa [← entry] using falls
    · rw [State.ratio, ← entry, ← cost]
  · intro given
    obtain ⟨j, outside, falls, rfl⟩ := given
    refine ⟨j, ⟨⟨j.isLt, by simpa using outside⟩, ?_⟩, ?_⟩
    · simpa [← entry] using falls
    · rw [State.ratio, entry, cost]

theorem WellFormed.Lacks.row_nonneg (lacks : wellFormed.Lacks N deficit row)
    {j : Fin p.numVariables} (inside : (j : ℕ) ∈ s.basis) : 0 ≤ (N row ᵥ* p.matrix) j := by
  obtain ⟨i, rfl⟩ := wellFormed.basis.mem_range_iff.2 inside
  rw [row_basis lacks.inverse]
  split
  · exact zero_le_one
  · exact le_rfl

theorem WellFormed.Lacks.infeasible (lacks : wellFormed.Lacks N deficit row)
    (exact : config.tolerance = 0) (none : candidates p config s.basis deficit = [])
    (x : Vec ℚ) : ¬p.Feasible x := by
  intro feasible
  refine infeasible_of_certificate (fun j => ?_) lacks.negative feasible.toFun_nonneg
    feasible.equations
  by_cases inside : (j : ℕ) ∈ s.basis
  · exact lacks.row_nonneg inside
  · refine not_lt.1 fun falls => ?_
    have member := (lacks.mem_candidates_iff exact).2 ⟨j, inside, falls, rfl⟩
    rw [none] at member
    cases member

theorem WellFormed.Lacks.move_eq (lacks : wellFormed.Lacks N deficit row) (entering : ℕ)
    (step : ℚ) :
    ∃ y, move s deficit entering step = .ok ⟨s.basis.set row entering, y⟩ ∧
      y.length = p.numEquations ∧
      reduced p.matrix p.costs (toFun y p.numEquations) =
        s.reducedCosts p + step • (N row ᵥ* p.matrix) := by
  have lengths : s.multipliers.length = deficit.inverseRow.length :=
    wellFormed.length.trans lacks.length.symm
  refine ⟨addScaled s.multipliers (-step) deficit.inverseRow, ?_, ?_, ?_⟩
  · rw [move, addScaled?, if_pos lengths, demand_some, ok_bind, lacks.row_eq, pure_eq_ok]
  · rw [addScaled, List.length_zipWith, ← lengths, min_self, wellFormed.length]
  · have moved : toFun (addScaled s.multipliers (-step) deficit.inverseRow) p.numEquations =
        toFun s.multipliers p.numEquations - step • N row := by
      rw [← lacks.inverseRow_eq]
      funext i
      rw [toFun_apply, getD_addScaled lengths, neg_mul, ← sub_eq_add_neg]
      rfl
    rw [moved, State.reducedCosts, reduced, reduced, sub_vecMul, smul_vecMul]
    abel

theorem Within.move {slack : Fin p.numVariables → ℚ} (within : Within p slack s)
    (slackNonneg : 0 ≤ slack) (lacks : wellFormed.Lacks N deficit row)
    {entering : Fin p.numVariables} (enters : s.Enters p (N row ᵥ* p.matrix) entering)
    {next : State ℚ} (basis : next.basis = s.basis.set row entering)
    (moved : next.reducedCosts p = s.reducedCosts p +
      s.ratio p (N row ᵥ* p.matrix) entering • (N row ᵥ* p.matrix)) : Within p slack next := by
  obtain ⟨outside, falls, least⟩ := enters
  have ratio_eq (j : Fin p.numVariables) : s.ratio p (N row ᵥ* p.matrix) j =
      s.reducedCosts p j / -(N row ᵥ* p.matrix) j :=
    congrArg (· / -(N row ᵥ* p.matrix) j) (max_eq_left (within.nonneg j))
  simp only [ratio_eq] at moved least
  have growth : 0 ≤ s.reducedCosts p entering / -(N row ᵥ* p.matrix) entering :=
    div_nonneg (within.nonneg entering) (neg_nonneg.2 falls.le)
  have entry (j : Fin p.numVariables) : next.reducedCosts p j = s.reducedCosts p j +
      s.reducedCosts p entering / -(N row ᵥ* p.matrix) entering * (N row ᵥ* p.matrix) j := by
    rw [moved]
    rfl
  constructor
  · intro j
    rw [Pi.zero_apply, entry]
    rcases le_or_gt 0 ((N row ᵥ* p.matrix) j) with rises | sinks
    · exact add_nonneg (within.nonneg j) (mul_nonneg growth rises)
    · have away : (j : ℕ) ∉ s.basis := fun inside => (lacks.row_nonneg inside).not_gt sinks
      have bound := (le_div_iff₀ (neg_pos.2 sinks)).1 (least j away sinks)
      linarith
  · intro j member
    rw [basis] at member
    rw [entry]
    rcases (wellFormed.basis.mem_set_iff row outside _).1 member with enters | ⟨stays, inside⟩
    · obtain rfl := Fin.ext enters
      rw [div_neg, neg_mul, div_mul_cancel₀ _ falls.ne, add_neg_cancel]
      exact slackNonneg j
    · obtain ⟨i, rfl⟩ := wellFormed.basis.mem_range_iff.2 inside
      have other : row ≠ i := fun same => stays (by rw [same])
      rw [row_basis lacks.inverse, if_neg other, mul_zero, add_zero]
      exact within.le _ inside

end Lacks

theorem finish_eq {basis : List ℕ} (accepted : p.IsBasis basis) {basicValues : Vec ℚ}
    (length : basicValues.length = p.numEquations)
    (nonneg : 0 ≤ toFun basicValues p.numEquations) (iterations : ℕ) :
    ∃ values, finish p basis basicValues iterations =
        .ok ⟨values, basis, p.value values, iterations⟩ ∧ values.length = p.numVariables ∧
      toFun values p.numVariables = spread accepted.column (toFun basicValues p.numEquations) := by
  have same : basicValues.map (fun value => Scalar.max value 0) = basicValues := by
    refine (List.map_congr_left fun value member => ?_).trans (List.map_id _)
    rw [Scalar.max_eq]
    exact max_eq_left ((forall_mem_iff length).2 nonneg value member)
  obtain ⟨values, scattered, lengthValues, entries⟩ := accepted.scatter?_eq length
  refine ⟨values, ?_, lengthValues, entries⟩
  rw [finish, same, scattered, demand_some, ok_bind, accepted.solutionAt?_eq lengthValues,
    demand_some]

inductive EndsWith (p : LinearProgram ℚ) : Fault ℚ → Prop
  | singular : EndsWith p (.failed .singularMatrix)
  | infeasible (none : ∀ x, ¬p.Feasible x) : EndsWith p (.failed .infeasible)

structure Solves (p : LinearProgram ℚ) (s : State ℚ) (solution : Solution ℚ) : Prop where
  feasible : p.Feasible solution.values
  objective_eq : solution.objective = p.value solution.values
  optimal : Complementary p s → p.Optimal solution.values

theorem WellFormed.solves (wellFormed : WellFormed p s)
    {N : Matrix (Fin p.numEquations) (Fin p.numEquations) ℚ} {values : Vec ℚ}
    (inverse : N * wellFormed.basis.matrix = 1) (nonneg : 0 ≤ N *ᵥ p.sides)
    (length : values.length = p.numVariables)
    (spreads : toFun values p.numVariables = spread wellFormed.basis.column (N *ᵥ p.sides))
    (iterations : ℕ) : Solves p s ⟨values, s.basis, p.value values, iterations⟩ := by
  have equations : p.matrix *ᵥ toFun values p.numVariables = p.sides := by
    rw [spreads]
    exact mulVec_basicPoint inverse p.sides
  have feasible : p.Feasible values := by
    refine ⟨length, (forall_mem_iff length).2 fun j => ?_, equations⟩
    rw [spreads]
    by_cases inside : j ∈ Set.range wellFormed.basis.column
    · obtain ⟨i, rfl⟩ := inside
      rw [spread_apply wellFormed.basis.column_injective]
      exact nonneg i
    · exact (spread_of_notMem inside _).ge
  refine ⟨feasible, rfl, fun complementary => ⟨feasible, fun x' feasible' => ?_⟩⟩
  refine optimal_of_complementary equations complementary.nonneg (fun j => ?_)
    feasible'.toFun_nonneg feasible'.equations
  by_cases inside : j ∈ Set.range wellFormed.basis.column
  · exact Or.inr (complementary.zero j (wellFormed.basis.mem_range_iff.1 inside))
  · rw [spreads]
    exact Or.inl (spread_of_notMem inside _)

inductive WellFormed.Turns (wellFormed : WellFormed p s) (iteration : ℕ) : Step ℚ → Prop
  | optimal (N : Matrix (Fin p.numEquations) (Fin p.numEquations) ℚ) (values : Vec ℚ)
      (inverse : N * wellFormed.basis.matrix = 1) (nonneg : 0 ≤ N *ᵥ p.sides)
      (length : values.length = p.numVariables)
      (spreads : toFun values p.numVariables = spread wellFormed.basis.column (N *ᵥ p.sides)) :
      Turns wellFormed iteration (.optimal ⟨values, s.basis, p.value values, iteration⟩)
  | next (N : Matrix (Fin p.numEquations) (Fin p.numEquations) ℚ) (deficit : Deficit ℚ)
      (row : Fin p.numEquations) (lacks : wellFormed.Lacks N deficit row)
      (entering : Fin p.numVariables) (enters : s.Enters p (N row ᵥ* p.matrix) entering)
      (y : Vec ℚ) (length : y.length = p.numEquations)
      (moved : reduced p.matrix p.costs (toFun y p.numEquations) = s.reducedCosts p +
        s.ratio p (N row ᵥ* p.matrix) entering • (N row ᵥ* p.matrix)) :
      Turns wellFormed iteration (.next ⟨s.basis.set row entering, y⟩)

theorem WellFormed.step_turns (wellFormed : WellFormed p s) (exact : config.tolerance = 0)
    (iteration : ℕ) :
    (step p config iteration s).outcome.Yields (wellFormed.Turns iteration) (EndsWith p) := by
  rw [outcome_step]
  apply ((wellFormed.locate_yields exact).mono_fault
    (by rintro _ rfl; exact EndsWith.singular)).bind
  intro _ either
  obtain ⟨N, basicValues, inverse, length, entries, nonneg⟩ | ⟨N, deficit, row, lacks⟩ := either
  · obtain ⟨values, finished, lengthValues, spreads⟩ :=
      finish_eq wellFormed.basis length (entries ▸ nonneg) iteration
    dsimp only
    rw [finished, ok_bind, pure_eq_ok, yields_ok]
    exact .optimal N values inverse nonneg lengthValues (entries ▸ spreads)
  · dsimp only
    cases found : firstLeast? (candidates p config s.basis deficit) with
    | none => exact .infeasible (lacks.infeasible exact (firstLeast?_eq_none_iff.1 found))
    | some candidate =>
        obtain ⟨entering, outside, falls, rfl⟩ :=
          (lacks.mem_candidates_iff exact).1 (firstLeast?_mem found)
        obtain ⟨y, moved, length, reducedCosts⟩ := lacks.move_eq entering
          (s.ratio p (N row ᵥ* p.matrix) entering)
        dsimp only
        rw [moved, ok_bind, pure_eq_ok, yields_ok]
        refine .next N deficit row lacks entering ⟨outside, falls, fun j away sinks => ?_⟩ y length
          reducedCosts
        exact firstLeast?_le found ((lacks.mem_candidates_iff exact).2 ⟨j, away, sinks, rfl⟩)

theorem WellFormed.step_yields (wellFormed : WellFormed p s) (exact : config.tolerance = 0)
    (iteration : ℕ) :
    (step p config iteration s).outcome.Yields
      (fun result => match result with
        | .optimal solution => Solves p s solution
        | .next next => WellFormed p next ∧ (Complementary p s → Complementary p next))
      (EndsWith p) := by
  refine (wellFormed.step_turns exact iteration).mono_value ?_
  intro result turns
  cases turns with
  | optimal N values inverse nonneg length spreads =>
      exact wellFormed.solves inverse nonneg length spreads iteration
  | next N deficit row lacks entering enters y length moved =>
      obtain ⟨exchanged, -⟩ := wellFormed.basis.exchange row enters.outside
      refine ⟨⟨exchanged, length⟩, fun complementary => ?_⟩
      rw [complementary_iff] at complementary ⊢
      exact complementary.move le_rfl lacks enters rfl moved

theorem WellFormed.run_yields (wellFormed : WellFormed p s) (exact : config.tolerance = 0)
    (limit iteration : ℕ) :
    (run p config limit iteration s).outcome.Yields (Solves p s)
      (fun fault => EndsWith p fault ∨ fault = .iterationLimit) := by
  induction limit generalizing iteration s with
  | zero => exact Or.inr rfl
  | succ limit ih =>
      rw [run, Traced.outcome_bind]
      apply ((wellFormed.step_yields exact iteration).mono_fault fun _ ends => Or.inl ends).bind
      intro either result
      obtain solution | next := either
      · exact result
      · obtain ⟨wellFormed', keeps⟩ := result
        refine (ih wellFormed' (iteration + 1)).mono_value ?_
        intro solution given
        obtain ⟨feasible, objective_eq, optimal⟩ := given
        exact ⟨feasible, objective_eq, fun complementary => optimal (keeps complementary)⟩

inductive Rejects : Fault ℚ → Prop
  | singular : Rejects (.failed .singularMatrix)
  | mismatch (cause : Mismatch) : Rejects (.failed (.dimensionMismatch cause))
  | basis (defect : BasisDefect ℚ) : Rejects (.failed (.invalidBasis defect))

theorem check_eq (exact : config.tolerance = 0) {y : Vec ℚ} (length : y.length = p.numEquations) :
    ∃ costs, p.reducedCostsFor? y = some costs ∧
      ((costs.zipIdx.find? (fun entry => entry.1 < -config.tolerance) = none ∧
          0 ≤ reduced p.matrix p.costs (toFun y p.numEquations)) ∨
        ∃ cost column, costs.zipIdx.find? (fun entry => entry.1 < -config.tolerance) =
          some (cost, column)) := by
  obtain ⟨costs, found, lengthCosts, entries⟩ := p.reducedCostsFor?_eq length
  refine ⟨costs, found, ?_⟩
  rcases find?_below lengthCosts (-config.tolerance) with ⟨checked, nonneg⟩ | ⟨j, checked, -⟩
  · refine Or.inl ⟨checked, fun j => ?_⟩
    simpa [entries, exact] using nonneg j
  · exact Or.inr ⟨_, _, checked⟩

theorem start_given_yields (p : LinearProgram ℚ) (basis : List ℕ) (y : Vec ℚ)
    (exact : config.tolerance = 0) :
    (start p basis (some y) config).Yields
      (fun s => s = ⟨basis, y⟩ ∧ WellFormed p s ∧ 0 ≤ s.reducedCosts p) Rejects := by
  rw [start]
  apply ((p.checkBasis_yields basis).mono (fun _ => LinearProgram.checkBasis_eq_ok_iff.1)
    (by rintro _ ⟨defect, rfl⟩; exact Rejects.basis defect)).bind
  intro _ accepted
  by_cases length : y.length = p.numEquations
  · obtain ⟨costs, found, ⟨checked, nonneg⟩ | ⟨cost, column, checked⟩⟩ :=
      check_eq (p := p) exact length
    · simp only [if_pos length, pure_eq_ok, found, demand_some, ok_bind, checked, yields_ok]
      exact ⟨trivial, ⟨accepted, length⟩, nonneg⟩
    · simp only [if_pos length, pure_eq_ok, found, demand_some, ok_bind, checked]
      exact .basis _
  · simp only [if_neg length]
    exact .mismatch _

theorem start_yields (p : LinearProgram ℚ) (basis : List ℕ) (multipliers : Option (Vec ℚ))
    (exact : config.tolerance = 0) :
    (start p basis multipliers config).Yields
      (fun s => WellFormed p s ∧ (multipliers = none → Complementary p s)) Rejects := by
  cases multipliers with
  | some y =>
      refine (start_given_yields p basis y exact).mono_value ?_
      intro s given
      obtain ⟨-, wellFormed, -⟩ := given
      exact ⟨wellFormed, by simp⟩
  | none =>
      rw [start]
      apply ((p.checkBasis_yields basis).mono (fun _ => LinearProgram.checkBasis_eq_ok_iff.1)
        (by rintro _ ⟨defect, rfl⟩; exact Rejects.basis defect)).bind
      intro _ _
      apply ((p.multipliers_yields basis).mono_fault ?_).bind
      · intro y given
        obtain ⟨accepted, length, N, inverse, entries⟩ := given
        obtain ⟨costs, found, ⟨checked, nonneg⟩ | ⟨cost, column, checked⟩⟩ :=
          check_eq (p := p) exact length
        · simp only [found, demand_some, ok_bind, checked, pure_eq_ok, yields_ok]
          refine ⟨⟨accepted, length⟩, fun _ => ⟨nonneg, fun j inside => ?_⟩⟩
          obtain ⟨i, rfl⟩ := accepted.mem_range_iff.2 inside
          rw [State.reducedCosts, entries]
          exact reduced_basis inverse i
        · simp only [found, demand_some, ok_bind, checked]
          exact .basis _
      · intro fault either
        obtain rfl | ⟨defect, rfl⟩ := either
        · exact .singular
        · exact .basis defect

end Dual

namespace LinearProgram

/-- A solution found with the multipliers of the basis is optimal, and a problem called infeasible
has no feasible point, whatever the multipliers were. -/
theorem solveDual_sound (p : LinearProgram ℚ) (basis : List ℕ) {config : Config ℚ}
    (exact : config.tolerance = 0) (limit : ℕ) :
    (∀ solution, (p.solveDual basis none config limit).outcome = .ok solution →
      p.Optimal solution.values ∧ solution.objective = p.value solution.values) ∧
    ∀ multipliers, (p.solveDual basis multipliers config limit).outcome =
      .error (.failed .infeasible) → ∀ x, ¬p.Feasible x := by
  have yields (multipliers) : (p.solveDual basis multipliers config limit).outcome.Yields
      (fun solution => multipliers = none →
        p.Optimal solution.values ∧ solution.objective = p.value solution.values)
      (fun fault => fault = .failed .infeasible → ∀ x, ¬p.Feasible x) := by
    rw [solveDual, Traced.outcome_bind, Traced.outcome_lift]
    apply ((Dual.start_yields p basis multipliers exact).mono (fun _ started => started) ?_).bind
    · intro s given
      obtain ⟨wellFormed, own⟩ := given
      refine (wellFormed.run_yields exact limit 0).mono ?_ ?_
      · intro solution given none
        obtain ⟨-, objective_eq, optimal⟩ := given
        exact ⟨optimal (own none), objective_eq⟩
      · intro fault either called
        obtain (_ | none) | rfl := either
        · cases called
        · exact none
        · cases called
    · rintro fault (_ | cause | defect) called <;> cases called
  constructor
  · intro solution solved
    exact (yields none).of_eq_ok solved rfl
  · intro multipliers called
    exact (yields multipliers).of_eq_error called rfl

def covering : LinearProgram ℚ where
  cost := [1, 2, 0]
  constraints := ⟨[[-1, -1, 1]], 3, by decide⟩
  rhs := [-1]
  cost_length := rfl
  rhs_length := rfl
  height_lt_width := by decide

def impossible : LinearProgram ℚ where
  cost := [1, 1, 0]
  constraints := ⟨[[1, 1, 1]], 3, by decide⟩
  rhs := [-1]
  cost_length := rfl
  rhs_length := rfl
  height_lt_width := by decide

theorem solveDual_sound_covering :
    covering.Optimal [1, 0, 0] ∧ ∀ x, ¬impossible.Feasible x := by
  constructor
  · have solved : (covering.solveDual [2] none ⟨0, 0, true⟩ 3).outcome =
        .ok ⟨[1, 0, 0], [0], 1, 1⟩ := by decide +kernel
    exact ((covering.solveDual_sound [2] rfl 3).1 _ solved).1
  · have called : (impossible.solveDual [2] (some [0]) ⟨0, 0, true⟩ 1).outcome =
        .error (.failed .infeasible) := by decide +kernel
    exact (impossible.solveDual_sound [2] rfl 1).2 (some [0]) called

end LinearProgram

end SimplexMethod
