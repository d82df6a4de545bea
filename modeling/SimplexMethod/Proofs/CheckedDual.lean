import SimplexMethod.Proofs.CheckedAccess
import SimplexMethod.Proofs.DualStructure

namespace SimplexMethod

open Outcome

variable {α : Type} [Scalar α]

theorem Vec.mapM_getElem? (x : Vec α) :
    ((List.range x.length).mapM fun i => demand x[i]? : Outcome α (Vec α)) = .ok x := by
  rw [mapM_getElem?_eq_ok 0 fun i member => List.mem_range.1 member]
  congr 1
  apply List.ext_getElem (by simp)
  intro i _ inside
  simp [inside]

namespace LinearProgram

variable (p : LinearProgram α) (basis : List ℕ)

def inverseAtChecked : Outcome α (RowMatrix α) := do
  p.checkBasis basis
  let matrix ← p.constraints.columnsAtChecked basis
  matrix.invertChecked

theorem inverseAtChecked_eq : p.inverseAtChecked basis = p.inverseAt basis := by
  simp only [inverseAtChecked, RowMatrix.columnsAtChecked_eq, RowMatrix.invertChecked_eq]
  rfl

def multipliersChecked : Outcome α (Vec α) := do
  let inverse ← p.inverseAtChecked basis
  let costs ← basis.mapM fun j => demand p.cost[j]?
  RowMatrix.vecMulChecked costs inverse

theorem multipliersChecked_eq : p.multipliersChecked basis = p.multipliers basis := by
  rw [multipliersChecked, multipliers, inverseAtChecked_eq]
  cases computed : p.inverseAt basis with
  | error fault => rfl
  | ok inverse =>
      obtain ⟨checked, -, -⟩ := (p.inverseAt_yields_shape basis).of_eq_ok computed
      obtain ⟨-, below, -⟩ := checkBasis_ok_iff.1 checked
      have costs : (basis.mapM fun j => demand p.cost[j]? : Outcome α (Vec α)) =
          .ok (basis.map fun j => p.cost.getD j 0) :=
        mapM_getElem?_eq_ok 0 fun j member => (below j member).trans_eq p.cost_length.symm
      rw [ok_bind, costs, ok_bind, RowMatrix.vecMulChecked_eq, costsOf?, if_pos below]
      rfl

def reducedCostsChecked (y : Vec α) : Outcome α (Vec α) := do
  return Vec.sub p.cost (← RowMatrix.vecMulChecked y p.constraints)

theorem reducedCostsChecked_eq (y : Vec α) :
    p.reducedCostsChecked y = demand (p.reducedCostsFor? y) := by
  rw [reducedCostsChecked, RowMatrix.vecMulChecked_eq, reducedCostsFor?]
  cases RowMatrix.vecMul? y p.constraints with
  | none => rfl
  | some products => rfl

def reducedCostsByColumn (y : Vec α) : Outcome α (Vec α) := do
  let costs ← p.reducedCostsChecked y
  (List.range p.numVariables).mapM fun j => demand costs[j]?

theorem reducedCostsByColumn_eq (y : Vec α) :
    p.reducedCostsByColumn y = demand (p.reducedCostsFor? y) := by
  rw [reducedCostsByColumn, reducedCostsChecked_eq]
  by_cases length : y.length = p.numEquations
  · rw [reducedCostsFor?_eq_of_length length, demand_some, ok_bind, ← p.length_reducedCosts y]
    exact Vec.mapM_getElem? _
  · have none : p.reducedCostsFor? y = none := by
      have apart : y.length ≠ p.constraints.height := length
      rw [reducedCostsFor?, RowMatrix.vecMul?, if_neg apart, Option.map_none]
    rw [none]
    rfl

end LinearProgram

namespace Dual

variable {p : LinearProgram α} {config : Config α} {s : State α}

def locateChecked (p : LinearProgram α) (config : Config α) (s : State α) :
    Outcome α (Position α) := do
  let matrix ← p.constraints.columnsAtChecked s.basis
  let inverse ← matrix.invertChecked
  let basicValues ← inverse.mulVecChecked p.rhs
  match basicValues.zipIdx.find? fun entry => entry.1 < -config.tolerance with
  | none => return .optimal basicValues
  | some (value, row) =>
    let leaving ← demand s.basis[row]?
    let inverseRow ← demand (inverse.row? row)
    let tableauRow ← RowMatrix.vecMulChecked inverseRow p.constraints
    let reducedCosts ← p.reducedCostsChecked s.multipliers
    return .deficient
      { basicValues, row, leaving, value, inverseRow, tableauRow, reducedCosts }

theorem locateChecked_eq (p : LinearProgram α) (config : Config α) (s : State α) :
    locateChecked p config s = locate p config s := by
  unfold locateChecked locate BasisInverse.ofBasis LinearProgram.basisMatrix?
  rw [RowMatrix.columnsAtChecked_eq, bind_assoc]
  refine bind_congr fun matrix => ?_
  rw [bind_assoc, RowMatrix.invertChecked_eq]
  refine bind_congr fun inverse => ?_
  rw [pure_eq_ok, ok_bind, RowMatrix.mulVecChecked_eq]
  refine bind_congr fun basicValues => ?_
  cases basicValues.zipIdx.find? fun entry => entry.1 < -config.tolerance with
  | none => rfl
  | some lowest =>
      simp only [RowMatrix.vecMulChecked_eq, LinearProgram.reducedCostsChecked_eq]
      rfl

def candidateChecked? (config : Config α) (deficit : Deficit α) (j : ℕ) :
    Outcome α (Option (ℕ × α)) := do
  let entry ← demand deficit.tableauRow[j]?
  if entry < -config.tolerance then
    let cost ← demand deficit.reducedCosts[j]?
    return some (j, Scalar.max cost 0 / -entry)
  else return none

def candidatesChecked (p : LinearProgram α) (config : Config α) (basis : List ℕ)
    (deficit : Deficit α) : Outcome α (List (ℕ × α)) := do
  let nonbasic := (List.range p.numVariables).filter fun j => !basis.contains j
  return (← nonbasic.mapM (candidateChecked? config deficit)).reduceOption

theorem Deficit.Fits.candidateChecked?_eq {deficit : Deficit α} (fits : deficit.Fits p)
    (config : Config α) {j : ℕ} (inside : j < p.numVariables) :
    candidateChecked? config deficit j =
      .ok (if deficit.tableauRow.getD j 0 < -config.tolerance then
        some (j, Scalar.max (deficit.reducedCosts.getD j 0) 0 / -deficit.tableauRow.getD j 0)
      else none) := by
  have entry : deficit.tableauRow[j]? = some (deficit.tableauRow.getD j 0) := by
    simp [inside.trans_eq fits.tableauRow.symm]
  have cost : deficit.reducedCosts[j]? = some (deficit.reducedCosts.getD j 0) := by
    simp [inside.trans_eq fits.reducedCosts.symm]
  rw [candidateChecked?, entry, demand_some, ok_bind, cost, demand_some]
  split
  · rfl
  · rfl

theorem Deficit.Fits.candidatesChecked_eq {deficit : Deficit α} (fits : deficit.Fits p)
    (config : Config α) (basis : List ℕ) :
    candidatesChecked p config basis deficit = .ok (candidates p config basis deficit) := by
  unfold candidatesChecked candidates
  simp only
  rw [mapM_eq_ok fun j member => fits.candidateChecked?_eq config
    (List.mem_range.1 (List.mem_filter.1 member).1)]
  generalize (List.range p.numVariables).filter _ = nonbasic
  rw [ok_bind, pure_eq_ok, List.reduceOption, List.filterMap_map]
  conv_rhs => rw [← List.filterMap_eq_map, List.filterMap_filter]
  simp only [Function.comp_def, id_eq, decide_eq_true_eq]

def moveChecked (s : State α) (deficit : Deficit α) (entering : ℕ) (step : α) :
    Outcome α (State α) := do
  require (deficit.row < s.basis.length)
  move s deficit entering step

def stepChecked (p : LinearProgram α) (config : Config α) (iteration : ℕ) (s : State α) :
    Traced α (Step α) := do
  match ← locateChecked p config s with
  | .optimal basicValues =>
    Traced.emit (.dualOptimal iteration)
    return .optimal (← finish p s.basis basicValues iteration)
  | .deficient deficit =>
    Traced.emit (.dualState iteration deficit.basicValues deficit.reducedCosts)
    match firstLeast? (← candidatesChecked p config s.basis deficit) with
    | none =>
      Traced.emit (.dualInfeasible deficit.row iteration)
      Traced.fail .infeasible
    | some (entering, step) =>
      Traced.emit (.dualPivot iteration
        { leaving := deficit.leaving, row := deficit.row, value := deficit.value, entering, step })
      let next ← moveChecked s deficit entering step
      progress config (iteration + 1) deficit.basicValues
      return .next next

theorem Structured.stepChecked_eq (structured : Structured p s) (config : Config α)
    (iteration : ℕ) : stepChecked p config iteration s = step p config iteration s := by
  unfold stepChecked step
  rw [locateChecked_eq]
  cases located : locate p config s with
  | error fault => rfl
  | ok position =>
      cases position with
      | optimal basicValues => rfl
      | deficient deficit =>
          have fits := (structured.locate_yields config).of_eq_ok located deficit rfl
          have length := (LinearProgram.checkBasis_ok_iff.1 structured.checked).1
          have moved (entering : ℕ) (step : α) :
              moveChecked s deficit entering step = move s deficit entering step := by
            rw [moveChecked, require_of (fits.row_lt.trans_eq length.symm), ok_bind]
          simp only [Traced.lift_ok_bind, fits.candidatesChecked_eq]
          cases firstLeast? (candidates p config s.basis deficit) with
          | none => rfl
          | some chosen => simp only [moved]

def runChecked (p : LinearProgram α) (config : Config α) :
    (limit iteration : ℕ) → State α → Traced α (Solution α)
  | 0, _, _ => Traced.ofOutcome (.error .iterationLimit)
  | limit + 1, iteration, s => do
    match ← stepChecked p config iteration s with
    | .optimal solution => return solution
    | .next state => runChecked p config limit (iteration + 1) state

theorem Structured.runChecked_eq [Scalar.LawfulZero α] (structured : Structured p s)
    (config : Config α) (limit iteration : ℕ) :
    runChecked p config limit iteration s = run p config limit iteration s := by
  induction limit generalizing s iteration with
  | zero => rfl
  | succ limit ih =>
      have keeps := structured.step_yields config iteration
      rw [runChecked, run, structured.stepChecked_eq]
      change Traced.bind _ _ = Traced.bind _ _
      unfold Traced.bind
      cases stepped : (step p config iteration s).outcome with
      | error fault => rfl
      | ok result =>
          rw [stepped] at keeps
          cases keeps with
          | optimal accepts => rfl
          | next structured' =>
              simp only
              rw [ih structured' (iteration + 1)]

def startChecked (p : LinearProgram α) (basis : List ℕ) (multipliers : Option (Vec α))
    (config : Config α) : Outcome α (State α) := do
  p.checkBasis basis
  let multipliers ← match multipliers with
    | none => p.multipliersChecked basis
    | some y =>
      if y.length = p.numEquations then pure y
      else fail (.dimensionMismatch (.dualLength y.length p.numEquations))
  let costs ← p.reducedCostsByColumn multipliers
  match costs.zipIdx.find? fun entry => entry.1 < -config.tolerance with
  | some (cost, column) => fail (.invalidBasis (.negativeReducedCost column cost))
  | none => return { basis, multipliers }

theorem startChecked_eq (p : LinearProgram α) (basis : List ℕ) (multipliers : Option (Vec α))
    (config : Config α) :
    startChecked p basis multipliers config = start p basis multipliers config := by
  unfold startChecked start
  refine bind_congr fun _ => ?_
  cases multipliers with
  | none =>
      rw [p.multipliersChecked_eq]
      exact bind_congr fun y => congrArg (· >>= _) (p.reducedCostsByColumn_eq y)
  | some y =>
      by_cases length : y.length = p.numEquations
      · simp only [if_pos length, pure_eq_ok, ok_bind]
        exact congrArg (· >>= _) (p.reducedCostsByColumn_eq y)
      · simp only [if_neg length]
        rfl

end Dual

namespace LinearProgram

def solveDualChecked (p : LinearProgram α) (basis : List ℕ) (multipliers : Option (Vec α))
    (config : Config α) (limit : ℕ) : Traced α (Solution α) := do
  Dual.runChecked p config limit 0 (← Dual.startChecked p basis multipliers config)

theorem solveDual_yields [Scalar.LawfulZero α] (p : LinearProgram α) (basis : List ℕ)
    (multipliers : Option (Vec α)) (config : Config α) (limit : ℕ) :
    (p.solveDual basis multipliers config limit).outcome.Yields p.Accepts (· ≠ .requirement) := by
  rw [solveDual, Traced.outcome_bind, Traced.outcome_lift]
  apply (Dual.start_structured p basis multipliers config).bind
  intro s structured
  exact structured.run_yields config limit 0

theorem solveDualChecked_eq [Scalar.LawfulZero α] (p : LinearProgram α) (basis : List ℕ)
    (multipliers : Option (Vec α)) (config : Config α) (limit : ℕ) :
    p.solveDualChecked basis multipliers config limit =
      p.solveDual basis multipliers config limit := by
  rw [solveDualChecked, solveDual, Dual.startChecked_eq]
  cases started : Dual.start p basis multipliers config with
  | error fault => rfl
  | ok s =>
      have structured := (Dual.start_structured p basis multipliers config).of_eq_ok started
      rw [Traced.lift_ok_bind, Traced.lift_ok_bind, structured.runChecked_eq]

/-- From whatever basis, multipliers and settings the method is called with, no check fails in any
iteration, every basis that it comes to is accepted, and so is the one of its solution. -/
theorem solveDual_structured [Scalar.LawfulZero α] (p : LinearProgram α) (basis : List ℕ)
    (multipliers : Option (Vec α)) (config : Config α) :
    (∀ limit, p.solveDualChecked basis multipliers config limit =
        p.solveDual basis multipliers config limit ∧
      (p.solveDual basis multipliers config limit).outcome ≠ .error .requirement) ∧
    (∀ s state, Dual.start p basis multipliers config = .ok s →
      Relation.ReflTransGen (Dual.FollowedBy p config) s state →
      p.checkBasis state.basis = .ok () ∧ state.multipliers.length = p.numEquations) ∧
    ∀ limit solution, (p.solveDual basis multipliers config limit).outcome = .ok solution →
      p.checkBasis solution.basis = .ok () ∧
      solution.values.VanishesOutside solution.basis p.numVariables ∧
      (∀ value ∈ solution.values, 0 ≤ value) ∧
      p.objective? solution.values = some solution.objective := by
  refine ⟨fun limit => ⟨p.solveDualChecked_eq basis multipliers config limit, ?_⟩, ?_, ?_⟩
  · intro broken
    exact (p.solveDual_yields basis multipliers config limit).of_eq_error broken rfl
  · intro s state started reached
    have structured := (Dual.start_structured p basis multipliers config).of_eq_ok started
    exact ⟨(structured.of_reached reached).checked, (structured.of_reached reached).length⟩
  · intro limit solution solved
    have accepts := (p.solveDual_yields basis multipliers config limit).of_eq_ok solved
    exact ⟨accepts.checked, accepts.vanishes, accepts.nonneg, accepts.objective_eq⟩

def unpriced : LinearProgram Float where
  cost := [0 / 0, 1, 0]
  constraints := ⟨[[-1, -1, 1]], 3, by decide⟩
  rhs := [-1]
  cost_length := rfl
  rhs_length := rfl
  height_lt_width := by decide

theorem solveDual_structured_unpriced :
    (∃ solution, (unpriced.solveDual [2] none .standard 9).outcome = .ok solution ∧
      solution.basis = [0] ∧ unpriced.checkBasis solution.basis = .ok () ∧
      (∀ value ∈ solution.values, 0 ≤ value) ∧
      unpriced.objective? solution.values = some solution.objective) ∧
    (unpriced.solveDual [2] (some [0 / 0]) ⟨0 / 0, 0, true⟩ 9).outcome ≠ .error .requirement := by
  constructor
  · obtain ⟨-, -, solves⟩ := unpriced.solveDual_structured [2] none .standard
    have chosen : (unpriced.solveDual [2] none .standard 9).outcome.toOption.map Solution.basis =
        some [0] := by
      decide +kernel
    cases solved : (unpriced.solveDual [2] none .standard 9).outcome with
    | error fault =>
        rw [solved] at chosen
        cases chosen
    | ok solution =>
        rw [solved] at chosen
        obtain ⟨checked, -, nonneg, objective⟩ := solves 9 solution solved
        exact ⟨solution, rfl, Option.some.inj chosen, checked, nonneg, objective⟩
  · exact ((unpriced.solveDual_structured [2] (some [0 / 0]) ⟨0 / 0, 0, true⟩).1 9).2

end LinearProgram

end SimplexMethod
