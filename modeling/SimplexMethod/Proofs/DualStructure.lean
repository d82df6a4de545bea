import SimplexMethod.Proofs.FloatOrder
import SimplexMethod.Proofs.Selection
import SimplexMethod.Proofs.Structure
import SimplexMethod.Dual

namespace SimplexMethod

open Outcome

/-- Zero equals itself and lies below the numbers above it. -/
class Scalar.LawfulZero (α : Type) [Scalar α] : Prop where
  zero_beq_zero : ((0 : α) == 0) = true
  zero_le_zero : (0 : α) ≤ 0
  zero_le_of_lt {x : α} : 0 < x → 0 ≤ x

instance : Scalar.LawfulZero Float where
  zero_beq_zero := by decide +kernel
  zero_le_zero := by decide +kernel
  zero_le_of_lt := by
    intro x above
    obtain ⟨r, ranked, r', ranked', less⟩ := FloatOrder.lt_iff.1 (FloatOrder.float_lt_iff.1 above)
    exact FloatOrder.float_le_iff.2 (FloatOrder.le_iff.2 ⟨r, ranked, r', ranked', less.le⟩)

variable {α : Type} [Scalar α]

theorem Scalar.zero_le_max_zero [LawfulZero α] (value : α) : 0 ≤ Scalar.max value 0 := by
  unfold Scalar.max
  split
  · rename_i chosen
    rw [Bool.or_eq_true, decide_eq_true_eq, bne, LawfulZero.zero_beq_zero] at chosen
    rcases chosen with above | impossible
    · exact LawfulZero.zero_le_of_lt above
    · cases impossible
  · exact LawfulZero.zero_le_zero

theorem Vec.mem_scatter {length : ℕ} {support : List ℕ} {values : Vec α} {value : α}
    (member : value ∈ scatter length support values) : value = 0 ∨ value ∈ values := by
  revert member
  apply List.foldlRecOn (motive := fun x : Vec α => value ∈ x → value = 0 ∨ value ∈ values)
  · intro member
    exact Or.inl (List.eq_of_mem_replicate member)
  · intro x ih entry inside member
    rcases List.mem_or_eq_of_mem_set member with old | rfl
    · exact ih old
    · exact Or.inr (List.of_mem_zip inside).2

theorem RowMatrix.vecMul?_of_length {y : Vec α} {a : RowMatrix α} (length : y.length = a.height) :
    vecMul? y a = some (vecMul y a) := if_pos length

namespace LinearProgram

theorem reducedCostsFor?_eq_of_length {p : LinearProgram α} {y : Vec α}
    (length : y.length = p.numEquations) :
    p.reducedCostsFor? y = some (Vec.sub p.cost (RowMatrix.vecMul y p.constraints)) := by
  rw [reducedCostsFor?, RowMatrix.vecMul?_of_length length, Option.map_some]

theorem length_reducedCosts (p : LinearProgram α) (y : Vec α) :
    (Vec.sub p.cost (RowMatrix.vecMul y p.constraints)).length = p.numVariables := by
  rw [Vec.sub, List.length_zipWith, RowMatrix.length_vecMul, p.cost_length, min_self, numVariables]

end LinearProgram

namespace Dual

variable {p : LinearProgram α} {config : Config α} {s next : State α}

structure Structured (p : LinearProgram α) (s : State α) : Prop where
  checked : p.checkBasis s.basis = .ok ()
  length : s.multipliers.length = p.numEquations

structure Deficit.Fits (p : LinearProgram α) (deficit : Deficit α) : Prop where
  row_lt : deficit.row < p.numEquations
  inverseRow : deficit.inverseRow.length = p.numEquations
  tableauRow : deficit.tableauRow.length = p.numVariables
  reducedCosts : deficit.reducedCosts.length = p.numVariables

theorem Structured.locate_yields (structured : Structured p s) (config : Config α) :
    (locate p config s).Yields (fun position => ∀ deficit, position = .deficient deficit →
      deficit.Fits p) (· = .failed .singularMatrix) := by
  obtain ⟨length, below, -⟩ := LinearProgram.checkBasis_ok_iff.1 structured.checked
  unfold locate
  apply (BasisInverse.ofBasis_yields_shaped .reinversion length below).bind
  intro inverse given
  obtain ⟨⟨height, width, -⟩, -⟩ := given
  have fits : p.rhs.length = inverse.inverse.width := p.rhs_length.trans width.symm
  rw [BasisInverse.express, RowMatrix.mulVec?, if_pos fits, demand_some, ok_bind]
  split
  · exact nofun
  · rename_i value row found
    have inside : row < p.numEquations := by
      have bound := List.snd_lt_of_mem_zipIdx (List.mem_of_find?_eq_some found)
      rwa [RowMatrix.length_mulVec, height] at bound
    have leaving : s.basis[row]? = some (s.basis.getD row 0) := by
      simp [inside.trans_eq length.symm]
    have lengthRow : (inverse.inverse.row row).length = p.numEquations :=
      (RowMatrix.length_row _ row).trans width
    rw [leaving, demand_some, ok_bind, BasisInverse.row, RowMatrix.row?,
      if_pos (inside.trans_eq height.symm), demand_some, ok_bind,
      RowMatrix.vecMul?_of_length lengthRow, demand_some, ok_bind,
      LinearProgram.reducedCostsFor?_eq_of_length structured.length, demand_some, ok_bind]
    rintro _ ⟨⟩
    exact ⟨inside, lengthRow, RowMatrix.length_vecMul _, p.length_reducedCosts _⟩

theorem mem_candidates {basis : List ℕ} {deficit : Deficit α} {candidate : ℕ × α}
    (member : candidate ∈ candidates p config basis deficit) :
    candidate.1 < p.numVariables ∧ candidate.1 ∉ basis := by
  simp only [candidates, List.mem_map, List.mem_filter, List.mem_range] at member
  obtain ⟨j, ⟨⟨inside, outside⟩, -⟩, rfl⟩ := member
  exact ⟨inside, by simpa using outside⟩

theorem Structured.move_eq (structured : Structured p s) {deficit : Deficit α}
    (fits : deficit.Fits p) {entering : ℕ} (inside : entering < p.numVariables)
    (outside : entering ∉ s.basis) (step : α) :
    ∃ next, move s deficit entering step = .ok next ∧ Structured p next := by
  obtain ⟨length, below, nodup⟩ := LinearProgram.checkBasis_ok_iff.1 structured.checked
  have present : s.basis[deficit.row]? = some (s.basis.getD deficit.row 0) := by
    simp [fits.row_lt.trans_eq length.symm]
  have lengths : s.multipliers.length = deficit.inverseRow.length :=
    structured.length.trans fits.inverseRow.symm
  refine ⟨_, by rw [move, Vec.addScaled?, if_pos lengths, demand_some, ok_bind, pure_eq_ok], ?_, ?_⟩
  · refine LinearProgram.checkBasis_ok_iff.2 ⟨(List.length_set ..).trans length, ?_, ?_⟩
    · intro j member
      rcases (mem_set_iff nodup present outside j).1 member with rfl | ⟨-, old⟩
      · exact inside
      · exact below j old
    · exact List.Nodup.set nodup outside
  · simp [Vec.addScaled, ← lengths, structured.length]

end Dual

structure LinearProgram.Accepts (p : LinearProgram α) (solution : Solution α) : Prop where
  checked : p.checkBasis solution.basis = .ok ()
  vanishes : solution.values.VanishesOutside solution.basis p.numVariables
  nonneg : ∀ value ∈ solution.values, 0 ≤ value
  objective_eq : p.objective? solution.values = some solution.objective

namespace Dual

variable {p : LinearProgram α} {s : State α}

theorem outcome_progress (config : Config α) (iteration : ℕ) (basicValues : Vec α) :
    (progress config iteration basicValues).outcome = .ok () := by
  unfold progress
  split
  · rfl
  · rfl

theorem outcome_step (p : LinearProgram α) (config : Config α) (iteration : ℕ) (s : State α) :
    (step p config iteration s).outcome = (do
      match ← locate p config s with
      | .optimal basicValues => return .optimal (← finish p s.basis basicValues iteration)
      | .deficient deficit =>
        match firstLeast? (candidates p config s.basis deficit) with
        | none => fail .infeasible
        | some (entering, ratio) => return .next (← move s deficit entering ratio)) := by
  rw [step, Traced.outcome_bind, Traced.outcome_lift]
  refine bind_congr fun position => ?_
  cases position with
  | optimal basicValues =>
      simp only [Traced.outcome_bind, Traced.outcome_emit, Traced.outcome_lift, ok_bind]
      rfl
  | deficient deficit =>
      simp only [Traced.outcome_bind, Traced.outcome_emit, ok_bind]
      cases firstLeast? (candidates p config s.basis deficit) with
      | none => rfl
      | some chosen =>
          simp only [Traced.outcome_bind, Traced.outcome_emit, Traced.outcome_lift, ok_bind,
            outcome_progress]
          rfl

variable [Scalar.LawfulZero α]

theorem finish_yields {basis : List ℕ} (checked : p.checkBasis basis = .ok ()) (basicValues : Vec α)
    (iterations : ℕ) :
    (finish p basis basicValues iterations).Yields p.Accepts fun _ => False := by
  obtain ⟨-, below, -⟩ := LinearProgram.checkBasis_ok_iff.1 checked
  rw [finish, Vec.scatter?, if_pos below, demand_some, ok_bind]
  generalize nonneg_eq : (basicValues.map fun value => Scalar.max value 0) = nonnegative
  have vanishes := Vec.scatter_vanishesOutside p.numVariables basis nonnegative
  have length := vanishes.length_eq
  have objective : p.objective? (Vec.scatter p.numVariables basis nonnegative) =
      some (Vec.dot p.cost (Vec.scatter p.numVariables basis nonnegative)) :=
    if_pos (p.cost_length.trans length.symm)
  rw [Solution.at?, objective]
  simp only [Option.bind_eq_bind, Option.bind_some, length, if_pos below]
  refine ⟨checked, vanishes, fun value member => ?_, objective⟩
  rcases Vec.mem_scatter member with rfl | inside
  · exact Scalar.LawfulZero.zero_le_zero
  · subst nonneg_eq
    obtain ⟨value, -, rfl⟩ := List.mem_map.1 inside
    exact Scalar.zero_le_max_zero value

inductive Keeps (p : LinearProgram α) : Step α → Prop
  | optimal {solution : Solution α} (accepts : p.Accepts solution) : Keeps p (.optimal solution)
  | next {state : State α} (structured : Structured p state) : Keeps p (.next state)

theorem Structured.step_yields (structured : Structured p s) (config : Config α) (iteration : ℕ) :
    (step p config iteration s).outcome.Yields (Keeps p) (· ≠ .requirement) := by
  rw [outcome_step]
  apply ((structured.locate_yields config).mono_fault ?_).bind
  · intro position located
    cases position with
    | optimal basicValues =>
        apply ((finish_yields structured.checked basicValues iteration).mono_fault
          fun _ => False.elim).bind
        intro solution accepts
        exact .optimal accepts
    | deficient deficit =>
        have fits := located deficit rfl
        dsimp only
        split
        · exact nofun
        · rename_i entering step found
          obtain ⟨inside, outside⟩ := mem_candidates (firstLeast?_mem found)
          obtain ⟨next, moved, structured'⟩ := structured.move_eq fits inside outside step
          rw [moved, ok_bind]
          exact .next structured'
  · rintro _ rfl
    nofun

theorem Structured.run_yields (structured : Structured p s) (config : Config α)
    (limit iteration : ℕ) :
    (run p config limit iteration s).outcome.Yields p.Accepts (· ≠ .requirement) := by
  induction limit generalizing s iteration with
  | zero => exact nofun
  | succ limit ih =>
      rw [run, Traced.outcome_bind]
      apply (structured.step_yields config iteration).bind
      intro result keeps
      cases keeps with
      | optimal accepts => exact accepts
      | next structured' => exact ih structured' (iteration + 1)

def FollowedBy (p : LinearProgram α) (config : Config α) (s next : State α) : Prop :=
  ∃ iteration, (step p config iteration s).outcome = .ok (.next next)

theorem Structured.of_reached {config : Config α} {state : State α} (structured : Structured p s)
    (reached : Relation.ReflTransGen (FollowedBy p config) s state) : Structured p state := by
  induction reached with
  | refl => exact structured
  | tail _ last ih =>
      obtain ⟨iteration, stepped⟩ := last
      cases (ih.step_yields config iteration).of_eq_ok stepped with
      | next structured' => exact structured'

end Dual

namespace LinearProgram

variable (p : LinearProgram α)

theorem inverseAt_yields_of_checked {p : LinearProgram α} {basis : List ℕ}
    (checked : p.checkBasis basis = .ok ()) :
    (p.inverseAt basis).Yields
      (fun inverse => inverse.height = p.numEquations ∧ inverse.width = p.numEquations)
      (· = .failed .singularMatrix) := by
  obtain ⟨length, below, -⟩ := checkBasis_ok_iff.1 checked
  have selected : p.basisMatrix? basis = some (p.constraints.columnsAt basis) := if_pos below
  have height : (p.constraints.columnsAt basis).height = p.numEquations := List.length_map _
  rw [inverseAt, checked, ok_bind, selected, demand_some, ok_bind]
  refine (RowMatrix.invert_yields_shape (height.trans length.symm)).mono_value ?_
  intro inverse shape
  exact ⟨shape.1.trans height, shape.2.trans height⟩

theorem inverseAt_yields_shape (basis : List ℕ) :
    (p.inverseAt basis).Yields (fun inverse => p.checkBasis basis = .ok () ∧
      inverse.height = p.numEquations ∧ inverse.width = p.numEquations) (· ≠ .requirement) := by
  cases checked : p.checkBasis basis with
  | error fault =>
      obtain ⟨defect, rfl⟩ := (p.checkBasis_yields basis).of_eq_error checked
      rw [inverseAt, checked]
      exact nofun
  | ok _ =>
      refine (inverseAt_yields_of_checked checked).mono ?_ ?_
      · exact fun inverse shape => ⟨rfl, shape⟩
      · rintro _ rfl
        exact nofun

theorem multipliers_yields_length (basis : List ℕ) :
    (p.multipliers basis).Yields (fun y => y.length = p.numEquations) (· ≠ .requirement) := by
  rw [multipliers]
  apply (p.inverseAt_yields_shape basis).bind
  intro inverse given
  obtain ⟨checked, height, width⟩ := given
  obtain ⟨length, below, -⟩ := checkBasis_ok_iff.1 checked
  rw [costsOf?, if_pos below, demand_some, ok_bind,
    RowMatrix.vecMul?_of_length (by rw [List.length_map, length, height]), demand_some]
  exact (RowMatrix.length_vecMul _).trans width

end LinearProgram

namespace Dual

theorem start_structured (p : LinearProgram α) (basis : List ℕ) (multipliers : Option (Vec α))
    (config : Config α) :
    (start p basis multipliers config).Yields (Structured p) (· ≠ .requirement) := by
  rw [start]
  apply ((p.checkBasis_yields basis).mono_fault ?_).bind
  · intro _ checked
    cases multipliers with
    | none =>
        apply (p.multipliers_yields_length basis).bind
        intro y length
        beta_reduce
        rw [LinearProgram.reducedCostsFor?_eq_of_length length, demand_some, ok_bind]
        split
        · exact nofun
        · exact ⟨checked, length⟩
    | some y =>
        by_cases length : y.length = p.numEquations
        · simp only [if_pos length, pure_eq_ok, ok_bind]
          rw [LinearProgram.reducedCostsFor?_eq_of_length length, demand_some, ok_bind]
          split
          · exact nofun
          · exact ⟨checked, length⟩
        · simp only [if_neg length]
          exact nofun
  · rintro _ ⟨defect, rfl⟩
    nofun

end Dual

end SimplexMethod
