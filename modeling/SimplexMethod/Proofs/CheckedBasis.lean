import SimplexMethod.Proofs.CheckedDual
import SimplexMethod.Proofs.StoredProgram

namespace SimplexMethod

open Outcome

variable {α : Type} [Scalar α]

def Outcome.verdict {β : Type} (outcome : Outcome α β) : Outcome α Unit := outcome.map fun _ => ()

omit [Scalar α] in
theorem Outcome.Yields.verdict_bind {β γ : Type} {outcome : Outcome α β} {next : β → Outcome α γ}
    {value : β → Prop} {fault : Fault α → Prop} (yields : outcome.Yields value fault)
    (succeeds : ∀ result, value result → (next result).verdict = .ok ()) :
    (outcome >>= next).verdict = outcome.verdict := by
  cases outcome with
  | error failure => rfl
  | ok result => exact succeeds result yields

namespace LinearProgram

variable (p : LinearProgram α) (basis : List ℕ)

omit [Scalar α] in
theorem checkBasis_cases :
    p.checkBasis basis = .ok () ∨ ∃ defect, p.checkBasis basis = fail (.invalidBasis defect) := by
  cases checked : p.checkBasis basis with
  | ok _ => exact Or.inl rfl
  | error fault =>
      obtain ⟨defect, rfl⟩ := (p.checkBasis_yields basis).of_eq_error checked
      exact Or.inr ⟨defect, rfl⟩

variable {p basis} in
theorem verdict_inverseAt_of_checked (checked : p.checkBasis basis = .ok ()) :
    (p.inverseAt basis).verdict = .ok () ∨ (p.inverseAt basis).verdict = fail .singularMatrix := by
  cases computed : p.inverseAt basis with
  | ok inverse => exact Or.inl rfl
  | error fault =>
      cases (inverseAt_yields_of_checked checked).of_eq_error computed
      exact Or.inr rfl

variable {p basis} in
theorem verdict_inverseAt_of_refused {defect : BasisDefect α}
    (refused : p.checkBasis basis = fail (.invalidBasis defect)) :
    (p.inverseAt basis).verdict = fail (.invalidBasis defect) := by
  rw [inverseAt, refused]
  rfl

theorem verdict_inverseAt_cases :
    (∃ defect, (p.inverseAt basis).verdict = fail (.invalidBasis defect)) ∨
      (p.inverseAt basis).verdict = .ok () ∨ (p.inverseAt basis).verdict = fail .singularMatrix := by
  obtain checked | ⟨defect, refused⟩ := p.checkBasis_cases basis
  · exact Or.inr (verdict_inverseAt_of_checked checked)
  · exact Or.inl ⟨defect, verdict_inverseAt_of_refused refused⟩

theorem verdict_inverseAt_invalid_iff :
    (∃ defect, (p.inverseAt basis).verdict = fail (.invalidBasis defect)) ↔
      basis.length ≠ p.numEquations ∨ (∃ j ∈ basis, p.numVariables ≤ j) ∨ ¬basis.Nodup := by
  have malformed_iff : p.checkBasis basis ≠ .ok () ↔
      basis.length ≠ p.numEquations ∨ (∃ j ∈ basis, p.numVariables ≤ j) ∨ ¬basis.Nodup := by
    simp only [ne_eq, checkBasis_ok_iff, not_and_or, not_forall, not_lt, exists_prop]
  rw [← malformed_iff]
  obtain checked | ⟨defect, refused⟩ := p.checkBasis_cases basis
  · refine iff_of_false ?_ (not_not.2 checked)
    rintro ⟨defect, invalid⟩
    obtain exists_inverse | singular := verdict_inverseAt_of_checked checked
    · cases exists_inverse.symm.trans invalid
    · cases singular.symm.trans invalid
  · refine iff_of_true ⟨defect, verdict_inverseAt_of_refused refused⟩ ?_
    rw [refused]
    exact nofun

theorem verdict_multipliers : (p.multipliers basis).verdict = (p.inverseAt basis).verdict := by
  apply (p.inverseAt_yields_shape basis).verdict_bind
  intro inverse given
  obtain ⟨checked, height, -⟩ := given
  obtain ⟨length, below, -⟩ := checkBasis_ok_iff.1 checked
  rw [costsOf?, if_pos below, demand_some, ok_bind,
    RowMatrix.vecMul?_of_length (by rw [List.length_map, length, height])]
  rfl

theorem verdict_reducedCosts : (p.reducedCosts basis).verdict = (p.inverseAt basis).verdict := by
  rw [← verdict_multipliers]
  apply (p.multipliers_yields_length basis).verdict_bind
  intro y length
  rw [reducedCostsFor?_eq_of_length length]
  rfl

theorem verdict_basicPoint : (p.basicPoint basis).verdict = (p.inverseAt basis).verdict := by
  apply (p.inverseAt_yields_shape basis).verdict_bind
  intro inverse given
  obtain ⟨checked, -, width⟩ := given
  obtain ⟨-, below, -⟩ := checkBasis_ok_iff.1 checked
  have fits : p.rhs.length = inverse.width := p.rhs_length.trans width.symm
  rw [RowMatrix.mulVec?, if_pos fits, demand_some, ok_bind, Vec.scatter?, if_pos below]
  rfl

theorem verdict_start (upkeep : Upkeep) (tolerance : α) :
    (Tableau.start upkeep p basis tolerance).verdict = (p.inverseAt basis).verdict := by
  obtain checked | ⟨defect, refused⟩ := p.checkBasis_cases basis
  swap
  · rw [Tableau.start, inverseAt, refused]
    rfl
  obtain ⟨length, below, -⟩ := checkBasis_ok_iff.1 checked
  rw [Tableau.start, inverseAt, checked, ok_bind, ok_bind]
  refine ((BasisInverse.ofBasis_yields_shaped upkeep length below).verdict_bind ?_).trans ?_
  · intro inverse given
    have shaped := given.1
    have fits : p.rhs.length = inverse.inverse.width := p.rhs_length.trans shaped.width.symm
    have size : inverse.size = p.numEquations := shaped.height
    rw [Tableau.startWith, require_of length, ok_bind, require_of size, ok_bind,
      BasisInverse.express, RowMatrix.mulVec?, if_pos fits, demand_some, ok_bind, Vec.scatter?,
      if_pos below]
    rfl
  · have selected : p.basisMatrix? basis = some (p.constraints.columnsAt basis) := if_pos below
    have height : (p.constraints.columnsAt basis).height = p.numEquations := List.length_map _
    rw [BasisInverse.ofBasis, selected, demand_some, ok_bind, ok_bind]
    apply (RowMatrix.invert_yields_shape (height.trans length.symm)).verdict_bind
    intro left shape
    have square : left.height = left.width := shape.1.trans shape.2.symm
    cases upkeep with
    | productForm =>
        rw [BasisInverse.ofInverse?, if_pos square]
        rfl
    | reinversion => rfl

end LinearProgram

def Vec.scatterChecked (length : ℕ) (support : List ℕ) (values : Vec α) : Outcome α (Vec α) :=
  (support.zip values).foldlM (fun x entry => demand (set? x entry.1 entry.2)) (zeros length)

theorem Vec.scatterChecked_eq {length : ℕ} {support : List ℕ} (below : ∀ j ∈ support, j < length)
    (values : Vec α) :
    scatterChecked length support values = demand (scatter? length support values) := by
  rw [scatter?, if_pos below]
  apply foldlM_eq_ok fun x : Vec α => x.length = length
  · exact List.length_replicate
  · intro entry member x same
    have inside : entry.1 < x.length := (below _ (List.of_mem_zip member).1).trans_eq same.symm
    rw [set?, if_pos inside]
    exact ⟨rfl, (List.length_set ..).trans same⟩

namespace LinearProgram

variable (p : LinearProgram α) (basis : List ℕ)

def reducedCostsAtChecked : Outcome α (Vec α) := do
  p.reducedCostsChecked (← p.multipliersChecked basis)

theorem reducedCostsAtChecked_eq : p.reducedCostsAtChecked basis = p.reducedCosts basis := by
  simp only [reducedCostsAtChecked, multipliersChecked_eq, reducedCostsChecked_eq]
  rfl

def basicPointChecked : Outcome α (Vec α) := do
  let inverse ← p.inverseAtChecked basis
  let values ← inverse.mulVecChecked p.rhs
  Vec.scatterChecked p.numVariables basis values

theorem basicPointChecked_eq : p.basicPointChecked basis = p.basicPoint basis := by
  rw [basicPointChecked, basicPoint, inverseAtChecked_eq]
  cases computed : p.inverseAt basis with
  | error fault => rfl
  | ok inverse =>
      obtain ⟨checked, -, -⟩ := (p.inverseAt_yields_shape basis).of_eq_ok computed
      obtain ⟨-, below, -⟩ := checkBasis_ok_iff.1 checked
      simp only [ok_bind, RowMatrix.mulVecChecked_eq, Vec.scatterChecked_eq below]

end LinearProgram

def BasisInverse.ofBasisChecked (upkeep : Upkeep) (p : LinearProgram α) (basis : List ℕ) :
    Outcome α (BasisInverse α) := do
  let basisMatrix ← p.constraints.columnsAtChecked basis
  let inverse ← basisMatrix.invertChecked
  match upkeep with
  | .productForm => demand (ofInverse? inverse)
  | .reinversion => return reinversion basisMatrix inverse

theorem BasisInverse.ofBasisChecked_eq (upkeep : Upkeep) (p : LinearProgram α) (basis : List ℕ) :
    ofBasisChecked upkeep p basis = ofBasis upkeep p basis := by
  simp only [ofBasisChecked, RowMatrix.columnsAtChecked_eq, RowMatrix.invertChecked_eq]
  rfl

namespace Tableau

def startChecked (upkeep : Upkeep) (p : LinearProgram α) (basis : List ℕ) (tolerance : α) :
    Outcome α (Tableau α) := do
  p.checkBasis basis
  let inverse ← BasisInverse.ofBasisChecked upkeep p basis
  require (basis.length = p.numEquations)
  require (inverse.size = p.numEquations)
  let basicValues ← inverse.inverse.mulVecChecked p.rhs
  let values ← Vec.scatterChecked p.numVariables basis basicValues
  return { problem := p, inverse, basis, members := basis.eraseDups, values, tolerance }

theorem startChecked_eq (upkeep : Upkeep) (p : LinearProgram α) (basis : List ℕ) (tolerance : α) :
    startChecked upkeep p basis tolerance = start upkeep p basis tolerance := by
  unfold startChecked start startWith
  cases checked : p.checkBasis basis with
  | error fault => rfl
  | ok _ =>
      obtain ⟨-, below, -⟩ := LinearProgram.checkBasis_ok_iff.1 checked
      simp only [BasisInverse.ofBasisChecked_eq, RowMatrix.mulVecChecked_eq,
        Vec.scatterChecked_eq below]
      rfl

end Tableau

structure Outcome.Judges {β : Type} (checked plain : Outcome α β) (verdict : Outcome α Unit) :
    Prop where
  checked_eq : checked = plain
  verdict_eq : plain.verdict = verdict

namespace StoredProgram

variable {remove : (β : Type) → List β → List ℕ → Option (List β)} {s : StoredProgram α}

/-- A list is refused if and only if it is malformed.  If it is not, then everything that is computed
from it exists, or else the matrix of the basis is singular for all of them. -/
theorem basis_judged (removes : Vec.Removes remove) (arises : s.Arises remove) :
    ∃ p : LinearProgram α, p.stored = s ∧
      normalize s = .ok p.negativeRows p.normalize.stored ∧
      ∀ basis, ∃ verdict : Outcome α Unit,
        ((∃ defect, verdict = fail (.invalidBasis defect)) ↔
          basis.length ≠ s.constraints.rows.length ∨ (∃ j ∈ basis, s.constraints.width ≤ j) ∨
            ¬basis.Nodup) ∧
        ((∃ defect, verdict = fail (.invalidBasis defect)) ∨ verdict = .ok () ∨
          verdict = fail .singularMatrix) ∧
        (p.inverseAtChecked basis).Judges (p.inverseAt basis) verdict ∧
        (p.multipliersChecked basis).Judges (p.multipliers basis) verdict ∧
        (p.reducedCostsAtChecked basis).Judges (p.reducedCosts basis) verdict ∧
        (p.basicPointChecked basis).Judges (p.basicPoint basis) verdict ∧
        ∀ upkeep tolerance, (Tableau.startChecked upkeep p basis tolerance).Judges
          (Tableau.start upkeep p basis tolerance) verdict := by
  obtain ⟨p, rfl⟩ := arises.exists_program removes
  refine ⟨p, rfl, p.normalize_stored, fun basis => ⟨(p.inverseAt basis).verdict,
    p.verdict_inverseAt_invalid_iff basis, p.verdict_inverseAt_cases basis, ?_, ?_, ?_, ?_, ?_⟩⟩
  · exact ⟨p.inverseAtChecked_eq basis, rfl⟩
  · exact ⟨p.multipliersChecked_eq basis, p.verdict_multipliers basis⟩
  · exact ⟨p.reducedCostsAtChecked_eq basis, p.verdict_reducedCosts basis⟩
  · exact ⟨p.basicPointChecked_eq basis, p.verdict_basicPoint basis⟩
  · intro upkeep tolerance
    exact ⟨Tableau.startChecked_eq upkeep p basis tolerance,
      p.verdict_start basis upkeep tolerance⟩

end StoredProgram

def unmeasured : LinearProgram Float where
  cost := [0 / 0, 1, 0, 0]
  constraints := ⟨[[1, 2, 0, 1], [2, 4, 1, 0], [0, 0 / 0, 0, 0]], 4, by decide⟩
  rhs := [1, -3, 0 / 0]
  cost_length := rfl
  rhs_length := rfl
  height_lt_width := by decide

theorem StoredProgram.basis_judged_unmeasured :
    ∃ remove, Vec.Removes remove ∧ ∃ p : LinearProgram Float,
      p = unmeasured.normalize.dropRows [2] ∧ p.stored.Arises remove ∧
      (∃ defect, (p.multipliers [2, 0, 1]).verdict = fail (.invalidBasis defect)) ∧
      (∃ defect, (p.reducedCosts [1, 4]).verdict = fail (.invalidBasis defect)) ∧
      (∃ defect, (p.basicPoint [3, 3]).verdict = fail (.invalidBasis defect)) ∧
      (Tableau.start .productForm p [0, 1] 0).verdict = fail .singularMatrix ∧
      (Tableau.start .reinversion p [2, 0] (0 / 0)).verdict = .ok () := by
  have removes := Vec.dropPositions?_removes
  have created : LinearProgram.ofRows unmeasured.cost unmeasured.constraints.rows unmeasured.rhs =
      .ok unmeasured := rfl
  have removed : removeRows (fun _ => Vec.dropPositions?) [2] unmeasured.normalize.stored =
      .ok () (unmeasured.normalize.dropRows [2]).stored := by
    rw [LinearProgram.removeRows_stored removes, LinearProgram.dropRows?,
      if_pos (by decide)]
    rfl
  have arises : (unmeasured.normalize.dropRows [2]).stored.Arises fun _ => Vec.dropPositions? :=
    ((Arises.ofRows created).normalize unmeasured.normalize_stored).removeRows removed
  obtain ⟨p, same, -, judged⟩ := basis_judged removes arises
  cases LinearProgram.stored_injective same
  refine ⟨_, removes, _, rfl, arises, ?_, ?_, ?_, ?_, ?_⟩
  · obtain ⟨verdict, invalid_iff, -, -, multipliers, -⟩ := judged [2, 0, 1]
    rw [multipliers.verdict_eq]
    exact invalid_iff.2 (by decide)
  · obtain ⟨verdict, invalid_iff, -, -, -, reducedCosts, -⟩ := judged [1, 4]
    rw [reducedCosts.verdict_eq]
    exact invalid_iff.2 (by decide)
  · obtain ⟨verdict, invalid_iff, -, -, -, -, basicPoint, -⟩ := judged [3, 3]
    rw [basicPoint.verdict_eq]
    exact invalid_iff.2 (by decide)
  · obtain ⟨verdict, -, -, inverse, -, -, -, start⟩ := judged [0, 1]
    rw [(start .productForm 0).verdict_eq, ← inverse.verdict_eq]
    decide +kernel
  · obtain ⟨verdict, -, -, inverse, -, -, -, start⟩ := judged [2, 0]
    rw [(start .reinversion (0 / 0)).verdict_eq, ← inverse.verdict_eq]
    decide +kernel

end SimplexMethod
