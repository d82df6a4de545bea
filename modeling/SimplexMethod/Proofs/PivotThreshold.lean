import SimplexMethod.Proofs.FloatOrder
import SimplexMethod.Proofs.RowBookkeeping

namespace SimplexMethod

open Outcome

variable {α : Type} [Scalar α]

theorem BasisInverse.abs_le_of_exchange {left : RowMatrix α} {row : ℕ} {entering column : Vec α}
    (refused : (productForm left).exchange row entering column = .error (.failed .singularMatrix)) :
    ∃ value, column[row]? = some value ∧ Scalar.abs value ≤ Scalar.pivotTolerance := by
  rw [exchange, eliminationColumn] at refused
  cases present : column[row]? with
  | none =>
      rw [present] at refused
      cases refused
  | some value =>
      refine ⟨value, rfl, ?_⟩
      by_contra large
      rw [present, demand_some, ok_bind, if_neg large, pure_eq_ok, ok_bind] at refused
      cases followed : left.eliminateWith? (Vec.scale (column.set row (-1)) (-1 / value)) row with
      | none =>
          rw [followed] at refused
          cases refused
      | some next =>
          rw [followed] at refused
          cases refused

section LawfulOrder

variable [Scalar.LawfulOrder α]

theorem Tableau.not_refusesPivot {t : Tableau α} (productForm : t.inverse.upkeep = .productForm)
    (enough : Scalar.pivotTolerance ≤ t.tolerance) : ¬t.RefusesPivot := by
  rintro ⟨present, large, refused⟩
  cases held : t.inverse with
  | reinversion basisMatrix left =>
      rw [held] at productForm
      cases productForm
  | productForm left =>
      rw [held] at refused
      obtain ⟨value, found, small⟩ := BasisInverse.abs_le_of_exchange refused
      rw [present, Option.some_inj] at found
      subst found
      rcases large with above | above
      · have below := Scalar.LawfulOrder.lt_of_le_of_lt enough above
        exact Scalar.LawfulOrder.not_abs_lt _ (Scalar.LawfulOrder.lt_of_le_of_lt small below)
      · have below := Scalar.LawfulOrder.lt_of_le_of_lt enough above
        exact Scalar.LawfulOrder.lt_irrefl _ (Scalar.LawfulOrder.lt_of_le_of_lt small below)

theorem Tableau.Explains.ne_singular {t : Tableau α} {fault : Fault α} (explains : t.Explains fault)
    (productForm : t.inverse.upkeep = .productForm)
    (enough : Scalar.pivotTolerance ≤ t.tolerance) : fault ≠ .failed .singularMatrix := by
  intro singular
  obtain ⟨s, continues, refuses⟩ := explains singular
  exact not_refusesPivot (continues.upkeep_eq.trans productForm)
    (continues.tolerance_eq.symm ▸ enough) refuses

theorem FeasibleStart.Explained.ne_singular {config : Config α} {fault : Fault α}
    (explained : Explained .productForm config fault)
    (enough : Scalar.pivotTolerance ≤ config.tolerance) : fault ≠ .failed .singularMatrix := by
  intro singular
  obtain ⟨t, -, upkeep_eq, tolerance_eq, refuses⟩ := explained singular
  exact Tableau.not_refusesPivot upkeep_eq (tolerance_eq ▸ enough) refuses

theorem Tableau.Structured.run_yields {t : Tableau α} (structured : t.Structured)
    (productForm : t.inverse.upkeep = .productForm) (enough : Scalar.pivotTolerance ≤ t.tolerance)
    (rule : PivotRule) (config : Config α) (limit : ℕ) :
    (t.primal rule config limit).optimum.outcome.Yields (fun _ => True)
      (· ≠ .failed .singularMatrix) :=
  (Primal.run_explained rule config structured limit 0).mono (fun _ _ => trivial)
    fun _ explains => explains.ne_singular productForm enough

end LawfulOrder

namespace Tableau

variable {p : LinearProgram α} {basis : List ℕ}

theorem start_eq_singular_iff (upkeep : Upkeep) (tolerance : α) :
    Tableau.start upkeep p basis tolerance = .error (.failed .singularMatrix) ↔
      p.checkBasis basis = .ok () ∧ ∃ basisMatrix, p.basisMatrix? basis = some basisMatrix ∧
        basisMatrix.invert = .error (.failed .singularMatrix) := by
  cases checked : p.checkBasis basis with
  | error fault =>
      obtain ⟨defect, rfl⟩ := (p.checkBasis_yields basis).of_eq_error checked
      rw [start, checked]
      refine iff_of_false (fun singular => ?_) fun given => ?_
      · cases singular
      · cases given.1
  | ok =>
      obtain ⟨length, below, -⟩ := LinearProgram.checkBasis_ok_iff.1 checked
      have selected : p.basisMatrix? basis = some (p.constraints.columnsAt basis) := if_pos below
      have square : (p.constraints.columnsAt basis).height = (p.constraints.columnsAt basis).width :=
        (List.length_map _).trans length.symm
      rw [start, checked, ok_bind, BasisInverse.ofBasis, selected, demand_some, ok_bind]
      cases inverted : (p.constraints.columnsAt basis).invert with
      | error fault =>
          cases (RowMatrix.invert_yields_shape square).of_eq_error inverted
          exact iff_of_true rfl ⟨rfl, _, rfl, inverted⟩
      | ok left =>
          refine iff_of_false (fun singular => ?_) ?_
          · have required : (demand (BasisInverse.ofInverse? left) >>= fun inverse =>
                startWith p inverse basis tolerance).OnlyRequires :=
              (onlyRequires_demand _).bind fun inverse => startWith_onlyRequires ..
            cases upkeep with
            | productForm => cases required.of_eq_error singular
            | reinversion =>
                cases (startWith_onlyRequires ..).of_eq_error singular
          · rintro ⟨-, _, ⟨⟩, singular⟩
            rw [inverted] at singular
            cases singular

end Tableau

namespace LinearProgram

variable [Scalar.LawfulOrder α]

variable {p : LinearProgram α} {config : Config α} {basis : List ℕ} {t : Tableau α}

theorem primal_yields_regular (enough : Scalar.pivotTolerance ≤ config.tolerance)
    (started : Tableau.start .productForm p basis config.tolerance = .ok t) (rule : PivotRule)
    (limit : ℕ) :
    (t.primal rule config limit).optimum.outcome.Yields (fun _ => True)
      (· ≠ .failed .singularMatrix) := by
  obtain ⟨structured, -, -, productForm, -, tolerance_eq⟩ := Tableau.start_structured started
  exact structured.run_yields productForm (tolerance_eq.symm ▸ enough) rule config limit

theorem solvePrimal_yields_regular (enough : Scalar.pivotTolerance ≤ config.tolerance)
    (started : Tableau.start .productForm p basis config.tolerance = .ok t) (rule : PivotRule)
    (limit : ℕ) :
    (p.solvePrimal .productForm rule basis config limit).outcome.Yields (fun _ => True)
      (· ≠ .failed .singularMatrix) := by
  have required {fault : Fault α} : fault = .requirement → fault ≠ .failed .singularMatrix := by
    rintro rfl
    nofun
  rw [solvePrimal, Traced.outcome_bind, Traced.outcome_lift]
  have accepted : (p.primalStart .productForm basis config).Yields (· = t)
      (· ≠ .failed .singularMatrix) := by
    rw [primalStart, started, ok_bind]
    have computed := @Yields.mapM α ℕ α t.basicValue (fun _ _ => True) (· = .requirement)
      (List.range t.numEquations) fun i _ => t.basicValue_onlyRequires i
    apply (computed.mono_fault fun _ => required).bind
    intro basicValues _
    split
    · nofun
    · rfl
  apply accepted.bind
  rintro _ rfl
  rw [Traced.outcome_bind]
  apply (primal_yields_regular enough started rule limit).bind
  intro ended _
  exact (onlyRequires_demand _).mono_fault fun _ => required

/-- With the product form and such a tolerance no search for a feasible start ends with a singular
matrix, and a run from a given basis does so only if the basis itself is called singular before the
first pivot. -/
theorem productForm_singular_iff (p : LinearProgram α) (rule : PivotRule) {config : Config α}
    (enough : Scalar.pivotTolerance ≤ config.tolerance) (limit : ℕ) :
    (p.findFeasible .productForm rule config limit).outcome ≠ .error (.failed .singularMatrix) ∧
    ∀ basis,
      ((p.solvePrimal .productForm rule basis config limit).outcome =
          .error (.failed .singularMatrix) ↔
        p.checkBasis basis = .ok () ∧ ∃ basisMatrix, p.basisMatrix? basis = some basisMatrix ∧
          basisMatrix.invert = .error (.failed .singularMatrix)) ∧
      ∀ t, Tableau.start .productForm p basis config.tolerance = .ok t →
        (t.primal rule config limit).outcome ≠ .error (.failed .singularMatrix) := by
  refine ⟨fun singular => ?_, fun basis => ⟨?_, fun t started singular => ?_⟩⟩
  · obtain ⟨_, r, -, failed⟩ := FeasibleStart.findFeasible_eq_error_iff.1 singular
    exact ((FeasibleStart.find_reports r.problem .productForm rule config limit).of_eq_error
      failed).ne_singular enough rfl
  · rw [← Tableau.start_eq_singular_iff .productForm config.tolerance]
    cases started : Tableau.start .productForm p basis config.tolerance with
    | error fault =>
        rw [solvePrimal, Traced.outcome_bind, Traced.outcome_lift, primalStart, started, error_bind,
          error_bind, Except.error.injEq, Except.error.injEq]
    | ok t =>
        have regular := solvePrimal_yields_regular enough started rule limit
        exact iff_of_false (fun singular => regular.of_eq_error singular rfl) nofun
  · have regular := primal_yields_regular enough started rule limit
    rw [Primal.Run.optimum, singular] at regular
    exact regular rfl

def multiples : LinearProgram Float where
  cost := [1, 1, 1]
  constraints := ⟨[[1, 2, 0], [2, 4, 1]], 3, by decide⟩
  rhs := [1, 3]
  cost_length := rfl
  rhs_length := rfl
  height_lt_width := by decide

theorem productForm_singular_iff_multiples :
    (multiples.findFeasible .productForm .leastIndex .standard 9).outcome ≠
        .error (.failed .singularMatrix) ∧
      (multiples.solvePrimal .productForm .leastIndex [0, 1] .standard 9).outcome =
        .error (.failed .singularMatrix) ∧
      (multiples.solvePrimal .productForm .leastIndex [0, 2] .standard 9).outcome ≠
        .error (.failed .singularMatrix) := by
  have enough : Scalar.pivotTolerance ≤ (Config.standard : Config Float).tolerance := by
    decide +kernel
  obtain ⟨found, solved⟩ := multiples.productForm_singular_iff .leastIndex enough 9
  refine ⟨found, (solved [0, 1]).1.2 ⟨by decide +kernel, _, rfl, by decide +kernel⟩, ?_⟩
  intro singular
  obtain ⟨-, _, ⟨⟩, refused⟩ := (solved [0, 2]).1.1 singular
  have inverted : (multiples.constraints.columnsAt [0, 2]).invert.toOption.isSome = true := by
    decide +kernel
  rw [refused] at inverted
  cases inverted

end LinearProgram

end SimplexMethod
