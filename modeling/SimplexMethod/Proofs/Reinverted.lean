import SimplexMethod.Proofs.CallSequence
import SimplexMethod.Proofs.Sizes
import SimplexMethod.BasisQuantities

namespace SimplexMethod

open Outcome

variable {α : Type} [Scalar α]

theorem RowMatrix.withColumn_columnsAt (a : RowMatrix α) (positions : List ℕ) (k j : ℕ) :
    (a.columnsAt positions).withColumn k (a.column j) = a.columnsAt (positions.set k j) := by
  refine eq_of_rows_eq ?_ (List.length_set ..).symm
  simp only [columnsAt, withColumn, column, List.zipWith_map, List.zipWith_self, List.map_set]

namespace BasisInverse

variable {p : LinearProgram α} {basis : List ℕ} {b next : BasisInverse α}

theorem ofBasis_reinversion_eq_ok_iff : ofBasis .reinversion p basis = .ok b ↔
    ∃ basisMatrix inverse, p.basisMatrix? basis = some basisMatrix ∧
      basisMatrix.invert = .ok inverse ∧ b = reinversion basisMatrix inverse := by
  simp only [ofBasis, bind_eq_ok_iff, demand_eq_ok_iff, pure_eq_ok, Except.ok.injEq]
  constructor
  · rintro ⟨basisMatrix, selected, inverse, inverted, rfl⟩
    exact ⟨basisMatrix, inverse, selected, inverted, rfl⟩
  · rintro ⟨basisMatrix, inverse, selected, inverted, rfl⟩
    exact ⟨basisMatrix, selected, inverse, inverted, rfl⟩

theorem ofBasis_of_exchange {row entering : ℕ} {column : Vec α}
    (held : ofBasis .reinversion p basis = .ok b) (bound : entering < p.numVariables)
    (exchanged : b.exchange row (p.constraints.column entering) column = .ok next) :
    ofBasis .reinversion p (basis.set row entering) = .ok next := by
  obtain ⟨basisMatrix, inverse, selected, -, rfl⟩ := ofBasis_reinversion_eq_ok_iff.1 held
  simp only [exchange, bind_eq_ok_iff, demand_eq_ok_iff] at exchanged
  obtain ⟨changed, written, inverse', inverted, same⟩ := exchanged
  cases same
  simp only [LinearProgram.basisMatrix?, RowMatrix.columnsAt?, Option.ite_none_right_eq_some,
    Option.some.injEq] at selected
  obtain ⟨below, rfl⟩ := selected
  simp only [RowMatrix.withColumn?, RowMatrix.withColumn_columnsAt, Option.ite_none_right_eq_some,
    Option.some.injEq] at written
  obtain ⟨-, rfl⟩ := written
  refine ofBasis_reinversion_eq_ok_iff.2 ⟨_, _, if_pos fun j member => ?_, inverted, rfl⟩
  rcases List.mem_or_eq_of_mem_set member with old | rfl
  · exact below j old
  · exact bound

end BasisInverse

namespace Tableau

variable {p : LinearProgram α} {t s : Tableau α} {basis : List ℕ} {tolerance : α}

theorem Structured.ofBasis_of_callsTo (structured : t.Structured) (call : t.CallsTo s)
    (held : BasisInverse.ofBasis .reinversion t.problem t.basis = .ok t.inverse) :
    BasisInverse.ofBasis .reinversion s.problem s.basis = .ok s.inverse := by
  rcases structured.callsTo_cases call with rfl | ⟨entering, row, column, step, _, exchanged⟩
  · exact held
  · obtain ⟨-, -, bound, followed, -, -, -⟩ := exchange_eq_ok_iff.1 exchanged
    exact BasisInverse.ofBasis_of_exchange held bound followed

theorem Structured.ofBasis_of_calls (structured : t.Structured)
    (calls : Relation.ReflTransGen CallsTo t s)
    (held : BasisInverse.ofBasis .reinversion t.problem t.basis = .ok t.inverse) :
    BasisInverse.ofBasis .reinversion s.problem s.basis = .ok s.inverse := by
  induction calls with
  | refl => exact held
  | tail earlier last ih => exact (structured.of_calls earlier).structured.ofBasis_of_callsTo last ih

theorem Structured.quantities_of_reinverted (structured : t.Structured)
    (held : BasisInverse.ofBasis .reinversion t.problem t.basis = .ok t.inverse) :
    t.problem.inverseAt t.basis = .ok t.inverse.inverse ∧
      t.multipliers = t.problem.multipliers t.basis ∧
      t.reducedCosts = t.problem.reducedCosts t.basis := by
  obtain ⟨basisMatrix, inverse, selected, inverted, same⟩ :=
    BasisInverse.ofBasis_reinversion_eq_ok_iff.1 held
  have computed : t.problem.inverseAt t.basis = .ok t.inverse.inverse := by
    rw [LinearProgram.inverseAt, structured.checked, ok_bind, selected, demand_some, ok_bind,
      inverted, same]
    rfl
  have multipliers : t.multipliers = t.problem.multipliers t.basis := by
    rw [LinearProgram.multipliers, computed, ok_bind, Tableau.multipliers]
    rfl
  refine ⟨computed, multipliers, ?_⟩
  rw [Tableau.reducedCosts, LinearProgram.reducedCosts, multipliers]

theorem Structured.exists_quantities (structured : t.Structured) :
    ∃ y costs, t.multipliers = .ok y ∧ t.reducedCosts = .ok costs :=
  structured.sized.exists_quantities

/-- With reinversion the way to a basis does not matter: whatever calls led there, the inverse is the
one that the basis has at the start, and so is all that is computed from it. -/
theorem reinverted_of_calls (started : start .reinversion p basis tolerance = .ok t)
    (calls : Relation.ReflTransGen CallsTo t s) :
    BasisInverse.ofBasis .reinversion p s.basis = .ok s.inverse ∧
    (∃ basisMatrix inverse, s.inverse = .reinversion basisMatrix inverse ∧
      p.basisMatrix? s.basis = some basisMatrix ∧ p.inverseAt s.basis = .ok inverse) ∧
    (∃ y costs, s.multipliers = .ok y ∧ p.multipliers s.basis = .ok y ∧
      s.reducedCosts = .ok costs ∧ p.reducedCosts s.basis = .ok costs) ∧
    ∀ basis' tolerance' t' s', start .reinversion p basis' tolerance' = .ok t' →
      Relation.ReflTransGen CallsTo t' s' → s'.basis = s.basis →
      s'.inverse = s.inverse ∧ s'.multipliers = s.multipliers ∧
        s'.reducedCosts = s.reducedCosts ∧ ∀ j, s'.reducedCost j = s.reducedCost j := by
  have after {basis tolerance t s} (started : start .reinversion p basis tolerance = .ok t)
      (calls : Relation.ReflTransGen CallsTo t s) : s.Structured ∧ s.problem = p ∧
        BasisInverse.ofBasis .reinversion s.problem s.basis = .ok s.inverse := by
    obtain ⟨structured, rfl, inverted, -, rfl, -⟩ := start_structured started
    have continues := structured.of_calls calls
    exact ⟨continues.structured, continues.problem_eq,
      structured.ofBasis_of_calls calls inverted⟩
  obtain ⟨structured, rfl, held⟩ := after started calls
  obtain ⟨inverted, multipliers_eq, reducedCosts_eq⟩ := structured.quantities_of_reinverted held
  refine ⟨held, ?_, ?_, ?_⟩
  · obtain ⟨basisMatrix, inverse, selected, -, same⟩ :=
      BasisInverse.ofBasis_reinversion_eq_ok_iff.1 held
    rw [same] at inverted
    exact ⟨basisMatrix, inverse, same, selected, inverted⟩
  · obtain ⟨y, costs, multiplied, priced⟩ := structured.exists_quantities
    exact ⟨y, costs, multiplied, multipliers_eq ▸ multiplied, priced, reducedCosts_eq ▸ priced⟩
  · intro basis' tolerance' t' s' started' calls' same
    obtain ⟨structured', problem_eq, held'⟩ := after started' calls'
    obtain ⟨-, multipliers_eq', reducedCosts_eq'⟩ := structured'.quantities_of_reinverted held'
    rw [problem_eq, same] at held' multipliers_eq' reducedCosts_eq'
    have multipliers_same := multipliers_eq'.trans multipliers_eq.symm
    refine ⟨Except.ok.inj (held'.symm.trans held), multipliers_same,
      reducedCosts_eq'.trans reducedCosts_eq.symm, fun j => ?_⟩
    rw [reducedCost, reducedCost, multipliers_same, problem_eq]

theorem reinverted_of_calls_collinear :
    ∃ t s t', start .reinversion collinear [0, 1] 0 = .ok t ∧
      Relation.ReflTransGen CallsTo t s ∧ start .reinversion collinear [2, 0] 0 = .ok t' ∧
      s.basis = [2, 0] ∧ t'.inverse = s.inverse ∧ t'.multipliers = s.multipliers := by
  let t := collinearAt (.reinversion ⟨[[1, 0], [0, 1]], 2, by decide⟩ ⟨[[1, 0], [0, 1]], 2, by decide⟩)
    [0, 1] [0, 1] [3, 3, 0, 0]
  let r := collinearAt (.reinversion ⟨[[1, 0], [1, 1]], 2, by decide⟩ ⟨[[1, 0], [-1, 1]], 2, by decide⟩)
    [2, 1] [2, 1] [0, 0, 3, 0]
  let s := collinearAt (.reinversion ⟨[[1, 1], [1, 0]], 2, by decide⟩ ⟨[[0, 1], [1, -1]], 2, by decide⟩)
    [2, 0] [0, 2] [0, 0, 3, 0]
  let t' := collinearAt s.inverse [2, 0] [2, 0] [0, 0, 3, 0]
  have started : start .reinversion collinear [0, 1] 0 = .ok t := by decide +kernel
  have started' : start .reinversion collinear [2, 0] 0 = .ok t' := by decide +kernel
  have first : t.CallsTo r := .intro 2 0 [1, 1] 3 rfl (by decide +kernel)
  have refused : r.CallsTo r := .intro 3 1 [2, 0] 0 rfl (by decide +kernel)
  have second : r.CallsTo s := .intro 0 1 [1, -1] 0 rfl (by decide +kernel)
  have calls := ((Relation.ReflTransGen.single first).tail refused).tail second
  obtain ⟨-, -, -, same⟩ := reinverted_of_calls started calls
  obtain ⟨inverse_eq, multipliers_eq, -⟩ := same [2, 0] 0 t' t' started' .refl rfl
  exact ⟨t, s, t', started, calls, started', rfl, inverse_eq, multipliers_eq⟩

end Tableau

end SimplexMethod
