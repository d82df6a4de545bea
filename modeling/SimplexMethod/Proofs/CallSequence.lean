import SimplexMethod.Proofs.Exact
import SimplexMethod.Proofs.InPlace

namespace SimplexMethod.Tableau

open Outcome Update

variable {α : Type} [Scalar α]

inductive CallsTo (t s : Tableau α) : Prop
  | intro (entering row : ℕ) (column : Vec α) (step : α)
      (length : column.length = t.numEquations)
      (final : finalState (overwrite entering row column step t) = s)

variable {t s : Tableau α} {p : LinearProgram α} {upkeep : Upkeep} {basis : List ℕ} {tolerance : α}

theorem Structured.callsTo_cases (structured : t.Structured) (call : t.CallsTo s) :
    s = t ∨ ∃ entering row column step, column.length = t.numEquations ∧
      t.exchange entering row column step = .ok s := by
  obtain ⟨entering, row, column, step, length, final⟩ := call
  rw [structured.overwrite_eq length] at final
  cases exchanged : t.exchange entering row column step with
  | error fault =>
      rw [exchanged] at final
      exact Or.inl final.symm
  | ok next =>
      rw [exchanged] at final
      cases final
      exact Or.inr ⟨entering, row, column, step, length, exchanged⟩

theorem Structured.of_callsTo (structured : t.Structured) (call : t.CallsTo s) :
    t.Continues s := by
  rcases structured.callsTo_cases call with rfl | ⟨_, _, _, _, length, exchanged⟩
  · exact structured.continues
  · exact (structured.of_exchange length exchanged).continues

theorem Structured.of_calls (structured : t.Structured)
    (calls : Relation.ReflTransGen CallsTo t s) : t.Continues s := by
  induction calls with
  | refl => exact structured.continues
  | tail _ last ih => exact ih.trans (ih.structured.of_callsTo last)

/-- Whatever calls have gone before, the parts of the tableau agree.  The next call within the
contract replaces one column of the basis, or it finds the new basis singular and changes nothing;
no check in it fails. -/
theorem structured_of_calls (started : start upkeep p basis tolerance = .ok t)
    (calls : Relation.ReflTransGen CallsTo t s) :
    s.Structured ∧ s.problem = p ∧ s.tolerance = tolerance ∧
    ∀ entering row column step, s.Fits entering row column →
      (∃ next, overwrite entering row column step s = .ok () next ∧
        s.exchange entering row column step = .ok next ∧
        next.basis = s.basis.set row entering) ∨
      overwrite entering row column step s = .error (.failed .singularMatrix) s ∧
        s.exchange entering row column step = .error (.failed .singularMatrix) := by
  obtain ⟨structured, rfl, -, -, -, rfl⟩ := start_structured started
  have continues := structured.of_calls calls
  refine ⟨continues.structured, continues.problem_eq, continues.tolerance_eq, ?_⟩
  intro entering row column step fits
  have yields := continues.structured.exchange_yields fits step
  rw [continues.structured.overwrite_eq fits.length]
  cases exchanged : s.exchange entering row column step with
  | ok next => exact Or.inl ⟨next, rfl, rfl, (yields.of_eq_ok exchanged).basis_eq⟩
  | error fault =>
      cases (yields.of_eq_error exchanged).1
      exact Or.inr ⟨rfl, rfl⟩

def collinear : LinearProgram ℚ where
  cost := [1, 1, 1, 1]
  constraints := ⟨[[1, 0, 1, 2], [0, 1, 1, 2]], 4, by decide⟩
  rhs := [3, 3]
  cost_length := rfl
  rhs_length := rfl
  height_lt_width := by decide

def collinearAt (inverse : BasisInverse ℚ) (basis members : List ℕ) (values : Vec ℚ) : Tableau ℚ :=
  ⟨collinear, inverse, basis, members, values, 0⟩

theorem structured_of_calls_collinear :
    ∃ t s, start .productForm collinear [0, 1] 0 = .ok t ∧
      Relation.ReflTransGen CallsTo t s ∧ s.basis = [2, 1] ∧ s.Structured ∧
      overwrite 3 1 [2, 0] 0 s = .error (.failed .singularMatrix) s := by
  let t := collinearAt (.productForm ⟨[[1, 0], [0, 1]], 2, by decide⟩) [0, 1] [0, 1] [3, 3, 0, 0]
  let s := collinearAt (.productForm ⟨[[1, 0], [-1, 1]], 2, by decide⟩) [2, 1] [2, 1] [0, 0, 3, 0]
  have started : start .productForm collinear [0, 1] 0 = .ok t := by decide +kernel
  have accepted : t.CallsTo s := .intro 2 0 [1, 1] 3 rfl (by decide +kernel)
  have refused : s.CallsTo s := .intro 3 1 [2, 0] 0 rfl (by decide +kernel)
  have calls := (Relation.ReflTransGen.single accepted).tail refused
  obtain ⟨structured, -, -, outcome⟩ := structured_of_calls started calls
  have singular : s.exchange 3 1 [2, 0] 0 = .error (.failed .singularMatrix) := by decide +kernel
  rcases outcome 3 1 [2, 0] 0 ⟨by decide, by decide, by decide, rfl⟩ with
    ⟨next, -, exchanged, -⟩ | ⟨kept, -⟩
  · rw [singular] at exchanged
    cases exchanged
  · exact ⟨t, s, started, calls, rfl, structured, kept⟩

end SimplexMethod.Tableau
