import SimplexMethod.Proofs.Selection
import SimplexMethod.Proofs.Structure
import SimplexMethod.Primal

namespace SimplexMethod

open Outcome

variable {α : Type} [Scalar α]

namespace Outcome

variable {β γ : Type}

abbrev OnlyRequires (outcome : Outcome α β) : Prop :=
  outcome.Yields (fun _ => True) (· = .requirement)

omit [Scalar α] in
theorem onlyRequires_demand (value : Option β) : (demand value : Outcome α β).OnlyRequires :=
  (demand_yields value).mono_value fun _ _ => trivial

omit [Scalar α] in
theorem onlyRequires_require (condition : Prop) [Decidable condition] :
    (require condition : Outcome α Unit).OnlyRequires :=
  (require_yields condition).mono_value fun _ _ => trivial

omit [Scalar α] in
theorem OnlyRequires.bind {outcome : Outcome α β} {next : β → Outcome α γ}
    (first : outcome.OnlyRequires) (rest : ∀ value, (next value).OnlyRequires) :
    (outcome >>= next).OnlyRequires :=
  Yields.bind first fun value _ => rest value

end Outcome

namespace Tableau

variable {t s : Tableau α} {column : Vec α}

theorem Structured.express_yields (structured : t.Structured) (j : ℕ) :
    (t.express j).Yields (fun column => column.length = t.numEquations ∧
      ∀ i value, t.expressEntry i j = .ok value → column[i]? = some value) (· = .requirement) := by
  unfold express
  apply (demand_yields _).bind
  intro given present
  unfold BasisInverse.express RowMatrix.mulVec?
  split
  · refine ⟨(RowMatrix.length_mulVec _ _).trans structured.shaped.height, ?_⟩
    intro i value computed
    simp only [expressEntry, bind_eq_ok_iff, present, demand_eq_ok_iff, BasisInverse.expressEntry,
      RowMatrix.row?, Option.some.injEq, Option.ite_none_right_eq_some] at computed
    obtain ⟨_, -, _, rfl, _, ⟨inside, rfl⟩, same⟩ := computed
    cases same
    simp [RowMatrix.mulVec, RowMatrix.getElem?_rows inside]
  · rfl

omit [Scalar α] in
theorem basicValue_onlyRequires (t : Tableau α) (i : ℕ) : (t.basicValue i).OnlyRequires :=
  (onlyRequires_require _).bind fun _ => (onlyRequires_demand _).bind fun _ => onlyRequires_demand _

theorem limitingRow_yields (t : Tableau α) (column : Vec α) :
    (t.limitingRow column).Yields
      (fun found => ∀ row step, found = some (row, step) →
        ∃ value, column[row]? = some value ∧ t.tolerance < value)
      (· = .requirement) := by
  unfold limitingRow
  apply (require_yields _).bind
  intro _ _
  have ratios_yield := @Yields.mapM α (α × ℕ) (ℕ × α)
    (fun entry => return (entry.2, (← t.basicValue entry.2) / entry.1))
    (fun entry ratio => ratio.1 = entry.2) (· = .requirement)
    (column.zipIdx.filter fun entry => t.tolerance < entry.1)
    (fun entry _ => Yields.bind (t.basicValue_onlyRequires entry.2) fun _ _ => rfl)
  apply ratios_yield.bind
  intro ratios indexed row step found
  obtain ⟨entry, member, same⟩ := indexed _ (firstLeast?_mem found)
  obtain ⟨inside, large⟩ := List.mem_filter.1 member
  simp only at same
  subst same
  exact ⟨entry.1, List.mem_zipIdx_iff_getElem?.1 inside, of_decide_eq_true large⟩

inductive RefusesPivot (t : Tableau α) : Prop
  | intro {entering row : ℕ} {column : Vec α} {value : α} (present : column[row]? = some value)
      (large : t.tolerance < value ∨ t.tolerance < Scalar.abs value)
      (refused : t.inverse.exchange row (t.problem.constraints.column entering) column =
        .error (.failed .singularMatrix))

def Explains (t : Tableau α) (fault : Fault α) : Prop :=
  fault = .failed .singularMatrix → ∃ s, t.Continues s ∧ s.RefusesPivot

theorem explains_requirement (t : Tableau α) : t.Explains .requirement := nofun

theorem Continues.explains {fault : Fault α} (continues : t.Continues s) (explains : s.Explains fault) :
    t.Explains fault := by
  intro singular
  obtain ⟨last, later, refuses⟩ := explains singular
  exact ⟨last, continues.trans later, refuses⟩

theorem Structured.exchange_explained (structured : t.Structured) {row : ℕ} {value : α}
    (length : column.length = t.numEquations) (present : column[row]? = some value)
    (large : t.tolerance < value ∨ t.tolerance < Scalar.abs value) (entering : ℕ) (step : α) :
    (t.exchange entering row column step).Yields (t.Succeeds entering row) t.Explains := by
  refine (structured.exchange_yields_of_length length entering row step).mono_fault
    fun fault either => ?_
  rcases either with rfl | ⟨rfl, refused⟩
  · exact t.explains_requirement
  · exact fun _ => ⟨t, structured.continues, present, large, refused⟩

inductive Offers (t : Tableau α) : Prospect α → Prop
  | optimal : Offers t .optimal
  | unbounded (column : ℕ) : Offers t (.unbounded column)
  | pivot (cost : α) (pivot : Pivot α) (length : pivot.column.length = t.numEquations)
      {value : α} (present : pivot.column[pivot.row]? = some value) (large : t.tolerance < value) :
      Offers t (.pivot cost pivot)

theorem startWith_onlyRequires (p : LinearProgram α) (inverse : BasisInverse α) (basis : List ℕ)
    (tolerance : α) : (startWith p inverse basis tolerance).OnlyRequires :=
  (onlyRequires_require _).bind fun _ => (onlyRequires_require _).bind fun _ =>
    (onlyRequires_demand _).bind fun _ => (onlyRequires_demand _).bind fun _ => trivial

theorem reducedCosts_onlyRequires (t : Tableau α) : t.reducedCosts.OnlyRequires :=
  OnlyRequires.bind ((onlyRequires_demand _).bind fun _ => onlyRequires_demand _) fun _ =>
    onlyRequires_demand _

theorem checkFeasible_onlyRequires (t : Tableau α) (config : Config α) :
    (t.checkFeasible config).OnlyRequires := by
  unfold checkFeasible
  split
  · exact OnlyRequires.bind ((onlyRequires_demand _).bind fun _ => trivial) fun _ =>
      onlyRequires_require _
  · trivial

theorem checkedCosts_onlyRequires (t : Tableau α) (config : Config α) :
    (t.checkedCosts config).OnlyRequires :=
  (t.checkFeasible_onlyRequires config).bind fun _ => t.reducedCosts_onlyRequires

theorem objective_onlyRequires (t : Tableau α) : t.objective.OnlyRequires :=
  onlyRequires_demand _

theorem Structured.limitingPivot_yields (structured : t.Structured) (entering : ℕ) :
    (t.limitingPivot entering).Yields
      (fun found => ∀ pivot ∈ found, pivot.column.length = t.numEquations ∧
        ∃ value, pivot.column[pivot.row]? = some value ∧ t.tolerance < value)
      (· = .requirement) := by
  unfold limitingPivot
  apply (structured.express_yields entering).bind
  intro column given
  apply (t.limitingRow_yields column).bind
  intro found limits
  cases found with
  | none => nofun
  | some least =>
      apply (demand_yields _).bind
      rintro leaving - _ ⟨⟩
      exact ⟨given.1, limits _ _ rfl⟩

theorem Structured.prospect_yields (structured : t.Structured) (rule : PivotRule) :
    (t.prospect rule).Yields t.Offers (· = .requirement) := by
  unfold prospect
  have asked : (rule.enteringColumn t).OnlyRequires :=
    t.reducedCosts_onlyRequires.bind fun _ => trivial
  apply Yields.bind asked
  intro chosen _
  cases chosen with
  | none => exact .optimal
  | some candidate =>
      apply (structured.limitingPivot_yields candidate.1).bind
      intro found allowed
      cases found with
      | none => exact .unbounded _
      | some pivot =>
          obtain ⟨length, value, present, large⟩ := allowed pivot rfl
          exact .pivot _ pivot length present large

end Tableau

namespace Primal

open Tableau

variable {t : Tableau α} (rule : PivotRule) (config : Config α)

theorem progress_onlyRequires (iteration : ℕ) (t : Tableau α) :
    (progress config iteration t).outcome.OnlyRequires := by
  unfold progress
  split
  · rw [Traced.outcome_bind, Traced.outcome_lift]
    exact t.objective_onlyRequires.bind fun _ => trivial
  · trivial

theorem step_explained (structured : t.Structured) (iteration : ℕ) :
    (step rule config iteration t).outcome.Yields (fun result => ∀ next ∈ result, t.Continues next)
      t.Explains := by
  have required {fault : Fault α} (same : fault = .requirement) : t.Explains fault :=
    same ▸ t.explains_requirement
  unfold step
  simp only [Traced.outcome_bind, Traced.outcome_lift, Traced.outcome_emit, ok_bind]
  apply ((t.checkedCosts_onlyRequires config).mono_fault fun _ => required).bind
  intro costs _
  apply ((structured.prospect_yields rule).mono_fault fun _ => required).bind
  intro prospect offers
  cases offers with
  | optimal =>
      simp only [Traced.outcome_bind, Traced.outcome_lift, Traced.outcome_emit, ok_bind,
        Traced.outcome_pure]
      apply (t.objective_onlyRequires.mono_fault fun _ => required).bind
      exact fun _ _ _ member => nomatch member
  | unbounded column =>
      exact nofun
  | pivot cost pivot length present large =>
      simp only [Traced.outcome_bind, Traced.outcome_lift, Traced.outcome_emit, ok_bind,
        Traced.outcome_pure]
      apply (structured.exchange_explained length present (Or.inl large) pivot.entering
        pivot.step).bind
      intro next success
      apply ((progress_onlyRequires config _ next).mono_fault fun _ => required).bind
      rintro _ - _ ⟨⟩
      exact success.continues

theorem Run.optimum_succ (limit iteration : ℕ) (t : Tableau α) :
    (run rule config (limit + 1) iteration t).optimum = (do
      match ← step rule config iteration t with
      | none => return (t, iteration)
      | some next => (run rule config limit (iteration + 1) next).optimum) := by
  change _ = Traced.bind _ _
  rw [run, Traced.bind]
  cases (step rule config iteration t).outcome with
  | error fault => rfl
  | ok result =>
      cases result with
      | none => exact congrArg (Traced.mk · _) (List.append_nil _).symm
      | some next => rfl

theorem run_invariant {invariant : Tableau α → Prop} {ends : Fault α → Prop}
    (exhausted : ends .iterationLimit)
    (each : ∀ s iteration, invariant s → (step rule config iteration s).outcome.Yields
      (fun result => ∀ next ∈ result, invariant next) ends)
    (initial : invariant t) (limit iteration : ℕ) :
    (run rule config limit iteration t).optimum.outcome.Yields (fun ended => invariant ended.1)
      ends := by
  induction limit generalizing iteration t with
  | zero => exact exhausted
  | succ limit ih =>
      rw [Run.optimum_succ, Traced.outcome_bind]
      apply (each t iteration initial).bind
      intro result kept
      cases result with
      | none => exact initial
      | some next => exact ih (kept next rfl) (iteration + 1)

theorem run_explained (structured : t.Structured) (limit iteration : ℕ) :
    (run rule config limit iteration t).optimum.outcome.Yields (fun ended => t.Continues ended.1)
      t.Explains := by
  have each (s : Tableau α) (iteration : ℕ) (onward : t.Continues s) :
      (step rule config iteration s).outcome.Yields (fun result => ∀ next ∈ result, t.Continues next)
        t.Explains :=
    (step_explained rule config onward.structured iteration).mono
      (fun _ later next member => onward.trans (later next member))
      fun _ explains => onward.explains explains
  exact run_invariant rule config nofun each structured.continues limit iteration

end Primal

end SimplexMethod
