import SimplexMethod.Proofs.Iteration
import SimplexMethod.Proofs.TolerantRun

namespace SimplexMethod
open Matrix Vec Outcome

namespace Tableau

variable {t : Tableau ℚ}

theorem WellFormed.exists_pivots (wellFormed : t.WellFormed) {rule : PivotRule} {cost : ℚ}
    {pivot : Pivot ℚ} (offered : t.prospect rule = .ok (.pivot cost pivot)) :
    ∃ j row, wellFormed.Enters rule j ∧ wellFormed.Pivots pivot j row := by
  obtain ⟨prospect, offered', offers⟩ := wellFormed.prospect_eq rule
  cases offered.symm.trans offered'
  cases offers with
  | pivot j enters pivot row pivots => exact ⟨j, row, enters, pivots⟩

end Tableau

namespace Primal

variable {t next s : Tableau ℚ} (rule : PivotRule) (config : Config ℚ)

def next? (rule : PivotRule) (config : Config ℚ) (t : Tableau ℚ) : Option (Tableau ℚ) :=
  (step rule config 0 t).outcome.toOption.join

def visited (rule : PivotRule) (config : Config ℚ) (t : Tableau ℚ) (pivots : ℕ) :
    Option (Tableau ℚ) :=
  iterate? (next? rule config) t pivots

theorem next?_eq (wellFormed : t.WellFormed) :
    next? rule config t = (attempt rule config t).toOption.join := by
  rw [next?, step_outcome_eq rule config wellFormed]

theorem next?_eq_some_iff_attempt (wellFormed : t.WellFormed) :
    next? rule config t = some next ↔ attempt rule config t = .ok (some next) := by
  rw [next?_eq rule config wellFormed, Option.join_eq_some_iff, toOption_eq_some_iff]

theorem next?_eq_some_iff (wellFormed : t.WellFormed) :
    next? rule config t = some next ↔ t.checkFeasible config = .ok () ∧
      ∃ cost pivot, t.prospect rule = .ok (.pivot cost pivot) ∧ t.pivot pivot = .ok next := by
  rw [next?_eq_some_iff_attempt rule config wellFormed]
  constructor
  · intro attempted
    have passes : t.checkFeasible config = .ok () := by
      simp only [attempt, Tableau.checkedCosts, bind_eq_ok_iff] at attempted
      obtain ⟨costs, ⟨_, passes, -⟩, -⟩ := attempted
      exact passes
    rw [attempt_of_checkFeasible rule config wellFormed passes, advance, bind_eq_ok_iff] at attempted
    obtain ⟨prospect, offered, advanced⟩ := attempted
    cases prospect with
    | optimal => cases advanced
    | unbounded column => cases advanced
    | pivot cost pivot =>
        obtain ⟨result, pivoted, same⟩ := bind_eq_ok_iff.1 advanced
        cases same
        exact ⟨passes, cost, pivot, offered, pivoted⟩
  · rintro ⟨passes, cost, pivot, offered, pivoted⟩
    rw [attempt_of_checkFeasible rule config wellFormed passes, advance, offered, ok_bind]
    simp only [pivoted]
    rfl

theorem visited_succ {pivots : ℕ} (reached : visited rule config t pivots = some s)
    (follows : next? rule config s = some next) :
    visited rule config t (pivots + 1) = some next :=
  iterate?_succ_eq_some_iff.2 ⟨s, reached, follows⟩

theorem next?_follows (supported : t.Supported) (follows : next? rule config t = some next) :
    next.Follows t :=
  (attempt_keeps rule config supported).of_eq_ok
    ((next?_eq_some_iff_attempt rule config supported.toWellFormed).1 follows) next rfl

theorem visited_follows (supported : t.Supported) {pivots : ℕ}
    (reached : visited rule config t pivots = some s) : s.Follows t := by
  induction pivots generalizing s with
  | zero =>
      cases reached
      exact supported.follows
  | succ pivots ih =>
      obtain ⟨before, reachedBefore, follows⟩ := iterate?_succ_eq_some_iff.1 reached
      have earlier := ih reachedBefore
      exact (next?_follows rule config earlier.supported follows).trans earlier

inductive Halts (rule : PivotRule) (config : Config ℚ) (s : Tableau ℚ) (iterations : ℕ) :
    Outcome ℚ ℕ → Prop
  | optimal (done : attempt rule config s = .ok none) :
      Halts rule config s iterations (.ok iterations)
  | failed {fault : Fault ℚ} (failed : attempt rule config s = .error fault) :
      Halts rule config s iterations (.error fault)

theorem Halts.next?_eq_none (wellFormed : s.WellFormed) {iterations : ℕ} {outcome : Outcome ℚ ℕ}
    (halts : Halts rule config s iterations outcome) : next? rule config s = none := by
  rw [next?_eq rule config wellFormed]
  cases halts with
  | optimal done => rw [done]; rfl
  | failed failed => rw [failed]; rfl

theorem run_cases (supported : t.Supported) (limit iteration : ℕ) :
    ((run rule config limit iteration t).outcome = .error .iterationLimit ∧
      visited rule config t limit = some (run rule config limit iteration t).tableau) ∨
    ∃ pivots < limit,
      visited rule config t pivots = some (run rule config limit iteration t).tableau ∧
      Halts rule config (run rule config limit iteration t).tableau (iteration + pivots)
        (run rule config limit iteration t).outcome := by
  induction limit generalizing iteration t with
  | zero => exact Or.inl ⟨rfl, rfl⟩
  | succ limit ih =>
      unfold run
      simp only [step_outcome_eq rule config supported.toWellFormed]
      cases attempted : attempt rule config t with
      | error fault => exact Or.inr ⟨0, Nat.succ_pos limit, rfl, .failed attempted⟩
      | ok result =>
          cases result with
          | none => exact Or.inr ⟨0, Nat.succ_pos limit, rfl, .optimal attempted⟩
          | some next =>
              have follows :=
                (next?_eq_some_iff_attempt rule config supported.toWellFormed).2 attempted
              have supported' := (next?_follows rule config supported follows).supported
              rcases ih supported' (iteration + 1) with
                ⟨ended, reached⟩ | ⟨pivots, below, reached, halts⟩
              · exact Or.inl ⟨ended, (iterate?_succ_of_next follows limit).trans reached⟩
              · refine Or.inr ⟨pivots + 1, Nat.succ_lt_succ below,
                  (iterate?_succ_of_next follows pivots).trans reached, ?_⟩
                rwa [Nat.add_right_comm] at halts

theorem run_outcome_eq_error_iff (supported : t.Supported) (fault : Fault ℚ)
    (other : fault ≠ .iterationLimit) (limit iteration : ℕ) :
    (run rule config limit iteration t).outcome = .error fault ↔
      ∃ pivots < limit, ∃ s, visited rule config t pivots = some s ∧
        attempt rule config s = .error fault := by
  have cases := run_cases rule config supported limit iteration
  constructor
  · intro failed
    rw [failed] at cases
    rcases cases with ⟨same, -⟩ | ⟨pivots, below, reached, ⟨⟩ | attempted⟩
    · exact absurd (Except.error.inj same) other
    · exact ⟨pivots, below, _, reached, attempted⟩
  · rintro ⟨pivots, below, s, reached, attempted⟩
    have wellFormed := (visited_follows rule config supported reached).supported.toWellFormed
    have halted : Halts rule config s 0 (.error fault) := .failed attempted
    have ended := halted.next?_eq_none rule config wellFormed
    rcases cases with ⟨-, reachedLast⟩ | ⟨pivots', -, reachedLast, halts⟩
    · cases (iterate?_eq_none_of_ended below reached ended).symm.trans reachedLast
    · have wellFormedLast := (visited_follows rule config supported reachedLast).supported.toWellFormed
      rw [← iterate?_last_unique reached ended reachedLast
        (halts.next?_eq_none rule config wellFormedLast)] at halts
      generalize (run rule config limit iteration t).outcome = outcome at halts ⊢
      cases halts with
      | optimal done => cases done.symm.trans attempted
      | failed failed =>
          cases failed.symm.trans attempted
          rfl

theorem run_outcome_eq_iterationLimit_iff (supported : t.Supported) (limit iteration : ℕ) :
    (run rule config limit iteration t).outcome = .error .iterationLimit ↔
      visited rule config t limit ≠ none := by
  rcases run_cases rule config supported limit iteration with
    ⟨ended, reached⟩ | ⟨pivots, below, reached, halts⟩
  · exact iff_of_true ended (reached ▸ Option.some_ne_none _)
  · have supported' := (visited_follows rule config supported reached).supported
    have ended := halts.next?_eq_none rule config supported'.toWellFormed
    refine iff_of_false (fun same => ?_)
      (not_not.2 (iterate?_eq_none_of_ended below reached ended))
    rw [same] at halts
    cases halts with
    | failed failed =>
        rcases (attempt_keeps rule config supported').of_eq_error failed with same | stops
        · cases same
        · cases stops

theorem attempt_eq_requirement_iff (supported : t.Supported) :
    attempt rule config t = .error .requirement ↔ t.checkFeasible config ≠ .ok () := by
  constructor
  · intro failed passes
    rw [attempt_of_checkFeasible rule config supported.toWellFormed passes] at failed
    cases (advance_keeps rule supported).of_eq_error failed
  · intro failed
    cases tested : t.checkFeasible config with
    | ok _ => exact absurd tested failed
    | error fault =>
        obtain rfl := (t.checkFeasible_onlyRequires config).of_eq_error tested
        rw [attempt, Tableau.checkedCosts, tested, error_bind, error_bind]

theorem attempt_eq_unbounded_iff (supported : t.Supported) :
    attempt rule config t = .error (.failed .unbounded) ↔
      t.checkFeasible config = .ok () ∧ ∃ j, t.prospect rule = .ok (.unbounded j) := by
  constructor
  · intro failed
    have passes : t.checkFeasible config = .ok () := by
      by_contra other
      rw [(attempt_eq_requirement_iff rule config supported).2 other] at failed
      cases failed
    refine ⟨passes, ?_⟩
    rw [attempt_of_checkFeasible rule config supported.toWellFormed passes, advance] at failed
    obtain ⟨prospect, offered, offers⟩ := supported.prospect_eq rule
    rw [offered, ok_bind] at failed
    cases offers with
    | optimal none => cases failed
    | unbounded j enters bounded => exact ⟨j, offered⟩
    | pivot j enters pivot row pivots =>
        cases pivoted : t.pivot pivot with
        | error fault =>
            obtain rfl := (supported.pivot_yields enters.outside pivots).of_eq_error pivoted
            simp only [pivoted, error_bind] at failed
            cases failed
        | ok next =>
            simp only [pivoted, ok_bind] at failed
            cases failed
  · intro given
    obtain ⟨passes, j, offered⟩ := given
    rw [attempt_of_checkFeasible rule config supported.toWellFormed passes, advance, offered, ok_bind]
    rfl

theorem run_meets_iff (supported : t.Supported) :
    (∀ limit, (run rule config limit 0 t).outcome ≠ .error .requirement) ↔
      ∀ pivots s, visited rule config t pivots = some s → s.checkFeasible config = .ok () := by
  have fails_iff := run_outcome_eq_error_iff rule config supported .requirement (by simp)
  constructor
  · intro meets pivots s reached
    by_contra failed
    have supported' := (visited_follows rule config supported reached).supported
    exact meets (pivots + 1) ((fails_iff _ 0).2
      ⟨pivots, Nat.lt_succ_self pivots, s, reached,
        (attempt_eq_requirement_iff rule config supported').2 failed⟩)
  · intro all limit failed
    obtain ⟨pivots, -, s, reached, attempted⟩ := (fails_iff limit 0).1 failed
    have supported' := (visited_follows rule config supported reached).supported
    exact (attempt_eq_requirement_iff rule config supported').1 attempted (all pivots s reached)

end Primal

end SimplexMethod
