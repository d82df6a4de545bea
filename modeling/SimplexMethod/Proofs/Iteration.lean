import Mathlib.Logic.Function.Iterate
import Mathlib.Tactic.Choose

namespace SimplexMethod

variable {σ : Type} {next? : σ → Option σ} {s next : σ}

def iterate? (next? : σ → Option σ) (s : σ) (steps : ℕ) : Option σ :=
  (fun state => state.bind next?)^[steps] (some s)

theorem iterate_bind_none (next? : σ → Option σ) (steps : ℕ) :
    (fun state => state.bind next?)^[steps] none = none :=
  Function.iterate_fixed rfl steps

theorem iterate?_succ (next? : σ → Option σ) (s : σ) (steps : ℕ) :
    iterate? next? s (steps + 1) = (iterate? next? s steps).bind next? :=
  Function.iterate_succ_apply' _ _ _

theorem iterate?_succ_eq_some_iff {steps : ℕ} : iterate? next? s (steps + 1) = some next ↔
    ∃ before, iterate? next? s steps = some before ∧ next? before = some next := by
  rw [iterate?_succ, Option.bind_eq_some_iff]

theorem exists_states (unending : ∀ steps, iterate? next? s steps ≠ none) : ∃ state : ℕ → σ,
    ∀ n, iterate? next? s n = some (state n) ∧ next? (state n) = some (state (n + 1)) := by
  choose state reached using fun n => Option.ne_none_iff_exists'.1 (unending n)
  refine ⟨state, fun n => ⟨reached n, ?_⟩⟩
  obtain ⟨before, reachedBefore, follows⟩ := iterate?_succ_eq_some_iff.1 (reached (n + 1))
  cases (reached n).symm.trans reachedBefore
  exact follows

theorem iterate?_succ_of_next (follows : next? s = some next) (steps : ℕ) :
    iterate? next? s (steps + 1) = iterate? next? next steps := by
  rw [iterate?, Function.iterate_succ_apply, Option.bind_some, follows, iterate?]

theorem iterate?_succ_of_ended (ended : next? s = none) (steps : ℕ) :
    iterate? next? s (steps + 1) = none := by
  rw [iterate?, Function.iterate_succ_apply, Option.bind_some, ended, iterate_bind_none]

theorem iterate?_add (next? : σ → Option σ) (s : σ) (steps more : ℕ) :
    iterate? next? s (steps + more) = (iterate? next? s steps).bind (iterate? next? · more) := by
  rw [iterate?, Nat.add_comm, Function.iterate_add_apply]
  change (fun state => state.bind next?)^[more] (iterate? next? s steps) = _
  cases iterate? next? s steps with
  | none => exact iterate_bind_none next? more
  | some state => rfl

theorem iterate?_relates {R : σ → σ → Prop} (trans : ∀ {a b c}, R a b → R b c → R a c) {last : ℕ}
    (each : ∀ steps < last, ∀ state next, iterate? next? s steps = some state →
      next? state = some next → R state next)
    {earlier later : ℕ} (before : earlier < later) (upTo : later ≤ last) {state state' : σ}
    (reached : iterate? next? s earlier = some state)
    (reached' : iterate? next? s later = some state') : R state state' := by
  induction later generalizing state' with
  | zero => exact absurd before (Nat.not_lt_zero earlier)
  | succ later ih =>
      obtain ⟨previous, reachedPrevious, follows⟩ := iterate?_succ_eq_some_iff.1 reached'
      have lastStep := each later upTo previous state' reachedPrevious follows
      rcases Nat.lt_succ_iff_lt_or_eq.1 before with earlierStep | rfl
      · exact trans (ih earlierStep (Nat.le_of_succ_le upTo) reachedPrevious) lastStep
      · cases reached.symm.trans reachedPrevious
        exact lastStep

theorem exists_iterate?_succ_iff {P : σ → Prop} {limit : ℕ} :
    (∃ steps < limit + 1, ∃ state, iterate? next? s steps = some state ∧ P state) ↔
      P s ∨ ∃ next, next? s = some next ∧
        ∃ steps < limit, ∃ state, iterate? next? next steps = some state ∧ P state := by
  constructor
  · rintro ⟨steps, below, state, met, holds⟩
    cases steps with
    | zero =>
        cases met
        exact Or.inl holds
    | succ steps =>
        cases follows : next? s with
        | none =>
            rw [iterate?_succ_of_ended follows] at met
            cases met
        | some next =>
            rw [iterate?_succ_of_next follows] at met
            exact Or.inr ⟨next, rfl, steps, Nat.lt_of_succ_lt_succ below, state, met, holds⟩
  · rintro (holds | ⟨next, follows, steps, below, state, met, holds⟩)
    · exact ⟨0, Nat.succ_pos limit, s, rfl, holds⟩
    · rw [← iterate?_succ_of_next follows] at met
      exact ⟨steps + 1, Nat.succ_lt_succ below, state, met, holds⟩

theorem iterate?_eq_none_of_le {fewer more : ℕ} (le : fewer ≤ more)
    (ended : iterate? next? s fewer = none) : iterate? next? s more = none := by
  obtain ⟨rest, rfl⟩ := Nat.exists_eq_add_of_le le
  rw [iterate?_add, ended, Option.bind_none]

theorem iterate?_eq_none_of_ended {steps more : ℕ} (less : steps < more) {last : σ}
    (reached : iterate? next? s steps = some last) (ended : next? last = none) :
    iterate? next? s more = none := by
  have none : iterate? next? s (steps + 1) = none := by
    rw [iterate?_succ, reached, Option.bind_some, ended]
  exact iterate?_eq_none_of_le less none

theorem iterate?_last_unique {steps steps' : ℕ} {last last' : σ}
    (reached : iterate? next? s steps = some last) (ended : next? last = none)
    (reached' : iterate? next? s steps' = some last') (ended' : next? last' = none) :
    last = last' := by
  rcases Nat.lt_trichotomy steps steps' with less | rfl | more
  · cases (iterate?_eq_none_of_ended less reached ended).symm.trans reached'
  · exact Option.some_inj.1 (reached.symm.trans reached')
  · cases (iterate?_eq_none_of_ended more reached' ended').symm.trans reached

theorem iterate?_ne_none_of_period {period : ℕ} (positive : 0 < period)
    (returns : iterate? next? s period = some s) (steps : ℕ) : iterate? next? s steps ≠ none := by
  -- a state that comes back keeps coming back
  have again : ∀ rounds, iterate? next? s (period * rounds) = some s := by
    intro rounds
    induction rounds with
    | zero => rfl
    | succ rounds ih => rw [Nat.mul_succ, iterate?_add, ih, Option.bind_some, returns]
  intro ended
  have late : steps ≤ period * steps := Nat.le_mul_of_pos_left steps positive
  have round := again steps
  rw [iterate?_eq_none_of_le late ended] at round
  cases round

end SimplexMethod
