import SimplexMethod.Proofs.ExactInverse
import SimplexMethod.Proofs.TolerantRun

namespace SimplexMethod
open Matrix Vec Outcome

namespace Tableau

/-- The tableau without the way in which its inverse is kept. -/
def plain (t : Tableau ℚ) : Tableau ℚ := { t with inverse := .productForm t.inverse.inverse }

structure Alike (t s : Tableau ℚ) : Prop where
  left : t.WellFormed
  right : s.WellFormed
  plain_eq : t.plain = s.plain

variable {t s : Tableau ℚ}

theorem Alike.congr {β : Type} (alike : t.Alike s) (quantity : Tableau ℚ → β)
    (plain : ∀ t : Tableau ℚ, quantity t.plain = quantity t) : quantity t = quantity s := by
  rw [← plain t, alike.plain_eq, plain s]

theorem Alike.exists_inverse (alike : t.Alike s) :
    ∃ inverse, inverse.inverse = t.inverse.inverse ∧ s = { t with inverse } := by
  obtain ⟨-, -, same⟩ := alike
  cases t
  cases s
  simp only [plain, mk.injEq, BasisInverse.productForm.injEq] at same
  obtain ⟨rfl, inverse, rfl, rfl, rfl, rfl⟩ := same
  exact ⟨_, inverse.symm, rfl⟩

end Tableau

namespace Event

def plain : Event ℚ → Event ℚ
  | .primalState iteration t costs => .primalState iteration t.plain costs
  | event => event

end Event

namespace Traced

variable {β γ : Type}

def shown (traced : Traced ℚ β) : List (Event ℚ) := traced.events.map Event.plain

/-- The two can be told apart only after one of them has found a matrix singular. -/
inductive Concur (related : β → β → Prop) (a b : Traced ℚ β) : Prop
  | returned (x y : β) (left : a.outcome = .ok x) (right : b.outcome = .ok y)
      (same : related x y) (events : a.shown = b.shown)
  | failed (fault : Fault ℚ) (left : a.outcome = .error fault) (right : b.outcome = .error fault)
      (events : a.shown = b.shown)
  | leftSingular (left : a.outcome = .error (.failed .singularMatrix))
      (events : a.shown <+: b.shown)
  | rightSingular (right : b.outcome = .error (.failed .singularMatrix))
      (events : b.shown <+: a.shown)

theorem shown_bind_of_ok {first : Traced ℚ β} {next : β → Traced ℚ γ} {value : β}
    (ended : first.outcome = .ok value) :
    (first >>= next).shown = first.shown ++ (next value).shown := by
  change (Traced.bind first next).shown = _
  rw [Traced.bind, ended]
  exact List.map_append

theorem shown_bind_of_error {first : Traced ℚ β} {next : β → Traced ℚ γ} {fault : Fault ℚ}
    (ended : first.outcome = .error fault) : (first >>= next).shown = first.shown := by
  change (Traced.bind first next).shown = _
  rw [Traced.bind, ended]
  rfl

theorem shown_prefix_bind (first : Traced ℚ β) (next : β → Traced ℚ γ) :
    first.shown <+: (first >>= next).shown := by
  cases ended : first.outcome with
  | ok value => exact shown_bind_of_ok ended ▸ List.prefix_append _ _
  | error fault => exact shown_bind_of_error ended ▸ List.prefix_rfl

theorem outcome_bind_of_ok {first : Traced ℚ β} {next : β → Traced ℚ γ} {value : β}
    (ended : first.outcome = .ok value) : (first >>= next).outcome = (next value).outcome := by
  rw [outcome_bind, ended, ok_bind]

theorem outcome_bind_of_error {first : Traced ℚ β} {next : β → Traced ℚ γ} {fault : Fault ℚ}
    (ended : first.outcome = .error fault) : (first >>= next).outcome = .error fault := by
  rw [outcome_bind, ended, error_bind]

theorem Concur.prepend {related : β → β → Prop} {a b a' b' : Traced ℚ β} {seen : List (Event ℚ)}
    (concur : a.Concur related b) (left : a'.outcome = a.outcome) (right : b'.outcome = b.outcome)
    (shownLeft : a'.shown = seen ++ a.shown) (shownRight : b'.shown = seen ++ b.shown) :
    a'.Concur related b' := by
  cases concur with
  | returned x y first second same events =>
      exact .returned x y (left.trans first) (right.trans second) same
        (by rw [shownLeft, shownRight, events])
  | failed fault first second events =>
      exact .failed fault (left.trans first) (right.trans second)
        (by rw [shownLeft, shownRight, events])
  | leftSingular first events =>
      refine .leftSingular (left.trans first) ?_
      rw [shownLeft, shownRight]
      exact (List.prefix_append_right_inj _).2 events
  | rightSingular second events =>
      refine .rightSingular (right.trans second) ?_
      rw [shownLeft, shownRight]
      exact (List.prefix_append_right_inj _).2 events

theorem Concur.bind {related : β → β → Prop} {related' : γ → γ → Prop} {a b : Traced ℚ β}
    {f g : β → Traced ℚ γ} (concur : a.Concur related b)
    (rest : ∀ x y, related x y → (f x).Concur related' (g y)) :
    (a >>= f).Concur related' (b >>= g) := by
  cases concur with
  | returned x y left right same events =>
      exact (rest x y same).prepend (outcome_bind_of_ok left) (outcome_bind_of_ok right)
        (shown_bind_of_ok left) (events ▸ shown_bind_of_ok right)
  | failed fault left right events =>
      exact .failed fault (outcome_bind_of_error left) (outcome_bind_of_error right)
        (by rw [shown_bind_of_error left, shown_bind_of_error right, events])
  | leftSingular left events =>
      refine .leftSingular (outcome_bind_of_error left) ?_
      rw [shown_bind_of_error left]
      exact events.trans (shown_prefix_bind b g)
  | rightSingular right events =>
      refine .rightSingular (outcome_bind_of_error right) ?_
      rw [shown_bind_of_error right]
      exact events.trans (shown_prefix_bind a f)

theorem concur_pure {related : β → β → Prop} {x y : β} (same : related x y) :
    (pure x : Traced ℚ β).Concur related (pure y) := .returned x y rfl rfl same rfl

theorem concur_fail (related : β → β → Prop) (failure : Failure ℚ) :
    (fail failure : Traced ℚ β).Concur related (fail failure) := .failed _ rfl rfl rfl

theorem concur_emit {e e' : Event ℚ} (same : e.plain = e'.plain) :
    (emit e).Concur Eq (emit e') :=
  .returned () () rfl rfl rfl (congrArg (fun event => [event]) same)

theorem concur_lift {a b : Outcome ℚ β} (same : a = b) :
    (liftM a : Traced ℚ β).Concur Eq (liftM b) := by
  subst same
  cases a with
  | ok value => exact .returned value value rfl rfl rfl rfl
  | error fault => exact .failed fault rfl rfl rfl

theorem concur_of_yields {related : β → β → Prop} {a b : Outcome ℚ β} {value value' : β → Prop}
    (left : a.Yields value (· = .failed .singularMatrix))
    (right : b.Yields value' (· = .failed .singularMatrix))
    (same : ∀ x y, value x → value' y → related x y) :
    (liftM a : Traced ℚ β).Concur related (liftM b) := by
  cases a with
  | error fault => exact .leftSingular (congrArg Except.error left) (List.prefix_rfl)
  | ok x =>
      cases b with
      | error fault => exact .rightSingular (congrArg Except.error right) (List.prefix_rfl)
      | ok y => exact .returned x y rfl rfl (same x y left right) rfl

theorem lift_bind (outcome : Outcome ℚ β) (next : β → Outcome ℚ γ) :
    (liftM (outcome >>= next) : Traced ℚ γ) = liftM outcome >>= fun value => liftM (next value) := by
  cases outcome <;> rfl

end Traced

open Traced

namespace Tableau

variable {t s : Tableau ℚ}

theorem Alike.exchange_concur (alike : t.Alike s) {entering : Fin t.problem.numVariables}
    (outside : (entering : ℕ) ∉ t.basis) (row : Fin t.problem.numEquations) {column : Vec ℚ}
    (length : column.length = t.problem.numEquations)
    (entries : toFun column t.problem.numEquations = WellFormed.expressed t entering) (step : ℚ) :
    (liftM (t.exchange entering row column step) : Traced ℚ (Tableau ℚ)).Concur Alike
      (liftM (s.exchange entering row column step)) := by
  obtain ⟨inverse, same, rfl⟩ := alike.exists_inverse
  have left := alike.left
  have right := alike.right
  have entries' : toFun column t.problem.numEquations =
      WellFormed.expressed { t with inverse } entering := by
    rw [entries, WellFormed.expressed, inverseMatrix, BasisInverse.matrix, ← same]
  have followed := concur_of_yields (left.exchange_inverse_yields entering row length entries)
    (right.exchange_inverse_yields entering row length entries') fun b b' inverts inverts' =>
      And.intro inverts inverts'
  rw [left.exchange_eq outside row length step, right.exchange_eq outside row length step, lift_bind,
    lift_bind]
  refine followed.bind fun b b' given => ?_
  obtain ⟨inverts, inverts'⟩ := given
  refine concur_pure ⟨left.of_exchange outside row inverts column step,
    right.of_exchange outside row inverts' column step, ?_⟩
  rw [plain, plain, inverts.inverse_eq inverts']
  rfl

end Tableau

namespace Primal

open Tableau

variable {t s : Tableau ℚ} (rule : PivotRule) (config : Config ℚ)

theorem progress_concur (alike : t.Alike s) (iteration : ℕ) :
    (progress config iteration t).Concur Eq (progress config iteration s) := by
  unfold progress
  split
  · refine (concur_lift (alike.congr Tableau.objective fun _ => rfl)).bind ?_
    rintro objective _ rfl
    exact concur_emit rfl
  · exact concur_pure rfl

theorem step_concur (alike : t.Alike s) (iteration : ℕ) :
    (step rule config iteration t).Concur (Option.Rel Alike) (step rule config iteration s) := by
  obtain ⟨prospect, offered, offers⟩ := alike.left.prospect_eq rule
  have offered' : s.prospect rule = .ok prospect :=
    (alike.congr (·.prospect rule) fun _ => rfl).symm.trans offered
  unfold step
  refine (concur_lift (alike.congr (Tableau.checkedCosts · config) fun _ => rfl)).bind ?_
  rintro costs _ rfl
  have shown : (Event.primalState iteration t costs).plain =
      (Event.primalState iteration s costs).plain :=
    congrArg (Event.primalState iteration · costs) alike.plain_eq
  refine (concur_emit shown).bind fun _ _ _ => ?_
  rw [offered, offered', lift_ok_bind, lift_ok_bind]
  cases offers with
  | optimal none =>
      refine (concur_lift (alike.congr Tableau.objective fun _ => rfl)).bind ?_
      rintro objective _ rfl
      exact (concur_emit rfl).bind fun _ _ _ => concur_pure .none
  | unbounded j enters bounded =>
      exact (concur_emit rfl).bind fun _ _ _ => concur_fail _ _
  | pivot j enters pivot row pivots =>
      have exchanged := alike.exchange_concur enters.outside row pivots.length pivots.column_eq
        pivot.step
      rw [← pivots.entering_eq, ← pivots.row_eq] at exchanged
      refine (concur_emit rfl).bind fun _ _ _ => exchanged.bind fun next next' alike' => ?_
      exact (progress_concur config alike' (iteration + 1)).bind fun _ _ _ =>
        concur_pure (.some alike')

def SameEnd (ended ended' : Tableau ℚ × ℕ) : Prop := Alike ended.1 ended'.1 ∧ ended.2 = ended'.2

theorem run_concur (alike : t.Alike s) (limit iteration : ℕ) :
    (run rule config limit iteration t).optimum.Concur SameEnd
      (run rule config limit iteration s).optimum := by
  induction limit generalizing iteration t s with
  | zero => exact .failed _ rfl rfl rfl
  | succ limit ih =>
      rw [Run.optimum_succ, Run.optimum_succ]
      refine (step_concur rule config alike iteration).bind fun result result' given => ?_
      cases given with
      | none => exact concur_pure ⟨alike, rfl⟩
      | some alike' => exact ih alike' (iteration + 1)

end Primal

variable {p : LinearProgram ℚ} {basis : List ℕ}

namespace Tableau

theorem startWith_alike (accepted : p.IsBasis basis) {b b' : BasisInverse ℚ}
    (inverts : b.Inverts accepted.matrix) (inverts' : b'.Inverts accepted.matrix) (tolerance : ℚ) :
    ∃ t s, startWith p b basis tolerance = .ok t ∧ startWith p b' basis tolerance = .ok s ∧
      Alike t s := by
  obtain ⟨values, started, basic⟩ := startWith_eq accepted inverts tolerance
  obtain ⟨values', started', basic'⟩ := startWith_eq accepted inverts' tolerance
  have same : toFun values p.numVariables = toFun values' p.numVariables :=
    eq_of_basic inverts.mul_eq_one accepted.column_injective basic.zero_of_notMem_range
      basic.equations basic'.zero_of_notMem_range basic'.equations
  refine ⟨_, _, started, started', basic.toWellFormed, basic'.toWellFormed, ?_⟩
  rw [plain, plain, eq_of_toFun_eq basic.length basic'.length same, inverts.inverse_eq inverts']

theorem start_concur (upkeep upkeep' : Upkeep) (p : LinearProgram ℚ) (basis : List ℕ)
    (tolerance : ℚ) :
    (liftM (start upkeep p basis tolerance) : Traced ℚ (Tableau ℚ)).Concur Alike
      (liftM (start upkeep' p basis tolerance)) := by
  rw [start, start]
  cases checked : p.checkBasis basis with
  | error fault => exact .failed fault rfl rfl rfl
  | ok =>
      have accepted := LinearProgram.checkBasis_eq_ok_iff.1 checked
      rw [ok_bind, ok_bind, lift_bind, lift_bind]
      refine (concur_of_yields (BasisInverse.ofBasis_yields upkeep accepted)
        (BasisInverse.ofBasis_yields upkeep' accepted)
        fun b b' inverts inverts' => And.intro inverts inverts').bind fun b b' given => ?_
      obtain ⟨t, s, started, started', alike⟩ := startWith_alike accepted given.1 given.2 tolerance
      rw [started, started']
      exact concur_pure alike

end Tableau

namespace LinearProgram

open BasisInverse

theorem height_of_basisMatrix? {a : RowMatrix ℚ} (selected : p.basisMatrix? basis = some a) :
    a.height = p.numEquations := by
  rw [basisMatrix?, RowMatrix.columnsAt?] at selected
  split at selected
  · cases selected
    exact List.length_map _
  · cases selected

theorem primalStart_concur (upkeep upkeep' : Upkeep) (p : LinearProgram ℚ) (basis : List ℕ)
    (config : Config ℚ) :
    (liftM (p.primalStart upkeep basis config) : Traced ℚ (Tableau ℚ)).Concur Tableau.Alike
      (liftM (p.primalStart upkeep' basis config)) := by
  rw [primalStart, primalStart, lift_bind, lift_bind]
  refine (Tableau.start_concur upkeep upkeep' p basis config.tolerance).bind fun t s alike => ?_
  rw [lift_bind, lift_bind]
  refine (concur_lift (alike.congr (fun t => (List.range t.numEquations).mapM t.basicValue)
    fun _ => rfl)).bind ?_
  rintro values _ rfl
  cases values.zipIdx.find? fun entry => entry.1 < -config.tolerance with
  | none => exact concur_pure alike
  | some entry => exact concur_fail _ _

theorem solvePrimal_concur (upkeep upkeep' : Upkeep) (p : LinearProgram ℚ) (rule : PivotRule)
    (basis : List ℕ) (config : Config ℚ) (limit : ℕ) :
    (p.solvePrimal upkeep rule basis config limit).Concur Eq
      (p.solvePrimal upkeep' rule basis config limit) := by
  rw [solvePrimal, solvePrimal]
  refine (primalStart_concur upkeep upkeep' p basis config).bind fun t s alike => ?_
  refine (Primal.run_concur rule config alike limit 0).bind fun ended ended' given => ?_
  obtain ⟨last, iterations⟩ := ended
  obtain ⟨last', iterations'⟩ := ended'
  obtain ⟨alike', same⟩ := given
  cases same
  exact concur_lift (alike'.congr (·.solution iterations) fun _ => rfl)

/-- After every sequence of basis changes the two kinds of upkeep hold the same matrix, the inverse of
the current basis matrix, and solves that use them show the same tableaux and end alike, as long as
none of the two has found a matrix singular. -/
theorem upkeeps_agree (p : LinearProgram ℚ) :
    (∀ (basis : List ℕ) (a : RowMatrix ℚ) (changes : List (Fin p.numEquations × Vec ℚ)),
      p.basisMatrix? basis = some a → a.width = p.numEquations →
      (∀ change ∈ changes, change.2.length = p.numEquations) →
      Agree (changed (a.toMatrix p.numEquations p.numEquations) changes)
        (followed .productForm p basis changes) (followed .reinversion p basis changes)) ∧
    (∀ (m : ℕ) (changes : List (Fin m × Vec ℚ)), (∀ change ∈ changes, change.2.length = m) →
      Agree (changed 1 changes) ((identity .productForm m).follow changes)
        ((identity .reinversion m).follow changes)) ∧
    ∀ (rule : PivotRule) (basis : List ℕ) (config : Config ℚ) (limit : ℕ),
      let updated := p.solvePrimal .productForm rule basis config limit
      let inverted := p.solvePrimal .reinversion rule basis config limit
      (updated.outcome = inverted.outcome ∧ updated.shown = inverted.shown) ∨
      (updated.outcome = .error (.failed .singularMatrix) ∧ updated.shown <+: inverted.shown) ∨
      (inverted.outcome = .error (.failed .singularMatrix) ∧ inverted.shown <+: updated.shown) := by
  refine ⟨fun basis a changes selected square fits => ?_, fun m changes fits => ?_,
    fun rule basis config limit => ?_⟩
  · have height : a.height = p.numEquations := height_of_basisMatrix? selected
    exact agree_of_yields (followed_yields .productForm selected height square fits)
      (followed_yields .reinversion selected height square fits)
  · exact agree_of_yields ((identity_inverts .productForm m).follow_yields fits)
      ((identity_inverts .reinversion m).follow_yields fits)
  · cases p.solvePrimal_concur .productForm .reinversion rule basis config limit with
    | returned x y left right same events =>
        exact Or.inl ⟨left.trans ((congrArg Except.ok same).trans right.symm), events⟩
    | failed fault left right events => exact Or.inl ⟨left.trans right.symm, events⟩
    | leftSingular left events => exact Or.inr (Or.inl ⟨left, events⟩)
    | rightSingular right events => exact Or.inr (Or.inr ⟨right, events⟩)

def slanted : LinearProgram ℚ where
  cost := [-1, -1, 0, 0]
  constraints := ⟨[[2, 1, 1, 0], [1, 3, 0, 1]], 4, by decide⟩
  rhs := [4, 6]
  cost_length := rfl
  rhs_length := rfl
  height_lt_width := by decide

def slantedChanges : List (Fin slanted.numEquations × Vec ℚ) :=
  [(⟨0, by decide⟩, [2, 1]), (⟨1, by decide⟩, [1, 3])]

theorem upkeeps_agree_slanted :
    (∃ b b', followed .productForm slanted [2, 3] slantedChanges = .ok b ∧
      followed .reinversion slanted [2, 3] slantedChanges = .ok b' ∧ b.inverse = b'.inverse ∧
      b.matrix slanted.numEquations * changed 1 slantedChanges = 1) ∧
    (slanted.solvePrimal .productForm .mostNegative [2, 3] ⟨1 / 8, 0, true⟩ 9).shown =
      (slanted.solvePrimal .reinversion .mostNegative [2, 3] ⟨1 / 8, 0, true⟩ 9).shown := by
  obtain ⟨changes, -, solves⟩ := slanted.upkeeps_agree
  constructor
  · have agree := changes [2, 3] (RowMatrix.identity 2) slantedChanges (by decide +kernel) rfl
      (by decide +kernel)
    have one : (RowMatrix.identity 2).toMatrix slanted.numEquations slanted.numEquations = 1 :=
      RowMatrix.toMatrix_identity _
    rw [one] at agree
    cases agree with
    | firstSingular first => exact absurd first (by decide +kernel)
    | secondSingular second => exact absurd second (by decide +kernel)
    | same b b' first second inverse_eq height width left right =>
        exact ⟨b, b', first, second, inverse_eq, left⟩
  · rcases solves .mostNegative [2, 3] ⟨1 / 8, 0, true⟩ 9 with ⟨-, same⟩ | ⟨singular, -⟩ | ⟨singular, -⟩
    · exact same
    · exact absurd singular (by decide +kernel)
    · exact absurd singular (by decide +kernel)

end LinearProgram

end SimplexMethod
