import SimplexMethod.Proofs.StructuredRun
import SimplexMethod.FeasibleStart

namespace SimplexMethod

open Outcome

section Positions

variable {columns : ℕ} {basis : List ℕ} {item : ℕ × ℕ} {rest : List (ℕ × ℕ)}

structure Places (columns : ℕ) (basis : List ℕ) (items : List (ℕ × ℕ)) : Prop where
  sorted : items.Pairwise fun first second => first.1 < second.1
  artificial : ∀ item ∈ items, columns ≤ item.1
  located : ∀ item ∈ items, basis[item.2]? = some item.1

theorem Places.other_row (places : Places columns basis (item :: rest)) :
    ∀ other ∈ rest, other.2 ≠ item.2 := by
  intro other member same
  have first := places.located item (by simp)
  have second := places.located other (by simp [member])
  rw [same, first, Option.some_inj] at second
  exact ((List.pairwise_cons.1 places.sorted).1 other member).ne second

theorem Places.tail (places : Places columns basis (item :: rest)) : Places columns basis rest :=
  ⟨(List.pairwise_cons.1 places.sorted).2,
    fun other member => places.artificial other (by simp [member]),
    fun other member => places.located other (by simp [member])⟩

theorem Places.replace (places : Places columns basis (item :: rest)) (entering : ℕ) :
    Places columns (basis.set item.2 entering) rest := by
  refine ⟨places.tail.sorted, places.tail.artificial, fun other member => ?_⟩
  rw [List.getElem?_set_ne (places.other_row other member).symm]
  exact places.tail.located other member

structure Drives (columns : ℕ) (items : List (ℕ × ℕ)) (before after rows : List ℕ) : Prop where
  sorted : rows.Pairwise (· < ·)
  others : ∀ k, (∀ item ∈ items, item.2 ≠ k) → after[k]? = before[k]?
  replaced : ∀ item ∈ items, ∀ j, after[item.2]? = some j →
    j < columns ∨ ∃ row ∈ rows, j = columns + row
  stuck : ∀ row ∈ rows, ∃ item ∈ items, item.1 = columns + row ∧
    after[item.2]? = some (columns + row)

theorem Drives.replace {after rows : List ℕ} (places : Places columns basis (item :: rest))
    {entering : ℕ} (below : entering < columns)
    (drives : Drives columns rest (basis.set item.2 entering) after rows) :
    Drives columns (item :: rest) basis after rows := by
  have inside := (List.getElem?_eq_some_iff.1 (places.located item (by simp))).1
  refine ⟨drives.sorted, fun k others => ?_, fun other member j found => ?_, fun row member => ?_⟩
  · rw [drives.others k fun other member => others other (by simp [member]),
      List.getElem?_set_ne (others item (by simp))]
  · rcases List.mem_cons.1 member with rfl | later
    · rw [drives.others _ places.other_row, List.getElem?_set_self inside, Option.some_inj] at found
      exact Or.inl (found ▸ below)
    · exact drives.replaced other later j found
  · obtain ⟨other, later, facts⟩ := drives.stuck row member
    exact ⟨other, by simp [later], facts⟩

theorem Drives.keep {after rows : List ℕ} (places : Places columns basis (item :: rest))
    (drives : Drives columns rest basis after rows) :
    Drives columns (item :: rest) basis after ((item.1 - columns) :: rows) := by
  have above : columns ≤ item.1 := places.artificial item (by simp)
  have restored : columns + (item.1 - columns) = item.1 := Nat.add_sub_cancel' above
  have present : after[item.2]? = some item.1 :=
    (drives.others _ places.other_row).trans (places.located item (by simp))
  refine ⟨?_, fun k others => ?_, fun other member j found => ?_, fun row member => ?_⟩
  · rw [List.pairwise_cons]
    refine ⟨fun row member => ?_, drives.sorted⟩
    obtain ⟨other, later, artificial, -⟩ := drives.stuck row member
    have order := (List.pairwise_cons.1 places.sorted).1 other later
    omega
  · exact drives.others k fun other member => others other (by simp [member])
  · rcases List.mem_cons.1 member with rfl | later
    · rw [present, Option.some_inj] at found
      exact Or.inr ⟨_, List.mem_cons_self, by rw [restored, found]⟩
    · rcases drives.replaced other later j found with below | ⟨row, inside, same⟩
      · exact Or.inl below
      · exact Or.inr ⟨row, by simp [inside], same⟩
  · rcases List.mem_cons.1 member with rfl | later
    · exact ⟨item, by simp, restored.symm, by rw [present, restored]⟩
    · obtain ⟨other, inside, facts⟩ := drives.stuck row later
      exact ⟨other, by simp [inside], facts⟩

end Positions

variable {α : Type} [Scalar α]

namespace Tableau

variable {t : Tableau α} {columns : ℕ}

omit [Scalar α] in
theorem mem_basicArtificials_iff (t : Tableau α) (columns : ℕ) {item : ℕ × ℕ} :
    item ∈ t.basicArtificials columns ↔
      columns ≤ item.1 ∧ item.1 < columns + (t.numVariables - columns) ∧
        t.basis.idxOf? item.1 = some item.2 := by
  obtain ⟨artificial, row⟩ := item
  simp only [basicArtificials, List.mem_filterMap, List.mem_range'_1, Option.map_eq_some_iff,
    Prod.mk.injEq]
  constructor
  · intro given
    obtain ⟨_, ⟨above, below⟩, _, found, rfl, rfl⟩ := given
    exact ⟨above, below, found⟩
  · intro given
    obtain ⟨above, below, found⟩ := given
    exact ⟨artificial, ⟨above, below⟩, row, found, rfl, rfl⟩

theorem getElem?_of_idxOf? {basis : List ℕ} {j row : ℕ} (found : basis.idxOf? j = some row) :
    basis[row]? = some j := by
  rw [List.idxOf?_eq_some_iff] at found
  obtain ⟨inside, same, -⟩ := found
  rw [List.getElem?_eq_getElem inside, same]

omit [Scalar α] in
theorem basicArtificials_places (t : Tableau α) (columns : ℕ) :
    Places columns t.basis (t.basicArtificials columns) := by
  refine ⟨?_, fun item member => ?_, fun item member => ?_⟩
  · rw [basicArtificials, List.pairwise_filterMap]
    refine List.Pairwise.imp ?_ (List.pairwise_lt_range' 1)
    intro first second before item found item' found'
    obtain ⟨row, -, rfl⟩ := Option.map_eq_some_iff.1 found
    obtain ⟨row', -, rfl⟩ := Option.map_eq_some_iff.1 found'
    exact before
  · exact ((t.mem_basicArtificials_iff columns).1 member).1
  · exact getElem?_of_idxOf? ((t.mem_basicArtificials_iff columns).1 member).2.2

omit [Scalar α] in
theorem mem_basicArtificials (nodup : t.basis.Nodup) (below : ∀ j ∈ t.basis, j < t.numVariables)
    {row j : ℕ} (present : t.basis[row]? = some j) (artificial : columns ≤ j) :
    (j, row) ∈ t.basicArtificials columns := by
  have bound := below j (List.mem_of_getElem? present)
  rw [mem_basicArtificials_iff]
  refine ⟨artificial, by omega, ?_⟩
  obtain ⟨inside, rfl⟩ := List.getElem?_eq_some_iff.1 present
  rw [List.idxOf?_eq_some_iff]
  refine ⟨inside, rfl, fun k earlier same => ?_⟩
  exact earlier.ne ((List.Nodup.getElem_inj_iff nodup).1 same)

theorem expressEntry_onlyRequires (t : Tableau α) (i j : ℕ) : (t.expressEntry i j).OnlyRequires :=
  (onlyRequires_require _).bind fun _ => (onlyRequires_demand _).bind fun _ =>
    (onlyRequires_demand _).bind fun _ => trivial

theorem replacement_yields (t : Tableau α) (columns row : ℕ) :
    (t.replacement columns row).Yields
      (fun chosen => ∀ j ∈ chosen, j < columns ∧ ∃ value, t.expressEntry row j = .ok value ∧
        t.tolerance < Scalar.abs value)
      (· = .requirement) := by
  unfold replacement
  have elements_yield := @Yields.mapM α ℕ (ℕ × α) (fun j => return (j, ← t.expressEntry row j))
    (fun j element => element.1 = j ∧ t.expressEntry row j = .ok element.2) (· = .requirement)
    (t.nonbasic.filter (· < columns)) fun j _ => by
      have required := t.expressEntry_onlyRequires row j
      cases computed : t.expressEntry row j with
      | ok value => exact ⟨rfl, rfl⟩
      | error fault => exact required.of_eq_error computed
  apply elements_yield.bind
  intro elements indexed j found
  obtain ⟨element, first, rfl⟩ := Option.map_eq_some_iff.1 found
  obtain ⟨j, member, same, computed⟩ := indexed _ (List.mem_of_find?_eq_some first)
  have below := of_decide_eq_true (List.mem_filter.1 member).2
  have large := List.find?_some first
  exact ⟨same ▸ below, element.2, same ▸ computed, of_decide_eq_true large⟩

theorem exchangeArtificials_explained (structured : t.Structured) {items : List (ℕ × ℕ)}
    (places : Places columns t.basis items) :
    (t.exchangeArtificials columns items).outcome.Yields
      (fun result => t.Continues result.1 ∧ Drives columns items t.basis result.1.basis result.2)
      t.Explains := by
  induction items generalizing t with
  | nil => exact ⟨structured.continues, .nil, fun _ _ => rfl, by simp, by simp⟩
  | cons item rest ih =>
      have required {fault : Fault α} (same : fault = .requirement) : t.Explains fault :=
        same ▸ t.explains_requirement
      obtain ⟨artificial, row⟩ := item
      rw [exchangeArtificials, Traced.outcome_bind, Traced.outcome_lift]
      apply ((t.replacement_yields columns row).mono_fault fun _ => required).bind
      intro chosen allowed
      cases chosen with
      | none =>
          simp only [Traced.outcome_bind, Traced.outcome_pure]
          apply (ih structured places.tail).bind
          intro result after
          exact ⟨after.1, after.2.keep places⟩
      | some entering =>
          obtain ⟨below, value, computed, large⟩ := allowed entering rfl
          simp only [Traced.outcome_bind, Traced.outcome_emit, Traced.outcome_lift, ok_bind]
          apply ((structured.express_yields entering).mono_fault fun _ => required).bind
          intro column given
          have present := given.2 row value computed
          apply (structured.exchange_explained given.1 present (Or.inr large) entering 0).bind
          intro next success
          have places' : Places columns next.basis rest := by
            rw [success.basis_eq]
            exact places.replace entering
          refine (ih success.structured places').mono (fun result after => ?_)
            fun _ explains => success.continues.explains explains
          obtain ⟨later, drives⟩ := after
          rw [success.basis_eq] at drives
          exact ⟨success.continues.trans later, drives.replace places below⟩

end Tableau

omit [Scalar α] in
theorem RowMatrix.height_beside {a b : RowMatrix α} (heights : a.height = b.height) :
    (a.beside b).height = a.height := by
  have same : a.rows.length = b.rows.length := heights
  rw [height, beside, List.length_zipWith, ← same, min_self]
  rfl

namespace LinearProgram

structure Extends (a p : LinearProgram α) : Prop where
  cost_eq : a.cost = List.replicate p.numVariables 0 ++ List.replicate p.numEquations 1
  constraints_eq : a.constraints = p.constraints.beside (RowMatrix.identity p.numEquations)
  rhs_eq : a.rhs = p.rhs

theorem Extends.numEquations_eq {a p : LinearProgram α} (larger : a.Extends p) :
    a.numEquations = p.numEquations := by
  rw [numEquations, larger.constraints_eq]
  exact RowMatrix.height_beside (RowMatrix.height_identity p.numEquations).symm

theorem Extends.numVariables_eq {a p : LinearProgram α} (larger : a.Extends p) :
    a.numVariables = p.numVariables + p.numEquations := by
  rw [numVariables, larger.constraints_eq]
  rfl

theorem artificial_extends (p : LinearProgram α) : ∃ a, p.artificial = .ok a ∧ a.Extends p := by
  have heights : p.constraints.height = (RowMatrix.identity p.numEquations : RowMatrix α).height :=
    (RowMatrix.height_identity p.numEquations).symm
  have height := RowMatrix.height_beside heights
  have costFits : (List.replicate p.numVariables 0 ++ List.replicate p.numEquations 1 : Vec α).length
      = (p.constraints.beside (RowMatrix.identity p.numEquations)).width := by
    simp [RowMatrix.beside, numVariables]
  have rhsFits : p.rhs.length = (p.constraints.beside (RowMatrix.identity p.numEquations)).height :=
    p.rhs_length.trans height.symm
  have short : (p.constraints.beside (RowMatrix.identity p.numEquations)).height <
      (p.constraints.beside (RowMatrix.identity p.numEquations)).width := by
    rw [height, ← costFits, List.length_append, List.length_replicate, List.length_replicate]
    exact p.height_lt_width.trans_le (Nat.le_add_right _ _)
  refine ⟨⟨_, _, p.rhs, costFits, rhsFits, short⟩, ?_, rfl, rfl, rfl⟩
  rw [artificial, RowMatrix.beside?, if_pos heights, demand_some, ok_bind, create,
    dif_pos costFits, dif_pos rhsFits, dif_pos short]

theorem artificialStart_yields (p : LinearProgram α) (upkeep : Upkeep) (config : Config α) :
    (p.artificialStart upkeep config).Yields
      (fun t => t.Structured ∧ t.numEquations = p.numEquations ∧
        t.numVariables = p.numVariables + p.numEquations ∧ t.tolerance = config.tolerance ∧
        t.inverse.upkeep = upkeep)
      (· = .requirement) := by
  obtain ⟨a, found, larger⟩ := p.artificial_extends
  have numEquations_eq := larger.numEquations_eq
  have numVariables_eq := larger.numVariables_eq
  have checked : a.checkBasis (List.range' p.numVariables p.numEquations) = .ok () := by
    refine checkBasis_ok_iff.2 ⟨?_, fun j member => ?_, List.nodup_range'⟩
    · rw [List.length_range', numEquations_eq]
    · rw [numVariables_eq]
      exact (List.mem_range'_1.1 member).2
  have shaped : (BasisInverse.identity upkeep p.numEquations : BasisInverse α).Shaped
      a.numEquations := numEquations_eq.symm ▸ BasisInverse.identity_shaped upkeep p.numEquations
  unfold artificialStart
  apply (require_yields _).bind
  intro _ _
  rw [found, ok_bind]
  have required := Tableau.startWith_onlyRequires a (BasisInverse.identity upkeep p.numEquations)
    (List.range' p.numVariables p.numEquations) config.tolerance
  cases started : Tableau.startWith a (BasisInverse.identity upkeep p.numEquations)
      (List.range' p.numVariables p.numEquations) config.tolerance with
  | error fault => exact required.of_eq_error started
  | ok t =>
      obtain ⟨structured, rfl, inverse_eq, -, tolerance_eq⟩ :=
        Tableau.startWith_structured checked shaped started
      refine ⟨structured, numEquations_eq, numVariables_eq, tolerance_eq, ?_⟩
      rw [inverse_eq, BasisInverse.upkeep_identity]

end LinearProgram

namespace FeasibleStart

inductive Reports (p : LinearProgram α) : Finding α → Prop
  | feasible {basis : List ℕ} {values : Vec α} (checked : p.checkBasis basis = .ok ())
      (vanishes : values.VanishesOutside basis p.numVariables) : Reports p (.feasible basis values)
  | redundant {rows : List ℕ} (nonempty : rows ≠ []) (selection : Vec.IsSelection rows p.numEquations) :
      Reports p (.redundant rows)

def Explained (upkeep : Upkeep) (config : Config α) (fault : Fault α) : Prop :=
  fault = .failed .singularMatrix → ∃ t : Tableau α, t.Structured ∧ t.inverse.upkeep = upkeep ∧
    t.tolerance = config.tolerance ∧ t.RefusesPivot

theorem conclude_reports {p : LinearProgram α} {last : Tableau α} {before rows : List ℕ}
    {items : List (ℕ × ℕ)} (structured : last.Structured)
    (numEquations_eq : last.numEquations = p.numEquations)
    (numVariables_eq : last.numVariables = p.numVariables + p.numEquations)
    (drives : Drives p.numVariables items before last.basis rows)
    (complete : ∀ k j, before[k]? = some j → p.numVariables ≤ j → ∃ item ∈ items, item.2 = k) :
    ∃ finding, conclude last p.numVariables rows = .ok finding ∧ Reports p finding := by
  have ordered : rows.Pairwise (· ≤ ·) := drives.sorted.imp le_of_lt
  rw [conclude, require_of ordered, ok_bind]
  cases rows with
  | nil =>
      have below : ∀ j ∈ last.basis, j < p.numVariables := by
        intro j member
        by_contra above
        obtain ⟨k, present⟩ := List.mem_iff_getElem?.1 member
        by_cases listed : ∃ item ∈ items, item.2 = k
        · obtain ⟨item, inside, rfl⟩ := listed
          rcases drives.replaced item inside j present with small | ⟨row, none, -⟩
          · exact above small
          · cases none
        · rw [drives.others k fun item inside same => listed ⟨item, inside, same⟩] at present
          exact listed (complete k j present (not_lt.1 above))
      have checked : p.checkBasis last.basis = .ok () := LinearProgram.checkBasis_ok_iff.2
        ⟨structured.length.trans numEquations_eq, below, structured.nodup⟩
      have vanishes := structured.values.take
        ((Nat.le_add_right _ _).trans_eq numVariables_eq.symm : p.numVariables ≤ last.numVariables)
      refine ⟨.feasible last.basis (last.values.take p.numVariables), ?_, .feasible checked vanishes⟩
      rw [List.isEmpty_nil, if_pos rfl, require_of below]
      rfl
  | cons first others =>
      refine ⟨.redundant (first :: others), rfl, .redundant (List.cons_ne_nil _ _)
        ⟨drives.sorted, fun row member => ?_⟩⟩
      obtain ⟨item, -, -, present⟩ := drives.stuck row member
      have bound := structured.lt _ (List.mem_of_getElem? present)
      omega

theorem settle_reports {p : LinearProgram α} {least : Tableau α} (structured : least.Structured)
    (numEquations_eq : least.numEquations = p.numEquations)
    (numVariables_eq : least.numVariables = p.numVariables + p.numEquations) (config : Config α)
    (iterations : ℕ) :
    (settle p config least iterations).outcome.Yields (Reports p) least.Explains := by
  unfold settle
  simp only [Traced.outcome_bind, Traced.outcome_lift, Traced.outcome_emit, ok_bind]
  apply (least.objective_onlyRequires.mono_fault ?_).bind
  · intro infeasibility _
    split
    · exact nofun
    · have places := least.basicArtificials_places p.numVariables
      rw [Traced.outcome_bind]
      apply (Tableau.exchangeArtificials_explained structured places).bind
      intro result after
      obtain ⟨last, rows⟩ := result
      obtain ⟨onward, drives⟩ := after
      have complete (k j : ℕ) (present : least.basis[k]? = some j) (above : p.numVariables ≤ j) :
          ∃ item ∈ least.basicArtificials p.numVariables, item.2 = k :=
        ⟨_, Tableau.mem_basicArtificials structured.nodup structured.lt present above, rfl⟩
      obtain ⟨finding, concluded, reports⟩ := conclude_reports onward.structured
        ((congrArg LinearProgram.numEquations onward.problem_eq).trans numEquations_eq)
        ((congrArg LinearProgram.numVariables onward.problem_eq).trans numVariables_eq) drives complete
      rw [Traced.outcome_lift, concluded]
      exact reports
  · rintro _ rfl
    exact least.explains_requirement

theorem find_reports (p : LinearProgram α) (upkeep : Upkeep) (rule : PivotRule) (config : Config α)
    (limit : ℕ) :
    (find p upkeep rule config limit).outcome.Yields (Reports p) (Explained upkeep config) := by
  unfold find
  rw [Traced.outcome_bind, Traced.outcome_lift]
  apply ((p.artificialStart_yields upkeep config).mono_fault ?_).bind
  · intro start given
    obtain ⟨structured, numEquations_eq, numVariables_eq, tolerance_eq, upkeep_eq⟩ := given
    have explained {s : Tableau α} (continues : start.Continues s) {fault : Fault α}
        (explains : s.Explains fault) : Explained upkeep config fault := by
      intro singular
      obtain ⟨last, later, refuses⟩ := (continues.explains explains) singular
      exact ⟨last, later.structured, later.upkeep_eq.trans upkeep_eq,
        later.tolerance_eq.trans tolerance_eq, refuses⟩
    rw [Traced.outcome_bind]
    apply ((Primal.run_explained rule config structured limit 0).mono_fault
      fun _ => explained structured.continues).bind
    intro ended continues
    have problem_eq : ended.1.problem = start.problem := continues.problem_eq
    exact (settle_reports continues.structured
      ((congrArg LinearProgram.numEquations problem_eq).trans numEquations_eq)
      ((congrArg LinearProgram.numVariables problem_eq).trans numVariables_eq) config
      ended.2).mono_fault fun _ => explained continues
  · rintro _ rfl
    exact nofun

end FeasibleStart

end SimplexMethod
