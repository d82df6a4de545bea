import SimplexMethod.Proofs.Iteration
import SimplexMethod.Proofs.RowChanges
import SimplexMethod.Proofs.StructuredRound

namespace SimplexMethod

open Vec Outcome

variable {α : Type} [Scalar α]

namespace LinearProgram

/-- The equations of the first problem are those of the second at the given positions, in order. -/
structure Restricts (reduced p : LinearProgram α) (remaining : List ℕ) : Prop where
  cost_eq : reduced.cost = p.cost
  width_eq : reduced.numVariables = p.numVariables
  rows_eq : reduced.constraints.rows = remaining.map p.constraints.row
  rhs_eq : reduced.rhs = remaining.map fun i => p.rhs.getD i 0

variable {p reduced : LinearProgram α} {remaining rows : List ℕ}

theorem restricts_range (p : LinearProgram α) : p.Restricts p (List.range p.numEquations) := by
  refine ⟨rfl, rfl, ?_, ?_⟩
  · apply List.ext_getElem
    · simp [numEquations, RowMatrix.height]
    · intro i inLeft inRight
      simp [RowMatrix.row_eq_getElem _ inLeft]
  · apply List.ext_getElem
    · simp [p.rhs_length, numEquations]
    · intro i inLeft inRight
      simp [inLeft]

theorem Restricts.length_eq (restricts : reduced.Restricts p remaining) :
    remaining.length = reduced.numEquations := by
  rw [numEquations, RowMatrix.height, restricts.rows_eq, List.length_map]

theorem Restricts.dropRows (restricts : reduced.Restricts p remaining) (rows : List ℕ) :
    (reduced.dropRows rows).Restricts p (dropPositions remaining rows) := by
  refine ⟨restricts.cost_eq, restricts.width_eq, ?_, ?_⟩
  · change dropPositions reduced.constraints.rows rows = _
    rw [restricts.rows_eq, dropPositions_map]
  · change dropPositions reduced.rhs rows = _
    rw [restricts.rhs_eq, dropPositions_map]

end LinearProgram

namespace Reduction

theorem insertSorted_eq (i : ℕ) (positions : List ℕ) :
    insertSorted i positions = positions.orderedInsert (· ≤ ·) i := by
  induction positions with
  | nil => rfl
  | cons j rest ih => rw [insertSorted, List.orderedInsert_cons, ih]

theorem sorted_eq (positions : List ℕ) : sorted positions = positions.insertionSort (· ≤ ·) := by
  induction positions with
  | nil => rfl
  | cons i rest ih =>
      rw [sorted, List.foldr_cons, ← sorted, ih, insertSorted_eq, List.insertionSort_cons]

variable {r : Reduction α} {rows : List ℕ}

omit [Scalar α] in
theorem lookUp_eq {remaining : List ℕ} (selection : IsSelection rows remaining.length) :
    rows.mapM (fun i => demand remaining[i]?) =
      (.ok (rows.map fun i => remaining.getD i 0) : Outcome α (List ℕ)) :=
  mapM_getElem?_eq_ok 0 selection.2

omit [Scalar α] in
theorem takeOut_eq_ok (selection : IsSelection rows r.problem.numEquations)
    (length : r.remaining.length = r.problem.numEquations) :
    r.takeOut rows = .ok ⟨r.problem.dropRows rows, dropPositions r.remaining rows,
      r.removed ++ rows.map fun i => r.remaining.getD i 0⟩ := by
  rw [takeOut, lookUp_eq (length ▸ selection), ok_bind, dropPositions?, if_pos (length ▸ selection),
    demand_some, ok_bind, LinearProgram.dropRows?, if_pos selection, demand_some, ok_bind, pure_eq_ok]

def next? (upkeep : Upkeep) (rule : PivotRule) (config : Config α) (limit : ℕ) (r : Reduction α) :
    Option (Reduction α) :=
  match (FeasibleStart.find r.problem upkeep rule config limit).outcome with
  | .ok (.redundant rows) => (r.takeOut rows).toOption
  | _ => none

inductive Ends (upkeep : Upkeep) (rule : PivotRule) (config : Config α) (limit : ℕ)
    (r : Reduction α) : Outcome α (FeasibleStart α) → Prop
  | found {basis : List ℕ} {values : Vec α}
      (found : (FeasibleStart.find r.problem upkeep rule config limit).outcome =
        .ok (.feasible basis values)) :
      Ends upkeep rule config limit r (.ok ⟨r.problem, basis, values, sorted r.removed⟩)
  | failed {fault : Fault α}
      (failed : (FeasibleStart.find r.problem upkeep rule config limit).outcome = .error fault) :
      Ends upkeep rule config limit r (.error fault)

structure Accounted (p : LinearProgram α) (k : ℕ) (r : Reduction α) : Prop where
  restricts : r.problem.Restricts p.normalize r.remaining
  ascending : r.remaining.Pairwise (· < ·)
  perm : (r.removed ++ r.remaining).Perm (List.range p.numEquations)
  rounds_le : k ≤ r.removed.length

end Reduction

section Search

variable {p : LinearProgram α} {upkeep : Upkeep} {rule : PivotRule} {config : Config α} {limit : ℕ}
  {k : ℕ} {r later : Reduction α} {rows : List ℕ}

def LinearProgram.reduction? (p : LinearProgram α) (upkeep : Upkeep) (rule : PivotRule)
    (config : Config α) (limit k : ℕ) : Option (Reduction α) :=
  iterate? (Reduction.next? upkeep rule config limit) (Reduction.first p) k

namespace Reduction

theorem next?_of_redundant (found : (FeasibleStart.find r.problem upkeep rule config limit).outcome =
    .ok (.redundant rows)) : r.next? upkeep rule config limit = (r.takeOut rows).toOption := by
  rw [next?, found]

theorem Ends.next?_eq_none {outcome : Outcome α (FeasibleStart α)}
    (ends : r.Ends upkeep rule config limit outcome) : r.next? upkeep rule config limit = none := by
  cases ends with
  | found found => rw [next?, found]
  | failed failed => rw [next?, failed]

theorem Ends.unique {outcome outcome' : Outcome α (FeasibleStart α)}
    (ends : r.Ends upkeep rule config limit outcome)
    (ends' : r.Ends upkeep rule config limit outcome') : outcome = outcome' := by
  cases ends with
  | found found =>
      cases ends' with
      | found found' =>
          cases found.symm.trans found'
          rfl
      | failed failed => cases found.symm.trans failed
  | failed failed =>
      cases ends' with
      | found found => cases failed.symm.trans found
      | failed failed' =>
          cases failed.symm.trans failed'
          rfl

theorem exists_redundant (follows : r.next? upkeep rule config limit = some later) :
    ∃ rows, (FeasibleStart.find r.problem upkeep rule config limit).outcome =
      .ok (.redundant rows) ∧ r.takeOut rows = .ok later := by
  rw [next?] at follows
  split at follows
  · rename_i rows found
    exact ⟨rows, found, toOption_eq_some_iff.1 follows⟩
  · cases follows

theorem accounted_first (p : LinearProgram α) : Accounted p 0 (first p) := by
  have restricts := p.normalize.restricts_range
  rw [LinearProgram.numEquations_normalize] at restricts
  exact ⟨restricts, List.pairwise_lt_range, .refl _, Nat.zero_le _⟩

theorem Accounted.takeOut (accounted : Accounted p k r) (nonempty : rows ≠ [])
    (selection : IsSelection rows r.problem.numEquations) :
    Accounted p (k + 1) ⟨r.problem.dropRows rows, dropPositions r.remaining rows,
      r.removed ++ rows.map fun i => r.remaining.getD i 0⟩ := by
  have length := accounted.restricts.length_eq
  have fits : IsSelection rows r.remaining.length := length ▸ selection
  refine ⟨accounted.restricts.dropRows rows,
    accounted.ascending.sublist (dropPositions_sublist r.remaining rows), ?_, ?_⟩
  · rw [List.append_assoc]
    exact ((perm_dropPositions r.remaining fits 0).append_left r.removed).trans accounted.perm
  · have some := List.length_pos_iff.2 nonempty
    have before := accounted.rounds_le
    rw [List.length_append, List.length_map]
    omega

theorem Accounted.next (accounted : Accounted p k r)
    (follows : r.next? upkeep rule config limit = some later) : Accounted p (k + 1) later := by
  obtain ⟨rows, found, taken⟩ := exists_redundant follows
  cases (FeasibleStart.find_reports _ upkeep rule config limit).of_eq_ok found with
  | redundant nonempty selection =>
      rw [takeOut_eq_ok selection accounted.restricts.length_eq] at taken
      cases taken
      exact accounted.takeOut nonempty selection

theorem Accounted.length_add_eq (accounted : Accounted p k r) :
    r.removed.length + r.problem.numEquations = p.numEquations := by
  rw [← accounted.restricts.length_eq, ← List.length_append, accounted.perm.length_eq,
    List.length_range]

theorem Accounted.le (accounted : Accounted p k r) : k ≤ p.numEquations :=
  accounted.rounds_le.trans (accounted.length_add_eq ▸ Nat.le_add_right _ _)

theorem Accounted.perm_kept (accounted : Accounted p k r) :
    (kept p.numEquations r.remaining).Perm r.removed := by
  have nodup : (r.removed ++ r.remaining).Nodup := accounted.perm.nodup_iff.2 List.nodup_range
  have filtered := accounted.perm.filter (· ∉ r.remaining)
  have old : r.removed.filter (· ∉ r.remaining) = r.removed := by
    apply List.filter_eq_self.2
    intro i member
    exact decide_eq_true fun also => List.disjoint_of_nodup_append nodup member also
  have new : r.remaining.filter (· ∉ r.remaining) = [] := by
    simp
  rw [List.filter_append, old, new, List.append_nil] at filtered
  exact filtered.symm

theorem Accounted.sorted_eq (accounted : Accounted p k r) :
    sorted r.removed = kept p.numEquations r.remaining := by
  rw [Reduction.sorted_eq]
  have ascending : (kept p.numEquations r.remaining).Pairwise (· ≤ ·) :=
    (List.pairwise_lt_range.filter _).imp le_of_lt
  exact ((List.perm_insertionSort _ _).trans accounted.perm_kept.symm).eq_of_pairwise'
    (List.pairwise_insertionSort _ _) ascending

end Reduction

open Reduction

theorem LinearProgram.reduction?_accounted
    (comes : p.reduction? upkeep rule config limit k = some r) : Accounted p k r := by
  induction k generalizing r with
  | zero =>
      cases comes
      exact accounted_first p
  | succ k ih =>
      obtain ⟨before, comesBefore, follows⟩ := iterate?_succ_eq_some_iff.1 comes
      exact (ih comesBefore).next follows

namespace FeasibleStart

theorem search_outcome_eq_iff (accounted : Accounted p k r) {rounds : ℕ}
    (spare : k + rounds = p.numEquations + 1) (outcome : Outcome α (FeasibleStart α)) :
    (search upkeep rule config limit rounds r).outcome = outcome ↔ ∃ taken < rounds, ∃ last,
      iterate? (next? upkeep rule config limit) r taken = some last ∧
        last.Ends upkeep rule config limit outcome := by
  induction rounds generalizing k r with
  | zero =>
      -- every round takes an equation out, so that the rounds outlast the equations
      have enough := accounted.le
      omega
  | succ rounds ih =>
      rw [search, Traced.outcome_bind, exists_iterate?_succ_iff]
      cases found : (find r.problem upkeep rule config limit).outcome with
      | error fault =>
          have ended := (Ends.failed found).next?_eq_none
          simp only [error_bind, ended, reduceCtorEq, false_and, exists_false, or_false]
          exact ⟨fun same => same ▸ .failed found, (Ends.failed found).unique⟩
      | ok finding =>
          cases (find_reports r.problem upkeep rule config limit).of_eq_ok found with
          | @feasible basis values checked vanishes =>
              have ended := (Ends.found found).next?_eq_none
              have lengthBasis := (LinearProgram.checkBasis_ok_iff.1 checked).1
              have created : create r.problem basis values (sorted r.removed) =
                  .ok ⟨r.problem, basis, values, sorted r.removed⟩ := by
                rw [create, require_of lengthBasis, ok_bind, require_of vanishes.length_eq, ok_bind]
                rfl
              simp only [Traced.outcome_bind, Traced.outcome_emit, Traced.outcome_lift, ok_bind,
                created, ended, reduceCtorEq, false_and, exists_false, or_false]
              exact ⟨fun same => same ▸ .found found, (Ends.found found).unique⟩
          | @redundant rows nonempty selection =>
              have taken := takeOut_eq_ok selection accounted.restricts.length_eq
              have follows := (next?_of_redundant found).trans (toOption_eq_some_iff.2 taken)
              have goesOn : ¬r.Ends upkeep rule config limit outcome := fun ends => by
                rw [ends.next?_eq_none] at follows
                cases follows
              simp only [Traced.outcome_bind, Traced.outcome_emit, Traced.outcome_lift, ok_bind,
                taken, follows, Option.some.injEq, exists_eq_left', goesOn, false_or]
              exact ih (accounted.next follows) (by omega)

end FeasibleStart

theorem LinearProgram.findFeasible_outcome_eq_iff (outcome : Outcome α (FeasibleStart α)) :
    (p.findFeasible upkeep rule config limit).outcome = outcome ↔
      ∃ k r, p.reduction? upkeep rule config limit k = some r ∧
        r.Ends upkeep rule config limit outcome := by
  have searched : (p.findFeasible upkeep rule config limit).outcome =
      (FeasibleStart.search upkeep rule config limit (p.numEquations + 1) (first p)).outcome := by
    unfold findFeasible
    split
    · rw [Traced.outcome_bind, Traced.outcome_emit, ok_bind]
    · rfl
  rw [searched, FeasibleStart.search_outcome_eq_iff (accounted_first p) (Nat.zero_add _)]
  constructor
  · rintro ⟨k, -, r, comes, ends⟩
    exact ⟨k, r, comes, ends⟩
  · rintro ⟨k, r, comes, ends⟩
    exact ⟨k, Nat.lt_succ_of_le (reduction?_accounted comes).le, r, comes, ends⟩

end Search

namespace FeasibleStart

variable {p : LinearProgram α} {upkeep : Upkeep} {rule : PivotRule} {config : Config α} {limit : ℕ}

/-- A start as it has to be: the equations that have not been taken out, with a sign that makes the
right-hand side nonnegative, and a basis of what they are. -/
structure Accounts (p : LinearProgram α) (start : FeasibleStart α) : Prop where
  selection : IsSelection start.removedRows p.numEquations
  cost_eq : start.problem.cost = p.cost
  width_eq : start.problem.numVariables = p.numVariables
  rows_eq : start.problem.constraints.rows = (kept p.numEquations start.removedRows).map fun i =>
    if p.rhs.getD i 0 < 0 then Vec.scale (p.constraints.row i) (-1) else p.constraints.row i
  rhs_eq : start.problem.rhs = (kept p.numEquations start.removedRows).map fun i =>
    if p.rhs.getD i 0 < 0 then -p.rhs.getD i 0 else p.rhs.getD i 0
  length_eq : start.basis.length = start.problem.numEquations
  lt : ∀ j ∈ start.basis, j < p.numVariables
  nodup : start.basis.Nodup
  vanishes : start.values.VanishesOutside start.basis p.numVariables

theorem accounts_of_accounted {k : ℕ} {r : Reduction α} (accounted : r.Accounted p k)
    {basis : List ℕ} {values : Vec α} (checked : r.problem.checkBasis basis = .ok ())
    (vanishes : values.VanishesOutside basis r.problem.numVariables) :
    Accounts p ⟨r.problem, basis, values, Reduction.sorted r.removed⟩ := by
  have below : ∀ i ∈ r.remaining, i < p.numEquations := fun i member =>
    List.mem_range.1 (accounted.perm.subset (List.mem_append_right _ member))
  have restored : kept p.numEquations (kept p.numEquations r.remaining) = r.remaining :=
    kept_kept ⟨accounted.ascending, below⟩
  obtain ⟨length_eq, lt, nodup⟩ := LinearProgram.checkBasis_ok_iff.1 checked
  rw [accounted.sorted_eq]
  obtain ⟨cost_eq, width_eq, rows_eq, rhs_eq⟩ := accounted.restricts
  refine ⟨⟨List.pairwise_lt_range.filter _, fun i member => (mem_kept_iff.1 member).1⟩, cost_eq,
    width_eq, ?_, ?_, length_eq, fun j member => (lt j member).trans_eq width_eq, nodup, ?_⟩
  · rw [restored]
    exact rows_eq.trans (List.map_congr_left fun i member => p.row_normalize (below i member))
  · rw [restored]
    exact rhs_eq.trans (List.map_congr_left fun i member => p.rhs_normalize (below i member))
  · exact width_eq ▸ vanishes

structure Concludes (p : LinearProgram α) (upkeep : Upkeep) (rule : PivotRule) (config : Config α)
    (limit : ℕ) (start : FeasibleStart α) : Prop where
  accounts : Accounts p start
  round : ∃ k r, p.reduction? upkeep rule config limit k = some r ∧ start.problem = r.problem ∧
    (find r.problem upkeep rule config limit).outcome = .ok (.feasible start.basis start.values) ∧
    start.removedRows.Perm r.removed

def FailsIn (p : LinearProgram α) (upkeep : Upkeep) (rule : PivotRule) (config : Config α)
    (limit : ℕ) (fault : Fault α) : Prop :=
  ∃ k r, p.reduction? upkeep rule config limit k = some r ∧
    (find r.problem upkeep rule config limit).outcome = .error fault

theorem findFeasible_eq_error_iff {fault : Fault α} :
    (p.findFeasible upkeep rule config limit).outcome = .error fault ↔
      FailsIn p upkeep rule config limit fault := by
  rw [LinearProgram.findFeasible_outcome_eq_iff]
  constructor
  · rintro ⟨k, r, comes, ⟨⟩ | failed⟩
    exact ⟨k, r, comes, failed⟩
  · rintro ⟨k, r, comes, failed⟩
    exact ⟨k, r, comes, .failed failed⟩

theorem findFeasible_yields (p : LinearProgram α) (upkeep : Upkeep) (rule : PivotRule)
    (config : Config α) (limit : ℕ) :
    (p.findFeasible upkeep rule config limit).outcome.Yields
      (Concludes p upkeep rule config limit) (FailsIn p upkeep rule config limit) := by
  cases searched : (p.findFeasible upkeep rule config limit).outcome with
  | error fault => exact findFeasible_eq_error_iff.1 searched
  | ok start =>
      obtain ⟨k, r, comes, ends⟩ := (LinearProgram.findFeasible_outcome_eq_iff _).1 searched
      have accounted := LinearProgram.reduction?_accounted comes
      cases ends with
      | found found =>
          cases (find_reports r.problem upkeep rule config limit).of_eq_ok found with
          | feasible checked vanishes =>
              refine ⟨accounts_of_accounted accounted checked vanishes, k, r, comes, rfl, found, ?_⟩
              exact accounted.sorted_eq ▸ accounted.perm_kept

/-- Whatever rounds a search takes, it ends with what it has not taken out.  There is at most one
round more than equations; a round that names equations names some, in order and among those left,
so that looking up and removing them can not fail. -/
theorem findFeasible_concludes (p : LinearProgram α) (upkeep : Upkeep) (rule : PivotRule)
    (config : Config α) (limit : ℕ) :
    (p.findFeasible upkeep rule config limit).outcome.Yields
      (Concludes p upkeep rule config limit) (FailsIn p upkeep rule config limit) ∧
    ∀ k r, p.reduction? upkeep rule config limit k = some r →
      k ≤ p.numEquations ∧
      ∀ rows, (find r.problem upkeep rule config limit).outcome = .ok (.redundant rows) →
        rows ≠ [] ∧ IsSelection rows r.problem.numEquations ∧
        (∃ translated,
          rows.mapM (fun i => demand r.remaining[i]?) = (.ok translated : Outcome α _)) ∧
        ∃ left, r.takeOut rows = .ok left := by
  refine ⟨findFeasible_yields p upkeep rule config limit, ?_⟩
  intro k r comes
  have accounted := LinearProgram.reduction?_accounted comes
  refine ⟨accounted.le, fun rows found => ?_⟩
  cases (find_reports r.problem upkeep rule config limit).of_eq_ok found with
  | redundant nonempty selection =>
      have length := accounted.restricts.length_eq
      exact ⟨nonempty, selection, ⟨_, Reduction.lookUp_eq (length ▸ selection)⟩, _,
        Reduction.takeOut_eq_ok selection length⟩

def threefold : LinearProgram ℚ where
  cost := [1, 1, 0, 0]
  constraints := ⟨[[1, 1, 0, 0], [-1, -1, 0, 0], [2, 2, 0, 0]], 4, by decide⟩
  rhs := [1, -1, 2]
  cost_length := rfl
  rhs_length := rfl
  height_lt_width := by decide

theorem findFeasible_concludes_threefold :
    (∃ start, (threefold.findFeasible .productForm .leastIndex ⟨0, 0, true⟩ 9).outcome = .ok start ∧
      start.removedRows = [1, 2] ∧ Accounts threefold start) ∧
    ∃ left, (Reduction.first threefold).takeOut [1, 2] = .ok left := by
  obtain ⟨yields, rounds⟩ := findFeasible_concludes threefold .productForm .leastIndex ⟨0, 0, true⟩ 9
  constructor
  · have ran : (threefold.findFeasible .productForm .leastIndex ⟨0, 0, true⟩ 9).outcome.toOption.map
        FeasibleStart.removedRows = some [1, 2] := by decide +kernel
    cases found : (threefold.findFeasible .productForm .leastIndex ⟨0, 0, true⟩ 9).outcome with
    | error fault =>
        rw [found] at ran
        cases ran
    | ok start =>
        rw [found] at ran
        exact ⟨start, rfl, Option.some_inj.1 ran, (yields.of_eq_ok found).accounts⟩
  · have found : (find threefold.normalize .productForm .leastIndex ⟨0, 0, true⟩ 9).outcome =
        .ok (.redundant [1, 2]) := by decide +kernel
    exact ((rounds 0 _ rfl).2 [1, 2] found).2.2.2

end FeasibleStart

end SimplexMethod
