import SimplexMethod.Proofs.InPlace
import SimplexMethod.Proofs.RowChanges

namespace SimplexMethod

open Outcome Update

variable {α : Type} [Scalar α]

theorem foldl_modify {β : Type} (change : β → β) {positions : List ℕ} (nodup : positions.Nodup)
    (entries : List β) (k : ℕ) :
    (positions.foldl (fun entries i => entries.modify i change) entries)[k]? =
      if k ∈ positions then entries[k]?.map change else entries[k]? := by
  induction positions generalizing entries with
  | nil => simp
  | cons i rest ih =>
      obtain ⟨fresh, nodup⟩ := List.nodup_cons.1 nodup
      rw [List.foldl_cons, ih nodup, List.getElem?_modify]
      by_cases here : i = k
      · subst here
        simp [fresh]
      · simp [here, Ne.symm here]

omit [Scalar α] in
theorem filterM_eq_ok {β : Type} {test : β → Outcome α Bool} {decision : β → Bool}
    {entries : List β} (each : ∀ entry ∈ entries, test entry = .ok (decision entry)) :
    entries.filterM test = .ok (entries.filter decision) := by
  suffices scanned : ∀ kept, List.filterAuxM test entries kept =
      (.ok ((entries.filter decision).reverse ++ kept) : Outcome α (List β)) by
    rw [List.filterM, scanned, ok_bind, pure_eq_ok, List.append_nil, List.reverse_reverse]
  induction entries with
  | nil => exact fun kept => rfl
  | cons entry rest ih =>
      intro kept
      rw [List.filterAuxM, each entry (by simp), ok_bind,
        ih fun other member => each other (by simp [member])]
      cases decided : decision entry <;> simp [decided]

/-- A removal takes out the entries at positions that are in order and in range, and it does not
accept others. -/
structure Vec.Removes (remove : (β : Type) → List β → List ℕ → Option (List β)) : Prop where
  of_selection {β : Type} (entries : List β) {positions : List ℕ} :
    IsSelection positions entries.length →
      remove β entries positions = some (dropPositions entries positions)
  of_not_selection {β : Type} (entries : List β) {positions : List ℕ} :
    ¬IsSelection positions entries.length → remove β entries positions = none

theorem Vec.dropPositions?_removes : Vec.Removes fun _ => dropPositions? :=
  ⟨fun _ _ selection => if_pos selection, fun _ _ outside => if_neg outside⟩

structure StoredMatrix (α : Type) where
  rows : List (Vec α)
  height : ℕ
  width : ℕ

namespace StoredMatrix

def scaleRow (i : ℕ) (factor : α) : Update α (StoredMatrix α) Unit := do
  let a ← get
  ofOutcome (require (i < a.height))
  ofOutcome (require (i < a.rows.length))
  set { a with rows := a.rows.modify i fun row => Vec.scale row factor }

def removeRows (remove : (β : Type) → List β → List ℕ → Option (List β)) (positions : List ℕ) :
    Update α (StoredMatrix α) Unit := do
  let a ← get
  ofOutcome (require (positions.Pairwise (· ≤ ·)))
  ofOutcome (require (∀ i ∈ positions, i < a.height))
  let rows ← ofOutcome (demand (remove (Vec α) a.rows positions))
  set { a with rows, height := rows.length }

end StoredMatrix

def RowMatrix.stored (a : RowMatrix α) : StoredMatrix α := ⟨a.rows, a.height, a.width⟩

structure StoredProgram (α : Type) where
  cost : Vec α
  constraints : StoredMatrix α
  rhs : Vec α

def LinearProgram.stored (p : LinearProgram α) : StoredProgram α :=
  ⟨p.cost, p.constraints.stored, p.rhs⟩

namespace StoredProgram

def negativeRows (s : StoredProgram α) : Outcome α (List ℕ) :=
  (List.range s.constraints.height).filterM fun i => do
    return decide ((← demand s.rhs[i]?) < 0)

def negateRow (i : ℕ) : Update α (StoredProgram α) Unit := do
  within constraints (fun s constraints => { s with constraints }) (StoredMatrix.scaleRow i (-1))
  let s ← get
  ofOutcome (require (i < s.rhs.length))
  set { s with rhs := s.rhs.modify i fun b => -b }

def normalize : Update α (StoredProgram α) (List ℕ) := do
  let rows ← ofOutcome (← get).negativeRows
  rows.forM negateRow
  return rows

def removeRows (remove : (β : Type) → List β → List ℕ → Option (List β)) (positions : List ℕ) :
    Update α (StoredProgram α) Unit := do
  within constraints (fun s constraints => { s with constraints })
    (StoredMatrix.removeRows remove positions)
  let s ← get
  ofOutcome (require (positions.Pairwise (· ≤ ·)))
  ofOutcome (require (∀ i ∈ positions, i < s.rhs.length))
  let rhs ← ofOutcome (demand (remove α s.rhs positions))
  set { s with rhs }

inductive Arises (remove : (β : Type) → List β → List ℕ → Option (List β)) :
    StoredProgram α → Prop
  | create {cost rhs : Vec α} {constraints : RowMatrix α} {p : LinearProgram α}
      (created : LinearProgram.create cost constraints rhs = .ok p) :
      Arises remove ⟨cost, constraints.stored, rhs⟩
  | ofRows {cost rhs : Vec α} {rows : List (Vec α)} {p : LinearProgram α}
      (created : LinearProgram.ofRows cost rows rhs = .ok p) :
      Arises remove ⟨cost, ⟨rows, rows.length, cost.length⟩, rhs⟩
  | normalize {s next : StoredProgram α} {rows : List ℕ} (arises : Arises remove s)
      (changed : normalize s = .ok rows next) : Arises remove next
  | removeRows {s next : StoredProgram α} {positions : List ℕ} (arises : Arises remove s)
      (changed : removeRows remove positions s = .ok () next) : Arises remove next

end StoredProgram

namespace LinearProgram

variable {p : LinearProgram α} {remove : (β : Type) → List β → List ℕ → Option (List β)}

omit [Scalar α] in
theorem stored_injective : Function.Injective (stored : LinearProgram α → StoredProgram α) := by
  rintro ⟨cost, constraints, rhs, _, _, _⟩ ⟨cost', constraints', rhs', _, _, _⟩ same
  simp only [stored, RowMatrix.stored, StoredProgram.mk.injEq, StoredMatrix.mk.injEq] at same
  obtain ⟨rfl, ⟨rows, -, width⟩, rfl⟩ := same
  cases RowMatrix.eq_of_rows_eq rows width
  rfl

omit [Scalar α] in
theorem stored_of_create {cost rhs : Vec α} {constraints : RowMatrix α}
    (created : create cost constraints rhs = .ok p) : p.stored = ⟨cost, constraints.stored, rhs⟩ := by
  unfold create at created
  split at created
  · split at created
    · split at created
      · cases created
        rfl
      · cases created
    · cases created
  · cases created

omit [Scalar α] in
theorem stored_of_ofRows {cost rhs : Vec α} {rows : List (Vec α)}
    (created : ofRows cost rows rhs = .ok p) :
    p.stored = ⟨cost, ⟨rows, rows.length, cost.length⟩, rhs⟩ := by
  unfold ofRows at created
  split at created
  · cases created
  · simp only [bind_eq_ok_iff, demand_eq_ok_iff, RowMatrix.ofRows?] at created
    obtain ⟨constraints, stored, created⟩ := created
    split at stored
    · cases stored
      exact stored_of_create created
    · cases stored

theorem negativeRows_stored (p : LinearProgram α) : p.stored.negativeRows = .ok p.negativeRows := by
  apply filterM_eq_ok
  intro i member
  have inside : i < p.rhs.length := (List.mem_range.1 member).trans_eq p.rhs_length.symm
  have present : p.stored.rhs[i]? = some (p.rhs.getD i 0) := by simp [stored, inside]
  rw [present, demand_some, ok_bind, pure_eq_ok]

end LinearProgram

namespace StoredProgram

def withRowNegated (s : StoredProgram α) (i : ℕ) : StoredProgram α :=
  { s with
    constraints := { s.constraints with
      rows := s.constraints.rows.modify i fun row => Vec.scale row (-1) }
    rhs := s.rhs.modify i fun b => -b }

theorem negateRow_eq {s : StoredProgram α} {i : ℕ} (counted : i < s.constraints.height)
    (row : i < s.constraints.rows.length) (side : i < s.rhs.length) :
    negateRow i s = .ok () (s.withRowNegated i) := by
  have scaled : StoredMatrix.scaleRow i (-1) s.constraints = .ok () { s.constraints with
      rows := s.constraints.rows.modify i fun row => Vec.scale row (-1) } := by
    rw [StoredMatrix.scaleRow, get_bind, require_of counted, ofOutcome_ok_bind, require_of row,
      ofOutcome_ok_bind]
    rfl
  rw [negateRow, bind_of_ok (within_of_ok scaled), get_bind, require_of side, ofOutcome_ok_bind]
  rfl

theorem foldl_withRowNegated (positions : List ℕ) (s : StoredProgram α) :
    positions.foldl withRowNegated s =
      { s with
        constraints := { s.constraints with
          rows := positions.foldl
            (fun rows i => rows.modify i fun row => Vec.scale row (-1)) s.constraints.rows }
        rhs := positions.foldl (fun rhs i => rhs.modify i fun b => -b) s.rhs } := by
  induction positions generalizing s with
  | nil => rfl
  | cons i rest ih => exact ih (s.withRowNegated i)

end StoredProgram

namespace LinearProgram

variable {p : LinearProgram α} {remove : (β : Type) → List β → List ℕ → Option (List β)}

theorem foldl_negativeRows (p : LinearProgram α) :
    p.negativeRows.foldl StoredProgram.withRowNegated p.stored = p.normalize.stored := by
  have nodup : p.negativeRows.Nodup := List.nodup_range.filter _
  have rows : p.negativeRows.foldl (fun rows i => rows.modify i fun row => Vec.scale row (-1))
      p.constraints.rows = p.normalize.constraints.rows := by
    apply List.ext_getElem?
    intro k
    rw [foldl_modify _ nodup]
    by_cases inside : k < p.numEquations
    · rw [RowMatrix.getElem?_rows (a := p.normalize.constraints)
        (inside.trans_eq p.numEquations_normalize.symm), p.row_normalize inside,
        RowMatrix.getElem?_rows (a := p.constraints) inside]
      simp only [mem_negativeRows_iff, inside, true_and, Option.map_some]
      split <;> rfl
    · have outside : p.constraints.rows.length ≤ k := not_lt.1 inside
      have outside' : p.normalize.constraints.rows.length ≤ k :=
        p.numEquations_normalize.trans_le outside
      simp [outside, outside']
  have sides : p.negativeRows.foldl (fun rhs i => rhs.modify i fun b => -b) p.rhs =
      p.normalize.rhs := by
    apply List.ext_getElem?
    intro k
    rw [foldl_modify _ nodup]
    by_cases inside : k < p.rhs.length
    · have row : k < p.numEquations := inside.trans_eq p.rhs_length
      simp only [mem_negativeRows_iff, row, true_and, normalize, List.getElem?_map,
        List.getElem?_eq_getElem inside, List.getD_eq_getElem _ _ inside, Option.map_some]
      split <;> rfl
    · simp [normalize, not_lt.1 inside]
  have height : p.constraints.height = p.normalize.constraints.height :=
    p.numEquations_normalize.symm
  rw [StoredProgram.foldl_withRowNegated]
  simp only [stored, RowMatrix.stored, rows, sides, height]
  rfl

theorem normalize_stored (p : LinearProgram α) :
    StoredProgram.normalize p.stored = .ok p.negativeRows p.normalize.stored := by
  have looped : (p.negativeRows.forM StoredProgram.negateRow :
      Update α (StoredProgram α) Unit) p.stored = .ok () p.normalize.stored := by
    refine (forM_eq StoredProgram.withRowNegated (fun s => s.constraints.height = p.numEquations ∧
      s.constraints.rows.length = p.numEquations ∧ s.rhs.length = p.numEquations) ?_
      ⟨rfl, rfl, p.rhs_length⟩).1.trans ?_
    · intro i member s sizes
      obtain ⟨height, rows, sides⟩ := sizes
      have inside : i < p.numEquations := List.mem_range.1 (List.mem_of_mem_filter member)
      refine ⟨StoredProgram.negateRow_eq (inside.trans_eq height.symm) (inside.trans_eq rows.symm)
        (inside.trans_eq sides.symm), height, ?_, ?_⟩
      · exact (List.length_modify ..).trans rows
      · exact (List.length_modify ..).trans sides
    · rw [foldl_negativeRows]
  rw [StoredProgram.normalize, get_bind, negativeRows_stored, ofOutcome_ok_bind, bind_of_ok looped]
  rfl

omit [Scalar α] in
theorem removeRows_constraints_stored (removes : Vec.Removes remove) (a : RowMatrix α)
    (positions : List ℕ) : StoredMatrix.removeRows remove positions a.stored =
      commit ((demand (a.dropRows? positions)).map RowMatrix.stored) a.stored := by
  rw [StoredMatrix.removeRows, get_bind, RowMatrix.dropRows?]
  by_cases selection : Vec.IsSelection positions a.height
  · have removed : remove (Vec α) a.stored.rows positions =
        some (Vec.dropPositions a.rows positions) := removes.of_selection a.rows selection
    have below : ∀ i ∈ positions, i < a.stored.height := selection.2
    rw [if_pos selection, require_of (selection.1.imp le_of_lt), ofOutcome_ok_bind,
      require_of below, ofOutcome_ok_bind, removed]
    rfl
  · have refused : remove (Vec α) a.stored.rows positions = none :=
      removes.of_not_selection a.rows selection
    rw [if_neg selection, refused]
    unfold require
    split
    · rw [ofOutcome_ok_bind]
      split
      · rfl
      · rfl
    · rfl

omit [Scalar α] in
theorem removeRows_stored (removes : Vec.Removes remove) (p : LinearProgram α)
    (positions : List ℕ) : StoredProgram.removeRows remove positions p.stored =
      commit ((demand (p.dropRows? positions)).map stored) p.stored := by
  have constraints : StoredMatrix.removeRows remove positions p.stored.constraints =
      commit ((demand (p.constraints.dropRows? positions)).map RowMatrix.stored)
        p.stored.constraints := removeRows_constraints_stored removes p.constraints positions
  rw [StoredProgram.removeRows, LinearProgram.dropRows?]
  by_cases selection : Vec.IsSelection positions p.numEquations
  · have dropped : p.constraints.dropRows? positions = some (p.constraints.dropRows positions) :=
      if_pos selection
    have sides : Vec.IsSelection positions p.rhs.length := p.rhs_length.symm ▸ selection
    have below : ∀ i ∈ positions, i < p.stored.rhs.length := sides.2
    have removed : remove α p.stored.rhs positions = some (Vec.dropPositions p.rhs positions) :=
      removes.of_selection p.rhs sides
    rw [dropped] at constraints
    rw [if_pos selection]
    refine (bind_of_ok (within_of_ok constraints)).trans ?_
    rw [get_bind, require_of (selection.1.imp le_of_lt), ofOutcome_ok_bind]
    dsimp only
    rw [require_of below, ofOutcome_ok_bind, removed]
    rfl
  · have refused : p.constraints.dropRows? positions = none := if_neg selection
    rw [refused] at constraints
    rw [if_neg selection]
    exact bind_of_error (within_of_error constraints)

end LinearProgram

theorem StoredProgram.Arises.exists_program
    {remove : (β : Type) → List β → List ℕ → Option (List β)} (removes : Vec.Removes remove)
    {s : StoredProgram α} (arises : s.Arises remove) : ∃ p : LinearProgram α, p.stored = s := by
  induction arises with
  | create created => exact ⟨_, LinearProgram.stored_of_create created⟩
  | ofRows created => exact ⟨_, LinearProgram.stored_of_ofRows created⟩
  | normalize _ changed ih =>
      obtain ⟨p, rfl⟩ := ih
      rw [p.normalize_stored] at changed
      cases changed
      exact ⟨p.normalize, rfl⟩
  | @removeRows _ _ positions _ changed ih =>
      obtain ⟨p, rfl⟩ := ih
      rw [p.removeRows_stored removes] at changed
      cases dropped : p.dropRows? positions with
      | none =>
          rw [dropped] at changed
          cases changed
      | some reduced =>
          rw [dropped] at changed
          cases changed
          exact ⟨reduced, rfl⟩

end SimplexMethod
