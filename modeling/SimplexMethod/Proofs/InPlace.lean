import SimplexMethod.Proofs.Structure

/-!
# Exchanges in place

An exchange can overwrite its tableau part by part instead of building the next one.  What has been
written when such an update ends with a fault stays written, so that a fault in the middle could
leave parts that do not belong together.  None does: every fault comes before the first write.
-/

namespace SimplexMethod

open Outcome

/-- A computation that overwrites a state, which a fault does not restore. -/
abbrev Update (α σ β : Type) := EStateM (Fault α) σ β

namespace Update

variable {α β γ σ τ : Type}

def ofOutcome (outcome : Outcome α β) : Update α σ β := fun s =>
  match outcome with
  | .ok result => .ok result s
  | .error fault => .error fault s

def within (part : σ → τ) (replace : σ → τ → σ) (update : Update α τ β) : Update α σ β := fun s =>
  match update (part s) with
  | .ok result changed => .ok result (replace s changed)
  | .error fault changed => .error fault (replace s changed)

/-- The new state, or the fault in the old state. -/
def commit (outcome : Outcome α σ) (s : σ) : EStateM.Result (Fault α) σ Unit :=
  match outcome with
  | .ok next => .ok () next
  | .error fault => .error fault s

def finalState : EStateM.Result (Fault α) σ β → σ
  | .ok _ s => s
  | .error _ s => s

theorem bind_of_ok {update : Update α σ β} {rest : β → Update α σ γ} {s s' : σ} {result : β}
    (updated : update s = .ok result s') : (update >>= rest) s = rest result s' := by
  simp only [bind, EStateM.bind, updated]

theorem bind_of_error {update : Update α σ β} {rest : β → Update α σ γ} {s s' : σ}
    {fault : Fault α} (failed : update s = .error fault s') :
    (update >>= rest) s = .error fault s' := by
  simp only [bind, EStateM.bind, failed]

theorem within_of_ok {part : σ → τ} {replace : σ → τ → σ} {update : Update α τ β} {s : σ}
    {changed : τ} {result : β} (updated : update (part s) = .ok result changed) :
    within part replace update s = .ok result (replace s changed) := by
  simp only [within, updated]

theorem within_of_error {part : σ → τ} {replace : σ → τ → σ} {update : Update α τ β} {s : σ}
    {changed : τ} {fault : Fault α} (failed : update (part s) = .error fault changed) :
    within part replace update s = .error fault (replace s changed) := by
  simp only [within, failed]

@[simp] theorem get_bind (rest : σ → Update α σ γ) (s : σ) : (get >>= rest) s = rest s s := rfl

@[simp] theorem set_bind (s s' : σ) (rest : PUnit → Update α σ γ) :
    (set s' >>= rest) s = rest ⟨⟩ s' := rfl

@[simp] theorem modify_bind (change : σ → σ) (s : σ) (rest : PUnit → Update α σ γ) :
    (modify change >>= rest) s = rest ⟨⟩ (change s) := rfl

@[simp] theorem ofOutcome_ok_bind (result : β) (rest : β → Update α σ γ) (s : σ) :
    (ofOutcome (.ok result) >>= rest) s = rest result s := rfl

theorem forM_eq {entries : List γ} {update : γ → Update α σ Unit} (next : σ → γ → σ)
    (invariant : σ → Prop)
    (each : ∀ entry ∈ entries, ∀ s, invariant s →
      update entry s = .ok () (next s entry) ∧ invariant (next s entry))
    {s : σ} (initial : invariant s) :
    (entries.forM update : Update α σ Unit) s = .ok () (entries.foldl next s) ∧
      invariant (entries.foldl next s) := by
  induction entries generalizing s with
  | nil => exact ⟨rfl, initial⟩
  | cons entry rest ih =>
      obtain ⟨updated, kept⟩ := each entry (by simp) s initial
      obtain ⟨looped, last⟩ := ih (fun other member => each other (by simp [member])) kept
      exact ⟨(bind_of_ok updated).trans looped, last⟩

end Update

open Update

variable {α : Type} [Scalar α]

namespace RowMatrix

def eliminateRow (eta : Vec α) (position i : ℕ) : Update α (RowMatrix α) Unit := do
  if i ≠ position then
    let factor ← ofOutcome (demand eta[i]?)
    unless factor == 0 do
      set (← ofOutcome (demand ((← get).addRowMultiple? position i factor)))

def eliminate (eta : Vec α) (position : ℕ) : Update α (RowMatrix α) Unit := do
  (List.range (← get).height).forM (eliminateRow eta position)
  let factor ← ofOutcome (demand eta[position]?)
  set (← ofOutcome (demand ((← get).scaleRow? position factor)))

def withRowEliminated (eta : Vec α) (position : ℕ) (a : RowMatrix α) (i : ℕ) : RowMatrix α :=
  if i = position || eta.getD i 0 == 0 then a else a.addRowMultiple position i (eta.getD i 0)

theorem eliminateRow_eq {a : RowMatrix α} {eta : Vec α} {position i : ℕ}
    (inside : position < a.height) (below : i < a.height) (length : a.height ≤ eta.length) :
    eliminateRow eta position i a = .ok () (withRowEliminated eta position a i) := by
  have present : eta[i]? = some (eta.getD i 0) := by simp [below.trans_le length]
  unfold eliminateRow withRowEliminated
  by_cases pivot : i = position
  · rw [if_neg (not_not.2 pivot), if_pos (by simp [pivot])]
    rfl
  · rw [if_pos pivot, present, demand_some, ofOutcome_ok_bind]
    by_cases zero : (eta.getD i 0 == 0) = true
    · rw [if_pos zero, if_pos (by simp only [zero, Bool.or_true])]
      rfl
    · have fits : a.addRowMultiple? position i (eta.getD i 0) =
          some (a.addRowMultiple position i (eta.getD i 0)) :=
        if_pos ⟨inside, below, Ne.symm pivot⟩
      rw [if_neg zero, if_neg (by simp only [pivot, zero, decide_false, Bool.or_self,
        Bool.false_eq_true, not_false_iff]), get_bind, fits]
      rfl

@[simp] theorem height_withRowEliminated (a : RowMatrix α) (eta : Vec α) (position i : ℕ) :
    (withRowEliminated eta position a i).height = a.height := by
  unfold withRowEliminated
  split
  · rfl
  · simp [height, addRowMultiple]

theorem withRowEliminated_rows {a b : RowMatrix α} {eta : Vec α} {position i : ℕ}
    (same : b.rows[i]? = a.rows[i]?) (pivot : b.row position = a.row position) (k : ℕ) :
    (withRowEliminated eta position b i).rows[k]? =
      if k = i then (a.addRowMultiples position eta).rows[k]? else b.rows[k]? := by
  unfold withRowEliminated
  by_cases here : k = i
  · subst here
    rw [if_pos rfl]
    simp only [addRowMultiples, List.getElem?_mapIdx]
    split
    · cases present : a.rows[k]? <;> simp [same, present]
    · simp only [addRowMultiple, List.getElem?_modify_eq, same, pivot]
      cases present : a.rows[k]? <;> simp
  · rw [if_neg here]
    split
    · rfl
    · exact List.getElem?_modify_ne _ _ (Ne.symm here)

theorem foldl_withRowEliminated (a : RowMatrix α) (eta : Vec α) (position count : ℕ) :
    let b := (List.range count).foldl (withRowEliminated eta position) a
    b.width = a.width ∧ ∀ k, b.rows[k]? =
      if k < count then (a.addRowMultiples position eta).rows[k]? else a.rows[k]? := by
  induction count with
  | zero => simp
  | succ count ih =>
      obtain ⟨width, rows⟩ := ih
      simp only [List.range_succ, List.foldl_append, List.foldl_cons, List.foldl_nil]
      generalize (List.range count).foldl (withRowEliminated eta position) a = b at width rows
      have kept : (a.addRowMultiples position eta).rows[position]? = a.rows[position]? := by
        simp [addRowMultiples, List.getElem?_mapIdx]
      have pivot : b.row position = a.row position := by
        simp [RowMatrix.row, rows, kept, width]
      refine ⟨?_, fun k => ?_⟩
      · unfold withRowEliminated
        split
        · exact width
        · exact width
      · rw [withRowEliminated_rows (by simp [rows]) pivot, rows]
        grind

theorem foldl_withRowEliminated_eq (a : RowMatrix α) (eta : Vec α) (position : ℕ) :
    (List.range a.height).foldl (withRowEliminated eta position) a =
      a.addRowMultiples position eta := by
  obtain ⟨width, rows⟩ := foldl_withRowEliminated a eta position a.height
  refine eq_of_rows_eq (List.ext_getElem? fun k => ?_) width
  rw [rows, ite_eq_left_iff]
  intro past
  have outside : a.rows.length ≤ k := not_lt.1 past
  rw [List.getElem?_eq_none outside, List.getElem?_eq_none (by simpa [addRowMultiples])]

theorem eliminate_eq {a : RowMatrix α} {eta : Vec α} {position : ℕ} (inside : position < a.height)
    (length : a.height ≤ eta.length) :
    eliminate eta position a = .ok () (a.eliminateWith eta position) := by
  have present : eta[position]? = some (eta.getD position 0) := by simp [inside.trans_le length]
  have looped : ((List.range a.height).forM (eliminateRow eta position) :
      Update α (RowMatrix α) Unit) a = .ok () (a.addRowMultiples position eta) := by
    refine (forM_eq (withRowEliminated eta position) (fun b => b.height = a.height) ?_ rfl).1.trans ?_
    · intro i member b height
      have row := (List.mem_range.1 member).trans_eq height.symm
      exact ⟨eliminateRow_eq (inside.trans_eq height.symm) row (height.le.trans length),
        (height_withRowEliminated b eta position i).trans height⟩
    · rw [foldl_withRowEliminated_eq]
  have fits : (a.addRowMultiples position eta).scaleRow? position (eta.getD position 0) =
      some (a.eliminateWith eta position) := if_pos (by simpa using inside)
  rw [eliminate, get_bind, bind_of_ok looped, present, demand_some, ofOutcome_ok_bind, get_bind,
    fits]
  rfl

end RowMatrix

namespace BasisInverse

def overwrite (position : ℕ) (entering column : Vec α) : Update α (BasisInverse α) Unit := do
  match ← get with
  | productForm _ =>
    let eta ← ofOutcome (eliminationColumn column position)
    within inverse (fun _ changed => productForm changed) (RowMatrix.eliminate eta position)
  | reinversion basisMatrix _ =>
    let changed ← ofOutcome (demand (basisMatrix.withColumn? position entering))
    let inverse ← ofOutcome changed.invert
    set (reinversion basisMatrix inverse)
    set (reinversion changed inverse)

theorem Shaped.overwrite_eq {b : BasisInverse α} {size position : ℕ} {entering column : Vec α}
    (shaped : b.Shaped size) (inside : position < size) (lengthEntering : entering.length = size)
    (lengthColumn : column.length = size) :
    overwrite position entering column b = commit (b.exchange position entering column) b := by
  cases b with
  | productForm left =>
      have height : left.height = size := shaped.height
      simp only [overwrite, get_bind, exchange]
      cases computed : eliminationColumn column position with
      | error fault => rfl
      | ok eta =>
          have row : position < left.height := inside.trans_eq height.symm
          have length : eta.length = left.height :=
            (length_of_eliminationColumn computed).trans (lengthColumn.trans height.symm)
          rw [ofOutcome_ok_bind, ok_bind, RowMatrix.eliminateWith?_eq row length, demand_some,
            ok_bind, within]
          simp only [inverse, RowMatrix.eliminate_eq row length.ge]
          rfl
  | reinversion basisMatrix left =>
      obtain ⟨height, width⟩ := shaped.stored basisMatrix left rfl
      have fits : basisMatrix.withColumn? position entering =
          some (basisMatrix.withColumn position entering) :=
        if_pos ⟨inside.trans_eq width.symm, lengthEntering.trans height.symm⟩
      simp only [overwrite, get_bind, exchange, fits, demand_some, ofOutcome_ok_bind, ok_bind]
      cases (basisMatrix.withColumn position entering).invert with
      | error fault => rfl
      | ok inverse => rfl

end BasisInverse

namespace Tableau

def overwriteValue (t : Tableau α) (row : ℕ) (column : Vec α) (step : α) (basic : ℕ × ℕ) :
    Update α (Vec α) Unit := do
  if basic.2 ≠ row then
    let value ← ofOutcome (demand (← get)[basic.1]?)
    let direction ← ofOutcome (demand column[basic.2]?)
    set ((← get).set basic.1 (t.clamp (value - step * direction)))

def overwriteValues (t : Tableau α) (entering row : ℕ) (column : Vec α) (step : α) :
    Update α (Vec α) Unit := do
  t.basis.zipIdx.forM (t.overwriteValue row column step)
  let leaving ← ofOutcome (demand t.basis[row]?)
  set (← ofOutcome (demand (Vec.set? (← get) leaving 0)))
  set (← ofOutcome (demand (Vec.set? (← get) entering step)))

def overwrite (entering row : ℕ) (column : Vec α) (step : α) : Update α (Tableau α) Unit := do
  let t ← get
  ofOutcome (require (entering < t.numVariables))
  ofOutcome (require (row < t.numEquations))
  ofOutcome (require (entering ∉ t.members))
  let replacing ← ofOutcome (demand (t.problem.column? entering))
  within inverse (fun t inverse => { t with inverse }) (BasisInverse.overwrite row replacing column)
  within values (fun t values => { t with values }) (t.overwriteValues entering row column step)
  let leaving ← ofOutcome (demand t.basis[row]?)
  modify fun t => { t with basis := t.basis.set row entering }
  ofOutcome (require (leaving ∈ (← get).members))
  modify fun t => { t with members := t.members.erase leaving }
  ofOutcome (require (entering ∉ (← get).members))
  modify fun t => { t with members := entering :: t.members }

variable {t : Tableau α} {entering row : ℕ} {column : Vec α} {step : α}

theorem Structured.overwriteValues_eq (structured : t.Structured)
    (fits : t.Fits entering row column) (step : α) :
    t.overwriteValues entering row column step t.values =
      .ok () (t.moveValues entering row column step) := by
  have lengthBasis := structured.length
  have lengthValues := structured.values.length_eq
  have inside : row < t.basis.length := fits.row_lt.trans_eq lengthBasis.symm
  have present : t.basis[row]? = some (t.basis.getD row 0) := by simp [inside]
  have below : t.basis.getD row 0 < t.numVariables :=
    structured.lt _ (List.mem_of_getElem? present)
  unfold overwriteValues moveValues
  generalize next_eq : (fun (values : Vec α) (basic : ℕ × ℕ) =>
    if basic.2 = row then values
    else values.set basic.1
      (t.clamp (values.getD basic.1 0 - step * column.getD basic.2 0))) = next
  have each (basic) (member : basic ∈ t.basis.zipIdx) (x : Vec α)
      (length : x.length = t.numVariables) :
      t.overwriteValue row column step basic x = .ok () (next x basic) ∧
        (next x basic).length = t.numVariables := by
    subst next_eq
    have readable : basic.1 < x.length := by
      rw [length]
      exact structured.lt _ (List.fst_mem_of_mem_zipIdx member)
    have covered : basic.2 < column.length := by
      rw [fits.length, ← lengthBasis]
      exact List.snd_lt_of_mem_zipIdx member
    unfold overwriteValue
    dsimp only
    by_cases pivot : basic.2 = row
    · rw [if_neg (not_not.2 pivot), if_pos pivot]
      exact ⟨rfl, length⟩
    · have value : x[basic.1]? = some (x.getD basic.1 0) := by simp [readable]
      have direction : column[basic.2]? = some (column.getD basic.2 0) := by simp [covered]
      rw [if_pos pivot, if_neg pivot, get_bind, value, demand_some, ofOutcome_ok_bind,
        direction, demand_some, ofOutcome_ok_bind]
      exact ⟨rfl, (List.length_set ..).trans length⟩
  obtain ⟨looped, length⟩ := forM_eq next (fun x => x.length = t.numVariables) each lengthValues
  have removed : Vec.set? (t.basis.zipIdx.foldl next t.values) (t.basis.getD row 0) 0 =
      some ((t.basis.zipIdx.foldl next t.values).set (t.basis.getD row 0) 0) :=
    if_pos (below.trans_eq length.symm)
  have entered : Vec.set? ((t.basis.zipIdx.foldl next t.values).set (t.basis.getD row 0) 0)
      entering step = some (((t.basis.zipIdx.foldl next t.values).set
        (t.basis.getD row 0) 0).set entering step) :=
    if_pos (by rw [List.length_set, length]; exact fits.entering_lt)
  rw [bind_of_ok looped, present, demand_some, ofOutcome_ok_bind, get_bind, removed, demand_some,
    ofOutcome_ok_bind, set_bind, get_bind, entered]
  rfl

theorem overwrite_of_broken_contract
    (broken : ¬(entering < t.numVariables ∧ row < t.numEquations ∧ entering ∉ t.members)) :
    overwrite entering row column step t = .error .requirement t := by
  rw [overwrite, get_bind]
  by_cases bound : entering < t.numVariables
  · rw [require_of bound, ofOutcome_ok_bind]
    by_cases inside : row < t.numEquations
    · have present : ¬entering ∉ t.members := fun fresh => broken ⟨bound, inside, fresh⟩
      rw [require_of inside, ofOutcome_ok_bind, require, if_neg present]
      rfl
    · rw [require, if_neg inside]
      rfl
  · rw [require, if_neg bound]
    rfl

theorem Structured.overwrite_eq (structured : t.Structured)
    (length : column.length = t.numEquations) (entering row : ℕ) (step : α) :
    overwrite entering row column step t = commit (t.exchange entering row column step) t := by
  by_cases legal : entering < t.numVariables ∧ row < t.numEquations ∧ entering ∉ t.members
  swap
  · rw [exchange_of_broken_contract legal, overwrite_of_broken_contract legal]
    rfl
  obtain ⟨bound, inside, fresh⟩ := legal
  have outside : entering ∉ t.basis := fun old => fresh ((structured.mem_members _).2 old)
  have fits : t.Fits entering row column := ⟨bound, outside, inside, length⟩
  have found := LinearProgram.column?_eq bound
  have inverseWritten := structured.shaped.overwrite_eq inside
    (RowMatrix.length_column t.problem.constraints entering) length
  rw [overwrite, get_bind, require_of bound, ofOutcome_ok_bind, require_of inside,
    ofOutcome_ok_bind, require_of fresh, ofOutcome_ok_bind, found, demand_some, ofOutcome_ok_bind]
  cases exchanged : t.exchange entering row column step with
  | error fault =>
      rw [((structured.exchange_yields fits step).of_eq_error exchanged).2] at inverseWritten
      exact bind_of_error (within_of_error inverseWritten)
  | ok next =>
      obtain @⟨inverse, leaving, -, -, -, followed, -, present, member⟩ :=
        exchange_eq_ok_iff.1 exchanged
      rw [followed] at inverseWritten
      have valuesWritten : within Tableau.values (fun t values => { t with values })
          (t.overwriteValues entering row column step) { t with inverse } =
          .ok () { t with inverse, values := t.moveValues entering row column step } := by
        apply within_of_ok
        exact structured.overwriteValues_eq fits step
      have gone : entering ∉ t.members.erase leaving :=
        fun old => fresh (List.mem_of_mem_erase old)
      refine (bind_of_ok (within_of_ok inverseWritten)).trans ?_
      refine (bind_of_ok valuesWritten).trans ?_
      rw [present, demand_some, ofOutcome_ok_bind, modify_bind, get_bind, require_of member,
        ofOutcome_ok_bind, modify_bind, get_bind, require_of gone, ofOutcome_ok_bind]
      rfl

end Tableau

end SimplexMethod
