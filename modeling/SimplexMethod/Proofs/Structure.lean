import SimplexMethod.Proofs.Shapes
import SimplexMethod.Tableau

namespace SimplexMethod

open Outcome

variable {α : Type} [Scalar α]

theorem mem_set_iff {basis : List ℕ} (nodup : basis.Nodup) {row leaving entering : ℕ}
    (present : basis[row]? = some leaving) (outside : entering ∉ basis) (j : ℕ) :
    j ∈ basis.set row entering ↔ j = entering ∨ j ≠ leaving ∧ j ∈ basis := by
  obtain ⟨inside, rfl⟩ := List.getElem?_eq_some_iff.1 present
  constructor
  · intro member
    obtain ⟨k, bound, rfl⟩ := List.mem_iff_getElem.1 member
    rw [List.length_set] at bound
    rw [List.getElem_set]
    split
    · exact Or.inl rfl
    · rename_i other
      exact Or.inr ⟨fun same => other ((List.Nodup.getElem_inj_iff nodup).1 same).symm,
        List.getElem_mem bound⟩
  · intro either
    obtain rfl | ⟨other, member⟩ := either
    · exact List.mem_set inside _
    · obtain ⟨k, bound, rfl⟩ := List.mem_iff_getElem.1 member
      have away : row ≠ k := by
        rintro rfl
        exact other rfl
      exact List.mem_iff_getElem.2 ⟨k, by simpa using bound, by simp [away]⟩

theorem eraseDups_of_nodup {basis : List ℕ} (nodup : basis.Nodup) : basis.eraseDups = basis := by
  induction basis with
  | nil => rfl
  | cons j rest ih =>
      rw [List.nodup_cons] at nodup
      have kept : (rest.filter fun k => !k == j) = rest := by
        apply List.filter_eq_self.2
        intro k member
        have other : k ≠ j := fun same => nodup.1 (same ▸ member)
        simpa using other
      rw [List.eraseDups_cons, kept, ih nodup.2]

namespace Vec

structure VanishesOutside (x : Vec α) (positions : List ℕ) (length : ℕ) : Prop where
  length_eq : x.length = length
  zero : ∀ j < length, j ∉ positions → x[j]? = some 0

theorem VanishesOutside.take {x : Vec α} {positions : List ℕ} {length bound : ℕ}
    (vanishes : x.VanishesOutside positions length) (le : bound ≤ length) :
    VanishesOutside (x.take bound) positions bound := by
  refine ⟨by rw [List.length_take, vanishes.length_eq, min_eq_left le], fun j inside outside => ?_⟩
  rw [List.getElem?_take_of_lt inside]
  exact vanishes.zero j (inside.trans_le le) outside

theorem scatter_vanishesOutside (length : ℕ) (support : List ℕ) (values : Vec α) :
    (scatter length support values).VanishesOutside support length := by
  have written (j : ℕ) (outside : j ∉ support) :
      (scatter length support values).length = length ∧
        (scatter length support values)[j]? = (zeros length : Vec α)[j]? := by
    apply List.foldlRecOn (motive := fun x : Vec α =>
      x.length = length ∧ x[j]? = (zeros length : Vec α)[j]?)
    · exact ⟨List.length_replicate, rfl⟩
    · intro x given entry member
      have away : entry.1 ≠ j := fun same => outside (same ▸ (List.of_mem_zip member).1)
      rwa [List.length_set, List.getElem?_set_ne away]
  refine ⟨?_, fun j inside outside => ?_⟩
  · exact List.foldlRecOn (motive := fun x : Vec α => x.length = length) _ _
      List.length_replicate fun x same entry _ => by rwa [List.length_set]
  · rw [(written j outside).2]
    simp [zeros, inside]

end Vec

namespace LinearProgram

theorem firstRepeated?_eq_none_iff {seen basis : List ℕ} :
    firstRepeated? seen basis = none ↔ basis.Nodup ∧ ∀ j ∈ basis, j ∉ seen := by
  induction basis generalizing seen with
  | nil => simp [firstRepeated?]
  | cons j rest ih =>
      rw [firstRepeated?]
      split
      · simp_all
      · rw [ih, List.nodup_cons]
        grind

omit [Scalar α] in
theorem checkBasis_ok_iff {p : LinearProgram α} {basis : List ℕ} :
    p.checkBasis basis = .ok () ↔
      basis.length = p.numEquations ∧ (∀ j ∈ basis, j < p.numVariables) ∧ basis.Nodup := by
  unfold checkBasis
  split
  · rename_i length
    exact iff_of_false nofun fun accepted => length accepted.1
  · rename_i length
    split
    · rename_i j found
      have outside := List.find?_some found
      refine iff_of_false nofun fun accepted => ?_
      have below := accepted.2.1 j (List.mem_of_find?_eq_some found)
      simp at outside
      omega
    · rename_i range
      split
      · rename_i j repeated
        refine iff_of_false nofun fun accepted => ?_
        rw [firstRepeated?_eq_none_iff.2 ⟨accepted.2.2, by simp⟩] at repeated
        cases repeated
      · rename_i fresh
        refine iff_of_true rfl ⟨not_not.1 length, fun j member => ?_,
          (firstRepeated?_eq_none_iff.1 fresh).1⟩
        simpa using List.find?_eq_none.1 range j member

omit [Scalar α] in
theorem checkBasis_yields (p : LinearProgram α) (basis : List ℕ) :
    (p.checkBasis basis).Yields (fun _ => p.checkBasis basis = .ok ())
      (fun fault => ∃ defect, fault = .failed (.invalidBasis defect)) := by
  cases outcome : p.checkBasis basis with
  | ok => rfl
  | error fault =>
      rw [yields_error]
      unfold checkBasis at outcome
      split at outcome
      · exact ⟨_, (Except.error.inj outcome).symm⟩
      · split at outcome
        · exact ⟨_, (Except.error.inj outcome).symm⟩
        · split at outcome
          · exact ⟨_, (Except.error.inj outcome).symm⟩
          · cases outcome

theorem column?_eq {p : LinearProgram α} {j : ℕ} (inside : j < p.numVariables) :
    p.column? j = some (p.constraints.column j) := if_pos inside

theorem column?_eq_some_iff {p : LinearProgram α} {j : ℕ} {column : Vec α} :
    p.column? j = some column ↔ j < p.numVariables ∧ p.constraints.column j = column := by
  simp [column?, RowMatrix.column?, numVariables]

end LinearProgram

namespace Tableau

structure Structured (t : Tableau α) : Prop where
  checked : t.problem.checkBasis t.basis = .ok ()
  members_nodup : t.members.Nodup
  mem_members : ∀ j, j ∈ t.members ↔ j ∈ t.basis
  values : t.values.VanishesOutside t.basis t.numVariables
  shaped : t.inverse.Shaped t.numEquations

structure Fits (t : Tableau α) (entering row : ℕ) (column : Vec α) : Prop where
  entering_lt : entering < t.numVariables
  outside : entering ∉ t.basis
  row_lt : row < t.numEquations
  length : column.length = t.numEquations

variable {t next : Tableau α} {entering row : ℕ} {column : Vec α} {step : α}

namespace Structured

theorem length (structured : t.Structured) : t.basis.length = t.numEquations :=
  (LinearProgram.checkBasis_ok_iff.1 structured.checked).1

theorem lt (structured : t.Structured) : ∀ j ∈ t.basis, j < t.numVariables :=
  (LinearProgram.checkBasis_ok_iff.1 structured.checked).2.1

theorem nodup (structured : t.Structured) : t.basis.Nodup :=
  (LinearProgram.checkBasis_ok_iff.1 structured.checked).2.2

end Structured

theorem startWith_structured {p : LinearProgram α} {inverse : BasisInverse α} {basis : List ℕ}
    {tolerance : α} (checked : p.checkBasis basis = .ok ()) (shaped : inverse.Shaped p.numEquations)
    (started : startWith p inverse basis tolerance = .ok t) :
    t.Structured ∧ t.problem = p ∧ t.inverse = inverse ∧ t.basis = basis ∧
      t.tolerance = tolerance := by
  obtain ⟨-, -, nodup⟩ := LinearProgram.checkBasis_ok_iff.1 checked
  simp only [startWith, bind_eq_ok_iff] at started
  obtain ⟨_, -, _, -, basicValues, -, values, scattered, same⟩ := started
  rw [Vec.scatter?] at scattered
  split at scattered
  · cases scattered
    cases same
    rw [eraseDups_of_nodup nodup]
    exact ⟨⟨checked, nodup, fun _ => Iff.rfl, Vec.scatter_vanishesOutside _ _ _, shaped⟩,
      rfl, rfl, rfl, rfl⟩
  · cases scattered

theorem start_structured {upkeep : Upkeep} {p : LinearProgram α} {basis : List ℕ} {tolerance : α}
    (started : start upkeep p basis tolerance = .ok t) :
    t.Structured ∧ t.problem = p ∧ BasisInverse.ofBasis upkeep p basis = .ok t.inverse ∧
      t.inverse.upkeep = upkeep ∧ t.basis = basis ∧ t.tolerance = tolerance := by
  simp only [start, bind_eq_ok_iff] at started
  obtain ⟨_, checked, inverse, inverted, started⟩ := started
  obtain ⟨length, below, -⟩ := LinearProgram.checkBasis_ok_iff.1 checked
  obtain ⟨shaped, upkeep_eq⟩ :=
    (BasisInverse.ofBasis_yields_shaped upkeep length below).of_eq_ok inverted
  obtain ⟨structured, problem_eq, rfl, basis_eq, tolerance_eq⟩ :=
    startWith_structured checked shaped started
  exact ⟨structured, problem_eq, inverted, upkeep_eq, basis_eq, tolerance_eq⟩

inductive ExchangesTo (t : Tableau α) (entering row : ℕ) (column : Vec α) (step : α) :
    Tableau α → Prop
  | intro {inverse : BasisInverse α} {leaving : ℕ} (row_lt : row < t.numEquations)
      (fresh : entering ∉ t.members) (entering_lt : entering < t.numVariables)
      (followed : t.inverse.exchange row (t.problem.constraints.column entering) column =
        .ok inverse)
      (covers : ∀ i < t.numEquations, i ≠ row → i < column.length)
      (present : t.basis[row]? = some leaving) (member : leaving ∈ t.members) :
      ExchangesTo t entering row column step
        { t with
          inverse
          basis := t.basis.set row entering
          members := entering :: t.members.erase leaving
          values := t.moveValues entering row column step }

theorem exchange_of_contract {leaving : ℕ} (row_lt : row < t.numEquations)
    (fresh : entering ∉ t.members) (entering_lt : entering < t.numVariables)
    (covers : ∀ i < t.numEquations, i ≠ row → i < column.length)
    (present : t.basis[row]? = some leaving) (member : leaving ∈ t.members) :
    t.exchange entering row column step = (do
      let inverse ← t.inverse.exchange row (t.problem.constraints.column entering) column
      return { t with
        inverse
        basis := t.basis.set row entering
        members := entering :: t.members.erase leaving
        values := t.moveValues entering row column step }) := by
  rw [exchange, require_of row_lt, ok_bind, require_of fresh, ok_bind,
    LinearProgram.column?_eq entering_lt, demand_some, ok_bind]
  cases t.inverse.exchange row (t.problem.constraints.column entering) column with
  | error fault => rfl
  | ok inverse =>
      rw [ok_bind, ok_bind, require_of covers, ok_bind, present, demand_some, ok_bind,
        require_of member, ok_bind]

theorem exchange_eq_ok_iff : t.exchange entering row column step = .ok next ↔
    t.ExchangesTo entering row column step next := by
  constructor
  · intro exchanged
    simp only [exchange, bind_eq_ok_iff] at exchanged
    obtain ⟨_, inside, _, fresh, replacing, found, inverse, followed, _, covers, leaving, present,
      _, member, same⟩ := exchanged
    cases same
    obtain ⟨bound, rfl⟩ := LinearProgram.column?_eq_some_iff.1 (demand_eq_ok_iff.1 found)
    exact .intro (require_eq_ok_iff.1 inside) (require_eq_ok_iff.1 fresh) bound followed
      (require_eq_ok_iff.1 covers) (demand_eq_ok_iff.1 present) (require_eq_ok_iff.1 member)
  · rintro ⟨inside, fresh, bound, followed, covers, present, member⟩
    rw [exchange_of_contract inside fresh bound covers present member, followed]
    rfl

structure Succeeds (t : Tableau α) (entering row : ℕ) (next : Tableau α) : Prop where
  structured : next.Structured
  problem_eq : next.problem = t.problem
  tolerance_eq : next.tolerance = t.tolerance
  basis_eq : next.basis = t.basis.set row entering
  upkeep_eq : next.inverse.upkeep = t.inverse.upkeep

structure Continues (t next : Tableau α) : Prop where
  structured : next.Structured
  problem_eq : next.problem = t.problem
  tolerance_eq : next.tolerance = t.tolerance
  upkeep_eq : next.inverse.upkeep = t.inverse.upkeep

theorem Structured.continues (structured : t.Structured) : t.Continues t :=
  ⟨structured, rfl, rfl, rfl⟩

theorem Succeeds.continues (success : t.Succeeds entering row next) : t.Continues next :=
  ⟨success.structured, success.problem_eq, success.tolerance_eq, success.upkeep_eq⟩

theorem Continues.trans {last : Tableau α} (first : t.Continues next) (second : next.Continues last) :
    t.Continues last :=
  ⟨second.structured, second.problem_eq.trans first.problem_eq,
    second.tolerance_eq.trans first.tolerance_eq, second.upkeep_eq.trans first.upkeep_eq⟩

theorem exchange_of_broken_contract
    (broken : ¬(entering < t.numVariables ∧ row < t.numEquations ∧ entering ∉ t.members)) :
    t.exchange entering row column step = .error .requirement := by
  rw [exchange]
  by_cases inside : row < t.numEquations
  · rw [require_of inside, ok_bind]
    by_cases fresh : entering ∉ t.members
    · have missing : t.problem.column? entering = none :=
        if_neg fun bound => broken ⟨bound, inside, fresh⟩
      rw [require_of fresh, ok_bind, missing]
      rfl
    · rw [require, if_neg fresh]
      rfl
  · rw [require, if_neg inside]
    rfl

namespace Structured

theorem moveValues_vanishesOutside (structured : t.Structured) {leaving : ℕ}
    (present : t.basis[row]? = some leaving) (outside : entering ∉ t.basis) (column : Vec α)
    (step : α) :
    (t.moveValues entering row column step).VanishesOutside (t.basis.set row entering)
      t.numVariables := by
  have removed : t.basis.getD row 0 = leaving := by simp [List.getD_eq_getElem?_getD, present]
  unfold moveValues
  rw [removed]
  -- Only positions of the old basis are written before the last two.
  generalize moved_eq : t.basis.zipIdx.foldl _ t.values = moved
  have moves : moved.length = t.values.length ∧ ∀ j ∉ t.basis, moved[j]? = t.values[j]? := by
    subst moved_eq
    apply List.foldlRecOn (motive := fun x : Vec α =>
      x.length = t.values.length ∧ ∀ j ∉ t.basis, x[j]? = t.values[j]?)
    · exact ⟨rfl, fun _ _ => rfl⟩
    · intro x given basic member
      split
      · exact given
      · refine ⟨by rw [List.length_set, given.1], fun j away => ?_⟩
        have other : basic.1 ≠ j := fun same => away (same ▸ List.fst_mem_of_mem_zipIdx member)
        rw [List.getElem?_set_ne other, given.2 j away]
  obtain ⟨sameLength, others⟩ := moves
  refine ⟨by rw [List.length_set, List.length_set, sameLength, structured.values.length_eq], ?_⟩
  intro j inside away
  rw [mem_set_iff structured.nodup present outside] at away
  obtain ⟨other, gone⟩ := not_or.1 away
  rw [List.getElem?_set_ne (Ne.symm other)]
  by_cases same : leaving = j
  · have below : j < moved.length := by rwa [sameLength, structured.values.length_eq]
    rw [same, List.getElem?_set_self below]
  · have absent : j ∉ t.basis := fun member => gone ⟨Ne.symm same, member⟩
    rw [List.getElem?_set_ne same, others j absent, structured.values.zero j inside absent]

theorem of_exchange (structured : t.Structured) (length : column.length = t.numEquations)
    (exchanged : t.exchange entering row column step = .ok next) :
    t.Succeeds entering row next := by
  obtain ⟨inside, fresh, bound, followed, -, present, member⟩ := exchange_eq_ok_iff.1 exchanged
  have outside : entering ∉ t.basis := fun old => fresh ((structured.mem_members _).2 old)
  have shaped := (structured.shaped.exchange_yields inside
    (RowMatrix.length_column t.problem.constraints entering) length).of_eq_ok followed
  refine ⟨⟨?_, ?_, fun j => ?_, ?_, shaped.1⟩, rfl, rfl, rfl, shaped.2⟩
  · refine LinearProgram.checkBasis_ok_iff.2 ⟨?_, fun j old => ?_, structured.nodup.set outside⟩
    · rw [List.length_set]
      exact structured.length
    · rcases List.mem_or_eq_of_mem_set old with old | rfl
      · exact structured.lt j old
      · exact bound
  · exact List.nodup_cons.2
      ⟨fun old => fresh (List.mem_of_mem_erase old), structured.members_nodup.erase _⟩
  · rw [mem_set_iff structured.nodup present outside, List.mem_cons,
      structured.members_nodup.mem_erase_iff, structured.mem_members]
  · exact structured.moveValues_vanishesOutside present outside column step

theorem exchange_yields (structured : t.Structured) (fits : t.Fits entering row column)
    (step : α) :
    (t.exchange entering row column step).Yields (t.Succeeds entering row)
      (fun fault => fault = .failed .singularMatrix ∧
        t.inverse.exchange row (t.problem.constraints.column entering) column = .error fault) := by
  have fresh : entering ∉ t.members := fun old => fits.outside ((structured.mem_members _).1 old)
  have inside : row < t.basis.length := fits.row_lt.trans_eq structured.length.symm
  have present := List.getElem?_eq_getElem inside
  have member := (structured.mem_members _).2 (List.getElem_mem inside)
  have covers : ∀ i < t.numEquations, i ≠ row → i < column.length :=
    fun i below _ => below.trans_eq fits.length.symm
  have exchanges : t.exchange entering row column step = _ :=
    exchange_of_contract fits.row_lt fresh fits.entering_lt covers present member
  cases followed : t.inverse.exchange row (t.problem.constraints.column entering) column with
  | ok inverse =>
      rw [followed, ok_bind, pure_eq_ok] at exchanges
      rw [exchanges]
      exact structured.of_exchange fits.length exchanges
  | error fault =>
      rw [exchanges, followed]
      exact ⟨(structured.shaped.exchange_yields fits.row_lt
        (RowMatrix.length_column t.problem.constraints entering) fits.length).of_eq_error followed,
        rfl⟩

theorem exchange_yields_of_length (structured : t.Structured)
    (length : column.length = t.numEquations) (entering row : ℕ) (step : α) :
    (t.exchange entering row column step).Yields (t.Succeeds entering row)
      (fun fault => fault = .requirement ∨ fault = .failed .singularMatrix ∧
        t.inverse.exchange row (t.problem.constraints.column entering) column = .error fault) := by
  by_cases legal : entering < t.numVariables ∧ row < t.numEquations ∧ entering ∉ t.members
  · obtain ⟨bound, inside, fresh⟩ := legal
    have outside : entering ∉ t.basis := fun old => fresh ((structured.mem_members _).2 old)
    exact (structured.exchange_yields ⟨bound, outside, inside, length⟩ step).mono_fault
      fun _ refused => Or.inr refused
  · rw [exchange_of_broken_contract legal]
    exact Or.inl rfl

end Structured

end Tableau

end SimplexMethod
