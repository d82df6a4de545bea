import SimplexMethod.Proofs.Exact
import SimplexMethod.Selection

namespace SimplexMethod

/-- Any two scalars compare.  Those that compare equal may differ, as zeros of two signs do. -/
class Scalar.TotalOrder (α : Type) [Scalar α] : Prop where
  le_total (x y : α) : x ≤ y ∨ y ≤ x
  le_trans {x y z : α} : x ≤ y → y ≤ z → x ≤ z
  lt_iff_not_le {x y : α} : x < y ↔ ¬y ≤ x

instance : Scalar.TotalOrder ℚ where
  le_total x y := le_total x y
  le_trans := le_trans
  lt_iff_not_le := not_le.symm

variable {α : Type} [Scalar α]

namespace Scalar.TotalOrder

variable [TotalOrder α] {x y z : α}

theorem not_lt : ¬x < y ↔ y ≤ x := by
  rw [lt_iff_not_le, not_not]

theorem le_of_lt (below : x < y) : x ≤ y :=
  (le_total x y).resolve_right (lt_iff_not_le.1 below)

theorem lt_of_lt_of_le (below : x < y) (upTo : y ≤ z) : x < z :=
  lt_iff_not_le.2 fun above => lt_iff_not_le.1 below (le_trans upTo above)

theorem lt_trans (below : x < y) (below' : y < z) : x < z :=
  lt_of_lt_of_le below (le_of_lt below')

end Scalar.TotalOrder

open Scalar.TotalOrder (not_lt le_of_lt lt_of_lt_of_le lt_trans)

theorem firstLeast?_mem {candidates : List (ℕ × α)} {least : ℕ × α}
    (found : firstLeast? candidates = some least) : least ∈ candidates := by
  suffices kept : ∀ chosen, firstLeast? candidates = some chosen → chosen ∈ candidates from
    kept least found
  apply List.foldlRecOn (motive := fun best : Option (ℕ × α) =>
    ∀ chosen, best = some chosen → chosen ∈ candidates)
  · nofun
  · intro best inside candidate member chosen same
    cases best with
    | none =>
        cases same
        exact member
    | some least =>
        simp only at same
        split at same
        · cases same
          exact member
        · exact inside chosen same

theorem firstLeast?_append (candidates : List (ℕ × α)) (last : ℕ × α) :
    firstLeast? (candidates ++ [last]) =
      match firstLeast? candidates with
      | none => some last
      | some least => if last.2 < least.2 then some last else some least := by
  rw [firstLeast?, List.foldl_append]
  change List.foldl _ (firstLeast? candidates) [last] = _
  cases firstLeast? candidates <;> rfl

theorem firstLeast?_eq_none_iff {candidates : List (ℕ × α)} :
    firstLeast? candidates = none ↔ candidates = [] := by
  induction candidates using List.reverseRecOn with
  | nil => simp [firstLeast?]
  | append_singleton rest last _ =>
      rw [firstLeast?_append]
      cases firstLeast? rest with
      | none => simp
      | some least =>
          simp only
          split <;> simp

variable [Scalar.TotalOrder α]

theorem firstLeast?_eq_some {candidates : List (ℕ × α)} {least : ℕ × α}
    (found : firstLeast? candidates = some least) :
    ∃ before after, candidates = before ++ least :: after ∧
      (∀ earlier ∈ before, least.2 < earlier.2) ∧ ∀ later ∈ after, least.2 ≤ later.2 := by
  induction candidates using List.reverseRecOn generalizing least with
  | nil => simp [firstLeast?] at found
  | append_singleton rest last ih =>
      rw [firstLeast?_append] at found
      cases chosen : firstLeast? rest with
      | none =>
          rw [chosen] at found
          cases found
          rw [firstLeast?_eq_none_iff.1 chosen]
          exact ⟨[], [], by simp⟩
      | some previous =>
          obtain ⟨before, after, rfl, smaller, least'⟩ := ih chosen
          rw [chosen] at found
          simp only at found
          split at found
          · rename_i below
            cases found
            refine ⟨before ++ previous :: after, [], by simp, ?_, by simp⟩
            intro earlier member
            rcases List.mem_append.1 member with old | rest
            · exact lt_trans below (smaller earlier old)
            · rcases List.mem_cons.1 rest with rfl | late
              · exact below
              · exact lt_of_lt_of_le below (least' earlier late)
          · rename_i above
            cases found
            refine ⟨before, after ++ [last], by simp, smaller, ?_⟩
            intro later member
            rcases List.mem_append.1 member with old | new
            · exact least' later old
            · rw [List.mem_singleton.1 new]
              exact not_lt.1 above

theorem firstLeast?_le {candidates : List (ℕ × α)} {least : ℕ × α}
    (found : firstLeast? candidates = some least) {other : ℕ × α} (member : other ∈ candidates) :
    least.2 ≤ other.2 := by
  obtain ⟨before, after, rfl, smaller, least'⟩ := firstLeast?_eq_some found
  rcases List.mem_append.1 member with early | rest
  · exact le_of_lt (smaller other early)
  · rcases List.mem_cons.1 rest with rfl | late
    · exact (Scalar.TotalOrder.le_total _ _).elim id id
    · exact least' other late

theorem firstLeast?_lt {candidates : List (ℕ × α)} {least : ℕ × α}
    (found : firstLeast? candidates = some least)
    (sorted : candidates.Pairwise fun earlier later => earlier.1 < later.1) {other : ℕ × α}
    (member : other ∈ candidates) (before : other.1 < least.1) : least.2 < other.2 := by
  obtain ⟨early, late, rfl, smaller, -⟩ := firstLeast?_eq_some found
  rcases List.mem_append.1 member with inside | rest
  · exact smaller other inside
  · rcases List.mem_cons.1 rest with rfl | inside
    · exact absurd before (lt_irrefl _)
    · have order := (List.pairwise_cons.1 (List.pairwise_append.1 sorted).2.1).1 other inside
      exact absurd before order.not_gt

end SimplexMethod
