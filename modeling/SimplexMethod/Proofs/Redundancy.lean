import SimplexMethod.Proofs.Dictionary
import SimplexMethod.Proofs.Exact

namespace SimplexMethod
open Matrix

/-- The positions of redundant equations.  Each comes with a combination of equations that vanishes
and in which none of the other redundant ones takes part. -/
structure Redundant {m n : ℕ} (A : Matrix (Fin m) (Fin n) ℚ) (b : Fin m → ℚ)
    (rows : List ℕ) : Prop where
  selection : Vec.IsSelection rows m
  dependent : ∀ r : Fin m, (r : ℕ) ∈ rows → ∃ w : Fin m → ℚ, w r = 1 ∧
    (∀ k ≠ r, (k : ℕ) ∈ rows → w k = 0) ∧ w ᵥ* A = 0 ∧ w ⬝ᵥ b = 0
  independent : ∀ u : Fin m → ℚ, (∀ r : Fin m, (r : ℕ) ∈ rows → u r = 0) → u ᵥ* A = 0 → u = 0

namespace Redundant

variable {m n : ℕ} {A : Matrix (Fin m) (Fin n) ℚ} {b : Fin m → ℚ} {rows : List ℕ}

theorem residual_eq_zero (redundant : Redundant A b rows) {e : Fin m → ℚ}
    (others : ∀ k : Fin m, (k : ℕ) ∉ rows → e k = 0)
    (orthogonal : ∀ w : Fin m → ℚ, w ᵥ* A = 0 → w ⬝ᵥ b = 0 → w ⬝ᵥ e = 0) : e = 0 := by
  funext r
  by_cases inside : (r : ℕ) ∈ rows
  · obtain ⟨w, one, zero, vanishes, constant⟩ := redundant.dependent r inside
    calc e r = w ⬝ᵥ e := by
          rw [dotProduct, Finset.sum_eq_single r, one, one_mul]
          · intro k _ other
            by_cases member : (k : ℕ) ∈ rows
            · rw [zero k other member, zero_mul]
            · rw [others k member, mul_zero]
          · simp
      _ = 0 := orthogonal w vanishes constant
  · exact others r inside

theorem mulVec_eq (redundant : Redundant A b rows) {x : Fin n → ℚ}
    (others : ∀ k : Fin m, (k : ℕ) ∉ rows → (A *ᵥ x) k = b k) : A *ᵥ x = b := by
  rw [← sub_eq_zero]
  apply redundant.residual_eq_zero
  · intro k outside
    rw [Pi.sub_apply, others k outside, sub_self]
  · intro w vanishes constant
    rw [dotProduct_sub, dotProduct_mulVec, vanishes, zero_dotProduct, constant, sub_zero]

theorem mulVec_eq_zero (redundant : Redundant A b rows) {x : Fin n → ℚ}
    (others : ∀ k : Fin m, (k : ℕ) ∉ rows → (A *ᵥ x) k = 0) : A *ᵥ x = 0 := by
  apply redundant.residual_eq_zero others
  intro w vanishes _
  rw [dotProduct_mulVec, vanishes, zero_dotProduct]

theorem row_mem_span (redundant : Redundant A b rows) (r : Fin m) (inside : (r : ℕ) ∈ rows) :
    A.row r ∈ Submodule.span ℚ (A.row '' {k | (k : ℕ) ∉ rows}) := by
  obtain ⟨w, one, zero, vanishes, -⟩ := redundant.dependent r inside
  have combination : A.row r = -∑ k ∈ Finset.univ.erase r, w k • A.row k := by
    have total : ∑ k, w k • A.row k = 0 := by
      rw [← vanishes]
      exact (vecMul_eq_sum w A).symm
    rw [← Finset.add_sum_erase _ _ (Finset.mem_univ r), one, one_smul] at total
    exact eq_neg_of_add_eq_zero_left total
  rw [combination]
  apply Submodule.neg_mem
  apply Submodule.sum_mem
  intro k member
  by_cases other : (k : ℕ) ∈ rows
  · rw [zero k (Finset.ne_of_mem_erase member) other, zero_smul]
    exact Submodule.zero_mem _
  · exact Submodule.smul_mem _ _ (Submodule.subset_span ⟨k, other, rfl⟩)

section Kept

variable {m' : ℕ} {κ : Fin m' → Fin m}

theorem vecMul_spread (A : Matrix (Fin m) (Fin n) ℚ) (u : Fin m' → ℚ) :
    spread κ u ᵥ* A = u ᵥ* A.submatrix κ id := by
  funext j
  change spread κ u ⬝ᵥ A.col j = u ⬝ᵥ (A.col j ∘ κ)
  rw [dotProduct_comm, dotProduct_spread, dotProduct_comm]

theorem kept_independent (redundant : Redundant A b rows) (injective : Function.Injective κ)
    (range : ∀ k : Fin m, k ∈ Set.range κ ↔ (k : ℕ) ∉ rows) {u : Fin m' → ℚ}
    (vanishes : u ᵥ* A.submatrix κ id = 0) : u = 0 := by
  have zero : spread κ u = 0 := by
    apply redundant.independent
    · intro r inside
      exact spread_of_notMem (fun member => (range r).1 member inside) u
    · rw [vecMul_spread, vanishes]
  funext k
  rw [← spread_apply injective u k, zero]
  rfl

theorem rank_eq (redundant : Redundant A b rows) (injective : Function.Injective κ)
    (range : ∀ k : Fin m, k ∈ Set.range κ ↔ (k : ℕ) ∉ rows) : A.rank = m' := by
  have independent : LinearIndependent ℚ (A.submatrix κ id).row := by
    rw [Fintype.linearIndependent_iff]
    intro u vanishes i
    rw [redundant.kept_independent injective range ((vecMul_eq_sum _ _).trans vanishes)]
    rfl
  have spans : Submodule.span ℚ (Set.range A.row) =
      Submodule.span ℚ (Set.range (A.submatrix κ id).row) := by
    have image : Set.range (A.submatrix κ id).row = A.row '' {k | (k : ℕ) ∉ rows} := by
      have positions : {k : Fin m | (k : ℕ) ∉ rows} = Set.range κ :=
        Set.ext fun k => (range k).symm
      rw [positions]
      exact Set.range_comp A.row κ
    rw [image]
    apply le_antisymm
    · rw [Submodule.span_le]
      intro _ given
      obtain ⟨r, rfl⟩ := given
      by_cases inside : (r : ℕ) ∈ rows
      · exact redundant.row_mem_span r inside
      · exact Submodule.subset_span ⟨r, inside, rfl⟩
    · apply Submodule.span_mono
      intro _ given
      obtain ⟨k, -, rfl⟩ := given
      exact ⟨k, rfl⟩
  rw [rank_eq_finrank_span_row, spans, finrank_span_eq_card independent, Fintype.card_fin]

end Kept

theorem of_signs {A' : Matrix (Fin m) (Fin n) ℚ} {b' : Fin m → ℚ} {sign : Fin m → ℚ}
    (signs : ∀ i, sign i * sign i = 1) (entries : ∀ i j, A' i j = sign i * A i j)
    (sides : ∀ i, b' i = sign i * b i) (redundant : Redundant A' b' rows) :
    Redundant A b rows := by
  have moved (w : Fin m → ℚ) : (fun i => w i * sign i) ᵥ* A = w ᵥ* A' := by
    funext j
    change ∑ i, w i * sign i * A i j = ∑ i, w i * A' i j
    exact Finset.sum_congr rfl fun i _ => by rw [entries, mul_assoc]
  refine ⟨redundant.selection, fun r inside => ?_, fun u zero vanishes => ?_⟩
  · obtain ⟨w, one, zero, vanishes, constant⟩ := redundant.dependent r inside
    refine ⟨sign r • fun i => w i * sign i, ?_, fun k other member => ?_, ?_, ?_⟩
    · rw [Pi.smul_apply, one, one_mul, smul_eq_mul, signs]
    · rw [Pi.smul_apply, zero k other member, zero_mul, smul_zero]
    · rw [smul_vecMul, moved, vanishes, smul_zero]
    · have same : (fun i => w i * sign i) ⬝ᵥ b = w ⬝ᵥ b' :=
        Finset.sum_congr rfl fun i _ => by rw [sides, mul_assoc]
      rw [smul_dotProduct, same, constant, smul_zero]
  · have none : (fun i => u i * sign i) = 0 := by
      apply redundant.independent
      · intro r inside
        rw [zero r inside, zero_mul]
      · rw [← moved, ← vanishes]
        congr 1
        funext i
        rw [mul_assoc, signs, mul_one]
    funext i
    have entry := congrFun none i
    simp only [Pi.zero_apply] at entry ⊢
    rw [← mul_one (u i), ← signs i, ← mul_assoc, entry, zero_mul]

end Redundant

end SimplexMethod
