import Mathlib

namespace SimplexMethod
open Matrix

variable {m n : ℕ} {A : Matrix (Fin m) (Fin n) ℚ} {b : Fin m → ℚ} {c : Fin n → ℚ}
  {σ : Fin m → Fin n} {N : Matrix (Fin m) (Fin m) ℚ}

def spread (σ : Fin m → Fin n) (values : Fin m → ℚ) : Fin n → ℚ :=
  ∑ i, Pi.single (σ i) (values i)

theorem spread_apply (injective : Function.Injective σ) (values : Fin m → ℚ) (i : Fin m) :
    spread σ values (σ i) = values i := by
  simp only [spread, Finset.sum_apply]
  rw [Finset.sum_eq_single i]
  · simp
  · intro k _ other
    exact Pi.single_eq_of_ne (fun same => other (injective same.symm)) _
  · simp

theorem spread_of_notMem {j : Fin n} (outside : j ∉ Set.range σ) (values : Fin m → ℚ) :
    spread σ values j = 0 := by
  simp only [spread, Finset.sum_apply]
  apply Finset.sum_eq_zero
  intro i _
  exact Pi.single_eq_of_ne (fun same => outside ⟨i, same.symm⟩) _

theorem eq_spread (injective : Function.Injective σ) {x : Fin n → ℚ}
    (zero : ∀ j ∉ Set.range σ, x j = 0) : x = spread σ (x ∘ σ) := by
  funext j
  by_cases inside : j ∈ Set.range σ
  · obtain ⟨i, rfl⟩ := inside
    rw [spread_apply injective, Function.comp_apply]
  · rw [zero j inside, spread_of_notMem inside]

theorem dotProduct_spread (c : Fin n → ℚ) (values : Fin m → ℚ) :
    c ⬝ᵥ spread σ values = (c ∘ σ) ⬝ᵥ values := by
  rw [spread, dotProduct_sum]
  exact Finset.sum_congr rfl fun i _ => dotProduct_single _ _ _

theorem mulVec_spread (A : Matrix (Fin m) (Fin n) ℚ) (values : Fin m → ℚ) :
    A *ᵥ spread σ values = A.submatrix id σ *ᵥ values := by
  funext i
  exact dotProduct_spread (A i) values

theorem basicValues_eq (inverse : N * A.submatrix id σ = 1) (injective : Function.Injective σ)
    {x : Fin n → ℚ} (zero : ∀ j ∉ Set.range σ, x j = 0) (equations : A *ᵥ x = b) :
    x ∘ σ = N *ᵥ b := by
  have onBasis : A.submatrix id σ *ᵥ (x ∘ σ) = b := by
    rw [← mulVec_spread, ← eq_spread injective zero, equations]
  rw [← onBasis, mulVec_mulVec, inverse, one_mulVec]

theorem eq_of_basic (inverse : N * A.submatrix id σ = 1) (injective : Function.Injective σ)
    {x x' : Fin n → ℚ} (zero : ∀ j ∉ Set.range σ, x j = 0) (equations : A *ᵥ x = b)
    (zero' : ∀ j ∉ Set.range σ, x' j = 0) (equations' : A *ᵥ x' = b) : x = x' := by
  rw [eq_spread injective zero, eq_spread injective zero',
    basicValues_eq inverse injective zero equations,
    basicValues_eq inverse injective zero' equations']

theorem mulVec_basicPoint (inverse : N * A.submatrix id σ = 1) (b : Fin m → ℚ) :
    A *ᵥ spread σ (N *ᵥ b) = b := by
  rw [mulVec_spread, mulVec_mulVec, mul_eq_one_comm.1 inverse, one_mulVec]

/-- The direction in which a variable outside the basis grows by itself. -/
def edge (A : Matrix (Fin m) (Fin n) ℚ) (σ : Fin m → Fin n) (N : Matrix (Fin m) (Fin m) ℚ)
    (j : Fin n) : Fin n → ℚ :=
  Pi.single j 1 - spread σ (N *ᵥ A.col j)

theorem edge_self {j : Fin n} (outside : j ∉ Set.range σ) : edge A σ N j j = 1 := by
  simp [edge, spread_of_notMem outside]

theorem edge_basis {j : Fin n} (outside : j ∉ Set.range σ) (injective : Function.Injective σ)
    (i : Fin m) : edge A σ N j (σ i) = -(N *ᵥ A.col j) i := by
  have other : σ i ≠ j := fun same => outside ⟨i, same⟩
  rw [edge, Pi.sub_apply, Pi.single_eq_of_ne other, spread_apply injective, zero_sub]

theorem edge_of_notMem {j k : Fin n} (outside : k ∉ Set.range σ) (other : k ≠ j) :
    edge A σ N j k = 0 := by
  rw [edge, Pi.sub_apply, Pi.single_eq_of_ne other, spread_of_notMem outside, sub_zero]

theorem mulVec_edge (inverse : N * A.submatrix id σ = 1) (j : Fin n) :
    A *ᵥ edge A σ N j = 0 := by
  rw [edge, mulVec_sub, mulVec_single_one, mulVec_basicPoint inverse, sub_self]

def reduced (A : Matrix (Fin m) (Fin n) ℚ) (c : Fin n → ℚ) (y : Fin m → ℚ) : Fin n → ℚ :=
  c - y ᵥ* A

theorem reduced_dotProduct (y : Fin m → ℚ) (x : Fin n → ℚ) :
    reduced A c y ⬝ᵥ x = c ⬝ᵥ x - y ⬝ᵥ (A *ᵥ x) := by
  rw [reduced, sub_dotProduct, dotProduct_mulVec]

/-- The multipliers at which the reduced costs of the basis are zero. -/
def multipliersOf (c : Fin n → ℚ) (σ : Fin m → Fin n) (N : Matrix (Fin m) (Fin m) ℚ) :
    Fin m → ℚ :=
  (c ∘ σ) ᵥ* N

theorem reduced_basis (inverse : N * A.submatrix id σ = 1) (i : Fin m) :
    reduced A c (multipliersOf c σ N) (σ i) = 0 := by
  have onBasis : (multipliersOf c σ N ᵥ* A) (σ i) = c (σ i) := by
    change (multipliersOf c σ N ᵥ* A.submatrix id σ) i = c (σ i)
    rw [multipliersOf, vecMul_vecMul, inverse, vecMul_one, Function.comp_apply]
  rw [reduced, Pi.sub_apply, onBasis, sub_self]

theorem multipliersOf_dotProduct (c : Fin n → ℚ) (σ : Fin m → Fin n)
    (N : Matrix (Fin m) (Fin m) ℚ) (b : Fin m → ℚ) :
    multipliersOf c σ N ⬝ᵥ b = c ⬝ᵥ spread σ (N *ᵥ b) := by
  rw [dotProduct_spread, dotProduct_mulVec]
  rfl

theorem dotProduct_edge (j : Fin n) :
    c ⬝ᵥ edge A σ N j = reduced A c (multipliersOf c σ N) j := by
  rw [edge, dotProduct_sub, dotProduct_single_one, ← multipliersOf_dotProduct]
  rfl

theorem row_basis (inverse : N * A.submatrix id σ = 1) (row i : Fin m) :
    (N row ᵥ* A) (σ i) = if row = i then 1 else 0 := by
  have entry := congrFun (congrFun inverse row) i
  rw [Matrix.one_apply] at entry
  exact entry

theorem submatrix_update (A : Matrix (Fin m) (Fin n) ℚ) (σ : Fin m → Fin n) (row : Fin m)
    (entering : Fin n) :
    A.submatrix id (Function.update σ row entering) =
      (A.submatrix id σ).updateCol row (A.col entering) := by
  ext i k
  by_cases same : k = row
  · subst same
    simp
  · simp [same]

theorem inverse_updateCol {B N' : Matrix (Fin m) (Fin m) ℚ} (inverse : N * B = 1)
    {a : Fin m → ℚ} {row : Fin m} (pivot : (N *ᵥ a) row ≠ 0)
    (scaled : ∀ k, N' row k = N row k * (1 / (N *ᵥ a) row))
    (added : ∀ i ≠ row, ∀ k, N' i k = N i k - (N *ᵥ a) i / (N *ᵥ a) row * N row k) :
    N' * B.updateCol row a = 1 := by
  have old : ∀ i j, N i ⬝ᵥ (B.updateCol row a).col j =
      if j = row then (N *ᵥ a) i else (1 : Matrix (Fin m) (Fin m) ℚ) i j := by
    intro i j
    by_cases same : j = row
    · subst same
      simp [dotProduct, mulVec]
    · have column : (B.updateCol row a).col j = B.col j := by
        funext k
        simp [same]
      rw [if_neg same, column, ← inverse]
      rfl
  ext i j
  change N' i ⬝ᵥ (B.updateCol row a).col j = _
  by_cases here : i = row
  · subst here
    have entries : N' i = (1 / (N *ᵥ a) i) • N i := by
      funext k
      rw [scaled, Pi.smul_apply, smul_eq_mul, mul_comm]
    rw [entries, smul_dotProduct, old]
    split
    · rename_i same
      subst same
      simp [pivot]
    · rename_i other
      simp [Ne.symm other]
  · have entries : N' i = N i - ((N *ᵥ a) i / (N *ᵥ a) row) • N row := by
      funext k
      rw [added i here, Pi.sub_apply, Pi.smul_apply, smul_eq_mul]
    rw [entries, sub_dotProduct, smul_dotProduct, old, old]
    by_cases same : j = row
    · subst same
      simp [pivot, here]
    · simp [same, Matrix.one_apply, Ne.symm same]

theorem isUnit_updateCol_iff {B : Matrix (Fin m) (Fin m) ℚ} (inverse : N * B = 1) {a : Fin m → ℚ}
    {row : Fin m} : IsUnit (B.updateCol row a) ↔ (N *ᵥ a) row ≠ 0 := by
  have product : N.det * (B.updateCol row a).det = (N *ᵥ a) row :=
    calc N.det * (B.updateCol row a).det
        = ((1 : Matrix (Fin m) (Fin m) ℚ).updateCol row (N *ᵥ a)).det := by
          rw [← det_mul, mul_updateCol, inverse]
      _ = (N *ᵥ a) row := by rw [← cramer_apply, cramer_one, Module.End.one_apply]
  have regular : N.det ≠ 0 := fun zero => by
    have one := congrArg det inverse
    rw [det_mul, zero, zero_mul, det_one] at one
    exact zero_ne_one one
  rw [isUnit_iff_isUnit_det, isUnit_iff_ne_zero, ← product, mul_ne_zero_iff_left regular]

theorem updateCol_one_mul_apply (η : Fin m → ℚ) (row i j : Fin m) :
    ((1 : Matrix (Fin m) (Fin m) ℚ).updateCol row η * N) i j =
      if i = row then N i j * η row else N i j + η i * N row j := by
  change Function.update ((1 : Matrix (Fin m) (Fin m) ℚ) i) row (η i) ⬝ᵥ N.col j = _
  rw [Pi.update_eq_sub_add_single, add_dotProduct, sub_dotProduct, single_dotProduct,
    single_dotProduct]
  have unit : (1 : Matrix (Fin m) (Fin m) ℚ) i ⬝ᵥ N.col j = N i j := by
    change ((1 : Matrix (Fin m) (Fin m) ℚ) * N) i j = N i j
    rw [one_mul]
  rw [unit, one_apply, col_apply]
  split
  · rename_i same
    rw [same]
    ring
  · ring

theorem dotProduct_le_add_reduced {x : Fin n → ℚ} {y : Fin m → ℚ} (equations : A *ᵥ x = b)
    (dual : 0 ≤ reduced A c y) {x' : Fin n → ℚ} (nonneg : 0 ≤ x') (equations' : A *ᵥ x' = b) :
    c ⬝ᵥ x ≤ c ⬝ᵥ x' + reduced A c y ⬝ᵥ x := by
  have gap : 0 ≤ reduced A c y ⬝ᵥ x' := dotProduct_nonneg_of_nonneg dual nonneg
  rw [reduced_dotProduct, equations'] at gap
  rw [reduced_dotProduct, equations]
  linarith

theorem dotProduct_le_add_mul_sum {y : Fin m → ℚ} {δ : ℚ} (above : ∀ j, -δ ≤ reduced A c y j)
    {x : Fin n → ℚ} (nonneg : 0 ≤ x) (equations : A *ᵥ x = b) :
    y ⬝ᵥ b ≤ c ⬝ᵥ x + δ * ∑ j, x j := by
  have gap : ∑ j, -δ * x j ≤ reduced A c y ⬝ᵥ x :=
    Finset.sum_le_sum fun j _ => mul_le_mul_of_nonneg_right (above j) (nonneg j)
  rw [← Finset.mul_sum, reduced_dotProduct, equations] at gap
  linarith

theorem optimal_of_complementary {x : Fin n → ℚ} {y : Fin m → ℚ} (equations : A *ᵥ x = b)
    (dual : 0 ≤ reduced A c y) (complementary : ∀ j, x j = 0 ∨ reduced A c y j = 0)
    {x' : Fin n → ℚ} (nonneg : 0 ≤ x') (equations' : A *ᵥ x' = b) : c ⬝ᵥ x ≤ c ⬝ᵥ x' := by
  have tight : reduced A c y ⬝ᵥ x = 0 := by
    apply Finset.sum_eq_zero
    intro j _
    rcases complementary j with zero | zero <;> simp [zero]
  have bound := dotProduct_le_add_reduced equations dual nonneg equations'
  rwa [tight, add_zero] at bound

theorem infeasible_of_certificate {w : Fin m → ℚ} (nonneg : 0 ≤ w ᵥ* A) (negative : w ⬝ᵥ b < 0)
    {x : Fin n → ℚ} (xNonneg : 0 ≤ x) (equations : A *ᵥ x = b) : False := by
  have sign : 0 ≤ (w ᵥ* A) ⬝ᵥ x := dotProduct_nonneg_of_nonneg nonneg xNonneg
  rw [← dotProduct_mulVec, equations] at sign
  linarith

end SimplexMethod
