import Mathlib
import SimplexMethod.Vec

namespace SimplexMethod

/-- Comparisons with a root are comparisons of squares that keep their sign. -/
instance : Scalar ℚ where
  abs x := |x|
  negSqrtLe tolerance value := 0 ≤ tolerance ∧ -tolerance ≤ value * |value|
  leSqrtMul tolerance scale distance :=
    0 ≤ tolerance ∧ distance * |distance| ≤ tolerance * (scale * |scale|)
  emptySum := 0
  decideLt _ _ := inferInstance
  decideLe _ _ := inferInstance

namespace Scalar

theorem abs_eq (x : ℚ) : Scalar.abs x = |x| := rfl

theorem max_eq (x y : ℚ) : Scalar.max x y = Max.max x y := by
  unfold Scalar.max
  rcases lt_trichotomy y x with below | equal | above
  · simp [below, below.le]
  · simp [equal]
  · simp [above.le, above.not_gt]

theorem strictMono_mul_abs : StrictMono fun x : ℝ => x * |x| := by
  intro x y less
  rcases le_or_gt 0 x with nonneg | negative
  · simp only [abs_of_nonneg nonneg, abs_of_nonneg (nonneg.trans less.le)]
    exact mul_self_lt_mul_self nonneg less
  · simp only [abs_of_neg negative]
    rcases le_or_gt y 0 with nonpos | positive
    · rw [abs_of_nonpos nonpos, mul_neg, mul_neg, neg_lt_neg_iff, ← neg_mul_neg y, ← neg_mul_neg x]
      exact mul_self_lt_mul_self (neg_nonneg.2 nonpos) (neg_lt_neg less)
    · exact (mul_neg_of_neg_of_pos negative (neg_pos.2 negative)).trans
        (mul_pos positive (abs_pos.2 positive.ne'))

theorem sqrt_mul_mul_abs {tolerance : ℝ} (nonneg : 0 ≤ tolerance) (scale : ℝ) :
    √tolerance * scale * |√tolerance * scale| = tolerance * (scale * |scale|) := by
  rw [abs_mul, abs_of_nonneg (Real.sqrt_nonneg tolerance), mul_mul_mul_comm,
    Real.mul_self_sqrt nonneg]

theorem negSqrtLe_iff {tolerance : ℚ} (nonneg : 0 ≤ tolerance) (value : ℚ) :
    Scalar.negSqrtLe tolerance value = true ↔ -√(tolerance : ℝ) ≤ value := by
  have squares := sqrt_mul_mul_abs (Rat.cast_nonneg.2 nonneg) (-1)
  have cast : (-tolerance ≤ value * |value|) ↔ -(tolerance : ℝ) ≤ value * |(value : ℝ)| := by
    exact_mod_cast Iff.rfl
  rw [← strictMono_mul_abs.le_iff_le]
  simp only [mul_neg, mul_one, abs_neg, abs_one] at squares ⊢
  change decide (0 ≤ tolerance ∧ -tolerance ≤ value * |value|) = true ↔ _
  rw [decide_eq_true_iff, and_iff_right nonneg, cast, ← squares]

theorem leSqrtMul_iff {tolerance : ℚ} (nonneg : 0 ≤ tolerance) (scale distance : ℚ) :
    Scalar.leSqrtMul tolerance scale distance = true ↔ (distance : ℝ) ≤ √tolerance * scale := by
  have squares := sqrt_mul_mul_abs (Rat.cast_nonneg.2 nonneg) scale
  have cast : distance * |distance| ≤ tolerance * (scale * |scale|) ↔
      (distance : ℝ) * |(distance : ℝ)| ≤ tolerance * (scale * |(scale : ℝ)|) := by
    exact_mod_cast Iff.rfl
  rw [← strictMono_mul_abs.le_iff_le]
  change decide (0 ≤ tolerance ∧ distance * |distance| ≤ tolerance * (scale * |scale|)) = true ↔ _
  rw [decide_eq_true_iff, and_iff_right nonneg, cast, squares]

theorem pivotTolerance_pos : (0 : ℚ) < Scalar.pivotTolerance := by
  norm_num [Scalar.pivotTolerance]

end Scalar

namespace Vec

def toFun (x : Vec ℚ) (n : ℕ) : Fin n → ℚ := fun i => x.getD i 0

theorem toFun_apply (x : Vec ℚ) {n : ℕ} (i : Fin n) : toFun x n i = x.getD i 0 := rfl

theorem getElem?_eq_toFun {x : Vec ℚ} {n : ℕ} (length : x.length = n) (i : Fin n) :
    x[(i : ℕ)]? = some (toFun x n i) := by
  have inside : (i : ℕ) < x.length := i.isLt.trans_eq length.symm
  simp [toFun, inside]

theorem getD_of_le {x : Vec ℚ} {i : ℕ} (outside : x.length ≤ i) : x.getD i 0 = 0 := by
  simp [List.getD_eq_getElem?_getD, List.getElem?_eq_none outside]

theorem eq_of_toFun_eq {x y : Vec ℚ} {n : ℕ} (left : x.length = n) (right : y.length = n)
    (same : toFun x n = toFun y n) : x = y := by
  apply List.ext_getElem (left.trans right.symm)
  intro i inLeft inRight
  have entry := congrFun same ⟨i, left ▸ inLeft⟩
  simpa [toFun, inLeft, inRight] using entry

theorem forall_mem_iff {x : Vec ℚ} {n : ℕ} (length : x.length = n) {P : ℚ → Prop} :
    (∀ value ∈ x, P value) ↔ ∀ i : Fin n, P (toFun x n i) := by
  constructor
  · intro all i
    have bound : (i : ℕ) < x.length := length ▸ i.isLt
    simpa [toFun, bound] using all _ (List.getElem_mem bound)
  · intro all value member
    obtain ⟨i, bound, rfl⟩ := List.mem_iff_getElem.1 member
    simpa [toFun, bound] using all ⟨i, length ▸ bound⟩

theorem forall_mem_zip_iff {x y : Vec ℚ} {n : ℕ} (left : x.length = n) (right : y.length = n)
    {P : ℚ → ℚ → Prop} :
    (∀ pair ∈ x.zip y, P pair.1 pair.2) ↔ ∀ i, P (toFun x n i) (toFun y n i) := by
  subst right
  constructor
  · intro all i
    have inLeft : (i : ℕ) < x.length := i.isLt.trans_eq left.symm
    have member : (x[(i : ℕ)], y[(i : ℕ)]) ∈ x.zip y :=
      List.mem_iff_getElem.2 ⟨i, by simp [left], by simp⟩
    simpa [toFun, inLeft] using all _ member
  · intro all pair member
    obtain ⟨i, bound, rfl⟩ := List.mem_iff_getElem.1 member
    have inRight : i < y.length := by simpa [left] using bound
    simpa [toFun, left, inRight] using all ⟨i, inRight⟩

theorem getD_nonneg {x : Vec ℚ} (nonneg : ∀ value ∈ x, 0 ≤ value) (i : ℕ) : 0 ≤ x.getD i 0 := by
  rcases lt_or_ge i x.length with inside | outside
  · simpa [inside] using nonneg _ (List.getElem_mem inside)
  · exact (getD_of_le outside).ge

theorem find?_below {x : Vec ℚ} {n : ℕ} (length : x.length = n) (bound : ℚ) :
    (x.zipIdx.find? (fun entry => entry.1 < bound) = none ∧ ∀ i : Fin n, bound ≤ toFun x n i) ∨
      ∃ i : Fin n, x.zipIdx.find? (fun entry => entry.1 < bound) =
        some (toFun x n i, (i : ℕ)) ∧ toFun x n i < bound := by
  cases found : x.zipIdx.find? fun entry => entry.1 < bound with
  | none =>
      refine Or.inl ⟨rfl, fun i => ?_⟩
      have member : (toFun x n i, (i : ℕ)) ∈ x.zipIdx :=
        List.mem_zipIdx_iff_getElem?.2 (getElem?_eq_toFun length i)
      simpa using List.find?_eq_none.1 found _ member
  | some pair =>
      obtain ⟨value, position⟩ := pair
      have present := List.mem_zipIdx_iff_getElem?.1 (List.mem_of_find?_eq_some found)
      have inside : position < n := by
        rw [← length]
        exact (List.getElem?_eq_some_iff.1 present).1
      have same := (getElem?_eq_toFun length ⟨position, inside⟩).symm.trans present
      have below := List.find?_some found
      cases same
      exact Or.inr ⟨⟨position, inside⟩, rfl, of_decide_eq_true below⟩

theorem toFun_ofFn {n : ℕ} (f : Fin n → ℚ) : toFun (List.ofFn f) n = f := by
  funext i
  simp [toFun]

@[simp] theorem length_zeros (n : ℕ) : (zeros n : Vec ℚ).length = n := by simp [zeros]

@[simp] theorem getD_zeros (n i : ℕ) : (zeros n : Vec ℚ).getD i 0 = 0 := by
  simp only [zeros, List.getD_eq_getElem?_getD, List.getElem?_replicate]
  split <;> rfl

theorem getD_scale (x : Vec ℚ) (factor : ℚ) (i : ℕ) :
    (scale x factor).getD i 0 = x.getD i 0 * factor := by
  simp only [scale, List.getD_eq_getElem?_getD, List.getElem?_map]
  cases x[i]? <;> simp

theorem getD_neg (x : Vec ℚ) (i : ℕ) : (x.map fun entry => -entry).getD i 0 = -x.getD i 0 := by
  simp only [List.getD_eq_getElem?_getD, List.getElem?_map]
  cases x[i]? <;> simp

theorem getD_addScaled {x y : Vec ℚ} (lengths : x.length = y.length) (factor : ℚ) (i : ℕ) :
    (addScaled x factor y).getD i 0 = x.getD i 0 + factor * y.getD i 0 := by
  simp only [addScaled, List.getD_eq_getElem?_getD, List.getElem?_zipWith]
  rcases lt_or_ge i x.length with inside | outside
  · simp [inside, lengths ▸ inside]
  · simp [outside, lengths ▸ outside]

theorem getD_sub {x y : Vec ℚ} (lengths : x.length = y.length) (i : ℕ) :
    (sub x y).getD i 0 = x.getD i 0 - y.getD i 0 := by
  simp only [sub, List.getD_eq_getElem?_getD, List.getElem?_zipWith]
  rcases lt_or_ge i x.length with inside | outside
  · simp [inside, lengths ▸ inside]
  · simp [outside, lengths ▸ outside]

theorem getD_set (x : Vec ℚ) (i j : ℕ) (value : ℚ) :
    List.getD (x.set i value) j 0 = if i = j ∧ i < x.length then value else x.getD j 0 := by
  simp only [List.getD_eq_getElem?_getD, List.getElem?_set]
  grind

theorem foldl_set {β : Type} (change : ℕ × β → ℚ → ℚ) (entries : List (ℕ × β)) (x : Vec ℚ)
    (nodup : (entries.map Prod.fst).Nodup) :
    let result : Vec ℚ := entries.foldl
      (fun x entry => x.set entry.1 (change entry (x.getD entry.1 0))) x
    result.length = x.length ∧
      (∀ j ∉ entries.map Prod.fst, result.getD j 0 = x.getD j 0) ∧
      ∀ entry ∈ entries, entry.1 < x.length →
        result.getD entry.1 0 = change entry (x.getD entry.1 0) := by
  induction entries generalizing x with
  | nil => simp
  | cons first rest ih =>
      rw [List.map_cons, List.nodup_cons] at nodup
      obtain ⟨length, others, written⟩ :=
        ih (x.set first.1 (change first (x.getD first.1 0))) nodup.2
      have away : ∀ j ≠ first.1,
          List.getD (x.set first.1 (change first (x.getD first.1 0))) j 0 = x.getD j 0 := by
        intro j other
        rw [getD_set, if_neg fun same => other same.1.symm]
      rw [List.length_set] at length written
      refine ⟨length, ?_, ?_⟩
      · intro j outside
        rw [List.map_cons, List.mem_cons, not_or] at outside
        rw [← away j outside.1]
        exact others j outside.2
      · intro entry member inside
        rcases List.mem_cons.1 member with rfl | later
        · refine (others _ nodup.1).trans ?_
          rw [getD_set, if_pos ⟨rfl, inside⟩]
        · have other : entry.1 ≠ first.1 := fun same =>
            nodup.1 (same ▸ List.mem_map_of_mem later)
          rw [← away _ other]
          exact written entry later inside

theorem sum_eq (x : Vec ℚ) : sum x = List.sum x := by
  rw [List.sum_eq_foldl]
  rfl

theorem sum_eq_sum_toFun {x : Vec ℚ} {n : ℕ} (length : x.length = n) :
    sum x = ∑ i, toFun x n i := by
  subst length
  rw [sum_eq, ← List.sum_ofFn]
  congr 1
  exact List.ext_getElem (by simp) (by simp +contextual [toFun])

theorem dot_eq {x y : Vec ℚ} {n : ℕ} (left : x.length = n) (right : y.length = n) :
    dot x y = toFun x n ⬝ᵥ toFun y n := by
  have length : (List.zipWith (· * ·) x y).length = n := by simp [left, right]
  rw [dot, sum_eq_sum_toFun length, dotProduct]
  refine Finset.sum_congr rfl fun i _ => ?_
  have inLeft : (i : ℕ) < x.length := left ▸ i.isLt
  have inRight : (i : ℕ) < y.length := right ▸ i.isLt
  simp [toFun, inLeft, inRight]

end Vec

end SimplexMethod
