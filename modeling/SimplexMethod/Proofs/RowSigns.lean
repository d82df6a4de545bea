import SimplexMethod.Proofs.Basis
import SimplexMethod.Proofs.ExactInverse
import SimplexMethod.Proofs.PartialPivoting
import SimplexMethod.Proofs.RowChanges

/-!
# Signs of rows

Elimination chooses its pivots by magnitude, so it takes the same way if rows have changed their sign.
Nothing that belongs to a basis depends on the signs that a nonnegative right-hand side asks for, but
for the multipliers of the equations that were negated.
-/

namespace SimplexMethod
open Matrix Vec Outcome

namespace Outcome

variable {α β γ β' γ' : Type}

inductive Corresponds (related : β → γ → Prop) : Outcome α β → Outcome α γ → Prop
  | ok {x : β} {y : γ} (holds : related x y) : Corresponds related (.ok x) (.ok y)
  | error (fault : Fault α) : Corresponds related (.error fault) (.error fault)

theorem Corresponds.bind {related : β → γ → Prop} {related' : β' → γ' → Prop}
    {first : Outcome α β} {second : Outcome α γ} {f : β → Outcome α β'} {g : γ → Outcome α γ'}
    (corresponds : Corresponds related first second)
    (rest : ∀ x y, related x y → Corresponds related' (f x) (g y)) :
    Corresponds related' (first >>= f) (second >>= g) := by
  cases corresponds with
  | ok holds => exact rest _ _ holds
  | error fault => exact .error fault

theorem Corresponds.mono {related related' : β → γ → Prop} {first : Outcome α β}
    {second : Outcome α γ} (corresponds : Corresponds related first second)
    (weaker : ∀ x y, related x y → related' x y) : Corresponds related' first second := by
  cases corresponds with
  | ok holds => exact .ok (weaker _ _ holds)
  | error fault => exact .error fault

theorem Corresponds.error_iff {related : β → γ → Prop} {first : Outcome α β} {second : Outcome α γ}
    (corresponds : Corresponds related first second) (fault : Fault α) :
    second = .error fault ↔ first = .error fault := by
  cases corresponds with
  | ok holds => exact iff_of_false nofun nofun
  | error other => simp only [Except.error.injEq]

theorem Corresponds.bind_eq {related : β → γ → Prop} {first : Outcome α β} {second : Outcome α γ}
    {f : β → Outcome α β'} {g : γ → Outcome α β'} (corresponds : Corresponds related first second)
    (rest : ∀ x y, related x y → g y = f x) : (second >>= g) = (first >>= f) := by
  cases corresponds with
  | ok holds => exact rest _ _ holds
  | error fault => rfl

theorem Corresponds.map_eq {f : β → γ} {first : Outcome α β} {second : Outcome α γ}
    (corresponds : Corresponds (fun x y => y = f x) first second) : second = first.map f := by
  cases corresponds with
  | ok holds => exact congrArg Except.ok holds
  | error fault => rfl

end Outcome

section Elimination

variable {size : ℕ} {A W : Matrix (Fin size) (Fin size) ℚ} {s : Fin size → ℚ}

def IsSign (s : Fin size → ℚ) : Prop := ∀ i, |s i| = 1

theorem IsSign.ne_zero (signs : IsSign s) (i : Fin size) : s i ≠ 0 :=
  abs_pos.1 ((signs i).symm ▸ one_pos)

theorem IsSign.diagonal_mul_self (signs : IsSign s) : diagonal s * diagonal s = 1 := by
  rw [diagonal_mul_diagonal, ← diagonal_one]
  congr 1
  funext i
  rw [← abs_mul_abs_self, signs i, one_mul]

theorem IsSign.abs_diagonal_mul (signs : IsSign s) (W : Matrix (Fin size) (Fin size) ℚ)
    (i j : Fin size) : |(diagonal s * W) i j| = |W i j| := by
  rw [diagonal_mul, abs_mul, signs i, one_mul]

theorem IsPivot.of_signs (signs : IsSign s) {column pivot : Fin size}
    (isPivot : IsPivot W column pivot) : IsPivot (diagonal s * W) column pivot := by
  refine ⟨isPivot.candidate, fun i candidate => ?_, fun i candidate before => ?_⟩
  · rw [signs.abs_diagonal_mul, signs.abs_diagonal_mul]
    exact isPivot.largest i candidate
  · rw [signs.abs_diagonal_mul, signs.abs_diagonal_mul]
    exact isPivot.first i candidate before

def signsAfter (s : Fin size → ℚ) (column pivot : Fin size) (i : Fin size) : ℚ :=
  if i = column then 1 else s (Equiv.swap column pivot i)

theorem IsSign.after (signs : IsSign s) (column pivot : Fin size) :
    IsSign (signsAfter s column pivot) := by
  intro i
  unfold signsAfter
  split
  · exact abs_one
  · exact signs _

theorem IsSign.clearedAt_eq (signs : IsSign s) (W : Matrix (Fin size) (Fin size) ℚ)
    (column pivot : Fin size) : clearedAt (diagonal s * W) column pivot =
      diagonal (signsAfter s column pivot) * clearedAt W column pivot := by
  ext i j
  rw [diagonal_mul]
  simp only [clearedAt, of_apply, diagonal_mul, signsAfter,
    mul_div_mul_left _ _ (signs.ne_zero pivot)]
  split
  · rw [one_mul]
  · ring

theorem EliminatesTo.of_signs {threshold : ℚ} {column : ℕ} (signs : IsSign s)
    (eliminates : EliminatesTo A threshold column W) :
    ∃ s', IsSign s' ∧ EliminatesTo (diagonal s * A) threshold column (diagonal s' * W) := by
  induction eliminates with
  | start => exact ⟨s, signs, .start⟩
  | clear inside pivot before isPivot usable ih =>
      obtain ⟨s', signs', before'⟩ := ih
      refine ⟨_, signs'.after ⟨_, inside⟩ pivot, ?_⟩
      rw [← signs'.clearedAt_eq]
      refine .clear inside pivot before' (isPivot.of_signs signs') ?_
      rwa [signs'.abs_diagonal_mul]

theorem Stuck.of_signs {threshold : ℚ} (signs : IsSign s) (stuck : Stuck A threshold) :
    Stuck (diagonal s * A) threshold := by
  obtain ⟨column, W, reached, small⟩ := stuck
  obtain ⟨s', signs', reached'⟩ := reached.of_signs signs
  refine ⟨column, _, reached', fun i candidate => ?_⟩
  rw [signs'.abs_diagonal_mul]
  exact small i candidate

theorem stuck_signs_iff {threshold : ℚ} (signs : IsSign s) :
    Stuck (diagonal s * A) threshold ↔ Stuck A threshold := by
  refine ⟨fun stuck => ?_, Stuck.of_signs signs⟩
  have again := stuck.of_signs signs
  rwa [← Matrix.mul_assoc, signs.diagonal_mul_self, Matrix.one_mul] at again

end Elimination

namespace RowMatrix

variable {size : ℕ} {a b : RowMatrix ℚ} {s : Fin size → ℚ}

theorem invert_eq_singular_iff (height : a.height = size) (width : a.width = size) :
    a.invert = .error (.failed .singularMatrix) ↔
      Stuck (a.toMatrix size size) a.pivotThreshold := by
  have eliminates := invert_yields_eliminated height width
  cases inverted : a.invert with
  | ok inverse =>
      obtain ⟨W, reached⟩ := eliminates.of_eq_ok inverted
      exact iff_of_false nofun reached.not_stuck
  | error fault =>
      obtain ⟨rfl, stuck⟩ := eliminates.of_eq_error inverted
      exact iff_of_true rfl stuck

theorem pivotThreshold_signs (signs : IsSign s) (height : a.height = size) (width : a.width = size)
    (heightB : b.height = size) (widthB : b.width = size)
    (changed : b.toMatrix size size = diagonal s * a.toMatrix size size) :
    b.pivotThreshold = a.pivotThreshold := by
  have greatest := isGreatest_max_supNorm heightB widthB
  simp only [changed, signs.abs_diagonal_mul] at greatest
  rw [pivotThreshold, pivotThreshold, Scalar.max_eq, Scalar.max_eq,
    greatest.unique (isGreatest_max_supNorm height width)]

structure ColumnSigns (s : Fin size → ℚ) (a b : RowMatrix ℚ) : Prop where
  height : a.height = size
  width : a.width = size
  height' : b.height = size
  width' : b.width = size
  toMatrix_eq : b.toMatrix size size = a.toMatrix size size * diagonal s

theorem invert_corresponds (signs : IsSign s) (height : a.height = size) (width : a.width = size)
    (heightB : b.height = size) (widthB : b.width = size)
    (changed : b.toMatrix size size = diagonal s * a.toMatrix size size) :
    a.invert.Corresponds (ColumnSigns s) b.invert := by
  have yields := invert_yields height width
  have yields' := invert_yields heightB widthB
  have singular_iff : b.invert = .error (.failed .singularMatrix) ↔
      a.invert = .error (.failed .singularMatrix) := by
    rw [invert_eq_singular_iff heightB widthB, invert_eq_singular_iff height width, changed,
      pivotThreshold_signs signs height width heightB widthB changed, stuck_signs_iff signs]
  cases inverted : a.invert with
  | error fault =>
      cases yields.of_eq_error inverted
      rw [singular_iff.2 inverted]
      exact .error _
  | ok left =>
      cases inverted' : b.invert with
      | error fault =>
          cases yields'.of_eq_error inverted'
          cases inverted.symm.trans (singular_iff.1 inverted')
      | ok left' =>
          obtain ⟨leftHeight, leftWidth, product⟩ := yields.of_eq_ok inverted
          obtain ⟨leftHeight', leftWidth', product'⟩ := yields'.of_eq_ok inverted'
          refine .ok ⟨leftHeight, leftWidth, leftHeight', leftWidth', ?_⟩
          rw [changed, ← Matrix.mul_assoc] at product'
          have same := left_inv_eq_right_inv product' (mul_eq_one_comm.1 product)
          rw [← same, Matrix.mul_assoc, signs.diagonal_mul_self, Matrix.mul_one]

theorem ColumnSigns.vecMul_apply (columnSigns : ColumnSigns s a b) {y : Vec ℚ}
    (length : y.length = size) (i : Fin size) :
    toFun (vecMul y b) size i = s i * toFun (vecMul y a) size i := by
  rw [toFun_vecMul columnSigns.height' length, columnSigns.toMatrix_eq, ← vecMul_vecMul,
    vecMul_diagonal, toFun_vecMul columnSigns.height length, mul_comm]

theorem ColumnSigns.mulVec_eq (columnSigns : ColumnSigns s a b) (signs : IsSign s) {x x' : Vec ℚ}
    (length : x.length = size) (length' : x'.length = size)
    (changed : ∀ i, toFun x' size i = s i * toFun x size i) : b.mulVec x' = a.mulVec x := by
  apply eq_of_toFun_eq ((length_mulVec b x').trans columnSigns.height')
    ((length_mulVec a x).trans columnSigns.height)
  have restored : diagonal s *ᵥ toFun x' size = toFun x size := by
    funext i
    rw [mulVec_diagonal, changed, ← mul_assoc, ← abs_mul_abs_self, signs i, one_mul, one_mul]
  rw [toFun_mulVec columnSigns.height' columnSigns.width' length', columnSigns.toMatrix_eq,
    ← mulVec_mulVec, restored, toFun_mulVec columnSigns.height columnSigns.width length]

end RowMatrix

def Vec.negateAt (x : Vec ℚ) (positions : List ℕ) : Vec ℚ :=
  x.mapIdx fun i entry => if i ∈ positions then -entry else entry

theorem Vec.getD_negateAt (x : Vec ℚ) (positions : List ℕ) (i : ℕ) :
    (x.negateAt positions).getD i 0 = if i ∈ positions then -x.getD i 0 else x.getD i 0 := by
  simp only [negateAt, List.getD_eq_getElem?_getD, List.getElem?_mapIdx]
  cases x[i]? <;> simp

namespace LinearProgram

variable {p : LinearProgram ℚ}

theorem normalize_of_nonneg (nonneg : ∀ b ∈ p.rhs, 0 ≤ b) : p.normalize = p := by
  have sides : (p.rhs.map fun b => if b < 0 then -b else b) = p.rhs :=
    (List.map_congr_left fun b member => if_neg (nonneg b member).not_gt).trans (List.map_id _)
  have rows : List.zipWith (fun row b => if b < 0 then Vec.scale row (-1) else row)
      p.constraints.rows p.rhs = p.constraints.rows := by
    apply List.ext_getElem
    · have fits : p.constraints.rows.length ≤ p.rhs.length := p.rhs_length.ge
      simpa using fits
    · intro i inLeft inRight
      have inSides : i < p.rhs.length := inRight.trans_eq p.rhs_length.symm
      rw [List.getElem_zipWith, if_neg (nonneg _ (List.getElem_mem inSides)).not_gt]
  cases p with
  | mk cost constraints rhs =>
      cases constraints
      simp only [normalize, sides, rows]

theorem negativeRows_of_nonneg (nonneg : ∀ b ∈ p.rhs, 0 ≤ b) : p.negativeRows = [] := by
  rw [negativeRows, List.filter_eq_nil_iff]
  intro i _
  simpa using getD_nonneg nonneg i

theorem isSign_sign (p : LinearProgram ℚ) : IsSign fun i : Fin p.numEquations => p.sign i := by
  intro i
  dsimp only [sign]
  split <;> simp

theorem supNorm_normalize (p : LinearProgram ℚ) :
    Vec.supNorm p.normalize.rhs = Vec.supNorm p.rhs := by
  have magnitude (b : ℚ) : Scalar.abs (if b < 0 then -b else b) = Scalar.abs b := by
    simp only [Scalar.abs_eq]
    split <;> simp
  simp only [Vec.supNorm, normalize, List.foldl_map, magnitude]

theorem isWithin?_iff_of_height {m : ℕ} (height : p.numEquations = m) {x : Vec ℚ}
    (length : x.length = p.numVariables) {above : ℚ → Bool} {near : ℚ → ℚ → Bool} :
    p.isWithin? above near x = some true ↔ (∀ value ∈ x, above value = true) ∧
      ∀ i, near (Max.max (supNorm p.rhs) 1)
        |(p.constraints.toMatrix m p.numVariables *ᵥ toFun x p.numVariables) i -
          toFun p.rhs m i| = true := by
  subst height
  exact isWithin?_iff length

theorem isWithin?_normalize (p : LinearProgram ℚ) (above : ℚ → Bool) (near : ℚ → ℚ → Bool)
    (x : Vec ℚ) : p.normalize.isWithin? above near x = p.isWithin? above near x := by
  have width : p.normalize.numVariables = p.numVariables := rfl
  by_cases length : x.length = p.numVariables
  · have residual (i : Fin p.numEquations) :
        |(p.normalize.constraints.toMatrix p.numEquations p.numVariables *ᵥ
          toFun x p.numVariables) i - toFun p.normalize.rhs p.numEquations i| =
        |(p.matrix *ᵥ toFun x p.numVariables) i - toFun p.rhs p.numEquations i| := by
      rw [mulVec_normalize, toFun_apply p.normalize.rhs, p.rhs_normalize_sign i.isLt, ← mul_sub,
        abs_mul, p.isSign_sign i, one_mul]
      rfl
    have same : p.normalize.isWithin? above near x = some true ↔
        p.isWithin? above near x = some true := by
      rw [isWithin?_iff_of_height p.numEquations_normalize length,
        isWithin?_iff_of_height rfl length, supNorm_normalize]
      exact and_congr Iff.rfl (forall_congr' fun i => by rw [← residual i]; rfl)
    simpa only [isWithin?, width, if_pos length, Option.some_inj, ← Bool.eq_iff_iff] using same
  · rw [isWithin?, isWithin?, width, if_neg length, if_neg length]

theorem checkBasis_normalize (p : LinearProgram ℚ) (basis : List ℕ) :
    p.normalize.checkBasis basis = p.checkBasis basis := by
  unfold checkBasis
  rw [numEquations_normalize]
  rfl

theorem inverseAt_corresponds (p : LinearProgram ℚ) (basis : List ℕ) :
    (p.inverseAt basis).Corresponds
      (RowMatrix.ColumnSigns fun i : Fin p.numEquations => p.sign i)
      (p.normalize.inverseAt basis) := by
  rw [inverseAt, inverseAt, checkBasis_normalize]
  cases checked : p.checkBasis basis with
  | error fault => exact .error fault
  | ok =>
      obtain ⟨length, below, -⟩ := checkBasis_ok_iff.1 checked
      have selected : p.basisMatrix? basis = some (p.constraints.columnsAt basis) := if_pos below
      have selected' : p.normalize.basisMatrix? basis =
          some (p.normalize.constraints.columnsAt basis) := if_pos below
      have height : (p.constraints.columnsAt basis).height = p.numEquations := List.length_map _
      have height' : (p.normalize.constraints.columnsAt basis).height = p.numEquations :=
        (List.length_map _).trans p.numEquations_normalize
      rw [ok_bind, ok_bind, selected, selected', demand_some, demand_some, ok_bind, ok_bind]
      apply RowMatrix.invert_corresponds p.isSign_sign height length height' length
      ext i k
      have column : (k : ℕ) < basis.length := k.isLt.trans_eq length.symm
      rw [diagonal_mul, RowMatrix.toMatrix_apply, RowMatrix.toMatrix_apply,
        RowMatrix.entry_columnsAt _ _ column, RowMatrix.entry_columnsAt _ _ column,
        p.entry_normalize i.isLt]

theorem toFun_negateAt_negativeRows (p : LinearProgram ℚ) (y : Vec ℚ) (i : Fin p.numEquations) :
    toFun (y.negateAt p.negativeRows) p.numEquations i = p.sign i * toFun y p.numEquations i := by
  rw [toFun_apply, Vec.getD_negateAt, sign]
  simp only [mem_negativeRows_iff, i.isLt, true_and]
  split
  · rw [neg_one_mul]
    rfl
  · rw [one_mul]
    rfl

theorem multipliers_corresponds (p : LinearProgram ℚ) (basis : List ℕ) :
    (p.multipliers basis).Corresponds
      (fun y y' => y.length = p.numEquations ∧ y' = y.negateAt p.negativeRows)
      (p.normalize.multipliers basis) := by
  rw [multipliers, multipliers]
  apply (p.inverseAt_corresponds basis).bind
  intro inverse inverse' columnSigns
  have same : p.normalize.costsOf? basis = p.costsOf? basis := rfl
  rw [same]
  cases p.costsOf? basis with
  | none => exact .error _
  | some costs =>
      rw [demand_some, ok_bind, ok_bind, RowMatrix.vecMul?, RowMatrix.vecMul?, columnSigns.height,
        columnSigns.height']
      by_cases length : costs.length = p.numEquations
      · have lengthY : (RowMatrix.vecMul costs inverse).length = p.numEquations :=
          (RowMatrix.length_vecMul costs).trans columnSigns.width
        have lengthY' : (RowMatrix.vecMul costs inverse').length = p.numEquations :=
          (RowMatrix.length_vecMul costs).trans columnSigns.width'
        rw [if_pos length, if_pos length, demand_some, demand_some]
        refine .ok ⟨lengthY, eq_of_toFun_eq lengthY' (by simpa [Vec.negateAt] using lengthY) ?_⟩
        funext i
        rw [columnSigns.vecMul_apply length, toFun_negateAt_negativeRows]
      · rw [if_neg length, if_neg length]
        exact .error _

theorem reducedCostsFor?_normalize (p : LinearProgram ℚ) {y : Vec ℚ}
    (length : y.length = p.numEquations) :
    p.normalize.reducedCostsFor? (y.negateAt p.negativeRows) = p.reducedCostsFor? y := by
  have height : p.normalize.constraints.height = p.numEquations := p.numEquations_normalize
  have height' : p.constraints.height = p.numEquations := rfl
  have length' : (y.negateAt p.negativeRows).length = p.numEquations := by
    simpa [Vec.negateAt] using length
  have cancelled : toFun (y.negateAt p.negativeRows) p.numEquations ᵥ*
      p.normalize.constraints.toMatrix p.numEquations p.numVariables =
        toFun y p.numEquations ᵥ* p.matrix := by
    funext j
    simp only [vecMul, dotProduct]
    refine Finset.sum_congr rfl fun i _ => ?_
    rw [toFun_negateAt_negativeRows, RowMatrix.toMatrix_apply, p.entry_normalize i.isLt,
      mul_mul_mul_comm, p.sign_mul_self, one_mul]
    rfl
  have products : RowMatrix.vecMul (y.negateAt p.negativeRows) p.normalize.constraints =
      RowMatrix.vecMul y p.constraints := by
    have width : (RowMatrix.vecMul (y.negateAt p.negativeRows) p.normalize.constraints).length =
        p.numVariables := RowMatrix.length_vecMul _
    have width' : (RowMatrix.vecMul y p.constraints).length = p.numVariables :=
      RowMatrix.length_vecMul _
    apply eq_of_toFun_eq width width'
    rw [RowMatrix.toFun_vecMul height length', cancelled]
    exact (RowMatrix.toFun_vecMul height' length p.numVariables).symm
  have cost : p.normalize.cost = p.cost := rfl
  rw [reducedCostsFor?, reducedCostsFor?, RowMatrix.vecMul?, RowMatrix.vecMul?, height, height',
    if_pos length', if_pos length, products, cost]

theorem reducedCosts_normalize (p : LinearProgram ℚ) (basis : List ℕ) :
    p.normalize.reducedCosts basis = p.reducedCosts basis := by
  rw [reducedCosts, reducedCosts]
  apply (p.multipliers_corresponds basis).bind_eq
  rintro y _ ⟨length, rfl⟩
  rw [p.reducedCostsFor?_normalize length]

theorem basicPoint_normalize (p : LinearProgram ℚ) (basis : List ℕ) :
    p.normalize.basicPoint basis = p.basicPoint basis := by
  rw [basicPoint, basicPoint]
  apply (p.inverseAt_corresponds basis).bind_eq
  intro inverse inverse' columnSigns
  have length : p.normalize.rhs.length = p.numEquations :=
    p.normalize.sides_length.trans p.numEquations_normalize
  have products : inverse'.mulVec p.normalize.rhs = inverse.mulVec p.rhs :=
    columnSigns.mulVec_eq p.isSign_sign p.sides_length length fun i => p.rhs_normalize_sign i.isLt
  rw [RowMatrix.mulVec?, RowMatrix.mulVec?, if_pos (length.trans columnSigns.width'.symm),
    if_pos (p.sides_length.trans columnSigns.width.symm), products]
  rfl

/-- Making the right-hand side nonnegative is done after once.  It changes neither which points are
feasible, to any tolerance, nor what belongs to a basis or the fault of a list that is none, but the
multipliers of the negated equations, which are negated too. -/
theorem normalize_preserves (p : LinearProgram ℚ) :
    (∀ b ∈ p.normalize.rhs, 0 ≤ b) ∧
    p.normalize.normalize = p.normalize ∧ p.normalize.negativeRows = [] ∧
    (∀ x tolerance, p.normalize.isFeasible? x tolerance = p.isFeasible? x tolerance) ∧
    ∀ basis,
      (∀ fault, p.normalize.inverseAt basis = .error fault ↔ p.inverseAt basis = .error fault) ∧
      p.normalize.basicPoint basis = p.basicPoint basis ∧
      p.normalize.reducedCosts basis = p.reducedCosts basis ∧
      p.normalize.multipliers basis =
        (p.multipliers basis).map fun y => y.negateAt p.negativeRows := by
  have nonneg := p.rhs_normalize_nonneg
  refine ⟨nonneg, normalize_of_nonneg nonneg, negativeRows_of_nonneg nonneg,
    fun x tolerance => p.isWithin?_normalize _ _ x,
    fun basis => ⟨fun fault => ?_, p.basicPoint_normalize basis,
      p.reducedCosts_normalize basis, ?_⟩⟩
  · exact (p.inverseAt_corresponds basis).error_iff fault
  · exact ((p.multipliers_corresponds basis).mono fun _ _ given => given.2).map_eq

end LinearProgram

end SimplexMethod
