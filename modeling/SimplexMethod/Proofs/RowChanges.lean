import SimplexMethod.Proofs.Problem
import SimplexMethod.Proofs.Redundancy

namespace SimplexMethod
open Matrix Vec

def kept (bound : ℕ) (positions : List ℕ) : List ℕ :=
  (List.range bound).filter (· ∉ positions)

theorem mem_kept_iff {bound : ℕ} {positions : List ℕ} {i : ℕ} :
    i ∈ kept bound positions ↔ i < bound ∧ i ∉ positions := by
  simp [kept]

theorem kept_nodup (bound : ℕ) (positions : List ℕ) : (kept bound positions).Nodup :=
  List.nodup_range.filter _

theorem filter_mem_eq {bound : ℕ} {positions : List ℕ} (selection : IsSelection positions bound) :
    (List.range bound).filter (· ∈ positions) = positions := by
  obtain ⟨sorted, below⟩ := selection
  have same : ((List.range bound).filter (· ∈ positions)).Perm positions := by
    apply (List.perm_ext_iff_of_nodup (List.nodup_range.filter _) sorted.nodup).2
    intro i
    simp only [List.mem_filter, List.mem_range, decide_eq_true_eq, and_iff_right_iff_imp]
    exact below i
  exact same.eq_of_pairwise' (List.pairwise_lt_range.filter _) sorted

theorem length_kept {bound : ℕ} {positions : List ℕ} (selection : IsSelection positions bound) :
    (kept bound positions).length + positions.length = bound := by
  have parts := (List.filter_append_perm (· ∈ positions) (List.range bound)).length_eq
  have others : ((List.range bound).filter fun i => !decide (i ∈ positions)) =
      kept bound positions := List.filter_congr fun i _ => by simp
  rw [List.length_append, filter_mem_eq selection, List.length_range, others] at parts
  omega

theorem kept_kept {bound : ℕ} {positions : List ℕ} (selection : IsSelection positions bound) :
    kept bound (kept bound positions) = positions := by
  refine Eq.trans (List.filter_congr fun i member => ?_) (filter_mem_eq selection)
  have below := List.mem_range.1 member
  simp [mem_kept_iff, below]

theorem dropPositions_eq {β : Type} (entries : List β) (positions : List ℕ) (d : β) :
    dropPositions entries positions =
      (kept entries.length positions).map fun i => entries.getD i d := by
  have indexed : entries.zipIdx =
      (List.range entries.length).map fun i => (entries.getD i d, i) := by
    apply List.ext_getElem
    · simp
    · intro i inLeft inRight
      have inside : i < entries.length := by simpa using inLeft
      simp [inside]
  rw [dropPositions, indexed, List.filter_map, List.map_map]
  rfl

theorem getD_dropPositions {β : Type} (entries : List β) (positions : List ℕ) (d : β) {k : ℕ}
    (inside : k < (kept entries.length positions).length) :
    (dropPositions entries positions).getD k d =
      entries.getD (kept entries.length positions)[k] d := by
  rw [dropPositions_eq entries positions d]
  simp [inside]

theorem dropPositions_map {β γ : Type} (f : β → γ) (entries : List β) (positions : List ℕ) :
    dropPositions (entries.map f) positions = (dropPositions entries positions).map f := by
  simp only [dropPositions, List.zipIdx_map, List.filter_map, List.map_map]
  rfl

theorem dropPositions_sublist {β : Type} (entries : List β) (positions : List ℕ) :
    (dropPositions entries positions).Sublist entries := by
  have part := (List.filter_sublist (p := fun entry => decide (entry.2 ∉ positions))
    (l := entries.zipIdx)).map Prod.fst
  rwa [List.zipIdx_map_fst] at part

theorem perm_dropPositions {β : Type} (entries : List β) {positions : List ℕ}
    (selection : IsSelection positions entries.length) (d : β) :
    (positions.map (fun i => entries.getD i d) ++ dropPositions entries positions).Perm entries := by
  have all : (List.range entries.length).map (fun i => entries.getD i d) = entries := by
    apply List.ext_getElem
    · simp
    · intro i inLeft inRight
      simp [inRight]
  have parts := List.filter_append_perm (· ∈ positions) (List.range entries.length)
  have others : ((List.range entries.length).filter fun i => !decide (i ∈ positions)) =
      kept entries.length positions := List.filter_congr fun i _ => by simp
  rw [filter_mem_eq selection, others] at parts
  have mapped := parts.map fun i => entries.getD i d
  rwa [List.map_append, all, ← dropPositions_eq] at mapped

namespace LinearProgram

variable {p : LinearProgram ℚ} {rows : List ℕ}

theorem numEquations_dropRows (p : LinearProgram ℚ) (rows : List ℕ) :
    (p.dropRows rows).numEquations = (kept p.numEquations rows).length := by
  have drop := congrArg List.length (dropPositions_eq p.constraints.rows rows [])
  rw [List.length_map] at drop
  exact drop

theorem mem_rhs_of_dropRows {value : ℚ} (member : value ∈ (p.dropRows rows).rhs) :
    value ∈ p.rhs := by
  obtain ⟨pair, inside, rfl⟩ := List.mem_map.1 member
  exact List.fst_mem_of_mem_zipIdx (List.mem_filter.1 inside).1

def keptRow (p : LinearProgram ℚ) (rows : List ℕ) (k : Fin (p.dropRows rows).numEquations) :
    Fin p.numEquations :=
  ⟨(kept p.numEquations rows).get (k.cast (p.numEquations_dropRows rows)),
    (mem_kept_iff.1 (List.get_mem _ _)).1⟩

theorem keptRow_injective (p : LinearProgram ℚ) (rows : List ℕ) :
    Function.Injective (p.keptRow rows) := by
  intro i k same
  have positions := congrArg (fun j : Fin p.numEquations => (j : ℕ)) same
  exact Fin.ext ((List.Nodup.getElem_inj_iff (kept_nodup _ _)).1 positions)

theorem mem_range_keptRow_iff (k : Fin p.numEquations) :
    k ∈ Set.range (p.keptRow rows) ↔ (k : ℕ) ∉ rows := by
  constructor
  · intro given
    obtain ⟨i, rfl⟩ := given
    exact (mem_kept_iff.1 (List.get_mem _ _)).2
  · intro outside
    obtain ⟨i, inside, same⟩ := List.getElem_of_mem (mem_kept_iff.2 ⟨k.isLt, outside⟩)
    exact ⟨⟨i, inside.trans_eq (p.numEquations_dropRows rows).symm⟩, Fin.ext same⟩

theorem matrix_dropRows (p : LinearProgram ℚ) (rows : List ℕ) :
    (p.dropRows rows).matrix = p.matrix.submatrix (p.keptRow rows) id := by
  ext k j
  have inside := (k.cast (p.numEquations_dropRows rows)).isLt
  have row : (p.dropRows rows).constraints.row k = p.constraints.row (p.keptRow rows k) :=
    getD_dropPositions p.constraints.rows rows (Vec.zeros p.constraints.width) inside
  exact congrArg (fun row : Vec ℚ => row.getD j 0) row

theorem sides_dropRows (p : LinearProgram ℚ) (rows : List ℕ) :
    (p.dropRows rows).sides = p.sides ∘ p.keptRow rows := by
  funext k
  have inside := (k.cast (p.numEquations_dropRows rows)).isLt
  have length : p.rhs.length = p.numEquations := p.sides_length
  have entry := getD_dropPositions p.rhs rows 0 (by rw [length]; exact inside)
  simp only [length] at entry
  exact entry

theorem dropRows_nil (p : LinearProgram ℚ) : p.dropRows [] = p := by
  have all {β : Type} (entries : List β) : dropPositions entries [] = entries := by
    simp [dropPositions]
  cases p with
  | mk cost constraints rhs =>
      cases constraints
      simp [dropRows, RowMatrix.dropRows, all]

abbrev Redundant (p : LinearProgram ℚ) (rows : List ℕ) : Prop :=
  SimplexMethod.Redundant p.matrix p.sides rows

theorem Redundant.feasible_dropRows_iff (redundant : p.Redundant rows) (x : Vec ℚ) :
    (p.dropRows rows).Feasible x ↔ p.Feasible x := by
  have equations : (p.dropRows rows).matrix *ᵥ toFun x p.numVariables = (p.dropRows rows).sides ↔
      p.matrix *ᵥ toFun x p.numVariables = p.sides := by
    rw [matrix_dropRows, sides_dropRows]
    constructor
    · intro kept
      apply redundant.mulVec_eq
      intro k outside
      obtain ⟨i, rfl⟩ := (mem_range_keptRow_iff k).2 outside
      exact congrFun kept i
    · intro all
      funext i
      exact congrFun all (p.keptRow rows i)
  exact ⟨fun feasible => ⟨feasible.length, feasible.nonneg, equations.1 feasible.equations⟩,
    fun feasible => ⟨feasible.length, feasible.nonneg, equations.2 feasible.equations⟩⟩

theorem Redundant.ray (redundant : p.Redundant rows) {d : Vec ℚ} (ray : (p.dropRows rows).Ray d) :
    p.Ray d := by
  refine ⟨ray.length, ray.nonneg, redundant.mulVec_eq_zero fun k outside => ?_, ray.value_neg⟩
  have equations := ray.equations
  rw [matrix_dropRows] at equations
  obtain ⟨i, rfl⟩ := (mem_range_keptRow_iff k).2 outside
  exact congrFun equations i

theorem Redundant.length_add_rank (redundant : p.Redundant rows) :
    rows.length + p.matrix.rank = p.numEquations := by
  rw [redundant.rank_eq (p.keptRow_injective rows) mem_range_keptRow_iff,
    numEquations_dropRows, add_comm]
  exact length_kept redundant.selection

theorem Redundant.eq_nil (redundant : p.Redundant rows) {more : List ℕ}
    (again : (p.dropRows rows).Redundant more) : more = [] := by
  apply List.eq_nil_iff_forall_not_mem.2
  intro r member
  have inside := again.selection.2 r member
  obtain ⟨w, one, -, vanishes, -⟩ := again.dependent ⟨r, inside⟩ member
  rw [matrix_dropRows] at vanishes
  have zero := redundant.kept_independent (p.keptRow_injective rows)
    mem_range_keptRow_iff vanishes
  rw [zero] at one
  exact zero_ne_one one

theorem numEquations_normalize {α : Type} [Scalar α] (p : LinearProgram α) :
    p.normalize.numEquations = p.numEquations := by
  have fits : p.rhs.length = p.constraints.rows.length := p.rhs_length
  simp [numEquations, RowMatrix.height, normalize, fits]

theorem row_normalize {α : Type} [Scalar α] (p : LinearProgram α) {i : ℕ}
    (inside : i < p.numEquations) : p.normalize.constraints.row i =
      if p.rhs.getD i 0 < 0 then Vec.scale (p.constraints.row i) (-1) else p.constraints.row i := by
  have inRhs : i < p.rhs.length := inside.trans_eq p.rhs_length.symm
  apply RowMatrix.row_eq_of_getElem?
  simp [normalize, List.getElem?_zipWith, RowMatrix.getElem?_rows (a := p.constraints) inside, inRhs]

theorem mem_negativeRows_iff {α : Type} [Scalar α] {p : LinearProgram α} {i : ℕ} :
    i ∈ p.negativeRows ↔ i < p.numEquations ∧ p.rhs.getD i 0 < 0 := by
  simp [negativeRows]

theorem rhs_normalize {α : Type} [Scalar α] (p : LinearProgram α) {i : ℕ}
    (inside : i < p.numEquations) : p.normalize.rhs.getD i 0 =
      if p.rhs.getD i 0 < 0 then -p.rhs.getD i 0 else p.rhs.getD i 0 := by
  have inRhs : i < p.rhs.length := inside.trans_eq p.rhs_length.symm
  simp [normalize, inRhs]

def sign (p : LinearProgram ℚ) (i : ℕ) : ℚ := if p.rhs.getD i 0 < 0 then -1 else 1

theorem sign_mul_self (p : LinearProgram ℚ) (i : ℕ) : p.sign i * p.sign i = 1 := by
  unfold sign
  split <;> norm_num

theorem rhs_normalize_sign (p : LinearProgram ℚ) {i : ℕ} (inside : i < p.numEquations) :
    p.normalize.rhs.getD i 0 = p.sign i * p.rhs.getD i 0 := by
  rw [p.rhs_normalize inside, sign]
  split <;> ring

theorem rhs_normalize_nonneg (p : LinearProgram ℚ) : ∀ value ∈ p.normalize.rhs, 0 ≤ value := by
  intro value member
  obtain ⟨b, -, rfl⟩ := List.mem_map.1 member
  split
  · rename_i negative
    exact neg_nonneg.2 negative.le
  · rename_i nonneg
    exact not_lt.1 nonneg

theorem entry_normalize (p : LinearProgram ℚ) {i : ℕ} (inside : i < p.numEquations) (j : ℕ) :
    p.normalize.constraints.entry i j = p.sign i * p.constraints.entry i j := by
  rw [RowMatrix.entry, p.row_normalize inside, sign]
  split
  · rw [getD_scale, mul_comm]
    rfl
  · rw [one_mul]
    rfl

theorem Redundant.of_normalize (redundant : p.normalize.Redundant rows) : p.Redundant rows := by
  have viewed : SimplexMethod.Redundant
      (p.normalize.constraints.toMatrix p.normalize.numEquations p.numVariables)
      (toFun p.normalize.rhs p.normalize.numEquations) rows := redundant
  rw [numEquations_normalize] at viewed
  exact viewed.of_signs (fun i => p.sign_mul_self i) (fun i j => p.entry_normalize i.isLt j)
    fun i => p.rhs_normalize_sign i.isLt

theorem mulVec_normalize (p : LinearProgram ℚ) (x : Fin p.numVariables → ℚ)
    (i : Fin p.numEquations) :
    (p.normalize.constraints.toMatrix p.numEquations p.numVariables *ᵥ x) i =
      p.sign i * (p.matrix *ᵥ x) i := by
  simp only [mulVec, dotProduct, Finset.mul_sum]
  refine Finset.sum_congr rfl fun j _ => ?_
  rw [RowMatrix.toMatrix_apply, p.entry_normalize i.isLt, mul_assoc]
  rfl

theorem sign_cancel (p : LinearProgram ℚ) (i : ℕ) {a b : ℚ} :
    p.sign i * a = p.sign i * b ↔ a = b := by
  have nonzero : p.sign i ≠ 0 := left_ne_zero_of_mul_eq_one (p.sign_mul_self i)
  exact mul_right_inj' nonzero

theorem feasible_normalize_iff (p : LinearProgram ℚ) (x : Vec ℚ) :
    p.normalize.Feasible x ↔ p.Feasible x := by
  have equations : p.normalize.constraints.toMatrix p.numEquations p.numVariables *ᵥ
      toFun x p.numVariables = toFun p.normalize.rhs p.numEquations ↔
        p.matrix *ᵥ toFun x p.numVariables = p.sides := by
    rw [funext_iff, funext_iff]
    refine forall_congr' fun i => ?_
    rw [mulVec_normalize, toFun_apply p.normalize.rhs, p.rhs_normalize_sign i.isLt, sign_cancel]
    rfl
  rw [feasible_iff (numEquations_normalize p), feasible_iff rfl]
  exact and_congr_right fun _ => and_congr_right fun _ => equations

theorem ray_of_normalize {d : Vec ℚ} (ray : p.normalize.Ray d) : p.Ray d := by
  have viewed : p.normalize.constraints.toMatrix p.normalize.numEquations p.numVariables *ᵥ
      toFun d p.numVariables = 0 := ray.equations
  rw [numEquations_normalize] at viewed
  refine ⟨ray.length, ray.nonneg, funext fun i => ?_, ray.value_neg⟩
  have entry := congrFun viewed i
  rw [mulVec_normalize, Pi.zero_apply, ← mul_zero (p.sign i)] at entry
  exact (p.sign_cancel i).1 entry

end LinearProgram

end SimplexMethod
