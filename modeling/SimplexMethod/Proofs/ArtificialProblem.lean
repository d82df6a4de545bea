import SimplexMethod.Proofs.PrimalStart
import SimplexMethod.Proofs.StructuredRound

namespace SimplexMethod.LinearProgram
open Matrix Vec Outcome

structure IsArtificial (a p : LinearProgram ℚ) : Prop where
  numEquations_eq : a.numEquations = p.numEquations
  numVariables_eq : a.numVariables = p.numVariables + a.numEquations
  rhs_eq : a.rhs = p.rhs
  entry_eq : ∀ i < a.numEquations, ∀ j < p.numVariables,
    a.constraints.entry i j = p.constraints.entry i j
  entry_artificial : ∀ i < a.numEquations, ∀ k < a.numEquations,
    a.constraints.entry i (p.numVariables + k) = if i = k then 1 else 0
  cost_eq : ∀ j < p.numVariables, a.cost.getD j 0 = 0
  cost_artificial : ∀ k < a.numEquations, a.cost.getD (p.numVariables + k) 0 = 1

theorem Extends.isArtificial {a p : LinearProgram ℚ} (larger : a.Extends p) : a.IsArtificial p := by
  have height := larger.numEquations_eq
  have entry {i : ℕ} (inside : i < a.numEquations) (j : ℕ) :
      a.constraints.entry i j = if j < p.constraints.width then p.constraints.entry i j
        else (RowMatrix.identity p.numEquations : RowMatrix ℚ).entry i (j - p.constraints.width) := by
    have row := inside.trans_eq height
    rw [larger.constraints_eq]
    exact RowMatrix.entry_beside p.constraints (RowMatrix.identity p.numEquations) row
      (by rwa [RowMatrix.height_identity]) j
  refine ⟨height, ?_, larger.rhs_eq, fun i row j below => ?_, fun i row k column => ?_,
    fun j below => ?_, fun k below => ?_⟩
  · rw [larger.numVariables_eq, height]
  · exact (entry row j).trans (if_pos below)
  · have after : ¬p.numVariables + k < p.constraints.width := by
      simp [numVariables]
    refine (entry row (p.numVariables + k)).trans ((if_neg after).trans ?_)
    rw [numVariables, Nat.add_sub_cancel_left]
    exact RowMatrix.entry_identity (row.trans_eq height) (column.trans_eq height)
  · rw [larger.cost_eq]
    simp [List.getElem?_append, below]
  · have inside : k < p.numEquations := below.trans_eq height
    rw [larger.cost_eq]
    simp [inside]

theorem artificial_eq (p : LinearProgram ℚ) : ∃ a, p.artificial = .ok a ∧ a.IsArtificial p := by
  obtain ⟨a, found, larger⟩ := p.artificial_extends
  exact ⟨a, found, larger.isArtificial⟩

theorem sum_split {N n m : ℕ} (size : N = n + m) (f : ℕ → ℚ) :
    ∑ j : Fin N, f j = ∑ j : Fin n, f j + ∑ k : Fin m, f (n + k) := by
  subst size
  simp [Fin.sum_univ_add]

namespace IsArtificial

variable {a p : LinearProgram ℚ}

abbrev given (a p : LinearProgram ℚ) : Matrix (Fin a.numEquations) (Fin p.numVariables) ℚ :=
  p.constraints.toMatrix a.numEquations p.numVariables

theorem sides_eq (artificial : a.IsArtificial p) : a.sides = toFun p.rhs a.numEquations :=
  congrArg (toFun · a.numEquations) artificial.rhs_eq

theorem mulVec_eq (artificial : a.IsArtificial p) (z : Vec ℚ) (i : Fin a.numEquations) :
    (a.matrix *ᵥ toFun z a.numVariables) i =
      (given a p *ᵥ toFun z p.numVariables) i + z.getD (p.numVariables + i) 0 := by
  have split := sum_split artificial.numVariables_eq
    fun j => a.constraints.entry i j * z.getD j 0
  refine split.trans (congrArg₂ (· + ·) ?_ ?_)
  · refine Finset.sum_congr rfl fun j _ => ?_
    exact congrArg (· * z.getD j 0) (artificial.entry_eq i i.isLt j j.isLt)
  · rw [Finset.sum_eq_single i]
    · rw [artificial.entry_artificial i i.isLt i i.isLt, if_pos rfl, one_mul]
    · intro k _ other
      rw [artificial.entry_artificial i i.isLt k k.isLt,
        if_neg fun same => other (Fin.ext same.symm), zero_mul]
    · simp

theorem vecMul_eq (artificial : a.IsArtificial p) (u : Fin a.numEquations → ℚ)
    {j : Fin a.numVariables} (below : (j : ℕ) < p.numVariables) :
    (u ᵥ* a.matrix) j = (u ᵥ* given a p) ⟨j, below⟩ := by
  change ∑ i, u i * a.matrix i j = ∑ i, u i * given a p i ⟨j, below⟩
  refine Finset.sum_congr rfl fun i _ => ?_
  exact congrArg (u i * ·) (artificial.entry_eq i i.isLt j below)

theorem vecMul_artificial (artificial : a.IsArtificial p) (u : Fin a.numEquations → ℚ)
    (k : Fin a.numEquations) {j : Fin a.numVariables} (position : (j : ℕ) = p.numVariables + k) :
    (u ᵥ* a.matrix) j = u k := by
  have entry (i : Fin a.numEquations) : a.matrix i j = if i = k then 1 else 0 := by
    change a.constraints.entry i j = _
    rw [position, artificial.entry_artificial i i.isLt k k.isLt]
    simp [Fin.ext_iff]
  change ∑ i, u i * a.matrix i j = u k
  simp [entry]

theorem costs_apply (artificial : a.IsArtificial p) (j : Fin a.numVariables) :
    a.costs j = if p.numVariables ≤ (j : ℕ) then 1 else 0 := by
  split
  · rename_i above
    obtain ⟨k, same⟩ := Nat.exists_eq_add_of_le above
    have inside : k < a.numEquations := by
      have below := j.isLt
      have width := artificial.numVariables_eq
      omega
    exact (congrArg (a.cost.getD · 0) same).trans (artificial.cost_artificial k inside)
  · rename_i below
    exact artificial.cost_eq j (not_le.1 below)

theorem value_eq (artificial : a.IsArtificial p) (z : Vec ℚ) :
    a.value z = ∑ k : Fin a.numEquations, z.getD (p.numVariables + k) 0 := by
  have split := sum_split artificial.numVariables_eq fun j => a.cost.getD j 0 * z.getD j 0
  refine split.trans ?_
  rw [Finset.sum_eq_zero, zero_add]
  · refine Finset.sum_congr rfl fun k _ => ?_
    rw [artificial.cost_artificial k k.isLt, one_mul]
  · intro j _
    rw [artificial.cost_eq j j.isLt, zero_mul]

theorem value_nonneg (artificial : a.IsArtificial p) {z : Vec ℚ} (nonneg : ∀ value ∈ z, 0 ≤ value) :
    0 ≤ a.value z := by
  rw [artificial.value_eq]
  exact Finset.sum_nonneg fun k _ => getD_nonneg nonneg _

theorem not_ray (artificial : a.IsArtificial p) (d : Vec ℚ) : ¬a.Ray d := fun ray =>
  (artificial.value_nonneg ray.nonneg).not_gt ray.value_neg

theorem extend (artificial : a.IsArtificial p) {x : Vec ℚ} (feasible : p.Feasible x) :
    ∃ z, a.Feasible z ∧ a.value z = 0 := by
  obtain ⟨length, nonneg, equations⟩ := (feasible_iff artificial.numEquations_eq.symm).1 feasible
  have after (k : ℕ) : List.getD (x ++ Vec.zeros a.numEquations) (p.numVariables + k) 0 = 0 := by
    rw [← length, List.getD_append_right _ _ _ _ (Nat.le_add_right _ _), Nat.add_sub_cancel_left]
    exact getD_zeros _ _
  have before : toFun (x ++ Vec.zeros a.numEquations) p.numVariables = toFun x p.numVariables := by
    funext j
    exact List.getD_append _ _ _ _ (j.isLt.trans_eq length.symm)
  refine ⟨x ++ Vec.zeros a.numEquations, ⟨?_, ?_, ?_⟩, ?_⟩
  · rw [List.length_append, length, length_zeros, artificial.numVariables_eq]
  · intro value member
    rcases List.mem_append.1 member with old | new
    · exact nonneg value old
    · exact (List.eq_of_mem_replicate new).ge
  · funext i
    rw [artificial.mulVec_eq, before, equations, after, add_zero, artificial.sides_eq]
  · rw [artificial.value_eq]
    exact Finset.sum_eq_zero fun k _ => after k

theorem restrict (artificial : a.IsArtificial p) {z : Vec ℚ} (feasible : a.Feasible z)
    (zero : a.value z ≤ 0) :
    p.Feasible (z.take p.numVariables) ∧
      ∀ k : Fin a.numEquations, z.getD (p.numVariables + k) 0 = 0 := by
  have none : ∀ k : Fin a.numEquations, z.getD (p.numVariables + k) 0 = 0 := by
    rw [artificial.value_eq] at zero
    have sum := zero.antisymm (Finset.sum_nonneg fun k _ => getD_nonneg feasible.nonneg _)
    intro k
    exact (Finset.sum_eq_zero_iff_of_nonneg fun k _ => getD_nonneg feasible.nonneg _).1 sum k
      (Finset.mem_univ k)
  have taken : toFun (z.take p.numVariables) p.numVariables = toFun z p.numVariables := by
    funext j
    simp [toFun]
  have fits : p.numVariables ≤ z.length := by
    rw [feasible.length, artificial.numVariables_eq]
    exact Nat.le_add_right _ _
  refine ⟨(feasible_iff artificial.numEquations_eq.symm).2 ⟨?_, ?_, ?_⟩, none⟩
  · rw [List.length_take, min_eq_left fits]
  · intro value member
    exact feasible.nonneg value (List.mem_of_mem_take member)
  · funext i
    have equation := congrFun feasible.equations i
    rw [artificial.mulVec_eq, none, add_zero, artificial.sides_eq] at equation
    rw [taken]
    exact equation

theorem getD_eq_zero (artificial : a.IsArtificial p) {z : Vec ℚ} (feasible : a.Feasible z)
    (zero : a.value z ≤ 0) (j : ℕ) (above : p.numVariables ≤ j) : z.getD j 0 = 0 := by
  rcases lt_or_ge j a.numVariables with inside | outside
  · rw [artificial.numVariables_eq] at inside
    have position := (artificial.restrict feasible zero).2 ⟨j - p.numVariables, by omega⟩
    rwa [Nat.add_sub_cancel' above] at position
  · exact getD_of_le (feasible.length.trans_le outside)

theorem start_basis (artificial : a.IsArtificial p) :
    ∃ accepted : a.IsBasis (List.range' p.numVariables a.numEquations), accepted.matrix = 1 := by
  have accepted : a.IsBasis (List.range' p.numVariables a.numEquations) := by
    refine ⟨List.length_range', fun j member => ?_, List.nodup_range'⟩
    rw [artificial.numVariables_eq]
    exact (List.mem_range'_1.1 member).2
  have position (k : Fin a.numEquations) : (accepted.column k : ℕ) = p.numVariables + k := by
    simp [IsBasis.column]
  refine ⟨accepted, ?_⟩
  ext i k
  change a.constraints.entry i (accepted.column k) = _
  rw [position, artificial.entry_artificial i i.isLt k k.isLt, Matrix.one_apply]
  simp [Fin.ext_iff]

end IsArtificial

theorem artificialStart_eq (p : LinearProgram ℚ) (upkeep : Upkeep) (config : Config ℚ)
    (nonneg : ∀ value ∈ p.rhs, 0 ≤ value) :
    ∃ t, p.artificialStart upkeep config = .ok t ∧ t.BasicFeasible ∧ t.problem.IsArtificial p ∧
      t.tolerance = config.tolerance := by
  obtain ⟨a, found, artificial⟩ := p.artificial_eq
  obtain ⟨accepted, one⟩ := artificial.start_basis
  have inverts : (BasisInverse.identity upkeep a.numEquations).Inverts accepted.matrix := by
    rw [one]
    exact BasisInverse.identity_inverts upkeep a.numEquations
  obtain ⟨values, started, basic⟩ := Tableau.startWith_eq accepted inverts config.tolerance
  refine ⟨_, ?_, ⟨basic, fun j => ?_⟩, artificial, rfl⟩
  · rw [artificialStart, require_of fun _ => nonneg, ok_bind, found, ok_bind, ← artificial.numEquations_eq,
      started]
  · by_cases inside : (j : ℕ) ∈ List.range' p.numVariables a.numEquations
    · obtain ⟨i, rfl⟩ := accepted.mem_range_iff.2 inside
      have zero : ∀ j ∉ Set.range accepted.column, toFun values a.numVariables j = 0 :=
        fun j outside => basic.zero j fun member => outside (accepted.mem_range_iff.2 member)
      have values_eq := basicValues_eq (one_mul accepted.matrix |>.trans one)
        accepted.column_injective zero basic.equations
      rw [one_mulVec] at values_eq
      refine le_of_le_of_eq ?_ (congrFun values_eq i).symm
      rw [artificial.sides_eq]
      exact getD_nonneg nonneg i
    · exact (basic.zero j inside).ge

end SimplexMethod.LinearProgram
