import SimplexMethod.Proofs.Cycling

namespace SimplexMethod
open Matrix

variable {m n : ℕ} {A : Matrix (Fin m) (Fin n) ℚ} {b : Fin m → ℚ} {c : Fin n → ℚ}

namespace Vertex

abbrev tableauRow (v : Vertex A b) (row : Fin m) : Fin n → ℚ :=
  v.inverse row ᵥ* A

theorem tableauRow_column (v : Vertex A b) (row i : Fin m) :
    v.tableauRow row (v.column i) = if row = i then 1 else 0 :=
  row_basis v.mul_eq_one row i

theorem tableauRow_dotProduct (v : Vertex A b) (row : Fin m) {x : Fin n → ℚ}
    (equations : A *ᵥ x = b) : v.tableauRow row ⬝ᵥ x = v.point (v.column row) := by
  have value : v.point (v.column row) = (v.inverse *ᵥ b) row :=
    congrFun (basicValues_eq v.mul_eq_one v.injective v.zero v.equations) row
  rw [← dotProduct_mulVec, equations, value]
  rfl

theorem reducedCosts_dotProduct_point (v : Vertex A b) : v.reducedCosts c ⬝ᵥ v.point = 0 := by
  apply Finset.sum_eq_zero
  intro j _
  by_cases inside : j ∈ v.members
  · rw [reducedCosts_of_mem inside, zero_mul]
  · rw [v.zero j inside, mul_zero]

theorem reducedCosts_dotProduct (v w : Vertex A b) :
    v.reducedCosts c ⬝ᵥ w.point = c ⬝ᵥ w.point - c ⬝ᵥ v.point := by
  have own := v.reducedCosts_dotProduct_point (c := c)
  rw [reduced_dotProduct, v.equations] at own
  rw [reduced_dotProduct, w.equations]
  linarith

end Vertex

structure DualTurn (c : Fin n → ℚ) (v w : Vertex A b) (entering : Fin n) (row : Fin m) (step : ℚ) :
    Prop where
  outside : entering ∉ v.members
  negative : v.point (v.column row) < 0
  nonneg : 0 ≤ v.reducedCosts c
  falls : v.tableauRow row entering < 0
  step_eq : step = v.reducedCosts c entering / -v.tableauRow row entering
  first : ∀ k < entering, k ∉ v.members → v.tableauRow row k < 0 →
    step < v.reducedCosts c k / -v.tableauRow row k
  moved : w.reducedCosts c = v.reducedCosts c + step • v.tableauRow row
  column_eq : w.column = Function.update v.column row entering

namespace DualTurn

variable {v w : Vertex A b} {entering : Fin n} {row : Fin m} {step : ℚ}

theorem exchange (turn : DualTurn c v w entering row step) :
    Exchange v.column w.column entering row :=
  ⟨v.injective, turn.outside, turn.column_eq⟩

theorem step_nonneg (turn : DualTurn c v w entering row step) : 0 ≤ step := by
  rw [turn.step_eq]
  exact div_nonneg (turn.nonneg entering) (neg_nonneg.2 turn.falls.le)

theorem value_eq (turn : DualTurn c v w entering row step) :
    c ⬝ᵥ w.point = c ⬝ᵥ v.point - step * v.point (v.column row) := by
  have before := w.reducedCosts_dotProduct v (c := c)
  rw [turn.moved, add_dotProduct, smul_dotProduct, v.reducedCosts_dotProduct_point, smul_eq_mul,
    v.tableauRow_dotProduct row v.equations, zero_add] at before
  linarith

theorem value_le (turn : DualTurn c v w entering row step) : c ⬝ᵥ v.point ≤ c ⬝ᵥ w.point := by
  rw [turn.value_eq]
  have change := mul_nonpos_of_nonneg_of_nonpos turn.step_nonneg turn.negative.le
  linarith

theorem step_eq_zero (turn : DualTurn c v w entering row step)
    (constant : c ⬝ᵥ w.point = c ⬝ᵥ v.point) : step = 0 := by
  rw [turn.value_eq, sub_eq_self] at constant
  exact (mul_eq_zero.1 constant).resolve_right turn.negative.ne

theorem exists_opposed (turn : DualTurn c v w entering row step) (u : Vertex A b) :
    ∃ j ∈ u.members, v.tableauRow row j * u.point j < 0 := by
  -- a row is an equation, so it comes to the same negative value at every vertex
  have falls : ∑ j, v.tableauRow row j * u.point j < ∑ _ : Fin n, 0 := by
    rw [Finset.sum_const_zero]
    exact (v.tableauRow_dotProduct row u.equations).trans_lt turn.negative
  obtain ⟨j, -, negative⟩ := Finset.exists_lt_of_sum_lt falls
  refine ⟨j, ?_, negative⟩
  by_contra outside
  rw [u.zero j outside, mul_zero] at negative
  exact lt_irrefl 0 negative

theorem leaves_of_mem (turn : DualTurn c v w entering row step) {j : Fin n}
    (inside : j ∈ v.members) (entry : v.tableauRow row j ≠ 0) :
    v.tableauRow row j = 1 ∧ j ∉ w.members := by
  obtain ⟨i, rfl⟩ := inside
  have here : row = i := by
    by_contra other
    rw [v.tableauRow_column, if_neg other] at entry
    exact entry rfl
  subst here
  refine ⟨by rw [v.tableauRow_column, if_pos rfl], fun stays => ?_⟩
  rcases turn.exchange.mem_iff.1 stays with enters | ⟨other, -⟩
  · exact turn.outside ⟨row, enters⟩
  · exact other rfl

end DualTurn

section DualRound

variable {v : ℕ → Vertex A b} {entering : ℕ → Fin n} {row : ℕ → Fin m} {step : ℕ → ℚ}
  {first last : ℕ}

structure DualRound (c : Fin n → ℚ) (v : ℕ → Vertex A b) (entering : ℕ → Fin n) (row : ℕ → Fin m)
    (step : ℕ → ℚ) (first last : ℕ) : Prop where
  turn : ∀ k, DualTurn c (v k) (v (k + 1)) (entering k) (row k) (step k)
  before : first < last
  closed : (v first).members = (v last).members

namespace DualRound

theorem exchanges (round : DualRound c v entering row step first last) :
    ExchangeRound (fun k => (v k).column) entering row first last :=
  ⟨fun k => (round.turn k).exchange, round.before, round.closed⟩

theorem step_eq_zero (round : DualRound c v entering row step first last) {k : ℕ} (low : first ≤ k)
    (high : k < last) : step k = 0 := by
  have rises : Monotone fun k => c ⬝ᵥ (v k).point :=
    monotone_nat_of_le_succ fun k => (round.turn k).value_le
  have ends : c ⬝ᵥ (v first).point = c ⬝ᵥ (v last).point := by
    rw [Vertex.point_eq round.closed]
  apply (round.turn k).step_eq_zero
  apply le_antisymm _ (round.turn k).value_le
  calc c ⬝ᵥ (v (k + 1)).point ≤ c ⬝ᵥ (v last).point := rises high
    _ = c ⬝ᵥ (v first).point := ends.symm
    _ ≤ c ⬝ᵥ (v k).point := rises low

theorem reducedCosts_eq (round : DualRound c v entering row step first last) {k : ℕ}
    (low : first ≤ k) (high : k ≤ last) : (v k).reducedCosts c = (v first).reducedCosts c := by
  induction k, low using Nat.le_induction with
  | base => rfl
  | succ k low ih =>
      rw [(round.turn k).moved, round.step_eq_zero low high, zero_smul, add_zero]
      exact ih (Nat.le_of_lt high)

theorem reducedCosts_eq_zero (round : DualRound c v entering row step first last) {j : Fin n}
    {k l : ℕ} (lowK : first ≤ k) (highK : k ≤ last) (inside : j ∈ (v k).members) (lowL : first ≤ l)
    (highL : l ≤ last) : (v l).reducedCosts c j = 0 := by
  rw [round.reducedCosts_eq lowL highL, ← round.reducedCosts_eq lowK highK]
  exact Vertex.reducedCosts_of_mem inside

theorem entry_nonneg (round : DualRound c v entering row step first last) {k : ℕ} (low : first ≤ k)
    (high : k < last) {j : Fin n} (smaller : j < entering k) (outside : j ∉ (v k).members)
    (free : (v k).reducedCosts c j = 0) : 0 ≤ (v k).tableauRow (row k) j := by
  -- otherwise the step would reach it no later than the column that enters
  refine not_lt.1 fun sinks => ?_
  have late := (round.turn k).first j smaller outside sinks
  rw [free, zero_div, round.step_eq_zero low high] at late
  exact lt_irrefl 0 late

theorem exists_passed_over (round : DualRound c v entering row step first last) :
    ∃ k, first ≤ k ∧ k < last ∧ ∃ i, (v k).point ((v k).column i) < 0 ∧
      (v k).column i < (v k).column (row k) := by
  -- the largest column that enters during the round, once as it enters and once as it leaves
  obtain ⟨k₁, k₂, low₁, high₁, low₂, high₂, leaves, largest⟩ := round.exchanges.exists_largest
  have enters := round.turn k₁
  have turn := round.turn k₂
  obtain ⟨j, inside₂, opposed⟩ := enters.exists_opposed (v k₂)
  have other : j ≠ entering k₁ := by
    intro same
    have negative := turn.negative
    rw [leaves, ← same] at negative
    have falls := enters.falls
    rw [← same] at falls
    exact absurd opposed (mul_pos_of_neg_of_neg falls negative).not_gt
  have entry : (v k₁).tableauRow (row k₁) j ≠ 0 := by
    intro zero
    rw [zero, zero_mul] at opposed
    exact lt_irrefl 0 opposed
  have changes : ∃ k, first ≤ k ∧ k ≤ last ∧ j ∉ (v k).members := by
    by_cases inside₁ : j ∈ (v k₁).members
    · exact ⟨k₁ + 1, Nat.le_succ_of_le low₁, high₁, (enters.leaves_of_mem inside₁ entry).2⟩
    · exact ⟨k₁, low₁, high₁.le, inside₁⟩
  have smaller : j < entering k₁ := by
    obtain ⟨k, low, high, outside⟩ := changes
    apply lt_of_le_of_ne _ other
    exact round.exchanges.le_of_changes largest low high outside low₂ high₂.le inside₂
  have positive : 0 < (v k₁).tableauRow (row k₁) j := by
    by_cases inside₁ : j ∈ (v k₁).members
    · rw [(enters.leaves_of_mem inside₁ entry).1]
      exact one_pos
    · have free := round.reducedCosts_eq_zero low₂ high₂.le inside₂ low₁ high₁.le
      exact lt_of_le_of_ne (round.entry_nonneg low₁ high₁ smaller inside₁ free) entry.symm
  have negative := neg_of_mul_neg_right opposed positive.le
  obtain ⟨i, rfl⟩ := inside₂
  exact ⟨k₂, low₂, high₂, i, negative, by rwa [leaves]⟩

end DualRound

theorem exists_negative_passed_over_after
    (turn : ∀ k, DualTurn c (v k) (v (k + 1)) (entering k) (row k) (step k)) (start : ℕ) :
    ∃ k, start ≤ k ∧ ∃ i, (v k).point ((v k).column i) < 0 ∧
      (v k).column i < (v k).column (row k) := by
  obtain ⟨first, last, late, round⟩ := exists_exchangeRound (fun k => (turn k).exchange) start
  have round : DualRound c v entering row step first last := ⟨turn, round.before, round.closed⟩
  obtain ⟨k, low, -, passed⟩ := round.exists_passed_over
  exact ⟨k, late.trans low, passed⟩

end DualRound

end SimplexMethod
