import SimplexMethod.Proofs.ColumnExchange
import SimplexMethod.Proofs.Dictionary

/-!
# Rounds of pivots

A sequence of pivots without end comes back to the columns of an earlier basis.  In between the
point does not move.  If the entering column is always the profitable one of least index, some pivot
of the round passes over a smaller column that could have left just as well.
-/

namespace SimplexMethod
open Matrix

variable {m n : ℕ} {A : Matrix (Fin m) (Fin n) ℚ} {b : Fin m → ℚ} {c : Fin n → ℚ}

structure Vertex (A : Matrix (Fin m) (Fin n) ℚ) (b : Fin m → ℚ) where
  column : Fin m → Fin n
  inverse : Matrix (Fin m) (Fin m) ℚ
  point : Fin n → ℚ
  injective : Function.Injective column
  mul_eq_one : inverse * A.submatrix id column = 1
  zero : ∀ j ∉ Set.range column, point j = 0
  equations : A *ᵥ point = b

namespace Vertex

abbrev members (v : Vertex A b) : Set (Fin n) := Set.range v.column

abbrev reducedCosts (v : Vertex A b) (c : Fin n → ℚ) : Fin n → ℚ :=
  reduced A c (multipliersOf c v.column v.inverse)

abbrev expressed (v : Vertex A b) (j : Fin n) : Fin m → ℚ :=
  v.inverse *ᵥ A.col j

abbrev edge (v : Vertex A b) (j : Fin n) : Fin n → ℚ :=
  SimplexMethod.edge A v.column v.inverse j

theorem point_eq {v w : Vertex A b} (same : v.members = w.members) : v.point = w.point := by
  apply eq_of_basic v.mul_eq_one v.injective v.zero v.equations _ w.equations
  intro j outside
  change j ∉ v.members at outside
  rw [same] at outside
  exact w.zero j outside

theorem edge_self {v : Vertex A b} {j : Fin n} (outside : j ∉ v.members) : v.edge j j = 1 :=
  SimplexMethod.edge_self outside

theorem edge_column {v : Vertex A b} {j : Fin n} (outside : j ∉ v.members) (i : Fin m) :
    v.edge j (v.column i) = -v.expressed j i :=
  edge_basis outside v.injective i

theorem edge_of_notMem {v : Vertex A b} {j k : Fin n} (outside : k ∉ v.members) (other : k ≠ j) :
    v.edge j k = 0 :=
  SimplexMethod.edge_of_notMem outside other

theorem reducedCosts_of_mem {v : Vertex A b} {j : Fin n} (inside : j ∈ v.members) :
    v.reducedCosts c j = 0 := by
  obtain ⟨i, rfl⟩ := inside
  exact reduced_basis v.mul_eq_one i

end Vertex

structure Turn (c : Fin n → ℚ) (v w : Vertex A b) (entering : Fin n) (row : Fin m) (step : ℚ) :
    Prop where
  outside : entering ∉ v.members
  falls : v.reducedCosts c entering < 0
  least : ∀ k < entering, k ∉ v.members → 0 ≤ v.reducedCosts c k
  direction : 0 < v.expressed entering row
  nonneg : 0 ≤ step
  moved : w.point = v.point + step • v.edge entering
  column_eq : w.column = Function.update v.column row entering

namespace Turn

variable {v w : Vertex A b} {entering : Fin n} {row : Fin m} {step : ℚ}

theorem exchange (turn : Turn c v w entering row step) :
    Exchange v.column w.column entering row :=
  ⟨v.injective, turn.outside, turn.column_eq⟩

theorem edge_leaving_neg (turn : Turn c v w entering row step) :
    v.edge entering (v.column row) < 0 := by
  rw [Vertex.edge_column turn.outside, neg_lt_zero]
  exact turn.direction

theorem exists_opposed (turn : Turn c v w entering row step) (u : Vertex A b) :
    ∃ j ∉ u.members, u.reducedCosts c j * v.edge entering j < 0 := by
  -- the reduced costs of every vertex charge the edge just the same
  have same : u.reducedCosts c ⬝ᵥ v.edge entering = v.reducedCosts c entering := by
    rw [reduced_dotProduct, mulVec_edge v.mul_eq_one, dotProduct_zero, sub_zero, dotProduct_edge]
  have falls : ∑ j, u.reducedCosts c j * v.edge entering j < ∑ _ : Fin n, 0 := by
    rw [Finset.sum_const_zero]
    exact same.trans_lt turn.falls
  obtain ⟨j, -, negative⟩ := Finset.exists_lt_of_sum_lt falls
  refine ⟨j, fun inside => ?_, negative⟩
  rw [Vertex.reducedCosts_of_mem inside, zero_mul] at negative
  exact lt_irrefl 0 negative

theorem value_eq (turn : Turn c v w entering row step) :
    c ⬝ᵥ w.point = c ⬝ᵥ v.point + step * v.reducedCosts c entering := by
  rw [turn.moved, dotProduct_add, dotProduct_smul, dotProduct_edge, smul_eq_mul]

theorem value_le (turn : Turn c v w entering row step) : c ⬝ᵥ w.point ≤ c ⬝ᵥ v.point := by
  rw [turn.value_eq]
  have change := mul_nonpos_of_nonneg_of_nonpos turn.nonneg turn.falls.le
  linarith

theorem step_eq_zero (turn : Turn c v w entering row step)
    (constant : c ⬝ᵥ w.point = c ⬝ᵥ v.point) : step = 0 := by
  rw [turn.value_eq, add_eq_left] at constant
  exact (mul_eq_zero.1 constant).resolve_right turn.falls.ne

end Turn

section Round

variable {v : ℕ → Vertex A b} {entering : ℕ → Fin n} {row : ℕ → Fin m} {step : ℕ → ℚ}
  {first last : ℕ}

structure Round (c : Fin n → ℚ) (v : ℕ → Vertex A b) (entering : ℕ → Fin n) (row : ℕ → Fin m)
    (step : ℕ → ℚ) (first last : ℕ) : Prop where
  turn : ∀ k, Turn c (v k) (v (k + 1)) (entering k) (row k) (step k)
  before : first < last
  closed : (v first).members = (v last).members

namespace Round

theorem step_eq_zero (round : Round c v entering row step first last) {k : ℕ} (low : first ≤ k)
    (high : k < last) : step k = 0 := by
  have falls : Antitone fun k => c ⬝ᵥ (v k).point :=
    antitone_nat_of_succ_le fun k => (round.turn k).value_le
  have ends : c ⬝ᵥ (v first).point = c ⬝ᵥ (v last).point := by
    rw [Vertex.point_eq round.closed]
  apply (round.turn k).step_eq_zero
  apply le_antisymm (round.turn k).value_le
  calc c ⬝ᵥ (v k).point ≤ c ⬝ᵥ (v first).point := falls low
    _ = c ⬝ᵥ (v last).point := ends
    _ ≤ c ⬝ᵥ (v (k + 1)).point := falls high

theorem point_eq (round : Round c v entering row step first last) {k : ℕ} (low : first ≤ k)
    (high : k ≤ last) : (v k).point = (v first).point := by
  induction k, low using Nat.le_induction with
  | base => rfl
  | succ k low ih =>
      rw [(round.turn k).moved, round.step_eq_zero low high, zero_smul, add_zero]
      exact ih (Nat.le_of_lt high)

theorem exchanges (round : Round c v entering row step first last) :
    ExchangeRound (fun k => (v k).column) entering row first last :=
  ⟨fun k => (round.turn k).exchange, round.before, round.closed⟩

theorem point_eq_zero (round : Round c v entering row step first last) {j : Fin n} {k l : ℕ}
    (lowK : first ≤ k) (highK : k ≤ last) (outside : j ∉ (v k).members) (lowL : first ≤ l)
    (highL : l ≤ last) : (v l).point j = 0 := by
  rw [round.point_eq lowL highL, ← round.point_eq lowK highK]
  exact (v k).zero j outside

theorem exists_passed_over (round : Round c v entering row step first last) :
    ∃ k, first ≤ k ∧ k < last ∧ ∃ i, 0 < (v k).expressed (entering k) i ∧
      (v k).point ((v k).column i) / (v k).expressed (entering k) i = step k ∧
      (v k).column i < (v k).column (row k) := by
  -- the largest column that enters during the round, once as it enters and once as it leaves
  obtain ⟨k₁, k₂, low₁, high₁, low₂, high₂, leaves, largest⟩ := round.exchanges.exists_largest
  have enters := round.turn k₁
  have turn := round.turn k₂
  obtain ⟨j, outside₁, opposed⟩ := turn.exists_opposed (v k₁)
  have other : j ≠ entering k₁ := by
    intro same
    have falls : (v k₂).edge (entering k₂) j < 0 := by
      rw [same, ← leaves]
      exact turn.edge_leaving_neg
    rw [same] at opposed falls
    exact absurd opposed (mul_pos_of_neg_of_neg enters.falls falls).not_gt
  by_cases entered : j = entering k₂
  · -- the column that enters with the second pivot was not profitable at the first
    have smaller : j < entering k₁ := by
      apply lt_of_le_of_ne _ other
      rw [entered]
      exact largest k₂ low₂ high₂
    have nonneg := enters.least j smaller outside₁
    rw [entered, Vertex.edge_self turn.outside, mul_one, ← entered] at opposed
    exact absurd opposed nonneg.not_gt
  · -- the column is basic at the second pivot, at zero, and falls with the step
    have inside₂ : j ∈ (v k₂).members := by
      by_contra outside₂
      rw [Vertex.edge_of_notMem outside₂ entered, mul_zero] at opposed
      exact lt_irrefl 0 opposed
    have smaller : j < entering k₁ := by
      apply lt_of_le_of_ne _ other
      exact round.exchanges.le_of_changes largest low₁ high₁.le outside₁ low₂ high₂.le inside₂
    have nonneg := enters.least j smaller outside₁
    have atZero := round.point_eq_zero low₁ high₁.le outside₁ low₂ high₂.le
    obtain ⟨i, rfl⟩ := inside₂
    have limited : 0 < (v k₂).expressed (entering k₂) i := by
      have falls := neg_of_mul_neg_right opposed nonneg
      rwa [Vertex.edge_column turn.outside, neg_lt_zero] at falls
    refine ⟨k₂, low₂, high₂, i, limited, ?_, ?_⟩
    · rw [atZero, zero_div, round.step_eq_zero low₂ high₂]
    · rwa [leaves]

end Round

theorem exists_passed_over_after (turn : ∀ k, Turn c (v k) (v (k + 1)) (entering k) (row k) (step k))
    (start : ℕ) :
    ∃ k, start ≤ k ∧ ∃ i, 0 < (v k).expressed (entering k) i ∧
      (v k).point ((v k).column i) / (v k).expressed (entering k) i = step k ∧
      (v k).column i < (v k).column (row k) := by
  obtain ⟨first, last, late, round⟩ := exists_exchangeRound (fun k => (turn k).exchange) start
  have round : Round c v entering row step first last := ⟨turn, round.before, round.closed⟩
  obtain ⟨k, low, -, passed⟩ := round.exists_passed_over
  exact ⟨k, late.trans low, passed⟩

end Round

end SimplexMethod
