import Mathlib.Data.Finset.Max
import Mathlib.Data.Fintype.Pigeonhole
import Mathlib.Data.Fintype.Powerset
import Mathlib.Order.Interval.Finset.Nat

namespace SimplexMethod

variable {m n : ℕ}

structure Exchange (σ τ : Fin m → Fin n) (entering : Fin n) (row : Fin m) : Prop where
  injective : Function.Injective σ
  outside : entering ∉ Set.range σ
  column_eq : τ = Function.update σ row entering

theorem Exchange.mem_iff {σ τ : Fin m → Fin n} {entering : Fin n} {row : Fin m}
    (exchange : Exchange σ τ entering row) {j : Fin n} :
    j ∈ Set.range τ ↔ j = entering ∨ j ≠ σ row ∧ j ∈ Set.range σ := by
  rw [exchange.column_eq]
  constructor
  · intro given
    obtain ⟨i, rfl⟩ := given
    by_cases here : i = row
    · left
      rw [here, Function.update_self]
    · right
      rw [Function.update_of_ne here]
      exact ⟨fun same => here (exchange.injective same), i, rfl⟩
  · intro either
    obtain rfl | ⟨other, i, rfl⟩ := either
    · exact ⟨row, Function.update_self ..⟩
    · have away : i ≠ row := fun same => other (by rw [same])
      exact ⟨i, Function.update_of_ne away ..⟩

variable {σ : ℕ → Fin m → Fin n} {entering : ℕ → Fin n} {row : ℕ → Fin m} {first last : ℕ}

/-- Exchanges that lead back to the columns of an earlier basis. -/
structure ExchangeRound (σ : ℕ → Fin m → Fin n) (entering : ℕ → Fin n) (row : ℕ → Fin m)
    (first last : ℕ) : Prop where
  exchange : ∀ k, Exchange (σ k) (σ (k + 1)) (entering k) (row k)
  before : first < last
  closed : Set.range (σ first) = Set.range (σ last)

namespace ExchangeRound

theorem mem_iff_of_not_entering (round : ExchangeRound σ entering row first last) {j : Fin n}
    (never : ∀ k, first ≤ k → k < last → entering k ≠ j) {k : ℕ} (low : first ≤ k)
    (high : k ≤ last) : j ∈ Set.range (σ k) ↔ j ∈ Set.range (σ first) := by
  have backward : ∀ i k, first ≤ i → i ≤ k → k ≤ last → j ∈ Set.range (σ k) →
      j ∈ Set.range (σ i) := by
    intro i k above order below
    induction k, order using Nat.le_induction with
    | base => exact id
    | succ k order ih =>
        intro inside
        rcases (round.exchange k).mem_iff.1 inside with enters | ⟨-, stays⟩
        · exact absurd enters.symm (never k (above.trans order) below)
        · exact ih (Nat.le_of_lt below) stays
  constructor
  · exact backward first k le_rfl low high
  · intro inside
    rw [round.closed] at inside
    exact backward k last low high le_rfl inside

theorem le_of_changes (round : ExchangeRound σ entering row first last) {largest : Fin n}
    (bound : ∀ k, first ≤ k → k < last → entering k ≤ largest) {j : Fin n} {k l : ℕ}
    (lowK : first ≤ k) (highK : k ≤ last) (outside : j ∉ Set.range (σ k)) (lowL : first ≤ l)
    (highL : l ≤ last) (inside : j ∈ Set.range (σ l)) : j ≤ largest := by
  by_contra above
  have never : ∀ i, first ≤ i → i < last → entering i ≠ j := by
    intro i low high enters
    exact above (enters.symm.trans_le (bound i low high))
  have always := (round.mem_iff_of_not_entering never lowL highL).1 inside
  exact outside ((round.mem_iff_of_not_entering never lowK highK).2 always)

theorem exists_leaving (round : ExchangeRound σ entering row first last) {k : ℕ}
    (low : first ≤ k) (high : k < last) :
    ∃ i, first ≤ i ∧ i < last ∧ σ i (row i) = entering k := by
  by_contra none
  have stays : ∀ i l, first ≤ i → i ≤ l → l ≤ last → entering k ∈ Set.range (σ i) →
      entering k ∈ Set.range (σ l) := by
    intro i l above order below
    induction l, order using Nat.le_induction with
    | base => exact id
    | succ l order ih =>
        intro inside
        refine (round.exchange l).mem_iff.2
          (Or.inr ⟨fun leaves => ?_, ih (Nat.le_of_lt below) inside⟩)
        exact none ⟨l, above.trans order, below, leaves.symm⟩
  have entered : entering k ∈ Set.range (σ (k + 1)) := (round.exchange k).mem_iff.2 (Or.inl rfl)
  have atLast := stays (k + 1) last (Nat.le_succ_of_le low) high le_rfl entered
  rw [← round.closed] at atLast
  exact (round.exchange k).outside (stays first k le_rfl low (Nat.le_of_lt high) atLast)

theorem exists_largest (round : ExchangeRound σ entering row first last) :
    ∃ k₁ k₂, first ≤ k₁ ∧ k₁ < last ∧ first ≤ k₂ ∧ k₂ < last ∧
      σ k₂ (row k₂) = entering k₁ ∧ ∀ k, first ≤ k → k < last → entering k ≤ entering k₁ := by
  obtain ⟨k₁, member, largest⟩ := (Finset.Ico first last).exists_max_image entering
    (Finset.nonempty_Ico.2 round.before)
  obtain ⟨low₁, high₁⟩ := Finset.mem_Ico.1 member
  obtain ⟨k₂, low₂, high₂, leaves⟩ := round.exists_leaving low₁ high₁
  exact ⟨k₁, k₂, low₁, high₁, low₂, high₂, leaves,
    fun k low high => largest k (Finset.mem_Ico.2 ⟨low, high⟩)⟩

end ExchangeRound

theorem exists_exchangeRound
    (exchange : ∀ k, Exchange (σ k) (σ (k + 1)) (entering k) (row k)) (start : ℕ) :
    ∃ first last, start ≤ first ∧ ExchangeRound σ entering row first last := by
  -- there are finitely many sets of columns
  obtain ⟨x, y, differ, same⟩ :=
    Finite.exists_ne_map_eq_of_infinite fun k => Set.range (σ (start + k))
  wlog before : x < y generalizing x y
  · exact this y x differ.symm same.symm (lt_of_le_of_ne (not_lt.1 before) differ.symm)
  exact ⟨start + x, start + y, Nat.le_add_right start x, exchange,
    Nat.add_lt_add_left before start, same⟩

end SimplexMethod
