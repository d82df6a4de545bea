import Mathlib
import SimplexMethod.Scalar

namespace SimplexMethod

class Scalar.LawfulOrder (α : Type) [Scalar α] : Prop where
  lt_irrefl (x : α) : ¬x < x
  lt_of_le_of_lt {x y z : α} : x ≤ y → y < z → x < z
  not_abs_lt (x : α) : ¬Scalar.abs x < x

namespace FloatOrder

open Float.Model Float.Model.UnpackedFloat

def rank : UnpackedFloat → Option (ℤ ×ₗ ℤ ×ₗ ℤ)
  | .notANumber => none
  | .infinity .negative => some (toLex (-2, toLex (0, 0)))
  | .finite .negative m e _ => some (toLex (-1, toLex (-e, -m)))
  | .zero _ => some (toLex (0, toLex (0, 0)))
  | .finite .positive m e _ => some (toLex (1, toLex (e, m)))
  | .infinity .positive => some (toLex (2, toLex (0, 0)))

theorem compare_lex (level e m e' m' : ℤ) :
    compare (toLex (level, toLex (e, m))) (toLex (level, toLex (e', m'))) =
      (compare e e').then (compare m m') := by
  simp [Prod.Lex.compare_def, compareLex, compareOn]

theorem compare_neg (a b : ℤ) : compare (-a) (-b) = (compare a b).swap := by
  rcases lt_trichotomy a b with below | rfl | above
  · rw [compare_lt_iff_lt.2 below, compare_gt_iff_gt.2 (neg_lt_neg below)]
    rfl
  · rw [compare_eq_iff_eq.2 rfl, compare_eq_iff_eq.2 rfl]
    rfl
  · rw [compare_gt_iff_gt.2 above, compare_lt_iff_lt.2 (neg_lt_neg above)]
    rfl

theorem compare_natCast (m m' : ℕ) : compare (m : ℤ) (m' : ℤ) = compare m m' := by
  rcases lt_trichotomy m m' with below | rfl | above
  · rw [compare_lt_iff_lt.2 below, compare_lt_iff_lt.2 (Int.ofNat_lt.2 below)]
  · rw [compare_eq_iff_eq.2 rfl, compare_eq_iff_eq.2 rfl]
  · rw [compare_gt_iff_gt.2 above, compare_gt_iff_gt.2 (Int.ofNat_lt.2 above)]

theorem compare_eq (a b : UnpackedFloat) :
    a.compare b = (rank a).bind fun x => (rank b).map (compare x) := by
  rcases a with (_ | _) | _ | _ | ⟨(_ | _), m, e, _⟩ <;>
    rcases b with (_ | _) | _ | _ | ⟨(_ | _), m', e', _⟩
  all_goals try rfl
  -- Two numbers of one sign are left, the only ones for which the sign does not settle it.
  · simp only [UnpackedFloat.compare, rank, Option.bind_some, Option.map_some, compare_lex,
      compare_neg, compare_natCast, Ordering.swap_then]
  · simp only [UnpackedFloat.compare, rank, Option.bind_some, Option.map_some, compare_lex,
      compare_natCast]

theorem lt_iff {a b : UnpackedFloat} : a.lt b = true ↔ ∃ x ∈ rank a, ∃ y ∈ rank b, x < y := by
  rw [UnpackedFloat.lt, compare_eq]
  cases rank a with
  | none => simp
  | some x =>
      cases rank b with
      | none => simp
      | some y => simpa using compare_lt_iff_lt

theorem le_iff {a b : UnpackedFloat} : a.le b = true ↔ ∃ x ∈ rank a, ∃ y ∈ rank b, x ≤ y := by
  rw [UnpackedFloat.le, compare_eq]
  cases rank a with
  | none => simp
  | some x =>
      cases rank b with
      | none => simp
      | some y => simp [Ordering.isLE_iff_ne_gt, compare_le_iff_le]

theorem rank_unpack_nonneg {bits : BitVec Format.binary64.numBits} (positive : unpackSign bits = 0#1)
    {r : ℤ ×ₗ ℤ ×ₗ ℤ} (ranked : r ∈ rank (unpack Format.binary64 bits)) :
    toLex (0, toLex (0, 0)) ≤ r := by
  have sign : Sign.ofBitVec (unpackSign bits) = .positive := by rw [positive]; rfl
  unfold UnpackedFloat.unpack at ranked
  simp only [sign] at ranked
  split at ranked
  · split at ranked
    · cases ranked
      decide
    · cases ranked
  · split at ranked
    · split at ranked
      · cases ranked
        decide
      · cases ranked
        exact (Prod.Lex.toLex_lt_toLex.2 (Or.inl one_pos)).le
    · cases ranked
      exact (Prod.Lex.toLex_lt_toLex.2 (Or.inl one_pos)).le

theorem unpackSign_pack_abs (f : UnpackedFloat) :
    unpackSign (UnpackedFloat.pack Format.binary64 f.abs) = 0#1 := by
  cases f with
  | infinity s => exact unpackSign_packComponents ..
  | notANumber => rfl
  | zero s => exact unpackSign_packComponents ..
  | finite s m e positive =>
      simp only [UnpackedFloat.abs, UnpackedFloat.pack]
      split
      · exact unpackSign_packComponents ..
      · split
        · exact unpackSign_packComponents ..
        · exact unpackSign_packComponents ..

theorem abs_eq_self_or_rank_nonpos (f : UnpackedFloat) :
    f.abs = f ∨ ∀ r ∈ rank f, r ≤ toLex (0, toLex (0, 0)) := by
  rcases f with (_ | _) | _ | (_ | _) | ⟨(_ | _), m, e, _⟩
  · refine Or.inr ?_
    rintro _ ⟨⟩
    decide
  · exact Or.inl rfl
  · exact Or.inl rfl
  · refine Or.inr ?_
    rintro _ ⟨⟩
    rfl
  · exact Or.inl rfl
  · refine Or.inr ?_
    rintro _ ⟨⟩
    exact (Prod.Lex.toLex_lt_toLex.2 (Or.inl (by decide : (-1 : ℤ) < 0))).le
  · exact Or.inl rfl

theorem float_lt_iff {x y : Float} : x < y ↔ x.toModel.unpack.lt y.toModel.unpack = true :=
  decide_eq_true_iff

theorem float_le_iff {x y : Float} : x ≤ y ↔ x.toModel.unpack.le y.toModel.unpack = true :=
  decide_eq_true_iff

theorem not_abs_lt (x : Float) : ¬x.abs < x := by
  intro below
  obtain ⟨r, ranked, r', ranked', less⟩ := lt_iff.1 (float_lt_iff.1 below)
  rcases abs_eq_self_or_rank_nonpos x.toModel.unpack with same | nonpos
  · have packed : UnpackedFloat.pack Format.binary64 x.toModel.unpack.abs =
        x.toModel.toBits.toBitVec := by
      rw [same]
      exact pack_unpack_of_valid x.toModel.valid
    have again : rank x.abs.toModel.unpack = rank x.toModel.unpack :=
      congrArg (fun bits => rank (unpack Format.binary64 bits)) packed
    rw [again] at ranked
    exact less.ne (Option.mem_unique ranked ranked')
  · have nonneg := rank_unpack_nonneg (unpackSign_pack_abs x.toModel.unpack) ranked
    exact (less.trans_le (nonpos r' ranked')).not_ge nonneg

end FloatOrder

instance : Scalar.LawfulOrder Float where
  lt_irrefl x below := by
    obtain ⟨r, ranked, r', ranked', less⟩ := FloatOrder.lt_iff.1 (FloatOrder.float_lt_iff.1 below)
    exact less.ne (Option.mem_unique ranked ranked')
  lt_of_le_of_lt := by
    intro x y z upTo below
    obtain ⟨r, ranked, s, ranked', le⟩ := FloatOrder.le_iff.1 (FloatOrder.float_le_iff.1 upTo)
    obtain ⟨s', ranked'', q, rankedLast, less⟩ := FloatOrder.lt_iff.1 (FloatOrder.float_lt_iff.1 below)
    cases Option.mem_unique ranked' ranked''
    exact FloatOrder.float_lt_iff.2 (FloatOrder.lt_iff.2 ⟨r, ranked, q, rankedLast, le.trans_lt less⟩)
  not_abs_lt := FloatOrder.not_abs_lt

end SimplexMethod
