import SimplexMethod.Decimal.Binary

/-!
# Shortest decimals

Among the decimals that read back as a given double, one with the fewest digits, and of those the
nearest.  Grids of decimals are tried from coarse to fine; the two neighbours of the number on a
grid decide whether the grid has a decimal that reads back.
-/

namespace SimplexMethod.Decimal

structure Digits where
  digits : Nat
  exponent : Int
deriving DecidableEq

/-- The numbers that round to a double, in units of a quarter of its last place. -/
structure Rounding where
  low : Nat
  centre : Nat
  high : Nat
  closed : Bool
  unit : Int
deriving DecidableEq

namespace Rounding

/-- Below a power of two, the doubles lie twice as close as above it. -/
def ofFinite (mantissa : Nat) (exponent : Int) : Rounding where
  low :=
    if mantissa = Binary.leastNormal ∧ Binary.leastExponent < exponent then 4 * mantissa - 1
    else 4 * mantissa - 2
  centre := 4 * mantissa
  high := 4 * mantissa + 2
  closed := mantissa % 2 == 0
  unit := exponent - 2

def Holds (r : Rounding) (binary decimal : Nat) : Prop :=
  (r.low * binary < decimal ∨ (r.closed = true ∧ r.low * binary = decimal)) ∧
    (decimal < r.high * binary ∨ (r.closed = true ∧ decimal = r.high * binary))

instance (r : Rounding) (binary decimal : Nat) : Decidable (r.Holds binary decimal) :=
  inferInstanceAs (Decidable (_ ∧ _))

/-- The multiple of `10 ^ exponent` that reads back and lies nearest, the larger of two. -/
def onGrid? (r : Rounding) (exponent : Int) : Option Nat :=
  let binary := Nat.pow 2 r.unit.toNat * Nat.pow 10 (-exponent).toNat
  let spacing := Nat.pow 2 (-r.unit).toNat * Nat.pow 10 exponent.toNat
  let exact := r.centre * binary
  let below := exact / spacing
  let above := below + 1
  if r.Holds binary (above * spacing) then
    if r.Holds binary (below * spacing) ∧ exact - below * spacing < above * spacing - exact then
      some below
    else some above
  else if r.Holds binary (below * spacing) then some below
  else none

def firstGrid (r : Rounding) : (grids : Nat) → (exponent : Int) → Digits
  | 0, exponent => ⟨r.onGrid? exponent |>.getD 0, exponent⟩
  | grids + 1, exponent =>
    match r.onGrid? exponent with
    | some digits => ⟨digits, exponent⟩
    | none => firstGrid r grids (exponent - 1)

end Rounding

def magnitude (mantissa : Nat) (exponent : Int) : Int :=
  (mantissa.log2 + exponent) * 30103 / 100000 + 2

def shortest (mantissa : Nat) (exponent : Int) : Digits :=
  (Rounding.ofFinite mantissa exponent).firstGrid 20 (magnitude mantissa exponent)

end SimplexMethod.Decimal
