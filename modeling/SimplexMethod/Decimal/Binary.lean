/-!
# Doubles as exact binary fractions
-/

namespace SimplexMethod.Decimal

/-- What a double stands for: a finite one is its mantissa times a power of two, and both zeros
keep their sign. -/
inductive Binary where
  | notANumber
  | infinite (negative : Bool)
  | finite (negative : Bool) (mantissa : Nat) (exponent : Int)
deriving DecidableEq

namespace Binary

def leastNormal : Nat := Nat.pow 2 52

def leastExponent : Int := -1074

def ofBits (bits : Nat) : Binary :=
  let negative := bits / Nat.pow 2 63 == 1
  let field := bits / leastNormal % Nat.pow 2 11
  let fraction := bits % leastNormal
  if field = 0 then finite negative fraction leastExponent
  else if field < Nat.pow 2 11 - 1 then
    finite negative (fraction + leastNormal) (leastExponent + (field - 1 : Nat))
  else if fraction = 0 then infinite negative
  else notANumber

def ofFloat (x : Float) : Binary := ofBits x.toBits.toNat

end Binary

end SimplexMethod.Decimal
