import SimplexMethod.Decimal.Shortest

/-!
# Texts of doubles

Three ways to write a double: with a fixed number of places, as its shortest decimal without an
exponent, and as its shortest decimal in scientific form.  Zeros keep their sign.
-/

namespace SimplexMethod.Decimal

def zeroes (count : Nat) : String := "".pushn '0' count

/-- The quotient rounded to the nearest natural number, a tie to the even one. -/
def roundDiv (numerator denominator : Nat) : Nat :=
  let quotient := numerator / denominator
  let twice := 2 * (numerator % denominator)
  if denominator < twice ∨ (denominator = twice ∧ quotient % 2 = 1) then quotient + 1
  else quotient

def withPlaces (places units : Nat) : String :=
  let fraction := Nat.repr (units % Nat.pow 10 places)
  Nat.repr (units / Nat.pow 10 places) ++ "." ++ zeroes (places - fraction.length) ++ fraction

def Digits.plain (d : Digits) : String :=
  let digits := Nat.repr d.digits
  let whole := digits.length + d.exponent
  if 0 ≤ d.exponent then digits ++ zeroes d.exponent.toNat
  else if 0 < whole then
    String.ofList (digits.toList.take whole.toNat) ++ "." ++
      String.ofList (digits.toList.drop whole.toNat)
  else "0." ++ zeroes (-whole).toNat ++ digits

def Digits.scientific (d : Digits) : String :=
  match (Nat.repr d.digits).toList with
  | [] => ""
  | first :: rest =>
    let fraction := if rest.isEmpty then "" else "." ++ String.ofList rest
    first.toString ++ fraction ++ "e" ++ Int.repr (d.exponent + rest.length)

def signed (x : Float) (text : Nat → Int → String) : String :=
  match Binary.ofFloat x with
  | .notANumber => "NaN"
  | .infinite negative => (if negative then "-" else "") ++ "inf"
  | .finite negative mantissa exponent =>
    (if negative then "-" else "") ++ text mantissa exponent

def fixed (places : Nat) (x : Float) : String :=
  signed x fun mantissa exponent =>
    withPlaces places
      (roundDiv (mantissa * Nat.pow 2 exponent.toNat * Nat.pow 10 places) (Nat.pow 2 (-exponent).toNat))

def plain (x : Float) : String :=
  signed x fun mantissa exponent =>
    if mantissa = 0 then "0" else (shortest mantissa exponent).plain

def scientific (x : Float) : String :=
  signed x fun mantissa exponent =>
    if mantissa = 0 then "0e0" else (shortest mantissa exponent).scientific

end SimplexMethod.Decimal
