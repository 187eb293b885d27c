import InstrumentBus.Decimal.Shortest

/-!
Floats with a fixed number of places after the point, positional and with an exponent. The exact
binary value is rounded, ties to the even digit.
-/

namespace InstrumentBus.Decimal

def withPlaces (digits places : Nat) : List Char :=
  if places = 0 then Nat.toDigits 10 digits else Scaled.positional ⟨digits, -places⟩

def writeFixed (places : Nat) (x : Float) : String :=
  match Reading.ofFloat x with
  | .nan => "NaN"
  | .infinite negative => signed negative ['i', 'n', 'f']
  | .finite negative mant exp =>
    let (num, den) := dyadic mant exp
    signed negative (withPlaces (roundDiv .toEven (num * Nat.pow 10 places) den) places)

/-- The `e` with `10 ^ e ≤ num / den < 10 ^ (e + 1)`, searched downwards. -/
def leadingExponent (num den : Nat) : Nat → Int → Int
  | 0, e => e
  | fuel + 1, e =>
    let (n, d) := inUnits num den e
    if d ≤ n then e else leadingExponent num den fuel (e - 1)

/-- `places + 1` significant digits and the exponent of the first. -/
def significant (places : Nat) (mant : Nat) (exp : Int) : Nat × Int :=
  if mant = 0 then (0, 0)
  else
    let (num, den) := dyadic mant exp
    let e := leadingExponent num den 800 (decimalBound (mant.log2 + exp + 1))
    let (n, d) := inUnits num den (e - places)
    let digits := roundDiv .toEven n d
    if digits = Nat.pow 10 (places + 1) then (Nat.pow 10 places, e + 1) else (digits, e)

/-- The mantissa with one digit before the point, and the decimal exponent; no exponent for a
value that is not finite. -/
def writeScientific (places : Nat) (x : Float) : String × Option Int :=
  match Reading.ofFloat x with
  | .nan => ("NaN", none)
  | .infinite negative => (signed negative ['i', 'n', 'f'], none)
  | .finite negative mant exp =>
    let (digits, e) := significant places mant exp
    (signed negative (withPlaces digits places), some e)

end InstrumentBus.Decimal
