import InstrumentBus.Decimal.Exact

/-!
The shortest decimal that reads back as a given float, written out without an exponent.
-/

namespace InstrumentBus.Decimal

structure Scaled where
  digits : Nat
  exp : Int
deriving DecidableEq

/-- The reals that round to one float: every `x` with `low < x * den < high`, and both ends too if
`closed`; `value / den` is the float itself. -/
structure Interval where
  low : Nat
  value : Nat
  high : Nat
  den : Nat
  closed : Bool

/-- The interval of `mant * 2 ^ exp`. Its lower half is half as wide at a power of two. -/
def Interval.ofDyadic (mant : Nat) (exp : Int) : Interval :=
  let (unit, den) := dyadic 1 (exp - 2)
  { low := (4 * mant - (if mant = Nat.pow 2 52 then 1 else 2)) * unit
    value := 4 * mant * unit
    high := (4 * mant + 2) * unit
    den := den
    closed := mant % 2 == 0 }

def Interval.holds (i : Interval) (num den : Nat) : Bool :=
  let x := num * i.den
  let (low, high) := (i.low * den, i.high * den)
  if i.closed then low ≤ x && x ≤ high else low < x && x < high

/-- The multiple of `10 ^ e` in `i` that is nearest to its value, the upper one of two. -/
def Interval.onGrid? (i : Interval) (e : Int) : Option Scaled :=
  let (num, den) := inUnits i.value i.den e
  let (step, unit) := (Nat.pow 10 e.toNat, Nat.pow 10 (-e).toNat)
  let near := roundDiv .up num den
  let far := if near * den ≤ num then near + 1 else near - 1
  if near ≠ 0 && i.holds (near * step) unit then some ⟨near, e⟩
  else if far ≠ 0 && i.holds (far * step) unit then some ⟨far, e⟩
  else none

def Interval.coarsest (i : Interval) : Nat → Int → Scaled
  | 0, e => ⟨i.value / i.den, e⟩
  | fuel + 1, e => (i.onGrid? e).getD (i.coarsest fuel (e - 1))

/-- An `e` with `2 ^ bits < 10 ^ e`. -/
def decimalBound (bits : Int) : Int :=
  if 0 ≤ bits then bits * 31 / 100 + 1 else bits * 3 / 10 + 1

def shortest (mant : Nat) (exp : Int) : Scaled :=
  let i := Interval.ofDyadic mant exp
  i.coarsest 800 (decimalBound (mant.log2 + exp + 2))

def Scaled.positional (d : Scaled) : List Char :=
  let ds := Nat.toDigits 10 d.digits
  match d.exp with
  | .ofNat n => ds ++ List.replicate n '0'
  | .negSucc n =>
    let places := n + 1
    let ds := List.replicate (places + 1 - ds.length) '0' ++ ds
    let whole := ds.length - places
    ds.take whole ++ '.' :: ds.drop whole

def signed (negative : Bool) (body : List Char) : String :=
  String.ofList (if negative then '-' :: body else body)

/-- The fewest digits that read back as `x`, never with an exponent. -/
def write (x : Float) : String :=
  match Reading.ofFloat x with
  | .nan => "NaN"
  | .infinite negative => signed negative ['i', 'n', 'f']
  | .finite negative 0 _ => signed negative ['0']
  | .finite negative mant exp => signed negative (shortest mant exp).positional

end InstrumentBus.Decimal
