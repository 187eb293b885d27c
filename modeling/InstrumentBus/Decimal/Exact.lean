/-!
The exact value of a binary float, and the rounding of exact quotients.
-/

namespace InstrumentBus.Decimal

/-- Where a quotient halfway between two integers goes. -/
inductive Tie
  | toEven : Tie
  | up : Tie
deriving DecidableEq

def roundDiv (tie : Tie) (num den : Nat) : Nat :=
  let q := num / den
  match compare (2 * (num % den)) den with
  | .lt => q
  | .gt => q + 1
  | .eq =>
    match tie with
    | .toEven => q + q % 2
    | .up => q + 1

/-- The value of a float; the magnitude of a finite one is `mant * 2 ^ exp`. -/
inductive Reading
  | nan : Reading
  | infinite (negative : Bool) : Reading
  | finite (negative : Bool) (mant : Nat) (exp : Int) : Reading
deriving DecidableEq

def isNegative : Float.Model.UnpackedFloat.Sign → Bool
  | .negative => true
  | .positive => false

def Reading.ofFloat (x : Float) : Reading :=
  match x.toModel.unpack with
  | .notANumber => .nan
  | .infinity s => .infinite (isNegative s)
  | .zero s => .finite (isNegative s) 0 0
  | .finite s m e _ => .finite (isNegative s) m e

/-- `mant * 2 ^ exp` as a fraction. -/
def dyadic (mant : Nat) (exp : Int) : Nat × Nat :=
  (mant * Nat.pow 2 exp.toNat, Nat.pow 2 (-exp).toNat)

def inUnits (num den : Nat) (e : Int) : Nat × Nat :=
  (num * Nat.pow 10 (-e).toNat, den * Nat.pow 10 e.toNat)

def nearest? (x : Float) : Option Int :=
  match Reading.ofFloat x with
  | .finite negative mant exp =>
    let (num, den) := dyadic mant exp
    let n : Int := roundDiv .up num den
    some (if negative then -n else n)
  | _ => none

end InstrumentBus.Decimal
