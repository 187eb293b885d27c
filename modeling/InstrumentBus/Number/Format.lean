import InstrumentBus.Decimal.Fixed
import InstrumentBus.Number.Sexagesimal

/-!
Element numbers as text: reading them, and writing them by a display format such as `%6.2f`.
-/

namespace InstrumentBus.Number

def read? (s : String) : Option Float := do
  let cs := Text.trimChars s.toList
  let x ← if cs.any isSeparator then readSexagesimal? cs else Decimal.readChars? cs
  if x.isFinite then some x else none

inductive Conversion
  | fixed : Conversion
  | exponent : Conversion
  | general : Conversion
  | integer : Conversion
  | sexagesimal : Conversion
deriving DecidableEq

def Conversion.ofChar? : Char → Option Conversion
  | 'f' => some .fixed
  | 'e' => some .exponent
  | 'g' => some .general
  | 'd' => some .integer
  | 'i' => some .integer
  | 'm' => some .sexagesimal
  | _ => none

/-- The largest width or precision that a format may ask for. -/
def maxCount : Nat := 64

structure Format where
  leftAlign : Bool
  zeroPad : Bool
  width : Fin (maxCount + 1)
  precision : Option (Fin (maxCount + 1))
  conversion : Conversion
deriving DecidableEq

/-- A run of digits, none being 0, unless it is more than `maxCount`. -/
def takeCount? (cs : List Char) : Option (Fin (maxCount + 1) × List Char) :=
  let (ds, rest) := Decimal.spanDigits cs
  let n := Decimal.ofDigits ds
  if h : n < maxCount + 1 then some (⟨n, h⟩, rest) else none

def isFlag (c : Char) : Bool :=
  c == '-' || c == '0' || c == '+' || c == ' ' || c == '#'

/-- `%`, flags, a width, a precision after a point, length modifiers, one conversion letter. -/
def Format.ofString? (s : String) : Option Format :=
  match Text.trimChars s.toList with
  | '%' :: cs => do
    let flags := cs.takeWhile isFlag
    let (width, cs) ← takeCount? (cs.dropWhile isFlag)
    let (precision, cs) ← match cs with
      | '.' :: cs => (takeCount? cs).map fun (n, cs) => (some n, cs)
      | cs => some (none, cs)
    match cs.dropWhile fun c => c == 'l' || c == 'h' with
    | [c] =>
      let conversion ← Conversion.ofChar? c
      some { leftAlign := flags.contains '-', zeroPad := flags.contains '0', width, precision,
             conversion }
    | _ => none
  | _ => none

def writeExponent (e : Int) : List Char :=
  (if e < 0 then '-' else '+') :: twoDigits e.natAbs

def withExponent (mantissa : String) (e : Int) : String :=
  String.ofList (mantissa.toList ++ 'e' :: writeExponent e)

def dropZeros (s : String) : String :=
  let cs := s.toList
  if cs.contains '.' then
    String.ofList (Text.dropTail (· == '.') (Text.dropTail (· == '0') cs))
  else s

def writeExponential (x : Float) (places : Nat) : String :=
  match Decimal.writeScientific places x with
  | (mantissa, some e) => withExponent mantissa e
  | (text, none) => text

/-- The largest integer not above `x`, within 32 bits; NaN gives 0. -/
def floorClamped (x : Float) : Int := x.floor.toInt32.toInt

def writeGeneral (x : Float) (precision : Nat) : String :=
  if x == 0 then "0"
  else
    let precision := max precision 1
    let e := floorClamped x.abs.log10
    if e < -4 || e ≥ precision then
      match Decimal.writeScientific (precision - 1) x with
      | (mantissa, some e) => withExponent (dropZeros mantissa) e
      | (text, none) => text
    else dropZeros (Decimal.writeFixed (precision - 1 - e).toNat x)

def Format.pad (f : Format) (body : String) : String :=
  if f.leftAlign then Text.padRight f.width ' ' body
  else if f.zeroPad then
    match body.toList with
    | '-' :: digits =>
      String.ofList ('-' :: List.replicate (f.width.val - body.length) '0' ++ digits)
    | _ => Text.padLeft f.width '0' body
  else Text.padLeft f.width ' ' body

/-- The nearest 64-bit integer, halves away from zero; NaN gives 0. -/
def roundClamped (x : Float) : Int := x.round.toInt64.toInt

theorem Format.width_sub_le (f : Format) (n : Nat) : f.width - n ≤ maxPadding :=
  Nat.le_trans (Nat.sub_le ..) (Nat.le_trans f.width.is_le (by decide))

def Format.write (f : Format) (x : Float) : String :=
  let precision := (f.precision.map Fin.val).getD 6
  match f.conversion with
  | .fixed => f.pad (Decimal.writeFixed precision x)
  | .exponent => f.pad (writeExponential x precision)
  | .general => f.pad (writeGeneral x precision)
  | .integer => f.pad (toString (roundClamped x))
  | .sexagesimal =>
    (writeSexagesimal? x f.width precision).get (isSome_writeSexagesimal?_iff.2 (f.width_sub_le precision))

def write (format : String) (x : Float) : String :=
  match Format.ofString? format with
  | some f => f.write x
  | none => Decimal.write x

end InstrumentBus.Number
