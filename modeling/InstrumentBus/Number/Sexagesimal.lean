import InstrumentBus.Decimal.Read
import InstrumentBus.Text.Blank

/-!
Angles and hours in base sixty.
-/

namespace InstrumentBus.Number

def isSeparator (c : Char) : Bool :=
  c == ':' || c == ';' || Text.isBlank c

def addMinor : Float → Float → List (List Char) → Option Float
  | value, _, [] => some value
  | value, divisor, field :: fields => do
    let minor ← Decimal.readChars? field
    if minor < 0 then none
    else
      let divisor := divisor * 60
      addMinor (value + minor / divisor) divisor fields

/-- One to three fields; only the first may have a sign, which then holds for the sum. -/
def readSexagesimal? (cs : List Char) : Option Float :=
  match (Text.splitAt isSeparator cs).filter (!·.isEmpty) with
  | [] => none
  | major :: minors => do
    if minors.length > 2 then none
    let value ← Decimal.readChars? major
    let value ← addMinor value.abs 1 minors
    some (if major.head? = some '-' then -value else value)

inductive Resolution
  | minutes : Resolution
  | tenthMinutes : Resolution
  | seconds : Resolution
  | tenthSeconds : Resolution
  | hundredthSeconds : Resolution
deriving DecidableEq

def Resolution.ofWidth : Nat → Resolution
  | 9 => .hundredthSeconds
  | 8 => .tenthSeconds
  | 6 => .seconds
  | 5 => .tenthMinutes
  | _ => .minutes

def Resolution.parts : Resolution → Nat
  | .minutes => 60
  | .tenthMinutes => 600
  | .seconds => 3600
  | .tenthSeconds => 36000
  | .hundredthSeconds => 360000

def twoDigits (n : Nat) : List Char :=
  let ds := Nat.toDigits 10 n
  List.replicate (2 - ds.length) '0' ++ ds

def Resolution.tail (rest : Nat) : Resolution → List Char
  | .minutes => ':' :: twoDigits rest
  | .tenthMinutes => ':' :: twoDigits (rest / 10) ++ '.' :: Nat.toDigits 10 (rest % 10)
  | .seconds => ':' :: twoDigits (rest / 60) ++ ':' :: twoDigits (rest % 60)
  | .tenthSeconds =>
    ':' :: twoDigits (rest / 600) ++ ':' :: twoDigits (rest % 600 / 10) ++
      '.' :: Nat.toDigits 10 (rest % 10)
  | .hundredthSeconds =>
    ':' :: twoDigits (rest / 6000) ++ ':' :: twoDigits (rest % 6000 / 100) ++
      '.' :: twoDigits (rest % 100)

/-- The largest width that a text can be padded to. -/
def maxPadding : Nat := 65535

/-- A text with blanks in front up to `width`; beyond `maxPadding` there is none. -/
def alignRight? (width : Nat) (cs : List Char) : Option (List Char) :=
  if width ≤ maxPadding then some (List.replicate (width - cs.length) ' ' ++ cs) else none

def writeParts? (r : Resolution) (negative : Bool) (count headWidth : Nat) : Option (List Char) :=
  let head := (if negative then ['-'] else []) ++ Nat.toDigits 10 (count / r.parts)
  (alignRight? headWidth head).map (· ++ r.tail (count % r.parts))

/-- Rounds to the nearest smallest part; `fraction` selects the resolution by its width. -/
def writeSexagesimal? (x : Float) (width fraction : Nat) : Option String :=
  let r := Resolution.ofWidth fraction
  let count := (x.abs * r.parts.toFloat + 0.5).toUInt64.toNat
  (writeParts? r (x < 0) count (width - fraction)).map String.ofList

theorem isSome_writeSexagesimal?_iff {x : Float} {width fraction : Nat} :
    (writeSexagesimal? x width fraction).isSome = true ↔ width - fraction ≤ maxPadding := by
  simp only [writeSexagesimal?, writeParts?, alignRight?, Option.isSome_map]
  split
  · exact iff_of_true rfl ‹_›
  · exact iff_of_false Bool.false_ne_true ‹_›

end InstrumentBus.Number
