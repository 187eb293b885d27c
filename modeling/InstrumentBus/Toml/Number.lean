import InstrumentBus.Text.Digits
import InstrumentBus.Time.Timestamp
import InstrumentBus.Toml.Basic

/-!
TOML numbers, dates and times.
-/

namespace InstrumentBus.Toml

def takeDay? (cs : List Char) : Option (List Char) := do
  let (year, cs) ← Time.takeDigits? 4 cs
  let (month, cs) ← Time.takeDigits? 2 (← Time.takeChar? '-' cs)
  let (day, cs) ← Time.takeDigits? 2 (← Time.takeChar? '-' cs)
  if (⟨year, month, day⟩ : Time.Date).IsValid then some cs else none

def takeTimeOfDay? (cs : List Char) : Option (List Char) := do
  let (hour, cs) ← Time.takeDigits? 2 cs
  let (minute, cs) ← Time.takeDigits? 2 (← Time.takeChar? ':' cs)
  let (second, cs) ← Time.takeDigits? 2 (← Time.takeChar? ':' cs)
  let (_, cs) ← Time.takeFraction? cs
  if (⟨hour, minute, second, 0⟩ : Time.Clock).IsValid then some cs else none

def takeHoursEast? (cs : List Char) : Option (List Char) := do
  let (hour, cs) ← Time.takeDigits? 2 cs
  let (minute, cs) ← Time.takeDigits? 2 (← Time.takeChar? ':' cs)
  if hour < 24 ∧ minute < 60 then some cs else none

def takeOffset? : List Char → Option (List Char)
  | c :: cs =>
    if c = 'Z' ∨ c = 'z' then some cs
    else if c = '+' ∨ c = '-' then takeHoursEast? cs
    else none
  | [] => none

def takeTimeAfter? : List Char → Option (List Char)
  | c :: cs =>
    if c = 'T' ∨ c = 't' ∨ c = ' ' then
      (takeTimeOfDay? cs).map fun cs => (takeOffset? cs).getD cs
    else none
  | [] => none

def takeMoment? (cs : List Char) : Option (List Char) :=
  match takeDay? cs with
  | some cs => some ((takeTimeAfter? cs).getD cs)
  | none => takeTimeOfDay? cs

/-- The digits in front and the rest; an underscore may stand before a digit. -/
def spanDigits (isDigit : Char → Bool) : List Char → List Char × List Char
  | '_' :: c :: cs =>
    if isDigit c then
      let (ds, cs) := spanDigits isDigit cs
      (c :: ds, cs)
    else ([], '_' :: c :: cs)
  | c :: cs =>
    if isDigit c then
      let (ds, cs) := spanDigits isDigit cs
      (c :: ds, cs)
    else ([], c :: cs)
  | [] => ([], [])

def takeNumerals? (isDigit : Char → Bool) (cs : List Char) : Option (List Char × List Char) :=
  if cs.head?.any isDigit then some (spanDigits isDigit cs) else none

def ofInt? (n : Int) : Option Toml :=
  if Int64.minValue.toInt ≤ n ∧ n ≤ Int64.maxValue.toInt then some (.integer n) else none

def takeBased? (base : Nat) (cs : List Char) : Option (Toml × List Char) := do
  let (ds, cs) ← takeNumerals? (fun c => (Text.hexValue? c).any (· < base)) cs
  let n ← Text.readDigits? Text.hexValue? base ds
  (ofInt? n).map (·, cs)

def takeFraction? : List Char → Option (List Char × List Char)
  | '.' :: cs => takeNumerals? Char.isDigit cs
  | cs => some ([], cs)

def takeExponent? : List Char → Option (Option Int × List Char)
  | c :: cs =>
    if c = 'e' ∨ c = 'E' then do
      let (negative, cs) := Decimal.takeSign cs
      let (ds, cs) ← takeNumerals? Char.isDigit cs
      let n : Int := Decimal.ofDigits ds
      some (some (if negative then -n else n), cs)
    else some (none, c :: cs)
  | [] => some (none, [])

/-- A decimal number without its sign. Leading zeros are refused, and so is a positive number that
is too large for a float. -/
def takeDecimal? (negative : Bool) (cs : List Char) : Option (Toml × List Char) := do
  let (whole, cs) ← takeNumerals? Char.isDigit cs
  let (fraction, cs) ← takeFraction? cs
  let (exponent, cs) ← takeExponent? cs
  let digits := Decimal.ofDigits (whole ++ fraction)
  if whole.head? = some '0' ∧ whole ≠ ['0'] then none
  else if fraction.isEmpty ∧ exponent.isNone then
    (ofInt? (if negative then -(digits : Int) else digits)).map (·, cs)
  else if !negative && (Decimal.toFloat digits (exponent.getD 0 - fraction.length)).isInf then none
  else some (.other, cs)

def takeNumber? (cs : List Char) : Option (Toml × List Char) :=
  match takeMoment? cs with
  | some cs => some (.other, cs)
  | none =>
    match cs with
    | '0' :: 'x' :: cs => takeBased? 16 cs
    | '0' :: 'o' :: cs => takeBased? 8 cs
    | '0' :: 'b' :: cs => takeBased? 2 cs
    | cs =>
      let (negative, cs) := Decimal.takeSign cs
      match cs with
      | 'i' :: 'n' :: 'f' :: cs => some (.other, cs)
      | 'n' :: 'a' :: 'n' :: cs => some (.other, cs)
      | cs => takeDecimal? negative cs

end InstrumentBus.Toml
