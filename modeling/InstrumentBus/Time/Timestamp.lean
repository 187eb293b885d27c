import InstrumentBus.Decimal.Read
import InstrumentBus.Text.Blank
import InstrumentBus.Time.Date

/-!
Timestamps `YYYY-MM-DDTHH:MM:SS.fff` in universal time.
-/

namespace InstrumentBus.Time

def padded (width n : Nat) : List Char :=
  let ds := Nat.toDigits 10 n
  List.replicate (width - ds.length) '0' ++ ds

/-- Four digits, with a sign outside the years 0 to 9999. -/
def writeYear (year : Int) : List Char :=
  if 0 ≤ year ∧ year ≤ 9999 then padded 4 year.toNat
  else (if year < 0 then '-' else '+') :: padded 4 year.natAbs

def writeDate (d : Date) : List Char :=
  writeYear d.year ++ '-' :: padded 2 d.month ++ '-' :: padded 2 d.day

def writeClock (c : Clock) : List Char :=
  padded 2 c.hour ++ ':' :: padded 2 c.minute ++ ':' :: padded 2 c.second

/-- Writes milliseconds; what is below one is cut off. -/
def writeTimestamp (t : Instant) : String :=
  String.ofList
    (writeDate t.date ++ 'T' :: writeClock t.clock ++ '.' :: padded 3 (t.clock.nanos / 1000000))

def takeNumber? (width : Nat) (cs : List Char) : Option (Nat × List Char) :=
  let cs := cs.dropWhile Text.isBlank
  match (cs.take width).takeWhile Char.isDigit with
  | [] => none
  | ds => some (Decimal.ofDigits ds, cs.drop ds.length)

/-- Up to four digits, or any number of them after a sign. -/
def takeYear? (cs : List Char) : Option (Int × List Char) :=
  match cs.dropWhile Text.isBlank with
  | '-' :: cs => takeSigned cs (-1)
  | '+' :: cs => takeSigned cs 1
  | cs => (takeNumber? 4 cs).map fun (n, cs) => (n, cs)
where
  takeSigned (cs : List Char) (sign : Int) : Option (Int × List Char) :=
    match Decimal.spanDigits cs with
    | ([], _) => none
    | (ds, cs) => some (sign * Decimal.ofDigits ds, cs)

/-- The nanoseconds of a decimal fraction, cut after nine digits. -/
def ofFraction (ds : List Char) : Nat :=
  Decimal.ofDigits (ds.take 9) * Nat.pow 10 (9 - ds.length)

def takeFraction? : List Char → Option (Nat × List Char)
  | '.' :: cs =>
    match Decimal.spanDigits cs with
    | ([], _) => none
    | (ds, cs) => some (ofFraction ds, cs)
  | cs => some (0, cs)

def takeDigits? (width : Nat) (cs : List Char) : Option (Nat × List Char) :=
  let ds := cs.take width
  if ds.length = width && ds.all Char.isDigit then some (Decimal.ofDigits ds, cs.drop width)
  else none

def takeChar? (c : Char) : List Char → Option (List Char)
  | d :: cs => if d = c then some cs else none
  | [] => none

/-- Year, month and day; `takeMark?` takes what stands between them. -/
def takeDate? (takeMark? : Char → List Char → Option (List Char)) (cs : List Char) :
    Option (Date × List Char) := do
  let (year, cs) ← takeYear? cs
  let (month, cs) ← takeNumber? 2 (← takeMark? '-' cs)
  let (day, cs) ← takeNumber? 2 (← takeMark? '-' cs)
  some (⟨year, month, day⟩, cs)

def takeClock? (takeMark? : Char → List Char → Option (List Char)) (cs : List Char) :
    Option (Clock × List Char) := do
  let (hour, cs) ← takeNumber? 2 cs
  let (minute, cs) ← takeNumber? 2 (← takeMark? ':' cs)
  let (second, cs) ← takeNumber? 2 (← takeMark? ':' cs)
  let (nanos, cs) ← takeFraction? cs
  some (⟨hour, minute, second, nanos⟩, cs)

/-- Reads a timestamp between blanks; any number of `Z` may end it. -/
def readTimestamp? (s : String) : Option Instant := do
  let cs := Text.dropTail (· == 'Z') (Text.trimChars s.toList)
  let (date, cs) ← takeDate? takeChar? cs
  let (clock, cs) ← takeClock? takeChar? (← takeChar? 'T' cs)
  if cs.isEmpty then Instant.ofParts? date clock else none

end InstrumentBus.Time
