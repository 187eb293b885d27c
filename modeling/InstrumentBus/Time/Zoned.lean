import InstrumentBus.Time.Timestamp

/-!
Times with their offset from universal time, as RFC 3339 has them. Reading is lenient about blanks;
writing gives universal time.
-/

namespace InstrumentBus.Time

def takeSpacedChar? (c : Char) (cs : List Char) : Option (List Char) :=
  takeChar? c (cs.dropWhile Text.isBlank)

def takeSeparator? : List Char → Option (List Char)
  | c :: cs => if c = 'T' ∨ c = 't' ∨ c = ' ' then some cs else none
  | [] => none

def minusSign : Char := '\u2212'

/-- Hours and minutes, with colons or blanks between them, as seconds. -/
def takeHours? (cs : List Char) : Option (Int × List Char) := do
  let (hours, cs) ← takeDigits? 2 cs
  let (minutes, cs) ← takeDigits? 2 (cs.dropWhile fun c => c == ':' || Text.isBlank c)
  if minutes < 60 then some (hours * 3600 + minutes * 60, cs) else none

/-- Seconds east of universal time: `UTC` in any case, `Z`, or a sign with hours and minutes. -/
def takeOffset? : List Char → Option (Int × List Char)
  | 'Z' :: cs => some (0, cs)
  | 'z' :: cs => some (0, cs)
  | '+' :: cs => takeHours? cs
  | '-' :: cs => (takeHours? cs).map fun (s, cs) => (-s, cs)
  | c :: cs =>
    if c = minusSign then (takeHours? cs).map fun (s, cs) => (-s, cs)
    else if (c :: cs.take 2).map Char.toLower = ['u', 't', 'c'] then some (0, cs.drop 2)
    else none
  | [] => none

def Instant.before (t : Instant) (offset : Int) : Instant :=
  { t with seconds := t.seconds - offset }

def readZoned? (s : String) : Option Instant := do
  let (date, cs) ← takeDate? takeSpacedChar? s.toList
  let (clock, cs) ← takeClock? takeSpacedChar? (← takeSeparator? cs)
  let (offset, cs) ← takeOffset? (cs.dropWhile Text.isBlank)
  let t ← (Instant.ofParts? date clock).map (·.before offset)
  if cs.all Text.isBlank ∧ offset.natAbs < 86400 ∧ t.date.inRange then some t else none

/-- As many groups of three digits as it takes, none for a whole second. -/
def writeFraction (nanos : Nat) : List Char :=
  if nanos = 0 then []
  else if nanos % 1000000 = 0 then '.' :: padded 3 (nanos / 1000000)
  else if nanos % 1000 = 0 then '.' :: padded 6 (nanos / 1000)
  else '.' :: padded 9 nanos

def writeZoned (t : Instant) : String :=
  String.ofList
    (writeDate t.date ++ 'T' :: writeClock t.clock ++ writeFraction t.clock.nanos ++ ['Z'])

end InstrumentBus.Time
