/-!
Calendar dates as day numbers, and instants as a date with a time of day.
-/

namespace InstrumentBus.Time

/-- A date of the Gregorian calendar, which is extended to all years; year 0 precedes year 1. -/
structure Date where
  year : Int
  month : Nat
  day : Nat
deriving DecidableEq

def isLeap (year : Int) : Bool :=
  year % 4 == 0 && (year % 100 != 0 || year % 400 == 0)

def daysInMonth (year : Int) : Nat → Nat
  | 2 => if isLeap year then 29 else 28
  | 4 => 30
  | 6 => 30
  | 9 => 30
  | 11 => 30
  | _ => 31

def Date.IsValid (d : Date) : Prop :=
  1 ≤ d.month ∧ d.month ≤ 12 ∧ 1 ≤ d.day ∧ d.day ≤ daysInMonth d.year d.month

instance (d : Date) : Decidable d.IsValid := by
  unfold Date.IsValid; infer_instance

/-- Days from 1 March of year 0 to 1 January 1970. -/
def epochShift : Int := 719468

/-- Days from 1 January 1970 to `d`. The year is taken to begin in March, so that a leap day ends
it. -/
def Date.dayNumber (d : Date) : Int :=
  let year := if d.month ≤ 2 then d.year - 1 else d.year
  let month : Int := if d.month ≤ 2 then d.month + 9 else d.month - 3
  365 * year + year / 4 - year / 100 + year / 400 + (153 * month + 2) / 5 + d.day - 1 - epochShift

def Date.ofDayNumber (n : Int) : Date :=
  let n := n + epochShift
  let cycle := n / 146097
  let dayOfCycle := n % 146097
  let yearOfCycle :=
    (dayOfCycle - dayOfCycle / 1460 + dayOfCycle / 36524 - dayOfCycle / 146096) / 365
  let dayOfYear := dayOfCycle - (365 * yearOfCycle + yearOfCycle / 4 - yearOfCycle / 100)
  let month := (5 * dayOfYear + 2) / 153
  let day := dayOfYear - (153 * month + 2) / 5 + 1
  let year := yearOfCycle + 400 * cycle
  if month < 10 then ⟨year, (month + 3).toNat, day.toNat⟩
  else ⟨year + 1, (month - 9).toNat, day.toNat⟩

/-- A point in time: seconds after 1 January 1970 and nanoseconds after that second. A leap second
is the end of the second before it: its nanoseconds start at one thousand million. -/
structure Instant where
  seconds : Int
  nanos : Nat
deriving DecidableEq

def nanosPerSecond : Nat := 1000000000

/-- Milliseconds after 1 January 1970. -/
abbrev Millis := Int

def Instant.ofMillis (ms : Millis) : Instant :=
  ⟨ms / 1000, (ms % 1000).toNat * 1000000⟩

def Instant.toMillis (t : Instant) : Millis :=
  t.seconds * 1000 + t.nanos / 1000000

/-- Hours, minutes and seconds of a day; second 60 is a leap second. -/
structure Clock where
  hour : Nat
  minute : Nat
  second : Nat
  nanos : Nat
deriving DecidableEq

def Instant.date (t : Instant) : Date := Date.ofDayNumber (t.seconds / 86400)

def Instant.clock (t : Instant) : Clock :=
  let s := (t.seconds % 86400).toNat
  { hour := s / 3600
    minute := s / 60 % 60
    second := s % 60 + t.nanos / nanosPerSecond
    nanos := t.nanos % nanosPerSecond }

def Date.inRange (d : Date) : Bool :=
  -262143 ≤ d.year && d.year ≤ 262142

def Clock.IsValid (c : Clock) : Prop :=
  c.hour < 24 ∧ c.minute < 60 ∧ c.second ≤ 60 ∧ c.nanos < nanosPerSecond

instance (c : Clock) : Decidable c.IsValid := by
  unfold Clock.IsValid; infer_instance

def Instant.ofParts? (d : Date) (c : Clock) : Option Instant :=
  if d.IsValid ∧ d.inRange ∧ c.IsValid then
    let leap := c.second / 60
    some
      { seconds := d.dayNumber * 86400 + c.hour * 3600 + c.minute * 60 + (c.second - leap : Nat)
        nanos := c.nanos + leap * nanosPerSecond }
  else none

end InstrumentBus.Time
