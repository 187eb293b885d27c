import InstrumentBus.Decimal.Read
import InstrumentBus.Json.Basic
import InstrumentBus.Text.Digits
import InstrumentBus.Text.Utf8

/-!
Reading JSON from bytes.
-/

namespace InstrumentBus.Json

open Text (Bytes)

def byte (c : Char) : UInt8 := c.toNat.toUInt8

def isSpace (b : UInt8) : Bool := b == 0x20 || b == 0x0A || b == 0x09 || b == 0x0D

def skipSpace (bs : Bytes) : Bytes := bs.dropWhile isSpace

/-- The byte `b` after any space. -/
def takeByte? (b : UInt8) (bs : Bytes) : Option Bytes :=
  match skipSpace bs with
  | c :: bs => if c = b then some bs else none
  | [] => none

def takeWord? : List Char → Bytes → Option Bytes
  | [], bs => some bs
  | c :: cs, b :: bs => if b = byte c then takeWord? cs bs else none
  | _ :: _, [] => none

def takeUnit? : Bytes → Option (Nat × Bytes)
  | a :: b :: c :: d :: bs =>
    let ds := [a, b, c, d].map fun b => Char.ofNat b.toNat
    (Text.readDigits? Text.hexValue? 16 ds).map (·, bs)
  | _ => none

def takeLowUnit? : Bytes → Option (Nat × Bytes)
  | 0x5C :: 0x75 :: bs => (takeUnit? bs).filter fun (n, _) => 0xDC00 ≤ n && n ≤ 0xDFFF
  | _ => none

def shortEscape? (b : UInt8) : Option Char :=
  if b = byte '"' then some '"'
  else if b = byte '\\' then some '\\'
  else if b = byte '/' then some '/'
  else if b = byte 'b' then some '\x08'
  else if b = byte 'f' then some '\x0C'
  else if b = byte 'n' then some '\n'
  else if b = byte 'r' then some '\r'
  else if b = byte 't' then some '\t'
  else none

/-- What follows a backslash: a character, or `none` for half a surrogate pair. -/
def takeEscape? : Bytes → Option (Option Char × Bytes)
  | [] => none
  | b :: bs =>
    if b = byte 'u' then do
      let (high, bs) ← takeUnit? bs
      if 0xD800 ≤ high ∧ high ≤ 0xDBFF then
        match takeLowUnit? bs with
        | some (low, bs) =>
          some (some (Char.ofNat (0x10000 + (high - 0xD800) * 0x400 + (low - 0xDC00))), bs)
        | none => some (none, bs)
      else if 0xDC00 ≤ high ∧ high ≤ 0xDFFF then some (none, bs)
      else some (some (Char.ofNat high), bs)
    else (shortEscape? b).map fun c => (some c, bs)

/-- One step inside a string: the bytes that the next piece of it stands for, `none` if it is
broken. -/
def takePiece? : Bytes → Option (Option Bytes × Bytes)
  | [] => none
  | b :: bs =>
    if b = byte '\\' then
      (takeEscape? bs).map fun (c, bs) => (c.map fun c => Text.utf8 (String.singleton c), bs)
    else if b < 0x20 then none
    else some (some [b], bs)

/-- The rest of a string up to its closing quote. `acc` holds the bytes before it, last one first,
unless the string is broken. -/
def takeStringOf : Nat → Option Bytes → Bytes → Option (Option Bytes × Bytes)
  | 0, _, _ => none
  | fuel + 1, acc, bs =>
    match bs with
    | 0x22 :: bs => some (acc.map List.reverse, bs)
    | bs =>
      match takePiece? bs with
      | none => none
      | some (piece, bs) => takeStringOf fuel (acc.bind fun acc => piece.map (·.reverse ++ acc)) bs

def takeString? (bs : Bytes) : Option (Option String × Bytes) :=
  (takeStringOf (bs.length + 1) (some []) bs).map fun (text, bs) => (text.bind Text.ofUtf8?, bs)

def isDigit (b : UInt8) : Bool := 0x30 ≤ b && b ≤ 0x39

def spanDigits (bs : Bytes) : List Char × Bytes :=
  ((bs.takeWhile isDigit).map fun b => Char.ofNat b.toNat, bs.dropWhile isDigit)

def takeWhole? (bs : Bytes) : Option (List Char × Bytes) :=
  match spanDigits bs with
  | ([], _) => none
  | ('0' :: _ :: _, _) => none
  | (ds, bs) => some (ds, bs)

def takeFraction? (bs : Bytes) : Option (List Char × Bytes) :=
  match bs with
  | 0x2E :: bs =>
    match spanDigits bs with
    | ([], _) => none
    | (ds, bs) => some (ds, bs)
  | bs => some ([], bs)

def takeExponent? (bs : Bytes) : Option (Option Int × Bytes) :=
  match bs with
  | b :: bs' =>
    if b = byte 'e' ∨ b = byte 'E' then
      let (negative, bs) := match bs' with
        | 0x2D :: bs => (true, bs)
        | 0x2B :: bs => (false, bs)
        | bs => (false, bs)
      match spanDigits bs with
      | ([], _) => none
      | (ds, bs) =>
        let n : Int := Decimal.ofDigits ds
        some (some (if negative then -n else n), bs)
    else some (none, bs)
  | [] => some (none, [])

def takeNumber? (bs : Bytes) : Option (Json × Bytes) := do
  let (negative, bs) := match bs with
    | 0x2D :: bs => (true, bs)
    | bs => (false, bs)
  let (whole, bs) ← takeWhole? bs
  let (fraction, bs) ← takeFraction? bs
  let (exponent, bs) ← takeExponent? bs
  let digits := Decimal.ofDigits (whole ++ fraction)
  let value : Json :=
    if (Decimal.toFloat digits (exponent.getD 0 - fraction.length)).isInf then .broken
    else if fraction.isEmpty ∧ exponent.isNone ∧ ¬(negative ∧ digits = 0) then
      .integer (if negative then -(digits : Int) else digits)
    else .decimal
  some (value, bs)

/-- An object of which one name is broken is broken. -/
def ofMembers (members : List (Option String × Json)) : Json :=
  match members.mapM fun m => m.1.map (·, m.2) with
  | some members => .object members
  | none => .broken

mutual

def takeValueOf : Nat → Bytes → Option (Json × Bytes)
  | 0, _ => none
  | fuel + 1, bs =>
    match skipSpace bs with
    | [] => none
    | b :: bs =>
      if b = byte '\x7b' then
        match takeByte? (byte '\x7d') bs with
        | some bs => some (.object [], bs)
        | none => (takeMembersOf fuel bs).map fun (members, bs) => (ofMembers members, bs)
      else if b = byte '[' then
        match takeByte? (byte ']') bs with
        | some bs => some (.array [], bs)
        | none => (takeItemsOf fuel bs).map fun (items, bs) => (.array items, bs)
      else if b = byte '"' then
        (takeString? bs).map fun (text, bs) => (text.elim .broken .string, bs)
      else if b = byte 'n' then (takeWord? ['u', 'l', 'l'] bs).map (.null, ·)
      else if b = byte 't' then (takeWord? ['r', 'u', 'e'] bs).map (.bool true, ·)
      else if b = byte 'f' then (takeWord? ['a', 'l', 's', 'e'] bs).map (.bool false, ·)
      else takeNumber? (b :: bs)

def takeItemsOf : Nat → Bytes → Option (List Json × Bytes)
  | 0, _ => none
  | fuel + 1, bs => do
    let (item, bs) ← takeValueOf fuel bs
    match takeByte? (byte ',') bs with
    | some bs => do
      let (items, bs) ← takeItemsOf fuel bs
      some (item :: items, bs)
    | none => (takeByte? (byte ']') bs).map ([item], ·)

def takeMembersOf : Nat → Bytes → Option (List (Option String × Json) × Bytes)
  | 0, _ => none
  | fuel + 1, bs => do
    let (name, bs) ← takeString? (← takeByte? (byte '"') bs)
    let (value, bs) ← takeValueOf fuel (← takeByte? (byte ':') bs)
    match takeByte? (byte ',') bs with
    | some bs => do
      let (members, bs) ← takeMembersOf fuel bs
      some ((name, value) :: members, bs)
    | none => (takeByte? (byte '\x7d') bs).map ([(name, value)], ·)

end

def read? (bs : Bytes) : Option Json :=
  match takeValueOf (bs.length + 1) bs with
  | some (value, rest) => if (skipSpace rest).isEmpty then some value else none
  | none => none

end InstrumentBus.Json
