import InstrumentBus.Json.Basic
import InstrumentBus.Text.Utf8

/-!
Writing JSON without space between its parts.
-/

namespace InstrumentBus.Json

def nibble (n : Nat) : Char := Nat.digitChar (n % 16)

def escapeChar (c : Char) : List Char :=
  if c = '"' then ['\\', '"']
  else if c = '\\' then ['\\', '\\']
  else if c = '\x08' then ['\\', 'b']
  else if c = '\x0C' then ['\\', 'f']
  else if c = '\n' then ['\\', 'n']
  else if c = '\r' then ['\\', 'r']
  else if c = '\t' then ['\\', 't']
  else if c.toNat < 0x20 then ['\\', 'u', '0', '0', nibble (c.toNat / 16), nibble c.toNat]
  else [c]

def writeString (s : String) : List Char := '"' :: s.toList.flatMap escapeChar ++ ['"']

def writeInteger (n : Int) : List Char :=
  if n < 0 then '-' :: Nat.toDigits 10 n.natAbs else Nat.toDigits 10 n.natAbs

mutual

/-- The text of a value; one that has none of its own is written `null`. -/
def writeChars : Json → List Char
  | .null => ['n', 'u', 'l', 'l']
  | .bool true => ['t', 'r', 'u', 'e']
  | .bool false => ['f', 'a', 'l', 's', 'e']
  | .integer n => writeInteger n
  | .decimal => ['n', 'u', 'l', 'l']
  | .string s => writeString s
  | .array items => '[' :: writeItems items
  | .object members => '\x7b' :: writeMembers members
  | .broken => ['n', 'u', 'l', 'l']

def writeItems : List Json → List Char
  | [] => [']']
  | [item] => item.writeChars ++ [']']
  | item :: items => item.writeChars ++ ',' :: writeItems items

def writeMembers : List (String × Json) → List Char
  | [] => ['\x7d']
  | [(name, value)] => writeString name ++ ':' :: value.writeChars ++ ['\x7d']
  | (name, value) :: members =>
    writeString name ++ ':' :: value.writeChars ++ ',' :: writeMembers members

end

def write (j : Json) : String := String.ofList j.writeChars

end InstrumentBus.Json
