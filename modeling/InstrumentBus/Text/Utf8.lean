/-!
Text as UTF-8 bytes.
-/

namespace InstrumentBus.Text

abbrev Bytes := List UInt8

def utf8 (s : String) : Bytes := s.toUTF8.data.toList

def ofUtf8? (bs : Bytes) : Option String := String.fromUTF8? (ByteArray.mk bs.toArray)

def replacementChar : Char := '\uFFFD'

def isContinuation (b : UInt8) : Bool := 0x80 ≤ b && b ≤ 0xBF

/-- The second bytes that may follow the first byte `b` of three or four. -/
def isSecond (b c : UInt8) : Bool :=
  if b == 0xE0 then 0xA0 ≤ c && c ≤ 0xBF
  else if b == 0xED then 0x80 ≤ c && c ≤ 0x9F
  else if b == 0xF0 then 0x90 ≤ c && c ≤ 0xBF
  else if b == 0xF4 then 0x80 ≤ c && c ≤ 0x8F
  else isContinuation c

def payloadBits (b : UInt8) : Nat := b.toNat % 64

/-- How many bytes follow the first byte `b` of a character; `none` if no character starts so. -/
def followers? (b : UInt8) : Option Nat :=
  if b < 0x80 then some 0
  else if 0xC2 ≤ b && b ≤ 0xDF then some 1
  else if 0xE0 ≤ b && b ≤ 0xEF then some 2
  else if 0xF0 ≤ b && b ≤ 0xF4 then some 3
  else none

def countFollowers (b : UInt8) : Nat → Bytes → Nat
  | n + 1, c :: cs => if isSecond b c then 1 + ((cs.take n).takeWhile isContinuation).length else 0
  | _, _ => 0

/-- The number of a character from its first byte, which has `n` followers, and those. -/
def assemble (b : UInt8) (n : Nat) (cs : Bytes) : Char :=
  let bits := b.toNat % Nat.pow 2 (7 - n - min n 1)
  Char.ofNat (cs.foldl (fun acc c => acc * 64 + payloadBits c) bits)

/-- Decodes byte by byte. Each longest start of a character that is cut short, and each other byte
that belongs to none, becomes one replacement character. -/
def repair : Bytes → List Char
  | [] => []
  | b :: bs =>
    match followers? b with
    | none => replacementChar :: repair bs
    | some n =>
      let k := countFollowers b n bs
      (if k = n then assemble b n (bs.take n) else replacementChar) :: repair (bs.drop k)
termination_by bs => bs.length

def ofUtf8Lossy (bs : Bytes) : String :=
  (ofUtf8? bs).getD (String.ofList (repair bs))

def latin1 (bs : Bytes) : String :=
  String.ofList (bs.map fun b => Char.ofNat b.toNat)

end InstrumentBus.Text
