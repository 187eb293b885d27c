import InstrumentBus.Text.Blank
import InstrumentBus.Text.Digits

/-!
Addresses of hosts, and endpoints: an address with a port.
-/

namespace InstrumentBus.Network

inductive Address
  | v4 (a b c d : UInt8) : Address
  | v6 (a b c d e f g h : UInt16) : Address
deriving DecidableEq

namespace Address

def mapped? : Address → Option Address
  | .v6 0 0 0 0 0 0xFFFF g h => some (.v4 (g >>> 8).toUInt8 g.toUInt8 (h >>> 8).toUInt8 h.toUInt8)
  | _ => none

def unmapped (a : Address) : Address := a.mapped?.getD a

def isLoopback : Address → Bool
  | .v4 a _ _ _ => a == 127
  | a => a == .v6 0 0 0 0 0 0 0 1

def takeByte? (cs : List Char) : Option (UInt8 × List Char) :=
  match Decimal.spanDigits cs with
  | ([], _) => none
  | ('0' :: _ :: _, _) => none
  | (ds, cs) =>
    let n := Decimal.ofDigits ds
    if ds.length ≤ 3 ∧ n < 256 then some (n.toUInt8, cs) else none

def takeChar? (c : Char) : List Char → Option (List Char)
  | d :: cs => if d = c then some cs else none
  | [] => none

def takeBytes? (cs : List Char) : Option ((UInt8 × UInt8 × UInt8 × UInt8) × List Char) := do
  let (a, cs) ← takeByte? cs
  let (b, cs) ← takeByte? (← takeChar? '.' cs)
  let (c, cs) ← takeByte? (← takeChar? '.' cs)
  let (d, cs) ← takeByte? (← takeChar? '.' cs)
  some ((a, b, c, d), cs)

def takeGroup? (cs : List Char) : Option (UInt16 × List Char) :=
  let ds := cs.takeWhile fun c => (Text.hexValue? c).isSome
  if 4 < ds.length then none
  else (Text.readDigits? Text.hexValue? 16 ds).map fun n => (n.toUInt16, cs.drop ds.length)

def joinBytes (a b : UInt8) : UInt16 := a.toUInt16 <<< 8 ||| b.toUInt16

/-- Up to `limit` groups, with colons between them and, unless `first`, in front. The last two may
be written as four bytes, which is then told. -/
def takeGroups : Nat → Bool → List Char → List UInt16 × Bool × List Char
  | 0, _, cs => ([], false, cs)
  | limit + 1, first, cs =>
    match if first then some cs else takeChar? ':' cs with
    | none => ([], false, cs)
    | some cs' =>
      match if limit = 0 then none else takeBytes? cs' with
      | some ((a, b, c, d), rest) => ([joinBytes a b, joinBytes c d], true, rest)
      | none =>
        match takeGroup? cs' with
        | none => ([], false, cs)
        | some (group, rest) =>
          let (groups, bytes, rest) := takeGroups limit false rest
          (group :: groups, bytes, rest)

def ofGroups? : List UInt16 → Option Address
  | [a, b, c, d, e, f, g, h] => some (.v6 a b c d e f g h)
  | _ => none

/-- Eight groups; a double colon stands for one or more groups that are zero. -/
def takeV6? (cs : List Char) : Option (Address × List Char) :=
  let (head, bytes, rest) := takeGroups 8 true cs
  if head.length = 8 then (ofGroups? head).map (·, rest)
  else if bytes then none
  else do
    let rest ← takeChar? ':' (← takeChar? ':' rest)
    let (tail, _, rest) := takeGroups (7 - head.length) true rest
    let zeros := List.replicate (8 - head.length - tail.length) 0
    (ofGroups? (head ++ zeros ++ tail)).map (·, rest)

def takeV4? (cs : List Char) : Option (Address × List Char) :=
  (takeBytes? cs).map fun ((a, b, c, d), cs) => (.v4 a b c d, cs)

def whole? {α : Type} (x : Option (α × List Char)) : Option α :=
  x.bind fun (a, rest) => if rest.isEmpty then some a else none

def read? (s : String) : Option Address :=
  (whole? (takeV4? s.toList)).or (whole? (takeV6? s.toList))

def writeByte (b : UInt8) : String := toString b.toNat

def writeBytes (a b c d : UInt8) : String :=
  ".".intercalate ([a, b, c, d].map writeByte)

def writeGroups (groups : List UInt16) : String :=
  ":".intercalate (groups.map fun g => String.ofList (Nat.toDigits 16 g.toNat))

def countZeros (groups : List UInt16) : Nat := (groups.takeWhile (· == 0)).length

/-- Where the longest run of zeros starts, the first of several, and its length. -/
def longestZeros : List UInt16 → Nat × Nat
  | [] => (0, 0)
  | g :: groups =>
    let here := countZeros (g :: groups)
    let (start, length) := longestZeros groups
    if length ≤ here then (0, here) else (start + 1, length)

/-- The longest run of two or more zeros is written as a double colon. -/
def writeV6 (groups : List UInt16) : String :=
  let (start, length) := longestZeros groups
  if 1 < length then
    writeGroups (groups.take start) ++ "::" ++ writeGroups (groups.drop (start + length))
  else writeGroups groups

def write : Address → String
  | .v4 a b c d => writeBytes a b c d
  | .v6 0 0 0 0 0 0xFFFF g h =>
    "::ffff:" ++ writeBytes (g >>> 8).toUInt8 g.toUInt8 (h >>> 8).toUInt8 h.toUInt8
  | .v6 a b c d e f g h => writeV6 [a, b, c, d, e, f, g, h]

end Address

structure Endpoint where
  address : Address
  port : UInt16
deriving DecidableEq

namespace Endpoint

def port? (cs : List Char) : Option UInt16 :=
  if cs.isEmpty ∨ cs.any (fun c => !c.isDigit) then none
  else
    let n := Decimal.ofDigits cs
    if n < UInt16.size then some n.toUInt16 else none

def read? (s : String) : Option Endpoint := do
  let (address, rest) ← match s.toList with
    | '[' :: cs => do
      let (address, rest) ← Address.takeV6? cs
      some (address, ← Address.takeChar? ']' rest)
    | cs => Address.takeV4? cs
  some ⟨address, ← port? (← Address.takeChar? ':' rest)⟩

def write (e : Endpoint) : String :=
  let host := match e.address with
    | .v4 .. => e.address.write
    | .v6 .. => "[" ++ e.address.write ++ "]"
  host ++ ":" ++ toString e.port.toNat

end Endpoint

end InstrumentBus.Network
