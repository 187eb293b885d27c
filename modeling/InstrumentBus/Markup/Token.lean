import InstrumentBus.Text.Blank
import InstrumentBus.Text.Utf8
import InstrumentBus.Markup.Escape

/-!
Tokens of markup: tags, text between them, and what carries no content.
-/

namespace InstrumentBus.Markup

open Text (Bytes)

def isSpace (b : UInt8) : Bool := b == 32 || b == 9 || b == 10 || b == 13

def isQuote (b : UInt8) : Bool := b == 34 || b == 39

inductive Token
  | open (name attributes : Bytes) (isEmpty : Bool) : Token
  | close (name : Bytes) : Token
  | text : Bytes → Token
  | data : Bytes → Token
  | aside : Token
deriving DecidableEq

inductive Front
  | finish : Front
  | broken : Front
  | token : Token → Bytes → Front

/-- What comes before the first `>` outside quotes, and what comes after it; `quote` is the quote
that is open. -/
def cutTag? : Option UInt8 → Bytes → Option (Bytes × Bytes)
  | _, [] => none
  | none, b :: bs =>
    if b = 62 then some ([], bs)
    else (cutTag? (if isQuote b then some b else none) bs).map fun (tag, rest) => (b :: tag, rest)
  | some q, b :: bs =>
    (cutTag? (if b = q then none else some q) bs).map fun (tag, rest) => (b :: tag, rest)

def cutAt? (mark : Bytes) : Bytes → Option (Bytes × Bytes)
  | [] => none
  | b :: bs =>
    match Text.afterStart? mark (b :: bs) with
    | some rest => some ([], rest)
    | none => (cutAt? mark bs).map fun (head, rest) => (b :: head, rest)

/-- What comes before the `>` that is not balanced by an earlier `<`, and what comes after it. -/
def cutBalanced? : Nat → Bytes → Option (Bytes × Bytes)
  | _, [] => none
  | 0, b :: bs =>
    if b = 62 then some ([], bs)
    else (cutBalanced? (if b = 60 then 1 else 0) bs).map fun (head, rest) => (b :: head, rest)
  | depth + 1, b :: bs =>
    (cutBalanced? (if b = 60 then depth + 2 else if b = 62 then depth else depth + 1) bs).map
      fun (head, rest) => (b :: head, rest)

def commentStart : Bytes := [33, 45, 45]
def commentEnd : Bytes := [45, 45, 62]
def dataStart : Bytes := [33, 91, 67, 68, 65, 84, 65, 91]
def dataEnd : Bytes := [93, 93, 62]
def instructionEnd : Bytes := [63, 62]

/-- The word `!doctype` in lower case. -/
def doctypeStart : Bytes := [33, 100, 111, 99, 116, 121, 112, 101]

def lowerByte (b : UInt8) : UInt8 := if 65 ≤ b && b ≤ 90 then b + 32 else b

/-- A comment, raw data, or a document type, which has to name something; `bs` starts with the
exclamation mark. -/
def bang (bs : Bytes) : Front :=
  match Text.afterStart? commentStart bs, Text.afterStart? dataStart bs with
  | some bs, _ =>
    match cutAt? commentEnd bs with
    | some (_, rest) => .token .aside rest
    | none => .broken
  | _, some bs =>
    match cutAt? dataEnd bs with
    | some (data, rest) => .token (.data data) rest
    | none => .broken
  | none, none =>
    if (bs.take 8).map lowerByte = doctypeStart then
      match cutBalanced? 0 (bs.drop 8) with
      | some (body, rest) => if body.all isSpace then .broken else .token .aside rest
      | none => .broken
    else .broken

/-- The name in an end tag is all of its content, quotes included; spaces behind it are dropped,
unless there is nothing else. -/
def closeName (body : Bytes) : Bytes :=
  if body.all isSpace then body else Text.dropTail isSpace body

/-- A tag whose content is `body`; a slash at its end makes it an element of its own. -/
def openTag (body : Bytes) : Token :=
  let isEmpty := body.getLast? == some 47
  let body := if isEmpty then body.dropLast else body
  .open (body.takeWhile (!isSpace ·)) (body.dropWhile (!isSpace ·)) isEmpty

def tagFront (bs : Bytes) : Front :=
  match bs with
  | [] => .broken
  | b :: rest =>
    if b = 33 then bang bs
    else if b = 47 then
      match cutTag? none rest with
      | some (body, rest) => .token (.close (closeName body)) rest
      | none => .broken
    else if b = 63 then
      match cutAt? instructionEnd bs with
      | some ([], _) => .broken
      | some (_, rest) => .token .aside rest
      | none => .broken
    else
      match cutTag? none bs with
      | some (body, rest) => .token (openTag body) rest
      | none => .broken

def front (bs : Bytes) : Front :=
  match bs with
  | [] => .finish
  | b :: rest =>
    if b = 60 then tagFront rest
    else .token (.text (bs.takeWhile (· != 60))) (bs.dropWhile (· != 60))

def readText? (bs : Bytes) : Option String := do
  let s ← Text.ofUtf8? bs
  (unescape? s.toList).map String.ofList

/-- Reads `key = "value"` pairs up to the end of a tag. `seen` are the keys so far, none of which
may come again; `fuel` bounds their number. -/
def attributesFrom? : Nat → List Bytes → Bytes → Option (List (String × String))
  | fuel, seen, bs =>
    match bs.dropWhile isSpace with
    | [] => some []
    | b :: bs =>
      match fuel with
      | 0 => none
      | fuel + 1 => do
        let isKey (b : UInt8) := b != 61 && !isSpace b
        let key := b :: bs.takeWhile isKey
        match (bs.dropWhile isKey).dropWhile isSpace with
        | 61 :: bs =>
          if key ∈ seen then none
          else
            match bs.dropWhile isSpace with
            | q :: bs =>
              if isQuote q then do
                let (value, rest) ← cutAt? [q] bs
                let value ← readText? value
                let more ← attributesFrom? fuel (key :: seen) rest
                some ((Text.ofUtf8Lossy key, value) :: more)
              else none
            | [] => none
        | _ => none

def attributes? (bs : Bytes) : Option (List (String × String)) := attributesFrom? bs.length [] bs

end InstrumentBus.Markup
