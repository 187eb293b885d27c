import InstrumentBus.Text.Digits

/-!
TOML strings: the four ways to quote text, and the way that a text is written in.
-/

namespace InstrumentBus.Toml

def isSpace (c : Char) : Bool := c == ' ' || c == '\t'

def skipSpace (cs : List Char) : List Char := cs.dropWhile isSpace

def isControl (c : Char) : Bool := (c.toNat < 0x20 && c != '\t') || c == '\x7F'

def takeNewline? : List Char → Option (List Char)
  | '\n' :: cs => some cs
  | '\r' :: '\n' :: cs => some cs
  | _ => none

def skipBlank : List Char → List Char
  | '\n' :: cs => skipBlank cs
  | '\r' :: '\n' :: cs => skipBlank cs
  | c :: cs => if isSpace c then skipBlank cs else c :: cs
  | [] => []

/-- Double quotes allow escapes, single ones do not; either stands once around text on one line and
three times around text on several. -/
structure Quoting where
  escaped : Bool
  multiline : Bool
deriving DecidableEq

namespace Quoting

def mark (q : Quoting) : Char := if q.escaped then '"' else '\''

def delimiter (q : Quoting) : List Char := List.replicate (if q.multiline then 3 else 1) q.mark

def shortEscape? : Char → Option Char
  | 'b' => some '\x08'
  | 't' => some '\t'
  | 'n' => some '\n'
  | 'f' => some '\x0C'
  | 'r' => some '\r'
  | '"' => some '"'
  | '\\' => some '\\'
  | _ => none

def scalar? (n : Nat) : Option Char :=
  if h : n.isValidChar then some (Char.ofNatAux n h) else none

def takeScalar? (width : Nat) (cs : List Char) : Option (Char × List Char) := do
  let n ← Text.readDigits? Text.hexValue? 16 (cs.take width)
  let c ← scalar? n
  if width ≤ cs.length then some (c, cs.drop width) else none

def takeEscape? : List Char → Option (Char × List Char)
  | 'u' :: cs => takeScalar? 4 cs
  | 'U' :: cs => takeScalar? 8 cs
  | c :: cs => (shortEscape? c).map (·, cs)
  | [] => none

/-- After a backslash: a line end with all the space and line ends around it, which is no text. -/
def takeContinuation? (cs : List Char) : Option (List Char) :=
  (takeNewline? (skipSpace cs)).map skipBlank

/-- The end of a text. Up to two quotes right before three that end it belong to it. -/
def takeEnd? (q : Quoting) (cs : List Char) : Option (List Char × List Char) :=
  let quotes := (cs.takeWhile (· == q.mark)).length
  let closing := q.delimiter.length
  if quotes < closing then none
  else
    let extra := if q.multiline then min (quotes - closing) 2 else 0
    some (List.replicate extra q.mark, cs.drop (extra + closing))

def takePiece? (q : Quoting) (cs : List Char) : Option (List Char × List Char) :=
  match if q.multiline then takeNewline? cs else none with
  | some cs => some (['\n'], cs)
  | none =>
    match cs with
    | [] => none
    | c :: cs =>
      if q.escaped && c == '\\' then
        match if q.multiline then takeContinuation? cs else none with
        | some cs => some ([], cs)
        | none => (takeEscape? cs).map fun (c, cs) => ([c], cs)
      else if isControl c then none
      else some ([c], cs)

def takeBodyOf (q : Quoting) : Nat → List Char → Option (List Char × List Char)
  | 0, _ => none
  | fuel + 1, cs =>
    match q.takeEnd? cs with
    | some found => some found
    | none => do
      let (piece, cs) ← q.takePiece? cs
      let (body, cs) ← q.takeBodyOf fuel cs
      some (piece ++ body, cs)

/-- A text after its opening quotes. A line end right after three quotes is no text. -/
def takeBody? (q : Quoting) (cs : List Char) : Option (String × List Char) :=
  let cs := if q.multiline then (takeNewline? cs).getD cs else cs
  (q.takeBodyOf (cs.length + 1) cs).map fun (body, cs) => (String.ofList body, cs)

end Quoting

def takeLineText? : List Char → Option (String × List Char)
  | '"' :: cs => Quoting.takeBody? ⟨true, false⟩ cs
  | '\'' :: cs => Quoting.takeBody? ⟨false, false⟩ cs
  | _ => none

def takeText? : List Char → Option (String × List Char)
  | '"' :: '"' :: '"' :: cs => Quoting.takeBody? ⟨true, true⟩ cs
  | '\'' :: '\'' :: '\'' :: cs => Quoting.takeBody? ⟨false, true⟩ cs
  | cs => takeLineText? cs

/-- The length of the longest run of `c`, where `run` of them came right before. -/
def longestRun (c : Char) (run : Nat) : List Char → Nat
  | [] => run
  | d :: ds => if d = c then longestRun c (run + 1) ds else max run (longestRun c 0 ds)

namespace Quoting

/-- Whether a text can stand between these quotes as it is. A tab is escaped where it can be. -/
def fits (q : Quoting) (cs : List Char) : Bool :=
  (cs.all fun c => (!isControl c || (q.multiline && c == '\n')) && !(q.escaped && c == '\\')) &&
    longestRun q.mark 0 cs ≤ (if q.multiline then 2 else 0)

/-- The ways to quote text without an escape, the preferred ones first. -/
def all : List Quoting := [⟨true, false⟩, ⟨false, false⟩, ⟨true, true⟩, ⟨false, true⟩]

def ofText (cs : List Char) : Quoting :=
  (all.find? (·.fits cs)).getD ⟨true, cs.contains '\n'⟩

def escapeChar (c : Char) : List Char :=
  match c with
  | '\x08' => ['\\', 'b']
  | '\t' => ['\\', 't']
  | '\n' => ['\\', 'n']
  | '\x0C' => ['\\', 'f']
  | '\r' => ['\\', 'r']
  | '"' => ['\\', '"']
  | '\\' => ['\\', '\\']
  | c =>
    if isControl c then
      let digits := (Nat.toDigits 16 c.toNat).map Char.toUpper
      ['\\', 'u'] ++ List.replicate (4 - digits.length) '0' ++ digits
    else [c]

/-- Text with escapes. Between three quotes a line feed stays, and so does a quote unless two stay
right before it; `run` counts those. -/
def escape (q : Quoting) (run : Nat) : List Char → List Char
  | [] => []
  | c :: cs =>
    if c = '"' then
      if q.multiline ∧ run < 2 then c :: q.escape (run + 1) cs else '\\' :: '"' :: q.escape 0 cs
    else if q.multiline ∧ c = '\n' then c :: q.escape 0 cs
    else escapeChar c ++ q.escape 0 cs

/-- A text in these quotes. If it has a line feed it starts on a line of its own. -/
def write (q : Quoting) (cs : List Char) : List Char :=
  let start := if q.multiline && cs.contains '\n' then ['\n'] else []
  q.delimiter ++ start ++ (if q.escaped then q.escape 0 cs else cs) ++ q.delimiter

end Quoting

def writeText (s : String) : String :=
  String.ofList ((Quoting.ofText s.toList).write s.toList)

end InstrumentBus.Toml
