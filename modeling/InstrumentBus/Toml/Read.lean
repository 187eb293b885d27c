import InstrumentBus.Text.Blank
import InstrumentBus.Toml.Number
import InstrumentBus.Toml.Quoting

/-!
Reading TOML documents.
-/

namespace InstrumentBus.Toml

def isBare (c : Char) : Bool := c.isAlphanum || c == '_' || c == '-'

def takeKeyPart? (cs : List Char) : Option (String × List Char) :=
  match cs.takeWhile isBare with
  | [] => takeLineText? cs
  | part => some (String.ofList part, cs.dropWhile isBare)

def takeKeyPartsOf : Nat → List Char → Option (List String × List Char)
  | 0, _ => none
  | fuel + 1, cs => do
    let (part, cs) ← takeKeyPart? (skipSpace cs)
    match skipSpace cs with
    | '.' :: cs => do
      let (parts, cs) ← takeKeyPartsOf fuel cs
      some (part :: parts, cs)
    | cs => some ([part], cs)

def Key.ofParts? (parts : List String) : Option Key :=
  parts.getLast?.map fun last => ⟨parts.dropLast, last⟩

def takeKey? (cs : List Char) : Option (Key × List Char) := do
  let (parts, cs) ← takeKeyPartsOf (cs.length + 1) cs
  (Key.ofParts? parts).map (·, cs)

/-- Skips space, line ends and comments; `comment` tells whether a comment has begun. -/
def skipFiller : Bool → List Char → List Char
  | _, '\n' :: cs => skipFiller false cs
  | _, '\r' :: '\n' :: cs => skipFiller false cs
  | true, c :: cs => if isControl c then c :: cs else skipFiller true cs
  | false, c :: cs =>
    if c = '#' then skipFiller true cs
    else if isSpace c then skipFiller false cs
    else c :: cs
  | _, [] => []

def takeBoolean? (cs : List Char) : Option (Toml × List Char) :=
  match Text.afterStart? "true".toList cs with
  | some cs => some (.boolean true, cs)
  | none => (Text.afterStart? "false".toList cs).map (.boolean false, ·)

def putPair (entries : Entries) (pair : Key × Toml) : Option Entries :=
  put pair.1.path pair.1.last pair.2 .value entries

def ofPairs? (pairs : List (Key × Toml)) : Option Toml :=
  (pairs.foldlM putPair []).map (.table .value ·)

mutual

def takeValueOf : Nat → List Char → Option (Toml × List Char)
  | 0, _ => none
  | _ + 1, [] => none
  | fuel + 1, c :: cs =>
    if c = '[' then (takeItemsOf fuel cs).map fun (items, cs) => (.array items, cs)
    else if c = '\x7b' then
      match skipSpace cs with
      | '\x7d' :: cs => some (.table .value [], cs)
      | cs => do
        let (pairs, cs) ← takePairsOf fuel cs
        (ofPairs? pairs).map (·, cs)
    else if c = '"' ∨ c = '\'' then (takeText? (c :: cs)).map fun (text, cs) => (.string text, cs)
    else (takeBoolean? (c :: cs)).or (takeNumber? (c :: cs))

/-- The items of an array up to its closing bracket; a comma may follow the last. -/
def takeItemsOf : Nat → List Char → Option (List Toml × List Char)
  | 0, _ => none
  | fuel + 1, cs =>
    match skipFiller false cs with
    | ']' :: cs => some ([], cs)
    | cs => do
      let (item, cs) ← takeValueOf fuel cs
      match skipFiller false cs with
      | ',' :: cs => do
        let (items, cs) ← takeItemsOf fuel cs
        some (item :: items, cs)
      | ']' :: cs => some ([item], cs)
      | _ => none

def takePairOf : Nat → List Char → Option ((Key × Toml) × List Char)
  | 0, _ => none
  | fuel + 1, cs => do
    let (key, cs) ← takeKey? cs
    match cs with
    | '=' :: cs => do
      let (value, cs) ← takeValueOf fuel (skipSpace cs)
      some ((key, value), cs)
    | _ => none

def takePairsOf : Nat → List Char → Option (List (Key × Toml) × List Char)
  | 0, _ => none
  | fuel + 1, cs => do
    let (pair, cs) ← takePairOf fuel cs
    match skipSpace cs with
    | ',' :: cs => do
      let (pairs, cs) ← takePairsOf fuel cs
      some (pair :: pairs, cs)
    | '\x7d' :: cs => some ([pair], cs)
    | _ => none

end

def takeLine? (cs : List Char) : Option (Option Line × List Char) :=
  match skipSpace cs with
  | '[' :: '[' :: cs => do
    match ← takeKey? cs with
    | (key, ']' :: ']' :: cs) => some (some (.element key), cs)
    | _ => none
  | '[' :: cs => do
    match ← takeKey? cs with
    | (key, ']' :: cs) => some (some (.table key), cs)
    | _ => none
  | c :: cs =>
    if c = '#' ∨ c = '\n' ∨ c = '\r' then some (none, c :: cs)
    else (takePairOf (cs.length + 2) (c :: cs)).map fun (pair, cs) =>
      (some (.entry pair.1 pair.2), cs)
  | [] => some (none, [])

def takeLineEnd? (cs : List Char) : Option (List Char) :=
  let rest := match skipSpace cs with
    | '#' :: cs => cs.dropWhile (!isControl ·)
    | cs => cs
  if rest.isEmpty then some [] else takeNewline? rest

def Document.readOf : Nat → Document → List Char → Option Document
  | 0, _, _ => none
  | fuel + 1, d, cs =>
    if cs.isEmpty then some d
    else do
      let (line, cs) ← takeLine? cs
      let cs ← takeLineEnd? cs
      let d ← match line with
        | some line => d.add line
        | none => some d
      d.readOf fuel cs

def byteOrderMark : Char := '\uFEFF'

/-- The entries of a document. A byte order mark before it is skipped. -/
def read? (s : String) : Option Entries :=
  let cs := match s.toList with
    | c :: cs => if c = byteOrderMark then cs else c :: cs
    | [] => []
  (Document.readOf (cs.length + 1) .empty cs).map (·.entries)

end InstrumentBus.Toml
