import InstrumentBus.Text.Digits

/-!
Character references: how text and attribute values hold characters that are markup.
-/

namespace InstrumentBus.Markup

def escapeChar : Char → List Char
  | '<' => "&lt;".toList
  | '>' => "&gt;".toList
  | '&' => "&amp;".toList
  | '\'' => "&apos;".toList
  | '"' => "&quot;".toList
  | c => [c]

def escape (cs : List Char) : List Char := cs.flatMap escapeChar

def charOfNumber? (n : Nat) : Option Char :=
  if h : n.isValidChar then (if n = 0 then none else some (Char.ofNatAux n h)) else none

def reference? : List Char → Option Char
  | ['l', 't'] => some '<'
  | ['g', 't'] => some '>'
  | ['a', 'm', 'p'] => some '&'
  | ['a', 'p', 'o', 's'] => some '\''
  | ['q', 'u', 'o', 't'] => some '"'
  | '#' :: 'x' :: ds => Text.readDigits? Text.hexValue? 16 ds >>= charOfNumber?
  | '#' :: ds => Text.readDigits? Text.decimalValue? 10 ds >>= charOfNumber?
  | _ => none

/-- Resolves references; `name` is what was read, in reverse, of one that is not complete. -/
def unescapeFrom? (name : Option (List Char)) : List Char → Option (List Char)
  | [] => if name.isSome then none else some []
  | c :: cs =>
    match name with
    | none => if c = '&' then unescapeFrom? (some []) cs else (unescapeFrom? none cs).map (c :: ·)
    | some ds =>
      if c = ';' then do
        let c ← reference? ds.reverse
        (unescapeFrom? none cs).map (c :: ·)
      else unescapeFrom? (some (c :: ds)) cs

def unescape? (cs : List Char) : Option (List Char) := unescapeFrom? none cs

end InstrumentBus.Markup
