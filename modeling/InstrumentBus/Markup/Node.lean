import InstrumentBus.Markup.Token

/-!
The element tree of a piece of markup.
-/

namespace InstrumentBus.Markup

open Text (Bytes)

/-- An element. Its text is what stands directly in it, with that of its children left out. -/
inductive Node
  | element (name : String) (attributes : List (String × String)) (text : String)
      (children : List Node) : Node

namespace Node

def name : Node → String
  | .element name _ _ _ => name

def attributes : Node → List (String × String)
  | .element _ attributes _ _ => attributes

def text : Node → String
  | .element _ _ text _ => text

def children : Node → List Node
  | .element _ _ _ children => children

def attr? (n : Node) (key : String) : Option String :=
  (n.attributes.find? (·.1 == key)).map (·.2)

end Node

/-- An element whose end tag is still to come; texts and children are in reverse. -/
structure Opened where
  name : Bytes
  attributes : List (String × String)
  texts : List String
  children : List Node

namespace Opened

def title (o : Opened) : String := Text.ofUtf8Lossy o.name

def node (o : Opened) : Node :=
  .element o.title o.attributes (String.join o.texts.reverse) o.children.reverse

end Opened

inductive NodeError
  | markup (tag : String) : NodeError
  | early (tag : String) : NodeError
deriving DecidableEq

def outermost (stack : List Opened) : String :=
  (stack.getLast?.map Opened.title).getD "frame"

def attach (n : Node) : List Opened → Except Node (List Opened)
  | [] => .error n
  | o :: stack => .ok ({ o with children := n :: o.children } :: stack)

def addText (s : String) : List Opened → List Opened
  | [] => []
  | o :: stack => { o with texts := s :: o.texts } :: stack

/-- The open elements after one token, innermost first, or the element that the token completes. -/
def Token.apply (stack : List Opened) : Token → Except NodeError (Except Node (List Opened))
  | .open name attributes isEmpty =>
    match attributes? attributes with
    | none => .error (.markup (Text.ofUtf8Lossy name))
    | some attributes =>
      let o : Opened := ⟨name, attributes, [], []⟩
      if isEmpty then .ok (attach o.node stack) else .ok (.ok (o :: stack))
  | .close name =>
    match stack with
    | [] => .error (.markup (outermost stack))
    | o :: rest =>
      if o.name = name then .ok (attach o.node rest) else .error (.markup (outermost stack))
  | .text bs =>
    match stack with
    | [] => .ok (.ok [])
    | o :: _ =>
      match readText? bs with
      | some s => .ok (.ok (addText s stack))
      | none => .error (.markup o.title)
  | .data bs => .ok (.ok (addText (Text.ofUtf8Lossy bs) stack))
  | .aside => .ok (.ok stack)

def readNode : Nat → List Opened → Bytes → Except NodeError Node
  | 0, stack, _ => .error (.early (outermost stack))
  | fuel + 1, stack, bs =>
    match front bs with
    | .finish => .error (.early (outermost stack))
    | .broken => .error (.markup (outermost stack))
    | .token t rest => do
      match ← t.apply stack with
      | .error n => .ok n
      | .ok stack => readNode fuel stack rest

def Node.ofBytes (bs : Bytes) : Except NodeError Node := readNode (bs.length + 1) [] bs

end InstrumentBus.Markup
