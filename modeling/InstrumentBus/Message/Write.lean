import InstrumentBus.Decimal.Shortest
import InstrumentBus.Markup.Escape
import InstrumentBus.Message.Read

/-!
The frames that carry messages.
-/

namespace InstrumentBus

/-- What an element of a frame holds: nothing, so that it is one tag, or text between two. -/
inductive Content
  | nothing : Content
  | text (s : String) : Content
deriving DecidableEq

abbrev Attributes := List (String × String)

structure Leaf where
  tag : String
  attributes : Attributes
  content : Content
deriving DecidableEq

/-- A frame as it is laid out: one element on one line, or a vector with a line for each of its
elements. -/
inductive Frame
  | leaf : Leaf → Frame
  | vector (tag : String) (attributes : Attributes) (items : List Leaf) : Frame
deriving DecidableEq

def writeAttributes (as : Attributes) : List Char :=
  as.flatMap fun (key, value) =>
    ' ' :: key.toList ++ '=' :: '"' :: Markup.escape value.toList ++ ['"']

def writeEnd (tag : String) : List Char := '<' :: '/' :: tag.toList ++ ['>', '\n']

def Leaf.write (l : Leaf) : List Char :=
  '<' :: l.tag.toList ++ writeAttributes l.attributes ++
    match l.content with
    | .nothing => ['/', '>', '\n']
    | .text s => '>' :: Markup.escape s.toList ++ writeEnd l.tag

def Frame.write : Frame → List Char
  | .leaf l => l.write
  | .vector tag attributes items =>
    '<' :: tag.toList ++ writeAttributes attributes ++ '>' :: '\n' ::
      items.flatMap (fun l => ' ' :: ' ' :: l.write) ++ writeEnd tag

def optional (key : String) (value : Option String) : Attributes :=
  value.toList.map fun v => (key, v)

def DefinedElement.leaf (k : Kind) (e : DefinedElement) : Leaf where
  tag := elementTag .define k
  attributes :=
    ("name", e.name) :: optional "label" e.label ++
      if k = .number then
        let r := e.range.getD .default
        [("format", r.format), ("min", Decimal.write r.min), ("max", Decimal.write r.max),
          ("step", Decimal.write r.step)]
      else []
  content :=
    match e.value with
    | .blob _ => .nothing
    | .scalar text => if k = .blob then .nothing else .text text

def ElementValue.leaf (k : Kind) (e : ElementValue) : Leaf where
  tag := elementTag .update k
  attributes :=
    ("name", e.name) ::
      match e.value with
      | .scalar _ => []
      | .blob b => [("size", toString b.size), ("format", b.format)]
  content :=
    match e.value with
    | .scalar text => .text text
    | .blob b => .text (String.ofList (Text.Base64.encode b.data))

namespace Message

def frame : Message → Frame
  | .discover m =>
    .leaf ⟨"getProperties",
      optional "version" m.version ++ optional "device" m.device ++ optional "name" m.name,
      .nothing⟩
  | .remove m =>
    .leaf ⟨"delProperty",
      ("device", m.device) :: optional "name" m.name ++ optional "timestamp" m.timestamp ++
        optional "message" m.message,
      .nothing⟩
  | .notify m =>
    .leaf ⟨"message",
      optional "device" m.device ++ optional "timestamp" m.timestamp ++ [("message", m.message)],
      .nothing⟩
  | .payloads m =>
    .leaf ⟨"enableBLOB", optional "device" m.device ++ optional "name" m.name,
      .text (word m.policy)⟩
  | .define m =>
    .vector (vectorTag .define m.kind)
      (("device", m.device) :: ("name", m.name) :: optional "label" m.label ++
        optional "group" m.group ++ ("state", word m.state) ::
        optional "perm" (m.permission.map word) ++ optional "rule" (m.rule.map word) ++
        optional "timeout" (m.timeout.map Decimal.write) ++ optional "timestamp" m.timestamp ++
        optional "message" m.message)
      (m.elements.map (·.leaf m.kind))
  | .update m =>
    .vector (vectorTag .update m.kind)
      (("device", m.device) :: ("name", m.name) :: optional "state" (m.state.map word) ++
        optional "timeout" (m.timeout.map Decimal.write) ++ optional "timestamp" m.timestamp ++
        optional "message" m.message)
      (m.elements.map (·.leaf m.kind))
  | .change m =>
    .vector (vectorTag .change m.kind)
      (("device", m.device) :: ("name", m.name) :: optional "timestamp" m.timestamp)
      (m.elements.map (·.leaf m.kind))

def write (m : Message) : String := String.ofList m.frame.write

def toBytes (m : Message) : Text.Bytes := Text.utf8 m.write

end Message
end InstrumentBus
