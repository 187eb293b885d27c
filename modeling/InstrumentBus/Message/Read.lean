import InstrumentBus.Markup.Node
import InstrumentBus.Message.Basic
import InstrumentBus.Number.Format
import InstrumentBus.Text.Base64
import InstrumentBus.Wire.Error

/-!
Messages from the elements that carry them.
-/

namespace InstrumentBus

open Markup (Node)
open Text (Bytes)

inductive Verb
  | define : Verb
  | update : Verb
  | change : Verb
deriving DecidableEq

def Verb.all : List Verb := [.define, .update, .change]

def Verb.word : Verb → String
  | .define => "def"
  | .update => "set"
  | .change => "new"

def vectorTag (v : Verb) (k : Kind) : String := v.word ++ k.fragment ++ "Vector"

def elementTag (v : Verb) (k : Kind) : String :=
  (match v with
    | .define => "def"
    | _ => "one") ++ k.fragment

def vectorOfTag? (tag : String) : Option (Verb × Kind) :=
  (Verb.all.flatMap fun v => Kind.all.map fun k => (v, k)).find? fun (v, k) =>
    vectorTag v k == tag

namespace Markup.Node

def malformed {α : Type} (n : Node) (fault : FrameFault) : Except WireError α :=
  .error (.malformed n.name fault)

def required (n : Node) (key : String) : Except WireError String :=
  match n.attr? key with
  | some value => .ok value
  | none => n.malformed (.missing key)

def readWord (α : Type) [Vocabulary α] (n : Node) (text : String) : Except WireError α :=
  match ofWord? α text with
  | some a => .ok a
  | none => n.malformed (.badWord (Vocabulary.title α) text)

def wordAttr (α : Type) [Vocabulary α] (n : Node) (key : String) : Except WireError (Option α) :=
  match n.attr? key with
  | some text => (n.readWord α text).map some
  | none => .ok none

def numberAttr (n : Node) (key : String) : Except WireError (Option Float) :=
  match n.attr? key with
  | some text =>
    match Number.read? text with
    | some x => .ok (some x)
    | none => n.malformed (.badNumber key text)
  | none => .ok none

def scalar (n : Node) : WireValue := .scalar (Text.trim n.text)

def readSize? (text : String) : Option Nat :=
  Decimal.natural? UInt64.size (Text.trimChars text.toList)

def isBase64Gap (c : Char) : Bool :=
  c == ' ' || c == '\t' || c == '\n' || c == '\x0c' || c == '\r'

def blob (n : Node) : Except WireError Blob := do
  let data ← match Text.Base64.decode? (n.text.toList.filter (!isBase64Gap ·)) with
    | some data => .ok data
    | none => n.malformed .badBase64
  let size ← match n.attr? "size" with
    | some text =>
      match readSize? text with
      | some size => .ok size
      | none => n.malformed (.badNumber "size" text)
    | none => .ok data.length
  .ok ⟨(n.attr? "format").getD "", size, data⟩

def rangeAttrs (n : Node) : Except WireError NumberRange := do
  let min ← n.numberAttr "min"
  let max ← n.numberAttr "max"
  let step ← n.numberAttr "step"
  .ok ⟨(n.attr? "format").getD "%g", min.getD 0, max.getD 0, step.getD 0⟩

def definedElement (k : Kind) (n : Node) : Except WireError DefinedElement := do
  let range ← if k = .number then n.rangeAttrs.map some else .ok none
  let name ← n.required "name"
  .ok ⟨name, n.attr? "label", n.scalar, range⟩

def elementValue (k : Kind) (n : Node) : Except WireError ElementValue := do
  let name ← n.required "name"
  let value ← if k = .blob then n.blob.map WireValue.blob else .ok n.scalar
  .ok ⟨name, value⟩

def items (v : Verb) (k : Kind) (n : Node) : List Node :=
  n.children.filter (·.name == elementTag v k)

def definition (k : Kind) (n : Node) : Except WireError Definition := do
  let elements ← (n.items .define k).mapM (definedElement k)
  let device ← n.required "device"
  let name ← n.required "name"
  let state ← n.wordAttr State "state"
  let permission ← n.wordAttr Permission "perm"
  let rule ← n.wordAttr Rule "rule"
  let timeout ← n.numberAttr "timeout"
  .ok
    { kind := k
      device := device
      name := name
      label := n.attr? "label"
      group := n.attr? "group"
      state := state.getD .idle
      permission := permission
      rule := rule
      timeout := timeout
      timestamp := n.attr? "timestamp"
      message := n.attr? "message"
      elements := elements }

def update (k : Kind) (n : Node) : Except WireError Update := do
  let device ← n.required "device"
  let name ← n.required "name"
  let state ← n.wordAttr State "state"
  let timeout ← n.numberAttr "timeout"
  let elements ← (n.items .update k).mapM (elementValue k)
  .ok
    { kind := k
      device := device
      name := name
      state := state
      timeout := timeout
      timestamp := n.attr? "timestamp"
      message := n.attr? "message"
      elements := elements }

def change (k : Kind) (n : Node) : Except WireError ChangeRequest := do
  let device ← n.required "device"
  let name ← n.required "name"
  let elements ← (n.items .change k).mapM (elementValue k)
  .ok ⟨k, device, name, n.attr? "timestamp", elements⟩

/-- The message that an element carries; an element of another name carries none. -/
def message? (n : Node) : Except WireError (Option Message) :=
  match n.name with
  | "getProperties" =>
    .ok (some (.discover ⟨n.attr? "version", n.attr? "device", n.attr? "name"⟩))
  | "delProperty" => do
    let device ← n.required "device"
    .ok (some (.remove ⟨device, n.attr? "name", n.attr? "timestamp", n.attr? "message"⟩))
  | "message" =>
    .ok (some (.notify ⟨n.attr? "device", n.attr? "timestamp", (n.attr? "message").getD ""⟩))
  | "enableBLOB" => do
    let policy ← n.readWord BlobPolicy (Text.trim n.text)
    .ok (some (.payloads ⟨n.attr? "device", n.attr? "name", policy⟩))
  | tag =>
    match vectorOfTag? tag with
    | some (.define, k) => (n.definition k).map fun m => some (.define m)
    | some (.update, k) => (n.update k).map fun m => some (.update m)
    | some (.change, k) => (n.change k).map fun m => some (.change m)
    | none => .ok none

end Markup.Node

def WireError.ofNodeError : Markup.NodeError → WireError
  | .markup tag => .malformed tag .markup
  | .early tag => .malformed tag .early

def Message.ofFrame? (bs : Bytes) : Except WireError (Option Message) :=
  match Node.ofBytes bs with
  | .ok n => n.message?
  | .error e => .error (.ofNodeError e)

end InstrumentBus
