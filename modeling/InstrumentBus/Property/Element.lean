import InstrumentBus.Message.Basic
import InstrumentBus.Number.Format
import InstrumentBus.Property.Error

/-!
Elements: the named values of a property.
-/

namespace InstrumentBus

structure Quantity where
  value : Float
  range : NumberRange
deriving DecidableEq

/-- A range whose lower end is not below its upper end holds every number. -/
def NumberRange.holds (r : NumberRange) (x : Float) : Bool :=
  r.min ≥ r.max || (r.min ≤ x && x ≤ r.max)

inductive Value
  | text : String → Value
  | number : Quantity → Value
  | switch : Switch → Value
  | light : State → Value
  | blob : Blob → Value
deriving DecidableEq

def Value.kind : Value → Kind
  | .text _ => .text
  | .number _ => .number
  | .switch _ => .switch
  | .light _ => .light
  | .blob _ => .blob

def Value.toWire : Value → WireValue
  | .text s => .scalar s
  | .number q => .scalar (Decimal.write q.value)
  | .switch s => .scalar (word s)
  | .light s => .scalar (word s)
  | .blob b => .blob b

/-- Numbers are compared as numbers: the two zeros agree, and NaN agrees with nothing. -/
def Quantity.agrees (p q : Quantity) : Bool :=
  p.value == q.value && p.range.format == q.range.format && p.range.min == q.range.min &&
    p.range.max == q.range.max && p.range.step == q.range.step

def Value.agrees : Value → Value → Bool
  | .number p, .number q => p.agrees q
  | v, w => v == w

structure Element where
  name : String
  label : String
  value : Value
deriving DecidableEq

namespace Element

/-- Blanks around name and label go; the name stands in for an empty label. -/
def named (name label : String) (value : Value) : Element :=
  let name := Text.trim name
  let label := Text.trim label
  ⟨name, if label.isEmpty then name else label, value⟩

def kind (e : Element) : Kind := e.value.kind

def switch? (e : Element) : Option Switch :=
  match e.value with
  | .switch s => some s
  | _ => none

def isOn (e : Element) : Bool := e.switch? == some .on

/-- Who proposes a value: a client is held to the range of a number, the owner is not. -/
inductive Authority
  | client : Authority
  | owner : Authority
deriving DecidableEq

def readWordValue (α : Type) [Vocabulary α] (text : String) : Except ValueError α :=
  match ofWord? α text with
  | some a => .ok a
  | none => .error (.badWord (Vocabulary.title α) text)

def readNumber (text : String) : Except ValueError Float :=
  match Number.read? text with
  | some x => .ok x
  | none => .error (.notNumber text)

def interpretAs (current : Value) (authority : Authority) : WireValue → Except ValueError Value
  | .blob b =>
    match current with
    | .blob _ => .ok (.blob b)
    | _ => .error .payloadSent
  | .scalar text =>
    match current with
    | .blob _ => .error .payloadExpected
    | .text _ => .ok (.text text)
    | .number q => do
      let x ← readNumber text
      if authority = .client ∧ ¬ q.range.holds x then
        .error (.outside x q.range.min q.range.max)
      else .ok (.number { q with value := x })
    | .switch _ => (readWordValue Switch text).map .switch
    | .light _ => (readWordValue State text).map .light

def interpret (e : Element) (authority : Authority) (wire : WireValue) :
    Except PropertyError Value :=
  (interpretAs e.value authority wire).mapError (.badValue e.name)

/-- The value of an element of a definition; payload elements start empty unless one is given. -/
def definedValue (kind : Kind) (d : DefinedElement) : Except ValueError Value :=
  match kind, d.value with
  | .blob, .blob b => .ok (.blob b)
  | .blob, .scalar _ => .ok (.blob .empty)
  | _, .blob _ => .error .payloadDefined
  | .text, .scalar text => .ok (.text text)
  | .number, .scalar text => do
    .ok (.number ⟨← readNumber text, d.range.getD .default⟩)
  | .switch, .scalar text => (readWordValue Switch text).map .switch
  | .light, .scalar text => (readWordValue State text).map .light

def ofDefined (kind : Kind) (d : DefinedElement) : Except PropertyError Element :=
  match definedValue kind d with
  | .ok value => .ok (named d.name (d.label.getD "") value)
  | .error cause => .error (.badValue d.name cause)

def range? (e : Element) : Option NumberRange :=
  match e.value with
  | .number q => some q.range
  | _ => none

/-- Payloads are announced without their bytes. -/
def toDefined (e : Element) : DefinedElement where
  name := e.name
  label := some e.label
  value :=
    match e.value with
    | .blob _ => .scalar ""
    | v => v.toWire
  range := e.range?

def toValue (e : Element) : ElementValue := ⟨e.name, e.value.toWire⟩

def display (e : Element) : String :=
  match e.value with
  | .text s => s
  | .number q => Text.trim (Number.write q.range.format q.value)
  | .switch s => word s
  | .light s => word s
  | .blob b => "<" ++ toString b.size ++ " bytes" ++ b.format ++ ">"

end Element
end InstrumentBus
