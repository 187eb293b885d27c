import InstrumentBus.Property.Element
import InstrumentBus.Time.Timestamp

/-!
Properties: typed, ordered groups of elements that one device owns. The shape of a property is
fixed when it is built; after that only values, state, timeout and timestamp change.
-/

namespace InstrumentBus

/-- `busySince` is the time at which the property last became busy, if it is busy. -/
structure Property where
  device : String
  name : String
  label : String
  group : String
  kind : Kind
  permission : Permission
  state : State
  timeout : UInt32
  rule : Option Rule
  elements : List Element
  timestamp : String
  busySince : Option Time.Millis
deriving DecidableEq

structure Property.Draft where
  device : String
  name : String
  kind : Kind
  label : Option String
  group : Option String
  permission : Permission
  state : State
  timeout : UInt32
  rule : Rule
  elements : List Element

namespace Property

/-- Seconds that a change may take where no timeout is given. -/
def defaultTimeout : UInt32 := 60

def Draft.ofKind (device name : String) (kind : Kind) : Draft where
  device := device
  name := name
  kind := kind
  label := none
  group := none
  permission := .readWrite
  state := .idle
  timeout := defaultTimeout
  rule := .oneOfMany
  elements := []

/-- The nearest number of whole seconds; zero for what is not positive and finite. -/
def clampTimeout (seconds : Float) : UInt32 :=
  match Decimal.nearest? seconds with
  | some n => UInt32.ofNatClamp n.toNat
  | none => 0

def timestampAt (now : Time.Millis) : String :=
  Time.writeTimestamp (.ofMillis now)

/-- The first element in `es` that does not belong to a property of kind `kind`: it is of another
kind, or has a name among `seen` or of an element before it. -/
def checkElements (property : String) (kind : Kind) (seen : List String) :
    List Element → Except PropertyError Unit
  | [] => .ok ()
  | e :: es =>
    if e.kind ≠ kind then .error (.kindMismatch kind e.kind)
    else if e.name ∈ seen then .error (.duplicateElement property e.name)
    else checkElements property kind (e.name :: seen) es

def setSwitch (e : Element) (s : Switch) : Element := { e with value := .switch s }

def keepLastOn : List Element → List Element
  | [] => []
  | e :: es =>
    (if e.isOn && es.any (·.isOn) then setSwitch e .off else e) :: keepLastOn es

def normalize (rule : Rule) (es : List Element) : List Element :=
  if rule = .anyOfMany then es else keepLastOn es

/-- Becoming busy notes the time; staying busy keeps it, and any other state drops it. -/
def setState (p : Property) (now : Time.Millis) (state : State) : Property :=
  { p with
    state := state
    busySince :=
      if state = .busy then (if p.state = .busy then p.busySince else some now) else none }

def Draft.build (d : Draft) (now : Time.Millis) : Except PropertyError Property := do
  if d.elements.isEmpty then .error (.noElements d.name)
  checkElements d.name d.kind [] d.elements
  let p : Property :=
    { device := d.device
      name := d.name
      label := (d.label.filter fun l => !(Text.trim l).isEmpty).getD d.name
      group := d.group.getD ""
      kind := d.kind
      permission := if d.kind = .light then .readOnly else d.permission
      state := .idle
      timeout := d.timeout
      rule := if d.kind = .switch then some d.rule else none
      elements := if d.kind = .switch then normalize d.rule d.elements else d.elements
      timestamp := timestampAt now
      busySince := none }
  .ok (p.setState now d.state)

def Draft.ofDefinition (m : Definition) (elements : List Element) : Draft where
  device := m.device
  name := m.name
  kind := m.kind
  label := m.label
  group := m.group
  permission := m.permission.getD .readWrite
  state := m.state
  timeout := (m.timeout.map clampTimeout).getD defaultTimeout
  rule := m.rule.getD .oneOfMany
  elements := elements

def ofDefinition (now : Time.Millis) (m : Definition) : Except PropertyError Property := do
  let elements ← m.elements.mapM (Element.ofDefined m.kind)
  let p ← (Draft.ofDefinition m elements).build now
  .ok { p with timestamp := m.timestamp.getD p.timestamp }

def element? (p : Property) (name : String) : Option Element :=
  p.elements.find? (·.name == name)

/-- Whether the property has been busy for its timeout; a timeout of zero never passes. -/
def isOverdue (p : Property) (now : Time.Millis) : Bool :=
  p.state == .busy && p.timeout != 0 &&
    p.busySince.any fun since => now - since ≥ (p.timeout.toNat : Int) * 1000

def checkTarget (p : Property) (kind : Kind) (device name : String) : Except PropertyError Unit :=
  if device ≠ p.device ∨ name ≠ p.name then .error (.unknownProperty device name)
  else if kind ≠ p.kind then .error (.kindMismatch p.kind kind)
  else .ok ()

def findElement (p : Property) (name : String) : Except PropertyError Element :=
  match p.element? name with
  | some e => .ok e
  | none => .error (.unknownElement p.name name)

def interpret (p : Property) (authority : Element.Authority) (entries : List ElementValue) :
    Except PropertyError (List (String × Value)) :=
  entries.mapM fun entry => do
    let e ← p.findElement (Text.trim entry.name)
    .ok (e.name, ← e.interpret authority entry.value)

structure Assignment where
  elements : List Element
  touched : List String

def Assignment.put (a : Assignment) (name : String) (value : Value) : Assignment :=
  match a.elements.find? (·.name == name) with
  | some e =>
    if e.value.agrees value then a
    else
      { elements := a.elements.map fun e => if e.name = name then { e with value } else e
        touched := name :: a.touched }
  | none => a

def Assignment.changed (a : Assignment) : List String :=
  (a.elements.filter (a.touched.contains ·.name)).map (·.name)

/-- Puts values one after another; an element counts as changed if one of them differed from what
it found. -/
def assign (es : List Element) (values : List (String × Value)) : Assignment :=
  values.foldl (fun a (name, value) => a.put name value) ⟨es, []⟩

def selectOnly (name : String) (es : List Element) : List Element :=
  es.map fun e => setSwitch e (if e.name = name then .on else .off)

def assignSwitch (name : String) (s : Switch) (es : List Element) : List Element :=
  es.map fun e => if e.name = name then setSwitch e s else e

/-- One step of a switch request. Switching on turns the others off, unless any number may be on;
switching off the only switch that is on does nothing where one has to be. -/
def press (rule : Rule) (es : List Element) (name : String) : Switch → List Element
  | .on => if rule = .anyOfMany then assignSwitch name .on es else selectOnly name es
  | .off =>
    if rule = .oneOfMany then
      if es.any fun e => e.name ≠ name && e.isOn then assignSwitch name .off es else es
    else assignSwitch name .off es

def pressAll (rule : Rule) (es : List Element) (values : List (String × Value)) : List Element :=
  values.foldl
    (fun es (name, value) =>
      match value with
      | .switch s => press rule es name s
      | _ => es)
    es

def switchedNames (before after : List Element) : List String :=
  ((before.zip after).filter fun (e, f) => e.switch? ≠ f.switch?).map fun (_, f) => f.name

def changeElements (p : Property) (values : List (String × Value)) :
    List Element × List String :=
  if p.kind = .switch then
    let es := pressAll (p.rule.getD .oneOfMany) p.elements values
    (es, switchedNames p.elements es)
  else
    let a := assign p.elements values
    (a.elements, a.changed)

/-- Carries out a change request or refuses it as a whole. State and timeout are left to the owner;
the timestamp moves if a value did. -/
def applyChange (p : Property) (now : Time.Millis) (r : ChangeRequest) :
    Except PropertyError (Property × List String) := do
  p.checkTarget r.kind r.device r.name
  if !p.permission.isWritable then .error (.readOnly p.device p.name)
  let values ← p.interpret .client r.elements
  let (elements, changed) := p.changeElements values
  .ok ({ p with
          elements := elements
          timestamp := if changed.isEmpty then p.timestamp else timestampAt now }, changed)

/-- Takes over what the owner reports; neither permission, range nor rule is enforced. -/
def applyUpdate (p : Property) (now : Time.Millis) (u : Update) :
    Except PropertyError (Property × List String) := do
  p.checkTarget u.kind u.device u.name
  let values ← p.interpret .owner u.elements
  let a := assign p.elements values
  let p := { p with elements := a.elements }
  let p := match u.state with
    | some state => p.setState now state
    | none => p
  .ok ({ p with
          timeout := (u.timeout.map clampTimeout).getD p.timeout
          timestamp := u.timestamp.getD (timestampAt now) }, a.changed)

/-- Sets the value of one element; the owner does this without regard to the switch rule. -/
def setValue (p : Property) (now : Time.Millis) (name : String) (value : Value) :
    Except PropertyError Property := do
  let e ← p.findElement name
  if value.kind ≠ e.kind then .error (.kindMismatch e.kind value.kind)
  .ok { p with
        elements := p.elements.map fun e => if e.name = name then { e with value } else e
        timestamp := timestampAt now }

/-- Lights do not announce a timeout. -/
def announcedTimeout (p : Property) : Option Float :=
  if p.kind = .light then none else some p.timeout.toNat.toFloat

def toDefinition (p : Property) : Definition where
  kind := p.kind
  device := p.device
  name := p.name
  label := some p.label
  group := some p.group
  state := p.state
  permission := if p.kind = .light then none else some p.permission
  rule := p.rule
  timeout := p.announcedTimeout
  timestamp := some p.timestamp
  message := none
  elements := p.elements.map Element.toDefined

def updateOf (p : Property) (es : List Element) : Update where
  kind := p.kind
  device := p.device
  name := p.name
  state := some p.state
  timeout := p.announcedTimeout
  timestamp := some p.timestamp
  message := none
  elements := es.map Element.toValue

def toUpdate (p : Property) : Update := p.updateOf p.elements

def toUpdateOf (p : Property) (names : List String) : Update :=
  p.updateOf (p.elements.filter (names.contains ·.name))

end Property
end InstrumentBus
