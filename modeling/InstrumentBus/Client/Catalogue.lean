import InstrumentBus.Client.Assignment
import InstrumentBus.Client.Error
import InstrumentBus.Property.Basic

/-!
What a client knows of the properties of all devices, and the requests that it builds from it.
-/

namespace InstrumentBus

structure Catalogue where
  properties : List Property
deriving DecidableEq

namespace Catalogue

def empty : Catalogue := ⟨[]⟩

def isAt (device name : String) (p : Property) : Bool := p.device == device && p.name == name

def property? (c : Catalogue) (device name : String) : Option Property :=
  c.properties.find? (isAt device name)

def insert (c : Catalogue) (p : Property) : Catalogue :=
  if (c.property? p.device p.name).isSome then
    ⟨c.properties.map fun q => if isAt p.device p.name q then p else q⟩
  else ⟨c.properties ++ [p]⟩

def isRemoved (r : Removal) (p : Property) : Bool :=
  p.device == r.device && r.name.all (· == p.name)

def remove (c : Catalogue) (r : Removal) : Catalogue := ⟨c.properties.filter (!isRemoved r ·)⟩

def writeProperty (p : Property) (only : Option (List String)) : String :=
  let shown := p.elements.filter fun e => only.all (·.contains e.name)
  let values := shown.map fun e => e.name ++ "=" ++ e.display
  " ".intercalate ((p.device ++ "." ++ p.name) :: ("[" ++ word p.state ++ "]") :: values)

def writeRemoval (r : Removal) : String :=
  match r.name with
  | some name => r.device ++ "." ++ name
  | none => r.device

def writeNotice (n : Notice) : String :=
  let stamp := n.timestamp.getD "-"
  match n.device with
  | some device => stamp ++ " " ++ device ++ ": " ++ n.message
  | none => stamp ++ " " ++ n.message

/-- Takes over what a message says, and gives the lines to show for it. A definition or an update
that makes no sense is ignored. -/
def apply (c : Catalogue) (now : Time.Millis) : Message → Catalogue × List String
  | .define d =>
    match Property.ofDefinition now d with
    | .ok p => (c.insert p, ["def " ++ writeProperty p none])
    | .error _ => (c, [])
  | .update u =>
    match c.property? u.device u.name with
    | none => (c, [])
    | some p =>
      match p.applyUpdate now u with
      | .ok (p, changed) =>
        (c.insert p,
          ("set " ++ writeProperty p (some changed)) :: u.message.toList.map ("    " ++ ·))
      | .error _ => (c, [])
  | .remove r => (c.remove r, ["del " ++ writeRemoval r])
  | .notify n => (c, ["msg " ++ writeNotice n])
  | _ => (c, [])

end Catalogue

namespace Assignment

def toEntry (a : Assignment) : ElementValue := ⟨a.element, .scalar a.value⟩

def misplaced? (p : Property) (assignments : List Assignment) : Option Assignment :=
  assignments.find? fun a => a.device != p.device || a.property != p.name

def requestOf (p : Property) (assignments : List Assignment) : ChangeRequest where
  kind := p.kind
  device := p.device
  name := p.name
  timestamp := none
  elements := assignments.map toEntry

/-- The change request for some assignments to one property. It is tried on the property as the
client knows it, and refused if that refuses it. -/
def toRequest (p : Property) (now : Time.Millis) (assignments : List Assignment) :
    Except ClientError ChangeRequest :=
  match misplaced? p assignments with
  | some a =>
    .error (.config
      (a.device ++ "." ++ a.property ++ " does not belong to " ++ p.device ++ "." ++ p.name))
  | none =>
    let request := requestOf p assignments
    match p.applyChange now request with
    | .ok _ => .ok request
    | .error e => .error (.device e.message)

end Assignment

end InstrumentBus
