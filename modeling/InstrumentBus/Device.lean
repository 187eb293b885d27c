import InstrumentBus.Property.Basic

/-!
Devices: a name and the properties it owns, in the order of their definition.
-/

namespace InstrumentBus

structure Device where
  name : String
  properties : List Property
deriving DecidableEq

namespace Device

def ofName (name : String) : Device := ⟨name, []⟩

def draft (d : Device) (name : String) (kind : Kind) : Property.Draft :=
  .ofKind d.name name kind

def property? (d : Device) (name : String) : Option Property :=
  d.properties.find? (·.name == name)

def define (d : Device) (p : Property) : Except PropertyError (Device × Definition) :=
  if p.device ≠ d.name then .error (.unknownProperty d.name p.name)
  else if (d.property? p.name).isSome then .error (.duplicateProperty d.name p.name)
  else .ok ({ d with properties := d.properties ++ [p] }, p.toDefinition)

def replace (d : Device) (p : Property) : Device :=
  { d with properties := d.properties.map fun q => if q.name = p.name then p else q }

def remove? (d : Device) (now : Time.Millis) (name : String) : Option (Device × Removal) :=
  (d.property? name).map fun _ =>
    ({ d with properties := d.properties.filter (·.name != name) },
      ⟨d.name, some name, some (Property.timestampAt now), none⟩)

def removeAll (d : Device) (now : Time.Millis) : Device × Removal :=
  ({ d with properties := [] }, ⟨d.name, none, some (Property.timestampAt now), none⟩)

def discover (d : Device) (r : Discovery) : List Definition :=
  if r.covers d.name then
    (d.properties.filter fun p => r.name.all (· == p.name)).map Property.toDefinition
  else []

def applyChange (d : Device) (now : Time.Millis) (r : ChangeRequest) :
    Except PropertyError (Device × List String) :=
  if r.device ≠ d.name then .error (.unknownProperty r.device r.name)
  else
    match d.property? r.name with
    | none => .error (.unknownProperty r.device r.name)
    | some p => do
      let (p, changed) ← p.applyChange now r
      .ok (d.replace p, changed)

def timeoutUpdate (p : Property) : Update :=
  { p.toUpdateOf [] with message := some (p.name ++ " timed out") }

def expire (d : Device) (now : Time.Millis) : Device × List Update :=
  ({ d with
      properties := d.properties.map fun p =>
        if p.isOverdue now then p.setState now .alert else p },
    (d.properties.filter (·.isOverdue now)).map fun p => timeoutUpdate (p.setState now .alert))

end Device
end InstrumentBus
