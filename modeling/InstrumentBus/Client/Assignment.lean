import InstrumentBus.Text.Blank
import InstrumentBus.Text.Quoted

/-!
Values for single elements, written `Device.PROPERTY.ELEMENT=value`.
-/

namespace InstrumentBus

structure Assignment where
  device : String
  property : String
  element : String
  value : String
deriving DecidableEq

inductive AssignmentError
  | badForm (text : String) : AssignmentError
  | emptyName (path : String) : AssignmentError
deriving DecidableEq

def AssignmentError.message : AssignmentError → String
  | .badForm text => "expected Device.PROPERTY.ELEMENT=value, got " ++ Text.quote text
  | .emptyName path => "empty name in " ++ Text.quote path

namespace Assignment

/-- The device, property and element of a path. A device name may have points in it. -/
def splitPath? (path : List Char) : Option (List Char × List Char × List Char) := do
  let (rest, element) ← Text.cutLast? '.' path
  let (device, property) ← Text.cutLast? '.' rest
  some (device, property, element)

def read (s : String) : Except AssignmentError Assignment :=
  match Text.cutFirst? '=' s.toList with
  | none => .error (.badForm s)
  | some (path, value) =>
    match splitPath? path with
    | none => .error (.badForm s)
    | some (device, property, element) =>
      if device.isEmpty ∨ property.isEmpty ∨ element.isEmpty then
        .error (.emptyName (String.ofList path))
      else
        .ok
          { device := String.ofList device
            property := String.ofList property
            element := String.ofList element
            value := String.ofList value }

def write (a : Assignment) : String :=
  a.device ++ "." ++ a.property ++ "." ++ a.element ++ "=" ++ a.value

end Assignment

end InstrumentBus
