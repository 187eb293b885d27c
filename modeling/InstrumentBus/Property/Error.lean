import InstrumentBus.Decimal.Shortest
import InstrumentBus.Property.Terms
import InstrumentBus.Text.Quoted

/-!
What can be wrong with a property or with a request to change one.
-/

namespace InstrumentBus

inductive ValueError
  | notNumber (text : String) : ValueError
  | outside (value min max : Float) : ValueError
  | badWord (title text : String) : ValueError
  | payloadExpected : ValueError
  | payloadSent : ValueError
  | payloadDefined : ValueError
deriving DecidableEq

inductive PropertyError
  | readOnly (device property : String) : PropertyError
  | badValue (element : String) (cause : ValueError) : PropertyError
  | unknownElement (property element : String) : PropertyError
  | kindMismatch (expected actual : Kind) : PropertyError
  | duplicateElement (property element : String) : PropertyError
  | noElements (property : String) : PropertyError
  | badWord (title text : String) : PropertyError
  | unknownProperty (device property : String) : PropertyError
  | duplicateProperty (device property : String) : PropertyError
deriving DecidableEq

def badWordMessage (title text : String) : String :=
  "invalid " ++ title ++ " token: " ++ Text.quote text

def ValueError.message : ValueError → String
  | .notNumber text => "not a number: " ++ Text.quote text
  | .outside value min max =>
    Decimal.write value ++ " outside [" ++ Decimal.write min ++ ", " ++ Decimal.write max ++ "]"
  | .badWord title text => badWordMessage title text
  | .payloadExpected => "expected a binary payload"
  | .payloadSent => "binary payload sent to a non-BLOB element"
  | .payloadDefined => "binary payload in a non-BLOB definition"

def PropertyError.message : PropertyError → String
  | .readOnly device property => "property " ++ device ++ "." ++ property ++ " is read-only"
  | .badValue element cause => "invalid value for element " ++ element ++ ": " ++ cause.message
  | .unknownElement property element =>
    "property " ++ property ++ " has no element named " ++ element
  | .kindMismatch expected actual =>
    "type mismatch: expected " ++ expected.name ++ ", got " ++ actual.name
  | .duplicateElement property element =>
    "duplicate element " ++ element ++ " in property " ++ property
  | .noElements property => "property " ++ property ++ " defines no elements"
  | .badWord title text => badWordMessage title text
  | .unknownProperty device property =>
    "device " ++ device ++ " has no property named " ++ property
  | .duplicateProperty device property =>
    "property " ++ property ++ " is already defined on device " ++ device

def readWord (α : Type) [Vocabulary α] (s : String) : Except PropertyError α :=
  match ofWord? α s with
  | some a => .ok a
  | none => .error (.badWord (Vocabulary.title α) s)

end InstrumentBus
