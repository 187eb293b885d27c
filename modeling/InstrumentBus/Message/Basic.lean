import InstrumentBus.Property.Terms

/-!
The messages that devices, the broker and clients exchange. Element values stay in the form in
which they travel; only the owner of a property interprets them.
-/

namespace InstrumentBus

/-- A binary payload with its format, usually a file suffix, and its declared size. -/
structure Blob where
  format : String
  size : Nat
  data : List UInt8
deriving DecidableEq

def Blob.empty : Blob := ⟨"", 0, []⟩

def Blob.ofData (format : String) (data : List UInt8) : Blob := ⟨format, data.length, data⟩

inductive WireValue
  | scalar (text : String) : WireValue
  | blob (payload : Blob) : WireValue
deriving DecidableEq

structure NumberRange where
  format : String
  min : Float
  max : Float
  step : Float
deriving DecidableEq

def NumberRange.default : NumberRange := ⟨"%g", 0, 0, 0⟩

structure DefinedElement where
  name : String
  label : Option String
  value : WireValue
  range : Option NumberRange
deriving DecidableEq

structure ElementValue where
  name : String
  value : WireValue
deriving DecidableEq

/-- A request to be told about all properties, or those of a device, or one of them. -/
structure Discovery where
  version : Option String
  device : Option String
  name : Option String
deriving DecidableEq

structure Definition where
  kind : Kind
  device : String
  name : String
  label : Option String
  group : Option String
  state : State
  permission : Option Permission
  rule : Option Rule
  timeout : Option Float
  timestamp : Option String
  message : Option String
  elements : List DefinedElement
deriving DecidableEq

structure Update where
  kind : Kind
  device : String
  name : String
  state : Option State
  timeout : Option Float
  timestamp : Option String
  message : Option String
  elements : List ElementValue
deriving DecidableEq

structure ChangeRequest where
  kind : Kind
  device : String
  name : String
  timestamp : Option String
  elements : List ElementValue
deriving DecidableEq

/-- The removal of a property, or of a device if no property is named. -/
structure Removal where
  device : String
  name : Option String
  timestamp : Option String
  message : Option String
deriving DecidableEq

structure Notice where
  device : Option String
  timestamp : Option String
  message : String
deriving DecidableEq

/-- The sender's wish to get binary payloads or not, in general, of a device, or of a property. -/
structure PayloadRequest where
  device : Option String
  name : Option String
  policy : BlobPolicy
deriving DecidableEq

inductive Message
  | discover : Discovery → Message
  | define : Definition → Message
  | update : Update → Message
  | change : ChangeRequest → Message
  | remove : Removal → Message
  | notify : Notice → Message
  | payloads : PayloadRequest → Message
deriving DecidableEq

def protocolVersion : String := "1.7"

def Discovery.everything : Discovery := ⟨some protocolVersion, none, none⟩

def Discovery.ofDevice (device : String) : Discovery :=
  ⟨some protocolVersion, some device, none⟩

def Discovery.ofProperty (device name : String) : Discovery :=
  ⟨some protocolVersion, some device, some name⟩

def Discovery.covers (d : Discovery) (device : String) : Bool :=
  d.device.all (· == device)

def Removal.ofDevice (device : String) : Removal := ⟨device, none, none, none⟩

def Removal.ofProperty (device name : String) : Removal := ⟨device, some name, none, none⟩

def WireValue.scalar? : WireValue → Option String
  | .scalar text => some text
  | .blob _ => none

def WireValue.hasPayload : WireValue → Bool
  | .scalar _ => false
  | .blob payload => !payload.data.isEmpty

namespace Message

def device : Message → Option String
  | .discover m => m.device
  | .define m => m.device
  | .update m => m.device
  | .change m => m.device
  | .remove m => m.device
  | .notify m => m.device
  | .payloads m => m.device

def property : Message → Option String
  | .discover m => m.name
  | .define m => m.name
  | .update m => m.name
  | .change m => m.name
  | .remove m => m.name
  | .notify _ => none
  | .payloads m => m.name

/-- Updates and changes of payload properties count whatever they hold, definitions only with a
payload that is not empty. -/
def carriesBlob : Message → Bool
  | .define m => m.kind == .blob && m.elements.any (·.value.hasPayload)
  | .update m => m.kind == .blob
  | .change m => m.kind == .blob
  | _ => false

def tag : Message → String
  | .discover _ => "getProperties"
  | .define m => "def" ++ m.kind.fragment ++ "Vector"
  | .update m => "set" ++ m.kind.fragment ++ "Vector"
  | .change m => "new" ++ m.kind.fragment ++ "Vector"
  | .remove _ => "delProperty"
  | .notify _ => "message"
  | .payloads _ => "enableBLOB"

end Message
end InstrumentBus
