import InstrumentBus.Text.Blank

/-!
The closed vocabularies of properties, each with the words that stand for its members in frames.
-/

namespace InstrumentBus

inductive Kind
  | text : Kind
  | number : Kind
  | switch : Kind
  | light : Kind
  | blob : Kind
deriving DecidableEq

/-- The state of a property, and the value of a light. -/
inductive State
  | idle : State
  | ok : State
  | busy : State
  | alert : State
deriving DecidableEq

inductive Permission
  | readOnly : Permission
  | writeOnly : Permission
  | readWrite : Permission
deriving DecidableEq

inductive Rule
  | oneOfMany : Rule
  | atMostOne : Rule
  | anyOfMany : Rule
deriving DecidableEq

inductive Switch
  | on : Switch
  | off : Switch
deriving DecidableEq

/-- Which updates a listener wants, by whether they carry a binary payload. -/
inductive BlobPolicy
  | never : BlobPolicy
  | also : BlobPolicy
  | only : BlobPolicy
deriving DecidableEq

def Kind.all : List Kind := [.text, .number, .switch, .light, .blob]

def Kind.name : Kind → String
  | .text => "text"
  | .number => "number"
  | .switch => "switch"
  | .light => "light"
  | .blob => "blob"

def Kind.fragment : Kind → String
  | .text => "Text"
  | .number => "Number"
  | .switch => "Switch"
  | .light => "Light"
  | .blob => "BLOB"

def Kind.ofFragment? (s : String) : Option Kind :=
  Kind.all.find? (·.fragment == s)

@[simp] theorem Kind.ofFragment?_fragment (k : Kind) : Kind.ofFragment? k.fragment = some k := by
  cases k <;> rfl

/-- A vocabulary whose words are read in any case and between blanks. -/
class Vocabulary (α : Type) where
  /-- What an error calls the vocabulary. -/
  title : String
  all : List α
  word : α → String

def word {α : Type} [Vocabulary α] (a : α) : String := Vocabulary.word a

def ofWord? (α : Type) [Vocabulary α] (s : String) : Option α :=
  (Vocabulary.all : List α).find? fun a => Text.eqIgnoringCase (word a) (Text.trim s)

instance : Vocabulary State where
  title := "state"
  all := [.idle, .ok, .busy, .alert]
  word
    | .idle => "Idle"
    | .ok => "Ok"
    | .busy => "Busy"
    | .alert => "Alert"

instance : Vocabulary Permission where
  title := "permission"
  all := [.readOnly, .writeOnly, .readWrite]
  word
    | .readOnly => "ro"
    | .writeOnly => "wo"
    | .readWrite => "rw"

instance : Vocabulary Rule where
  title := "switch rule"
  all := [.oneOfMany, .atMostOne, .anyOfMany]
  word
    | .oneOfMany => "OneOfMany"
    | .atMostOne => "AtMostOne"
    | .anyOfMany => "AnyOfMany"

instance : Vocabulary Switch where
  title := "switch status"
  all := [.on, .off]
  word
    | .on => "On"
    | .off => "Off"

instance : Vocabulary BlobPolicy where
  title := "BLOB policy"
  all := [.never, .also, .only]
  word
    | .never => "Never"
    | .also => "Also"
    | .only => "Only"

def Permission.isWritable : Permission → Bool
  | .readOnly => false
  | .writeOnly => true
  | .readWrite => true

def Switch.isOn : Switch → Bool
  | .on => true
  | .off => false

def BlobPolicy.acceptsPayload : BlobPolicy → Bool
  | .never => false
  | .also => true
  | .only => true

def BlobPolicy.acceptsOthers : BlobPolicy → Bool
  | .never => true
  | .also => true
  | .only => false

end InstrumentBus
