import InstrumentBus.Text.Blank
import InstrumentBus.Text.Quoted

/-!
What a driver is loaded from: a kind and a target.
-/

namespace InstrumentBus

inductive DriverKind
  | builtin : DriverKind
  | process : DriverKind
  | network : DriverKind
deriving DecidableEq

namespace DriverKind

def name : DriverKind → String
  | .builtin => "builtin"
  | .process => "process"
  | .network => "network"

def all : List DriverKind := [.builtin, .process, .network]

def ofName? (s : String) : Option DriverKind := all.find? (·.name == s)

@[simp] theorem ofName?_name (k : DriverKind) : ofName? k.name = some k := by
  cases k <;> rfl

end DriverKind

/-- A driver id, the command line of a process or the address of a broker, after its kind. -/
structure DriverSpec where
  kind : DriverKind
  target : String
deriving DecidableEq

inductive DriverSpecError
  | noColon (text : String) : DriverSpecError
  | unknownKind (kind : String) : DriverSpecError
  | noTarget (kind : DriverKind) : DriverSpecError
deriving DecidableEq

def DriverSpecError.message : DriverSpecError → String
  | .noColon text => "expected kind:target, got " ++ Text.quote text
  | .unknownKind kind =>
    "unknown driver kind " ++ Text.quote kind ++ " (expected builtin, process or network)"
  | .noTarget kind => "missing " ++ kind.name ++ " driver target"

def DriverKind.read (s : String) : Except DriverSpecError DriverKind :=
  let s := String.ofList ((Text.trimChars s.toList).map Char.toLower)
  match ofName? s with
  | some kind => .ok kind
  | none => .error (.unknownKind s)

namespace DriverSpec

def write (d : DriverSpec) : String := d.kind.name ++ ":" ++ d.target

def read (s : String) : Except DriverSpecError DriverSpec :=
  match Text.cutFirst? ':' s.toList with
  | none => .error (.noColon s)
  | some (kind, target) => do
    let kind ← DriverKind.read (String.ofList kind)
    if target.all Text.isBlank then .error (.noTarget kind)
    else .ok ⟨kind, String.ofList target⟩

end DriverSpec

end InstrumentBus
