import InstrumentBus.Settings.Basic
import InstrumentBus.Text.Utf8
import InstrumentBus.Toml.Read
import InstrumentBus.Toml.Write

/-!
Settings as a TOML document. What is missing has its standard value, and what is unknown is ignored.
-/

namespace InstrumentBus

namespace Toml

def items? : Toml → Option (List Toml)
  | .array items => some items
  | .tables items => some (items.map (.table .header))
  | _ => none

/-- The look-up of a field by its name, or by its place if the fields are given as an array. -/
def fields? : Toml → Option (String → Nat → Option Toml)
  | .table _ entries => some fun name _ => entries.lookup name
  | t => t.items?.map fun items _ place => items[place]?

def text? : Toml → Option String
  | .string s => some s
  | _ => none

def natural? : Toml → Option Nat
  | .integer n => if 0 ≤ n then some n.toNat else none
  | _ => none

def texts? (t : Toml) : Option (List String) := t.items? >>= (·.mapM text?)

def fieldOr {α : Type} (read? : Toml → Option α) (standard : α) : Option Toml → Option α
  | none => some standard
  | some t => read? t

end Toml

namespace ServerSettings

def portOf? (t : Toml) : Option UInt16 :=
  t.natural?.bind fun n => if n < UInt16.size then some n.toUInt16 else none

def ofToml? (t : Toml) : Option ServerSettings := do
  let field ← t.fields?
  let listen ← Toml.fieldOr (fun t => t.text? >>= Network.Address.read?) standard.listen
    (field "listen" 0)
  let port ← Toml.fieldOr portOf? standard.port (field "port" 1)
  let maxClients ← Toml.fieldOr Toml.natural? standard.maxClients (field "max_clients" 2)
  let socketPath ← Toml.fieldOr (·.text?.map some) standard.socketPath (field "socket_path" 3)
  let timeout ← Toml.fieldOr Toml.natural? standard.timeout (field "timeout" 4)
  let maxFrameSize ← Toml.fieldOr Toml.natural? standard.maxFrameSize (field "max_frame_size" 5)
  let allowedHosts ← Toml.fieldOr Toml.texts? standard.allowedHosts (field "allowed_hosts" 6)
  some
    { listen := listen
      port := port
      maxClients := maxClients
      socketPath := socketPath
      timeout := timeout
      maxFrameSize := maxFrameSize
      allowedHosts := allowedHosts }

end ServerSettings

/-- The name of a kind, or a table in which it names an empty value. -/
def DriverKind.ofToml? : Toml → Option DriverKind
  | .string s => ofName? s
  | .table _ [(s, .table _ [])] => ofName? s
  | .table _ [(s, .array [])] => ofName? s
  | _ => none

def DriverSpec.ofToml? (t : Toml) : Option DriverSpec := do
  let field ← t.fields?
  let kind ← field "kind" 0 >>= DriverKind.ofToml?
  let target ← field "target" 1 >>= Toml.text?
  some ⟨kind, target⟩

def LogSettings.ofToml? (t : Toml) : Option LogSettings := do
  let field ← t.fields?
  let format ← Toml.fieldOr Toml.text? standard.format (field "format" 0)
  let level ← Toml.fieldOr Toml.text? standard.level (field "level" 1)
  some ⟨format, level⟩

namespace Settings

def ofEntries? (entries : Toml.Entries) : Option Settings := do
  let server ← Toml.fieldOr ServerSettings.ofToml? standard.server (entries.lookup "server")
  let drivers ← Toml.fieldOr (fun t => t.items? >>= (·.mapM DriverSpec.ofToml?)) standard.drivers
    (entries.lookup "drivers")
  let logging ← Toml.fieldOr LogSettings.ofToml? standard.logging (entries.lookup "logging")
  some ⟨server, drivers, logging⟩

/-- Reads settings as they are in a file. They may ask for what makes no sense. -/
def read (bs : Text.Bytes) : Except SettingsError Settings :=
  match Text.ofUtf8? bs with
  | none => .error .notText
  | some s =>
    match Toml.read? s >>= ofEntries? with
    | some settings => .ok settings
    | none => .error .malformed

def writeServer (s : ServerSettings) : String :=
  let hosts := if s.allowedHosts.isEmpty then []
    else [("allowed_hosts", Toml.writeTexts s.allowedHosts)]
  Toml.writeTable "server"
    ([("listen", Toml.writeText s.listen.write), ("port", toString s.port.toNat),
      ("max_clients", toString s.maxClients)] ++
      s.socketPath.toList.map (fun path => ("socket_path", Toml.writeText path)) ++
      [("timeout", toString s.timeout), ("max_frame_size", toString s.maxFrameSize)] ++ hosts)

def writeDriver (d : DriverSpec) : String :=
  Toml.writeElement "drivers"
    [("kind", Toml.writeText d.kind.name), ("target", Toml.writeText d.target)]

def writeLogging (s : LogSettings) : String :=
  Toml.writeTable "logging"
    [("format", Toml.writeText s.format), ("level", Toml.writeText s.level)]

def write (s : Settings) : String :=
  Toml.writeTables (writeServer s.server :: s.drivers.map writeDriver ++ [writeLogging s.logging])

end Settings

end InstrumentBus
