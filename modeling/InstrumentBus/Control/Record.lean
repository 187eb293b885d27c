import InstrumentBus.Control.Basic
import InstrumentBus.Json.Basic
import InstrumentBus.Time.Zoned

/-!
Requests and responses as JSON values.

A payload names its variant in the member `type`; as an array it starts with that name. Members of
other names are allowed in all objects and mean nothing.
-/

namespace InstrumentBus.Control

class Payload (α : Type) where
  toJson : α → Json
  ofJson? : Json → Option α

def integer64 (n : UInt64) : Json := .integer n.toNat

def strings (xs : List String) : Json := .array (xs.map .string)

def strings? : Json → Option (List String) := Json.list? Json.string?

def variant? : Json → Option (String × Json)
  | .object members =>
    match Json.lookup "type" members with
    | .one (.string name) => some (name, .object (members.filter fun m => m.1 != "type"))
    | _ => none
  | .array (.string name :: items) => some (name, .array items)
  | _ => none

def ofVariant (name : String) (members : List (String × Json)) : Json :=
  .object (("type", .string name) :: members)

/-- The members of a variant that is a record of its own: only an object has them. -/
def inner? (names : List String) : Json → Option (List (Option Json))
  | .object members => Json.record? names (.object members)
  | _ => none

/-- A variant without members: any object, or the end of the array. -/
def alone? {α : Type} (a : α) : Json → Option α
  | .object _ => some a
  | .array [] => some a
  | _ => none

def driverKind? (j : Json) : Option DriverKind := j.name?.bind DriverKind.ofName?

namespace Request

def toJson : Request → Json
  | .ping => ofVariant "ping" []
  | .status => ofVariant "status" []
  | .listDevices => ofVariant "list_devices" []
  | .load d =>
    ofVariant "load_driver" [("kind", .string d.kind.name), ("target", .string d.target)]
  | .unload identifier => ofVariant "unload_driver" [("identifier", .string identifier)]
  | .shutdown => ofVariant "shutdown" []

def ofJson? (j : Json) : Option Request := do
  let (name, rest) ← variant? j
  match name with
  | "ping" => alone? .ping rest
  | "status" => alone? .status rest
  | "list_devices" => alone? .listDevices rest
  | "load_driver" =>
    match ← inner? ["kind", "target"] rest with
    | [some kind, some target] => some (.load ⟨← driverKind? kind, ← target.string?⟩)
    | _ => none
  | "unload_driver" =>
    match ← rest.record? ["identifier"] with
    | [some identifier] => (identifier.string?).map .unload
    | _ => none
  | "shutdown" => alone? .shutdown rest
  | _ => none

end Request

namespace StatusInfo

def members (i : StatusInfo) : List (String × Json) :=
  [("uptime_seconds", integer64 i.uptimeSeconds),
    ("started_at", .string (Time.writeZoned i.startedAt)), ("port", .integer i.port.toNat),
    ("clients", integer64 i.clients), ("backends", integer64 i.backends),
    ("devices", integer64 i.devices)]

def names : List String := ["uptime_seconds", "started_at", "port", "clients", "backends", "devices"]

def ofMembers? : List (Option Json) → Option StatusInfo
  | [some uptime, some started, some port, some clients, some backends, some devices] => do
    some
      { uptimeSeconds := ← uptime.uint64?
        startedAt := ← Time.readZoned? (← started.string?)
        port := ← port.uint16?
        clients := ← clients.uint64?
        backends := ← backends.uint64?
        devices := ← devices.uint64? }
  | _ => none

def ofJson? (j : Json) : Option StatusInfo := (j.record? names).bind ofMembers?

end StatusInfo

namespace DeviceInfo

def toJson (i : DeviceInfo) : Json :=
  .object
    ([("id", integer64 i.id), ("kind", .string i.kind.name),
        ("identifiers", strings i.identifiers)] ++
      if i.devices.isEmpty then [] else [("devices", strings i.devices)])

def ofJson? (j : Json) : Option DeviceInfo := do
  match ← j.record? ["id", "kind", "identifiers", "devices"] with
  | [some id, some kind, some identifiers, devices] =>
    some
      { id := ← id.uint64?
        kind := ← driverKind? kind
        identifiers := ← strings? identifiers
        devices := ← devices.elim (some []) strings? }
  | _ => none

end DeviceInfo

namespace Response

def toJson : Response → Json
  | .pong => ofVariant "pong" []
  | .ok => ofVariant "ok" []
  | .status info => ofVariant "status" info.members
  | .devices infos => ofVariant "devices" [("devices", .array (infos.map DeviceInfo.toJson))]
  | .error f =>
    ofVariant "error" [("code", .string f.code.name), ("message", .string f.message)]

def ofJson? (j : Json) : Option Response := do
  let (name, rest) ← variant? j
  match name with
  | "pong" => alone? .pong rest
  | "ok" => alone? .ok rest
  | "status" => ((← inner? StatusInfo.names rest) |> StatusInfo.ofMembers?).map .status
  | "devices" =>
    match ← rest.record? ["devices"] with
    | [some infos] => (infos.list? DeviceInfo.ofJson?).map .devices
    | _ => none
  | "error" =>
    match ← inner? ["code", "message"] rest with
    | [some code, some message] =>
      some (.error ⟨← code.name?.bind ErrorCode.ofName?, ← message.string?⟩)
    | _ => none
  | _ => none

end Response

instance : Payload Request := ⟨Request.toJson, Request.ofJson?⟩

instance : Payload Response := ⟨Response.toJson, Response.ofJson?⟩

namespace Envelope

def toJson {α : Type} [Payload α] (e : Envelope α) : Json :=
  .object
    [("protocol_version", .string e.version), ("request_id", .string e.requestId),
      ("payload", Payload.toJson e.payload)]

def maxLevels : Nat := 126

def ofJson? {α : Type} [Payload α] (j : Json) : Option (Envelope α) := do
  match ← j.record? ["protocol_version", "request_id", "payload"] with
  | [some version, some requestId, some payload] =>
    if payload.fits maxLevels then
      some ⟨← version.string?, ← requestId.string?, ← Payload.ofJson? payload⟩
    else none
  | _ => none

end Envelope

end InstrumentBus.Control
