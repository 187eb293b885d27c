import InstrumentBus.Driver.Spec
import InstrumentBus.Time.Date

/-!
Requests that administer a broker, and its responses.
-/

namespace InstrumentBus.Control

inductive Request
  | ping : Request
  | status : Request
  | listDevices : Request
  | load (driver : DriverSpec) : Request
  | unload (identifier : String) : Request
  | shutdown : Request
deriving DecidableEq

/-- What a broker says about itself; `devices` counts device names. -/
structure StatusInfo where
  uptimeSeconds : UInt64
  startedAt : Time.Instant
  port : UInt16
  clients : UInt64
  backends : UInt64
  devices : UInt64
deriving DecidableEq

structure DeviceInfo where
  id : UInt64
  kind : DriverKind
  identifiers : List String
  devices : List String
deriving DecidableEq

inductive ErrorCode
  | internalError : ErrorCode
  | invalidRequest : ErrorCode
  | unknownDriver : ErrorCode
  | alreadyLoaded : ErrorCode
  | driverFailed : ErrorCode
  | notFound : ErrorCode
  | shuttingDown : ErrorCode
deriving DecidableEq

namespace ErrorCode

def all : List ErrorCode :=
  [.internalError, .invalidRequest, .unknownDriver, .alreadyLoaded, .driverFailed, .notFound,
    .shuttingDown]

def name : ErrorCode → String
  | .internalError => "internal_error"
  | .invalidRequest => "invalid_request"
  | .unknownDriver => "unknown_driver"
  | .alreadyLoaded => "already_loaded"
  | .driverFailed => "driver_failed"
  | .notFound => "not_found"
  | .shuttingDown => "shutting_down"

def ofName? (s : String) : Option ErrorCode := all.find? (·.name == s)

@[simp] theorem ofName?_name (c : ErrorCode) : ofName? c.name = some c := by
  cases c <;> rfl

def description : ErrorCode → String
  | .internalError => "An internal error occurred"
  | .invalidRequest => "The request was invalid"
  | .unknownDriver => "No such driver"
  | .alreadyLoaded => "Driver is already loaded"
  | .driverFailed => "Driver failed to start"
  | .notFound => "Requested resource not found"
  | .shuttingDown => "Broker is shutting down"

end ErrorCode

structure Failure where
  code : ErrorCode
  message : String
deriving DecidableEq

def Failure.text (f : Failure) : String := f.code.description ++ ": " ++ f.message

inductive Response
  | pong : Response
  | ok : Response
  | status (info : StatusInfo) : Response
  | devices (infos : List DeviceInfo) : Response
  | error (failure : Failure) : Response
deriving DecidableEq

def Response.failure? : Response → Option Failure
  | .error f => some f
  | _ => none

def Response.isSuccess (r : Response) : Bool := r.failure?.isNone

structure Envelope (α : Type) where
  version : String
  requestId : String
  payload : α
deriving DecidableEq

def currentVersion : String := "1"

def Envelope.ofPayload {α : Type} (requestId : String) (payload : α) : Envelope α :=
  ⟨currentVersion, requestId, payload⟩

def Envelope.isCompatible {α : Type} (e : Envelope α) : Bool := e.version == currentVersion

end InstrumentBus.Control
