import InstrumentBus.Broker.Hosts
import InstrumentBus.Driver.Spec
import InstrumentBus.Logging
import InstrumentBus.Wire.Decoder

/-!
The settings of a broker: how it listens, the drivers that it starts with, and what it logs.
-/

namespace InstrumentBus

/-- `timeout` is how many seconds a control request may take. -/
structure ServerSettings where
  listen : Network.Address
  port : UInt16
  maxClients : Nat
  socketPath : Option String
  timeout : Nat
  maxFrameSize : Nat
  allowedHosts : List String
deriving DecidableEq

structure LogSettings where
  format : String
  level : String
deriving DecidableEq

structure Settings where
  server : ServerSettings
  drivers : List DriverSpec
  logging : LogSettings
deriving DecidableEq

inductive SettingsError
  | notText : SettingsError
  | malformed : SettingsError
  | noClients : SettingsError
  | noTimeout : SettingsError
  | noTarget (kind : DriverKind) : SettingsError
  | host (error : BrokerError) : SettingsError
  | log (error : LogError) : SettingsError
deriving DecidableEq

def SettingsError.message : SettingsError → String
  | .notText => "failed to read config: it is not valid UTF-8"
  | .malformed => "failed to parse config"
  | .noClients => "server.max_clients must be at least 1"
  | .noTimeout => "server.timeout must be at least 1 second"
  | .noTarget kind => kind.name ++ " driver entry has an empty target"
  | .host error => error.message
  | .log error => error.message

def defaultPort : UInt16 := 7624

namespace ServerSettings

def standard : ServerSettings where
  listen := .v4 0 0 0 0
  port := defaultPort
  maxClients := 100
  socketPath := none
  timeout := 5
  maxFrameSize := Wire.defaultLimit
  allowedHosts := []

def endpoint (s : ServerSettings) : Network.Endpoint := ⟨s.listen, s.port⟩

end ServerSettings

namespace LogSettings

def standard : LogSettings := ⟨"compact", "info"⟩

def setup (s : LogSettings) : Except LogError LogSetup := do
  let format ← LogFormat.read s.format
  let level ← LogLevel.read s.level
  .ok { LogSetup.daemon with format := format, level := level }

end LogSettings

namespace Settings

def standard : Settings := ⟨.standard, [], .standard⟩

/-- The path of the control socket: the one that was asked for, else the one in the settings, else
the usual one. -/
def socketPath (s : Settings) (override : Option String) (usual : String) : String :=
  (override.or s.server.socketPath).getD usual

def untargeted? (s : Settings) : Option DriverSpec :=
  s.drivers.find? fun d => d.target.toList.all Text.isBlank

def check (s : Settings) : Except SettingsError Unit := do
  if s.server.maxClients = 0 then .error .noClients
  if s.server.timeout = 0 then .error .noTimeout
  if let some d := s.untargeted? then .error (.noTarget d.kind)
  let _ ← (AcceptPolicy.readHosts s.server.allowedHosts).mapError SettingsError.host
  let _ ← s.logging.setup.mapError SettingsError.log
  .ok ()

end Settings

end InstrumentBus
