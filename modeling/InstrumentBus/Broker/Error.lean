import InstrumentBus.Control.Basic
import InstrumentBus.Wire.Error

/-!
What can go wrong when a broker is run or administered.
-/

namespace InstrumentBus

inductive BrokerError
  | system (reason : String) : BrokerError
  | wire (cause : WireError) : BrokerError
  | socketInUse (path : String) : BrokerError
  | noSocketFolder (path : String) : BrokerError
  | config (reason : String) : BrokerError
  | unknownDriver (identifier : String) : BrokerError
  | alreadyLoaded (identifier : String) : BrokerError
  | startFailed (target reason : String) : BrokerError
  | shutdown : BrokerError
deriving DecidableEq

namespace BrokerError

def message : BrokerError → String
  | .system reason => "IO error: " ++ reason
  | .wire cause => "Protocol error: " ++ cause.message
  | .socketInUse path => "Socket path already in use: " ++ path
  | .noSocketFolder path => "Socket path parent directory does not exist: " ++ path
  | .config reason => "Configuration error: " ++ reason
  | .unknownDriver identifier => "Unknown driver: " ++ identifier
  | .alreadyLoaded identifier => "Driver already loaded: " ++ identifier
  | .startFailed target reason => "Failed to start " ++ target ++ ": " ++ reason
  | .shutdown => "Server shutdown requested"

def code : BrokerError → Control.ErrorCode
  | .unknownDriver _ => .unknownDriver
  | .alreadyLoaded _ => .alreadyLoaded
  | .startFailed .. => .driverFailed
  | .config _ => .invalidRequest
  | .shutdown => .shuttingDown
  | _ => .internalError

def failure (e : BrokerError) : Control.Failure := ⟨e.code, e.message⟩

end BrokerError

end InstrumentBus
