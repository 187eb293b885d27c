import InstrumentBus.Broker.Error

/-!
What can go wrong in a client.
-/

namespace InstrumentBus

inductive ClientError
  | config (reason : String) : ClientError
  | system (reason : String) : ClientError
  | connection (reason : String) : ClientError
  | protocol (reason : String) : ClientError
  | timeout (operation : String) : ClientError
  | broker (reason : String) : ClientError
  | device (reason : String) : ClientError
  | server (reason : String) : ClientError
deriving DecidableEq

namespace ClientError

def message : ClientError → String
  | .config reason => "configuration error: " ++ reason
  | .system reason => "IO error: " ++ reason
  | .connection reason => "connection error: " ++ reason
  | .protocol reason => "protocol error: " ++ reason
  | .timeout operation => "timeout: " ++ operation
  | .broker reason => "broker error: " ++ reason
  | .device reason => "device error: " ++ reason
  | .server reason => "server error: " ++ reason

def ofWire : WireError → ClientError
  | .timeout operation => .timeout operation
  | .connection reason => .system reason
  | e => .protocol e.message

def ofBroker (e : BrokerError) : ClientError := .server e.message

end ClientError

end InstrumentBus
