import InstrumentBus.Broker.Error
import InstrumentBus.Decimal.Read

/-!
How a driver is started, and the identifiers that it is then loaded under.
-/

namespace InstrumentBus

inductive Launch
  | builtin (id : String) : Launch
  | process (path : String) (arguments : List String) : Launch
  | network (host : String) (port : UInt16) : Launch
deriving DecidableEq

namespace Launch

def kind : Launch → DriverKind
  | .builtin _ => .builtin
  | .process .. => .process
  | .network .. => .network

def classMark : String := "class+-+"

def writeAddress (host : String) (port : UInt16) : String := host ++ ":" ++ toString port.toNat

def identifiers : Launch → List String
  | .builtin id => [classMark ++ id, id]
  | .process path _ => [path]
  | .network host port => [writeAddress host port]

def defaultPort : UInt16 := 7624

def readAddress (address : String) : Except BrokerError Launch := do
  let (host, port) ← match Text.cutLast? ':' address.toList with
    | none => .ok (address.toList, defaultPort)
    | some (host, port) =>
      match Decimal.natural? UInt16.size port with
      | some n => .ok (host, n.toUInt16)
      | none => .error (.config ("invalid port in " ++ Text.quote address))
  if host.all Text.isBlank then .error (.config ("missing host in " ++ Text.quote address))
  else .ok (.network (String.ofList (Text.trimChars host)) port)

def words (s : String) : List String :=
  ((Text.splitAt Text.isBlank s.toList).filter (!·.isEmpty)).map String.ofList

def plainId (target : String) : String :=
  match Text.afterStart? classMark.toList target.toList with
  | some id => String.ofList id
  | none => target

/-- How to start the driver that `spec` describes; `builtins` are the ids of those inside the
broker. -/
def ofSpec (builtins : List String) (spec : DriverSpec) : Except BrokerError Launch :=
  let target := Text.trim spec.target
  if target.isEmpty then .error (.config ("empty " ++ spec.kind.name ++ " driver target"))
  else match spec.kind with
    | .builtin =>
      let id := plainId target
      if builtins.contains id then .ok (.builtin id) else .error (.unknownDriver target)
    | .process =>
      match words target with
      | path :: arguments => .ok (.process path arguments)
      | [] => .error (.config "empty process driver path")
    | .network => readAddress target

end Launch

end InstrumentBus
