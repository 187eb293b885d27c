import InstrumentBus.Broker.Basic
import InstrumentBus.Camera
import InstrumentBus.Driver.Launch
import InstrumentBus.Wire.Decoder

/-!
A server: a broker with the drivers that run inside it, and the requests that administer both.
-/

namespace InstrumentBus

/-- `drivers` are the running drivers by the ids of their backends, and `decoders` hold what clients
sent of messages that are not complete. -/
structure Server where
  broker : Broker
  drivers : List (PeerId × Camera)
  decoders : List (PeerId × Wire.Decoder)
  port : UInt16
  shutdownRequested : Bool

namespace Server

def ofBroker (broker : Broker) (port : UInt16) : Server := ⟨broker, [], [], port, false⟩

def builtins : List String := [Camera.id]

def setDriver (s : Server) (id : PeerId) (c : Camera) : Server :=
  { s with drivers := s.drivers.map fun d => if d.1 = id then (id, c) else d }

def routeAll (s : Server) (origin : PeerId) : List Message → Server × List Effect
  | [] => (s, [])
  | m :: ms =>
    let (broker, effects) := s.broker.route origin m
    let (s, others) := { s with broker := broker }.routeAll origin ms
    (s, effects ++ others)

/-- Hands a queued message to the driver it is for and routes what that sends. A driver that is
stopped is gone, and its backend with it. -/
def react (s : Server) (now : Time.Millis) : Effect → Server × List Effect
  | .queue id m =>
    match s.drivers.lookup id with
    | some c =>
      let (c, sent) := c.handle now m
      (s.setDriver id c).routeAll id sent
    | none => (s, [])
  | .stop id =>
    let s := { s with drivers := s.drivers.filter (·.1 != id) }
    let (broker, effects) := s.broker.deregister now id
    ({ s with broker := broker }, effects)
  | _ => (s, [])

def reactAll (s : Server) (now : Time.Millis) : List Effect → Server × List Effect
  | [] => (s, [])
  | e :: es =>
    let (s, effects) := s.react now e
    let (s, others) := s.reactAll now es
    (s, effects ++ others)

def settleFor : Nat → Server → Time.Millis → List Effect → Server × List Effect
  | 0, s, _, effects => (s, effects)
  | rounds + 1, s, now, effects =>
    let (s, next) := s.reactAll now effects
    let (s, later) := settleFor rounds s now next
    (s, effects ++ later)

/-- Lets drivers react until they are quiet. Drivers answer clients and the broker but not one
another, so the second round is the last that changes anything. -/
def settle (s : Server) (now : Time.Millis) (effects : List Effect) : Server × List Effect :=
  settleFor 2 s now effects

def receive (s : Server) (now : Time.Millis) (client : PeerId) (m : Message) :
    Server × List Effect :=
  let (broker, effects) := s.broker.route client m
  { s with broker := broker }.settle now effects

def receiveAll (s : Server) (now : Time.Millis) (client : PeerId) :
    List Wire.Arrival → Server × List Effect
  | [] => (s, [])
  | .error _ :: arrivals => s.receiveAll now client arrivals
  | .ok m :: arrivals =>
    let (s, effects) := s.receive now client m
    let (s, others) := s.receiveAll now client arrivals
    (s, effects ++ others)

def decoderOf (s : Server) (client : PeerId) : Wire.Decoder :=
  (s.decoders.lookup client).getD (.ofLimit Wire.defaultLimit)

def read (s : Server) (now : Time.Millis) (client : PeerId) (bs : Text.Bytes) :
    Server × List Wire.Arrival × List Effect :=
  let (decoder, arrivals) := ((s.decoderOf client).feed bs).drain
  let decoders := (client, decoder) :: s.decoders.filter (·.1 != client)
  let (s, effects) := { s with decoders := decoders }.receiveAll now client arrivals
  (s, arrivals, effects)

def connect (s : Server) (address : Network.Endpoint) : Server × Option PeerId × List Effect :=
  let (broker, id, effects) := s.broker.accept address
  ({ s with broker := broker }, id, effects)

def disconnect (s : Server) (now : Time.Millis) (client : PeerId) : Server × List Effect :=
  let (broker, effects) := s.broker.deregister now client
  { s with broker := broker }.settle now effects

/-- Runs a driver that has a backend. One that is a process or another broker runs elsewhere. -/
def addDriver (s : Server) (now : Time.Millis) (peer : PeerId) : Launch → Server
  | .builtin _ => { s with drivers := s.drivers ++ [(peer, Camera.start now)] }
  | .process .. | .network .. => s

/-- Registers a driver; `outcome` is what came of its start. -/
def startDriver (s : Server) (now : Time.Millis) (launch : Launch)
    (outcome : Except BrokerError Unit) : Except BrokerError (PeerId × Server × List Effect) := do
  outcome
  match s.broker.register launch.kind launch.identifiers with
  | (_, none, _) => .error .shutdown
  | (broker, some peer, effects) =>
    let (s, effects) := ({ s with broker := broker }.addDriver now peer launch).settle now effects
    .ok (peer, s, effects)

/-- Starts the driver that `spec` describes, unless one with an identifier of its runs or starts.
The identifiers are reserved until the driver is registered or has failed. -/
def load (s : Server) (now : Time.Millis) (spec : DriverSpec) (outcome : Except BrokerError Unit) :
    Except BrokerError (Server × List Effect) := do
  if s.shutdownRequested then .error .shutdown
  let launch ← Launch.ofSpec builtins spec
  let broker ← s.broker.claim launch.identifiers
  let (_, s, effects) ← { s with broker := broker }.startDriver now launch outcome
  .ok ({ s with broker := s.broker.release launch.identifiers }, effects)

def tickOne (s : Server) (now : Time.Millis) (id : PeerId) : Server × List Effect :=
  match s.drivers.lookup id with
  | some c =>
    let (c, sent) := c.tick now
    let (s, effects) := (s.setDriver id c).routeAll id sent
    s.settle now effects
  | none => (s, [])

def tickAll (s : Server) (now : Time.Millis) : List PeerId → Server × List Effect
  | [] => (s, [])
  | id :: ids =>
    let (s, effects) := s.tickOne now id
    let (s, others) := s.tickAll now ids
    (s, effects ++ others)

def tick (s : Server) (now : Time.Millis) : Server × List Effect :=
  s.tickAll now (s.drivers.map (·.1))

def shutdownBroker (s : Server) (now : Time.Millis) : Server × List Effect :=
  let (broker, effects) := s.broker.shutdown
  { s with broker := broker }.settle now effects

def statusInfo (s : Server) (now : Time.Millis) : Control.StatusInfo where
  uptimeSeconds := (s.broker.uptimeSeconds now).toUInt64
  startedAt := .ofMillis s.broker.startedAt
  port := s.port
  clients := s.broker.clients.length.toUInt64
  backends := s.broker.backends.length.toUInt64
  devices := s.broker.names.length.toUInt64

def unload (s : Server) (now : Time.Millis) (identifier : String) :
    Except BrokerError (Server × List Effect) :=
  match s.broker.unload identifier with
  | [] => .error (.unknownDriver identifier)
  | effects => .ok (s.settle now effects)

def respond (s : Server) (attempt : Except BrokerError (Server × List Effect)) :
    Server × Control.Response × List Effect :=
  match attempt with
  | .ok (s, effects) => (s, .ok, effects)
  | .error e => (s, .error e.failure, [])

/-- Answers a request; `outcome` is what comes of the start of a driver. -/
def handle (s : Server) (now : Time.Millis) (outcome : Except BrokerError Unit) :
    Control.Request → Server × Control.Response × List Effect
  | .ping => (s, .pong, [])
  | .status => (s, .status (s.statusInfo now), [])
  | .listDevices => (s, .devices s.broker.deviceInfos, [])
  | .load spec => s.respond (s.load now spec outcome)
  | .unload identifier => s.respond (s.unload now identifier)
  | .shutdown => ({ s with shutdownRequested := true }, .ok, [])

end Server

end InstrumentBus
