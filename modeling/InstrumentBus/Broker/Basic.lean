import InstrumentBus.Broker.Hosts
import InstrumentBus.Broker.Listener
import InstrumentBus.Property.Basic

/-!
The broker: who is connected, who owns which device, and where a message goes.

Clients and backends are peers, numbered in the order of their arrival. A step of the broker gives
its next state and a list of effects: messages to queue for peers, queues to close, backends to
stop, and events for observers.
-/

namespace InstrumentBus

abbrev PeerId := Nat

/-- A driver as the broker sees it: its kind, the identifiers it is loaded under, and the device
names it announced, in the order of their announcement. -/
structure Backend where
  kind : DriverKind
  identifiers : List String
  names : List String
deriving DecidableEq

inductive Role
  | client : Role
  | backend : Backend → Role
deriving DecidableEq

/-- Someone connected. Backends listen too. -/
structure Peer where
  id : PeerId
  listener : Listener
  role : Role
deriving DecidableEq

namespace Peer

def backend? (p : Peer) : Option Backend :=
  match p.role with
  | .client => none
  | .backend b => some b

def isClient (p : Peer) : Bool := p.backend?.isNone

def names (p : Peer) : List String := p.backend?.elim [] (·.names)

def identifiers (p : Peer) : List String := p.backend?.elim [] (·.identifiers)

def announces (p : Peer) (device : String) : Bool := p.names.contains device

def mapBackend (f : Backend → Backend) (p : Peer) : Peer :=
  match p.role with
  | .client => p
  | .backend b => { p with role := .backend (f b) }

def mapListener (f : Listener → Listener) (p : Peer) : Peer :=
  { p with listener := f p.listener }

def learn (device : String) (p : Peer) : Peer :=
  p.mapBackend fun b => { b with names := b.names ++ [device] }

def unlearn (device : String) (p : Peer) : Peer :=
  p.mapBackend fun b => { b with names := b.names.filter (· != device) }

end Peer

inductive Event
  | established (peer : PeerId) (address : Network.Endpoint) : Event
  | rejected (address : Network.Endpoint) (policy : String) : Event
  | broken (peer : PeerId) : Event
  | registered (peer : PeerId) (identifiers : List String) : Event
  | disconnected (peer : PeerId) (identifiers devices : List String) : Event
deriving DecidableEq

inductive Effect
  | queue (peer : PeerId) (message : Message) : Effect
  | close (peer : PeerId) : Effect
  | stop (peer : PeerId) : Effect
  | event (event : Event) : Effect
deriving DecidableEq

/-- The peers are in the order of their ids, and `lastId` is the highest id given away. `claimed`
holds the identifiers of backends that are starting. -/
structure Broker where
  policies : List AcceptPolicy
  startedAt : Time.Millis
  lastId : PeerId
  peers : List Peer
  claimed : List String
  isShutDown : Bool

namespace Broker

def ofPolicies (policies : List AcceptPolicy) (startedAt : Time.Millis) : Broker :=
  ⟨policies, startedAt, 0, [], [], false⟩

def peer? (b : Broker) (id : PeerId) : Option Peer := b.peers.find? (·.id == id)

def clients (b : Broker) : List Peer := b.peers.filter (·.isClient)

def backends (b : Broker) : List Peer := b.peers.filter (!·.isClient)

def names (b : Broker) : List String := b.peers.flatMap (·.names)

def ownerOf? (b : Broker) (device : String) : Option PeerId :=
  (b.peers.find? (·.announces device)).map (·.id)

def isLoaded (b : Broker) (identifier : String) : Bool :=
  b.claimed.contains identifier || b.peers.any (·.identifiers.contains identifier)

def uptimeSeconds (b : Broker) (now : Time.Millis) : Nat := ((now - b.startedAt) / 1000).toNat

def sorted (names : List String) : List String := names.mergeSort fun s t => decide (s ≤ t)

def deviceInfos (b : Broker) : List Control.DeviceInfo :=
  b.peers.filterMap fun p =>
    p.backend?.map fun d =>
      { id := p.id.toUInt64
        kind := d.kind
        identifiers := d.identifiers
        devices := sorted d.names }

def mapPeer (b : Broker) (id : PeerId) (f : Peer → Peer) : Broker :=
  { b with peers := b.peers.map fun p => if p.id = id then f p else p }

def mapPeers (b : Broker) (f : Peer → Peer) : Broker :=
  { b with peers := b.peers.map f }

def deliver (b : Broker) (m : Message) (wants : Peer → Bool) : List Effect :=
  (b.peers.filter wants).map fun p => .queue p.id m

def fanOut (b : Broker) (origin : PeerId) (m : Message) (wants : Listener → Bool) : List Effect :=
  b.deliver m fun p => p.id != origin && wants p.listener && p.listener.admits m

def prune (b : Broker) (device : String) (name : Option String) : Broker :=
  b.mapPeers (·.mapListener (·.prune device name))

def dropDevice (b : Broker) (origin : PeerId) (removal : Removal) : Broker × List Effect :=
  let device := removal.device
  ((b.mapPeers (·.unlearn device)).prune device none,
    b.fanOut origin (.remove removal) (·.hearsAnyOf device))

/-- The first backend to announce a name owns it. -/
def learn (b : Broker) (origin : PeerId) (device : String) : Broker :=
  if (b.ownerOf? device).isSome then b else b.mapPeer origin (·.learn device)

def routeDiscovery (b : Broker) (origin : PeerId) (request : Discovery) : Broker × List Effect :=
  let target := request.device.bind b.ownerOf?
  (b.mapPeer origin (·.mapListener (·.listen request)),
    b.deliver (.discover request) fun p =>
      !p.isClient && p.id != origin && target.all (· == p.id))

def routeChange (b : Broker) (p : Peer) (request : ChangeRequest) : List Effect :=
  if p.listener.hearsProperty request.device request.name then
    (b.ownerOf? request.device).toList.map fun owner => .queue owner (.change request)
  else []

def routeReport (b : Broker) (origin : PeerId) (device name : String) (m : Message) :
    Broker × List Effect :=
  let b := b.learn origin device
  (b, b.fanOut origin m (·.hearsProperty device name))

def routeNotice (b : Broker) (origin : PeerId) (notice : Notice) : Broker × List Effect :=
  match notice.device with
  | some device =>
    let b := b.learn origin device
    (b, b.fanOut origin (.notify notice) (·.hearsAnyOf device))
  | none => (b, b.deliver (.notify notice) (·.isClient))

def routeRemoval (b : Broker) (origin : PeerId) (removal : Removal) : Broker × List Effect :=
  match removal.name with
  | some name =>
    (b.prune removal.device (some name),
      b.deliver (.remove removal) fun p =>
        p.id != origin && p.listener.hearsProperty removal.device name)
  | none => b.dropDevice origin removal

/-- Routes what a registered peer sends. A client's discovery request needs a version, and only
backends report on devices. -/
def routeFrom (b : Broker) (p : Peer) (m : Message) : Broker × List Effect :=
  match m with
  | .discover request =>
    if p.isClient && request.version.all String.isEmpty then (b, [])
    else b.routeDiscovery p.id request
  | .change request => (b, b.routeChange p request)
  | .payloads request => (b.mapPeer p.id (·.mapListener (·.setPolicy request)), [])
  | m =>
    if p.isClient then (b, [])
    else match m with
      | .define d => b.routeReport p.id d.device d.name m
      | .update u => b.routeReport p.id u.device u.name m
      | .notify n => b.routeNotice p.id n
      | .remove r => b.routeRemoval p.id r
      | _ => (b, [])

def route (b : Broker) (origin : PeerId) (m : Message) : Broker × List Effect :=
  match b.peer? origin with
  | some p => b.routeFrom p m
  | none => (b, [])

def addPeer (b : Broker) (role : Role) : Broker × PeerId :=
  let id := b.lastId + 1
  ({ b with lastId := id, peers := b.peers ++ [⟨id, .empty, role⟩] }, id)

def accept (b : Broker) (address : Network.Endpoint) : Broker × Option PeerId × List Effect :=
  match b.policies.find? fun p => !p.accepts address with
  | some policy => (b, none, [.event (.rejected address policy.name)])
  | none =>
    if b.isShutDown then (b, none, [])
    else
      let (b, id) := b.addPeer .client
      (b, some id, [.event (.established id address)])

def register (b : Broker) (kind : DriverKind) (identifiers : List String) :
    Broker × Option PeerId × List Effect :=
  if b.isShutDown then (b, none, [])
  else
    let (b, id) := b.addPeer (.backend ⟨kind, identifiers, []⟩)
    (b, some id, [.queue id (.discover .everything), .event (.registered id identifiers)])

def claim (b : Broker) (identifiers : List String) : Except BrokerError Broker :=
  match identifiers.find? b.isLoaded with
  | some taken => .error (.alreadyLoaded taken)
  | none => .ok { b with claimed := identifiers ++ b.claimed }

def release (b : Broker) (identifiers : List String) : Broker :=
  { b with claimed := b.claimed.filter fun i => !identifiers.contains i }

def dropDevices (b : Broker) (origin : PeerId) (timestamp : String) :
    List String → Broker × List Effect
  | [] => (b, [])
  | device :: devices =>
    let removal := { Removal.ofDevice device with timestamp := some timestamp }
    let (b, dropped) := b.dropDevice origin removal
    let (b, others) := b.dropDevices origin timestamp devices
    (b, dropped ++ others)

def deregister (b : Broker) (now : Time.Millis) (id : PeerId) : Broker × List Effect :=
  match b.peer? id with
  | none => (b, [])
  | some p =>
    let b := { b with peers := b.peers.filter (·.id != id) }
    match p.role with
    | .client => (b, [.close id, .event (.broken id)])
    | .backend d =>
      let names := sorted d.names
      let (b, removals) := b.dropDevices id (Property.timestampAt now) names
      (b, removals ++ [.close id, .event (.disconnected id d.identifiers names)])

def withIdentifier (b : Broker) (identifier : String) : List PeerId :=
  (b.peers.filter (·.identifiers.contains identifier)).map (·.id)

/-- Stops the backends that have an identifier; each is deregistered when its link closes. -/
def unload (b : Broker) (identifier : String) : List Effect :=
  (b.withIdentifier identifier).map .stop

def shutdown (b : Broker) : Broker × List Effect :=
  ({ b with isShutDown := true, peers := b.backends },
    b.clients.map (fun p => .close p.id) ++ b.backends.map fun p => .stop p.id)

end Broker

end InstrumentBus
