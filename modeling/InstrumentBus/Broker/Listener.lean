import InstrumentBus.Message.Basic

/-!
What a peer asked to hear: which devices and properties, and whether with binary payloads.
-/

namespace InstrumentBus

structure Listener where
  everything : Bool
  devices : List String
  properties : List (String × String)
  policy : BlobPolicy
  devicePolicies : List (String × BlobPolicy)
  propertyPolicies : List ((String × String) × BlobPolicy)
deriving DecidableEq

namespace Listener

def empty : Listener := ⟨false, [], [], .never, [], []⟩

def listen (l : Listener) (request : Discovery) : Listener :=
  match request.device, request.name with
  | none, _ => { l with everything := true }
  | some device, none => { l with devices := l.devices.insert device }
  | some device, some name => { l with properties := l.properties.insert (device, name) }

def hearsDevice (l : Listener) (device : String) : Bool :=
  l.everything || l.devices.contains device

def hearsProperty (l : Listener) (device name : String) : Bool :=
  l.hearsDevice device || l.properties.contains (device, name)

def hearsAnyOf (l : Listener) (device : String) : Bool :=
  l.hearsDevice device || l.properties.any (·.1 == device)

/-- Forgets the wish for a removed property, or for the single properties of a removed device. -/
def prune (l : Listener) (device : String) (name : Option String) : Listener :=
  { l with
    properties := l.properties.filter fun p => p.1 != device || name.any (· != p.2) }

def setEntry {α : Type} [BEq α] (key : α) (policy : BlobPolicy) (entries : List (α × BlobPolicy)) :
    List (α × BlobPolicy) :=
  (key, policy) :: entries.filter (·.1 != key)

/-- Applies a payload request. One for a whole device replaces those for its properties. -/
def setPolicy (l : Listener) (request : PayloadRequest) : Listener :=
  match request.device, request.name with
  | none, _ => { l with policy := request.policy }
  | some device, none =>
    { l with
      devicePolicies := setEntry device request.policy l.devicePolicies
      propertyPolicies := l.propertyPolicies.filter (·.1.1 != device) }
  | some device, some name =>
    { l with
      propertyPolicies := setEntry (device, name) request.policy l.propertyPolicies }

def policyOf (l : Listener) (device : String) (name : Option String) : BlobPolicy :=
  let own := name.bind fun name => l.propertyPolicies.lookup (device, name)
  (own.or (l.devicePolicies.lookup device)).getD l.policy

/-- Whether the policies let a message pass. Removals and messages without a device always do. -/
def admits (l : Listener) (m : Message) : Bool :=
  match m, m.device with
  | .remove _, _ => true
  | _, none => true
  | m, some device =>
    let policy := l.policyOf device m.property
    if m.carriesBlob then policy.acceptsPayload else policy.acceptsOthers

end Listener

end InstrumentBus
