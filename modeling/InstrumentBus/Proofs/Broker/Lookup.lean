import InstrumentBus.Broker.Basic
import Mathlib.Data.List.Nodup

/-!
What the changes to a broker's peers leave of each peer, and which peer is found under an id.
-/

namespace InstrumentBus

namespace Peer

variable (p : Peer) (device : String) (f : Listener → Listener)

@[simp] theorem mapListener_id : (p.mapListener f).id = p.id := rfl

@[simp] theorem mapListener_listener : (p.mapListener f).listener = f p.listener := rfl

@[simp] theorem mapListener_role : (p.mapListener f).role = p.role := rfl

@[simp] theorem mapListener_names : (p.mapListener f).names = p.names := rfl

@[simp] theorem mapListener_isClient : (p.mapListener f).isClient = p.isClient := rfl

@[simp] theorem mapBackend_id (g : Backend → Backend) : (p.mapBackend g).id = p.id := by
  unfold mapBackend
  cases p.role <;> rfl

@[simp] theorem mapBackend_listener (g : Backend → Backend) :
    (p.mapBackend g).listener = p.listener := by
  unfold mapBackend
  cases p.role <;> rfl

@[simp] theorem mapBackend_isClient (g : Backend → Backend) :
    (p.mapBackend g).isClient = p.isClient := by
  unfold mapBackend isClient backend?
  cases h : p.role <;> simp [h]

@[simp] theorem learn_id : (p.learn device).id = p.id := p.mapBackend_id _

@[simp] theorem learn_listener : (p.learn device).listener = p.listener := p.mapBackend_listener _

@[simp] theorem learn_isClient : (p.learn device).isClient = p.isClient := p.mapBackend_isClient _

@[simp] theorem unlearn_id : (p.unlearn device).id = p.id := p.mapBackend_id _

@[simp] theorem unlearn_listener : (p.unlearn device).listener = p.listener :=
  p.mapBackend_listener _

@[simp] theorem unlearn_isClient : (p.unlearn device).isClient = p.isClient :=
  p.mapBackend_isClient _

@[simp] theorem mapListener_identifiers (f : Listener → Listener) :
    (p.mapListener f).identifiers = p.identifiers := rfl

theorem mapBackend_identifiers {f : Backend → Backend}
    (h : ∀ d, (f d).identifiers = d.identifiers) :
    (p.mapBackend f).identifiers = p.identifiers := by
  unfold mapBackend identifiers backend?
  cases hrole : p.role <;> simp [hrole, h]

@[simp] theorem learn_identifiers (device : String) :
    (p.learn device).identifiers = p.identifiers := p.mapBackend_identifiers fun _ => rfl

@[simp] theorem unlearn_identifiers (device : String) :
    (p.unlearn device).identifiers = p.identifiers := p.mapBackend_identifiers fun _ => rfl

theorem names_learn :
    (p.learn device).names = if p.isClient then p.names else p.names ++ [device] := by
  unfold learn mapBackend names isClient backend?
  cases h : p.role <;> simp [h]

@[simp] theorem names_unlearn :
    (p.unlearn device).names = p.names.filter (· != device) := by
  unfold unlearn mapBackend names backend?
  cases h : p.role <;> simp [h]

theorem announces_iff : p.announces device = true ↔ device ∈ p.names := by
  simp [announces]

end Peer

namespace Broker

variable (b : Broker) (x : PeerId)

def Owns (b : Broker) (owner : PeerId) (device : String) : Prop :=
  ∃ p ∈ b.peers, p.id = owner ∧ device ∈ p.names

instance (b : Broker) (owner : PeerId) (device : String) : Decidable (b.Owns owner device) :=
  inferInstanceAs (Decidable (∃ p ∈ b.peers, p.id = owner ∧ device ∈ p.names))

@[simp] theorem peer?_mapPeers {f : Peer → Peer} (h : ∀ p, (f p).id = p.id) :
    (b.mapPeers f).peer? x = (b.peer? x).map f := by
  simp only [peer?, mapPeers, List.find?_map, Function.comp_def, h]

theorem mapPeer_eq_mapPeers (id : PeerId) (f : Peer → Peer) :
    b.mapPeer id f = b.mapPeers fun p => if p.id = id then f p else p := rfl

theorem id_of_peer? {p : Peer} (h : b.peer? x = some p) : p.id = x := by
  simpa using List.find?_some h

theorem mem_of_peer? {p : Peer} (h : b.peer? x = some p) : p ∈ b.peers :=
  List.mem_of_find?_eq_some h

theorem peer?_mapPeer {id : PeerId} {f : Peer → Peer} (h : ∀ p, (f p).id = p.id) :
    (b.mapPeer id f).peer? x = (b.peer? x).map fun p => if x = id then f p else p := by
  rw [mapPeer_eq_mapPeers, peer?_mapPeers]
  · cases hp : b.peer? x with
    | none => rfl
    | some p => simp [b.id_of_peer? x hp]
  · intro p
    split <;> simp [h]

theorem peer?_filter (id : PeerId) :
    ({ b with peers := b.peers.filter (·.id != id) } : Broker).peer? x =
      if x = id then none else b.peer? x := by
  simp only [peer?, List.find?_filter]
  split
  · rename_i h
    rw [List.find?_eq_none]
    rintro p - hp
    simp_all
  · rename_i h
    congr 1
    funext p
    by_cases hp : p.id = x <;> simp_all

theorem peer?_addPeer (role : Role) :
    (b.addPeer role).1.peer? x =
      (b.peer? x).or (if x = b.lastId + 1 then some ⟨x, .empty, role⟩ else none) := by
  simp only [peer?, addPeer, List.find?_append, List.find?_singleton]
  congr 1
  by_cases h : x = b.lastId + 1
  · simp [h]
  · have h' : ¬b.lastId + 1 = x := fun e => h e.symm
    simp [h, h']

theorem peer?_prune (device : String) (name : Option String) :
    (b.prune device name).peer? x =
      (b.peer? x).map (·.mapListener (·.prune device name)) :=
  b.peer?_mapPeers x fun _ => rfl

theorem peer?_learn (origin : PeerId) (device : String) :
    ((b.learn origin device).peer? x).map (·.listener) = (b.peer? x).map (·.listener) := by
  unfold learn
  split
  · rfl
  · rw [peer?_mapPeer _ _ (Peer.learn_id · device), Option.map_map]
    congr 1
    funext p
    by_cases h : x = origin <;> simp [h]

def listener? (b : Broker) (x : PeerId) : Option Listener := (b.peer? x).map (·.listener)

@[simp] theorem listener?_learn (origin : PeerId) (device : String) :
    (b.learn origin device).listener? x = b.listener? x := b.peer?_learn x origin device

@[simp] theorem listener?_prune (device : String) (name : Option String) :
    (b.prune device name).listener? x = (b.listener? x).map (·.prune device name) := by
  simp [listener?, peer?_prune, Function.comp_def]

@[simp] theorem listener?_unlearn (device : String) :
    (b.mapPeers (·.unlearn device)).listener? x = b.listener? x := by
  simp [listener?, Function.comp_def]

@[simp] theorem listener?_mapListener (id : PeerId) (f : Listener → Listener) :
    (b.mapPeer id (·.mapListener f)).listener? x =
      (b.listener? x).map (if x = id then f else fun l => l) := by
  rw [listener?, peer?_mapPeer _ _ (Peer.mapListener_id · f), listener?, Option.map_map, Option.map_map]
  congr 1
  funext p
  by_cases h : x = id <;> simp [h]

@[simp] theorem listener?_dropDevice (origin : PeerId) (removal : Removal) :
    (b.dropDevice origin removal).1.listener? x =
      (b.listener? x).map (·.prune removal.device none) := by
  simp [dropDevice]

end Broker
end InstrumentBus
