import InstrumentBus.Proofs.Broker.Lookup

/-!
Routing changes what peers hear and what devices they have announced, and nothing else: whoever was
registered before it is registered after it, as what it was.
-/

namespace InstrumentBus

structure Peer.Keeps (f : Peer → Peer) : Prop where
  id : ∀ p, (f p).id = p.id
  isClient : ∀ p, (f p).isClient = p.isClient
  identifiers : ∀ p, (f p).identifiers = p.identifiers

namespace Broker

def Retains (b c : Broker) : Prop := ∃ f, Peer.Keeps f ∧ c = b.mapPeers f

namespace Retains

variable {b c d : Broker}

theorem mapPeers {f : Peer → Peer} (hid : ∀ p, (f p).id = p.id)
    (hclient : ∀ p, (f p).isClient = p.isClient)
    (hidentifiers : ∀ p, (f p).identifiers = p.identifiers) : Retains b (b.mapPeers f) :=
  ⟨f, ⟨hid, hclient, hidentifiers⟩, rfl⟩

theorem mapPeer (x : PeerId) {f : Peer → Peer} (hid : ∀ p, (f p).id = p.id)
    (hclient : ∀ p, (f p).isClient = p.isClient)
    (hidentifiers : ∀ p, (f p).identifiers = p.identifiers) : Retains b (b.mapPeer x f) := by
  rw [mapPeer_eq_mapPeers]
  apply mapPeers <;> intro p <;> split <;> simp [hid, hclient, hidentifiers]

protected theorem refl (b : Broker) : Retains b b :=
  ⟨id, ⟨fun _ => rfl, fun _ => rfl, fun _ => rfl⟩, by simp [Broker.mapPeers]⟩

protected theorem trans (h : Retains b c) (h' : Retains c d) : Retains b d := by
  obtain ⟨f, hf, rfl⟩ := h
  obtain ⟨g, hg, rfl⟩ := h'
  refine ⟨g ∘ f, ⟨fun p => ?_, fun p => ?_, fun p => ?_⟩, by simp [Broker.mapPeers]⟩
  · exact (hg.id _).trans (hf.id p)
  · exact (hg.isClient _).trans (hf.isClient p)
  · exact (hg.identifiers _).trans (hf.identifiers p)

theorem mapListener (x : PeerId) (f : Listener → Listener) :
    Retains b (b.mapPeer x (·.mapListener f)) :=
  mapPeer x (fun _ => rfl) (fun _ => rfl) fun _ => rfl

theorem learn (origin : PeerId) (device : String) : Retains b (b.learn origin device) := by
  unfold Broker.learn
  split
  · exact .refl b
  · apply mapPeer <;> simp

theorem prune (device : String) (name : Option String) : Retains b (b.prune device name) :=
  mapPeers (fun _ => rfl) (fun _ => rfl) fun _ => rfl

theorem dropDevice (origin : PeerId) (r : Removal) : Retains b (b.dropDevice origin r).1 := by
  have hunlearn : Retains b (b.mapPeers (·.unlearn r.device)) := by apply mapPeers <;> simp
  exact hunlearn.trans (prune ..)

theorem dropDevices (origin : PeerId) (timestamp : String) (devices : List String) :
    Retains b (b.dropDevices origin timestamp devices).1 := by
  induction devices generalizing b with
  | nil => exact .refl b
  | cons device devices ih => exact (dropDevice origin _).trans ih

theorem routeFrom (p : Peer) (m : Message) : Retains b (b.routeFrom p m).1 := by
  cases m with
  | discover request =>
    simp only [Broker.routeFrom]
    split
    · exact .refl b
    · exact mapListener ..
  | change request => exact .refl b
  | payloads request => exact mapListener ..
  | define d =>
    simp only [Broker.routeFrom]
    split
    · exact .refl b
    · exact learn ..
  | update u =>
    simp only [Broker.routeFrom]
    split
    · exact .refl b
    · exact learn ..
  | notify n =>
    simp only [Broker.routeFrom, routeNotice]
    split
    · exact .refl b
    · cases n.device with
      | none => exact .refl b
      | some device => exact learn ..
  | remove r =>
    simp only [Broker.routeFrom, routeRemoval]
    split
    · exact .refl b
    · cases r.name with
      | none => exact dropDevice ..
      | some name => exact prune ..

theorem route (origin : PeerId) (m : Message) : Retains b (b.route origin m).1 := by
  unfold Broker.route
  split
  · exact routeFrom ..
  · exact .refl b

theorem deregister (now : Time.Millis) (x : PeerId) :
    Retains { b with peers := b.peers.filter (·.id != x) } (b.deregister now x).1 := by
  unfold Broker.deregister
  cases hp : b.peer? x with
  | none =>
    have hall : b.peers.filter (·.id != x) = b.peers :=
      List.filter_eq_self.2 fun p hmem => by simpa using List.find?_eq_none.1 hp p hmem
    rw [hall]
    exact .refl b
  | some p =>
    cases hrole : p.role with
    | client => simpa only [hrole] using .refl _
    | backend d => simpa only [hrole] using dropDevices ..

section

variable (h : Retains b c)

include h

theorem lastId : c.lastId = b.lastId := by
  obtain ⟨f, -, rfl⟩ := h
  rfl

theorem claimed : c.claimed = b.claimed := by
  obtain ⟨f, -, rfl⟩ := h
  rfl

theorem isShutDown : c.isShutDown = b.isShutDown := by
  obtain ⟨f, -, rfl⟩ := h
  rfl

theorem peer?_isClient (x : PeerId) :
    (c.peer? x).map (·.isClient) = (b.peer? x).map (·.isClient) := by
  obtain ⟨f, hf, rfl⟩ := h
  simp [peer?_mapPeers _ _ hf.id, Function.comp_def, hf.isClient]

end

end Retains

end Broker
end InstrumentBus
