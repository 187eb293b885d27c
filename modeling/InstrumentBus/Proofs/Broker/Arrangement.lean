import InstrumentBus.Proofs.Broker.Delivery
import Mathlib.Data.List.Perm.Basic

/-!
The order in which a broker holds its peers decides nothing. However they are rearranged between
the steps of a run, a device has at most one owner, and every step makes the same tables and queues
the same messages for each peer, in the same order.
-/

namespace InstrumentBus

open Effect

theorem find?_eq_of_perm {α : Type} {p : α → Bool} {as bs : List α} (h : as.Perm bs)
    (hunique : ∀ a ∈ as, ∀ b ∈ as, p a = true → p b = true → a = b) : as.find? p = bs.find? p := by
  cases hb : bs.find? p with
  | none =>
    rw [List.find?_eq_none] at hb ⊢
    exact fun a ha => hb a (h.subset ha)
  | some b =>
    have hmem : b ∈ as := h.symm.subset (List.mem_of_find?_eq_some hb)
    have hpb : p b = true := List.find?_some hb
    obtain ⟨a, ha⟩ : ∃ a, as.find? p = some a := by
      rw [← Option.isSome_iff_exists, List.find?_isSome]
      exact ⟨b, hmem, hpb⟩
    rw [ha, hunique a (List.mem_of_find?_eq_some ha) b hmem (List.find?_some ha) hpb]

namespace Broker

/-- The same broker, but for the order in which it holds its peers and the claimed identifiers. -/
structure Rearranged (b c : Broker) : Prop where
  policies : c.policies = b.policies
  startedAt : c.startedAt = b.startedAt
  lastId : c.lastId = b.lastId
  isShutDown : c.isShutDown = b.isShutDown
  peers : b.peers.Perm c.peers
  claimed : b.claimed.Perm c.claimed

/-- Two steps make the same tables, and queue the same messages for each peer in the same order. -/
structure Agree (r s : Broker × List Effect) : Prop where
  tables : r.1.Rearranged s.1
  queues : ∀ x, queuedFor x r.2 = queuedFor x s.2

/-- Some actions can lead to the broker `c` if the peers are rearranged in any way before the first
of them and after each. -/
inductive Reaches (b : Broker) : List Action → Broker → Prop
  | start {c} : b.Rearranged c → Reaches b [] c
  | act {as c d} (a : Action) : Reaches b as c → (c.act a).1.Rearranged d → Reaches b (as ++ [a]) d

namespace Rearranged

variable {b c d : Broker}

theorem refl (b : Broker) : b.Rearranged b := ⟨rfl, rfl, rfl, rfl, .refl _, .refl _⟩

theorem trans (h : b.Rearranged c) (h' : c.Rearranged d) : b.Rearranged d where
  policies := h'.policies.trans h.policies
  startedAt := h'.startedAt.trans h.startedAt
  lastId := h'.lastId.trans h.lastId
  isShutDown := h'.isShutDown.trans h.isShutDown
  peers := h.peers.trans h'.peers
  claimed := h.claimed.trans h'.claimed

theorem symm (h : b.Rearranged c) : c.Rearranged b where
  policies := h.policies.symm
  startedAt := h.startedAt.symm
  lastId := h.lastId.symm
  isShutDown := h.isShutDown.symm
  peers := h.peers.symm
  claimed := h.claimed.symm

section

variable (h : b.Rearranged c)

include h

theorem peer?_eq (hb : b.Wf) (x : PeerId) : b.peer? x = c.peer? x := by
  apply find?_eq_of_perm h.peers
  intro p hp q hq hpx hqx
  have hp' : b.peer? x = some p := hb.peer?_eq_some_iff.2 ⟨hp, eq_of_beq hpx⟩
  have hq' : b.peer? x = some q := hb.peer?_eq_some_iff.2 ⟨hq, eq_of_beq hqx⟩
  exact Option.some_inj.1 (hp'.symm.trans hq')

theorem ownerOf?_eq (hb : b.Wf) (device : String) : b.ownerOf? device = c.ownerOf? device := by
  rw [ownerOf?, ownerOf?, find?_eq_of_perm h.peers]
  intro p hp q hq hpd hqd
  exact hb.owns_unique hp hq ((p.announces_iff device).1 hpd) ((q.announces_iff device).1 hqd)

theorem isLoaded_eq (identifier : String) : b.isLoaded identifier = c.isLoaded identifier := by
  rw [isLoaded, isLoaded, h.claimed.contains_eq, h.peers.any_eq]

theorem mapPeers (f : Peer → Peer) : (b.mapPeers f).Rearranged (c.mapPeers f) :=
  { h with peers := h.peers.map f }

theorem filter (f : Peer → Bool) :
    ({ b with peers := b.peers.filter f } : Broker).Rearranged
      { c with peers := c.peers.filter f } :=
  { h with peers := h.peers.filter f }

theorem addPeer (role : Role) : (b.addPeer role).1.Rearranged (c.addPeer role).1 := by
  unfold Broker.addPeer
  rw [h.lastId]
  exact { h with lastId := rfl, peers := h.peers.append_right _ }

theorem learn (hb : b.Wf) (origin : PeerId) (device : String) :
    (b.learn origin device).Rearranged (c.learn origin device) := by
  unfold Broker.learn
  rw [h.ownerOf?_eq hb]
  split
  · exact h
  · exact h.mapPeers _

theorem queuedFor_deliver (hb : b.Wf) (x : PeerId) (m : Message) (wants : Peer → Bool) :
    queuedFor x (b.deliver m wants) = queuedFor x (c.deliver m wants) := by
  have hperm : (queuedFor x (b.deliver m wants)).Perm (queuedFor x (c.deliver m wants)) :=
    ((h.peers.filter wants).map _).filterMap _
  revert hperm
  rw [hb.queuedFor_deliver]
  split
  · exact fun hperm => (List.perm_singleton.1 hperm.symm).symm
  · exact fun hperm => hperm.symm.eq_nil.symm

theorem dropDevice (hb : b.Wf) (origin : PeerId) (r : Removal) :
    Agree (b.dropDevice origin r) (c.dropDevice origin r) where
  tables := (h.mapPeers _).mapPeers _
  queues x := h.queuedFor_deliver hb x _ _

theorem dropDevices (hb : b.Wf) (origin : PeerId) (timestamp : String) (devices : List String) :
    Agree (b.dropDevices origin timestamp devices) (c.dropDevices origin timestamp devices) := by
  induction devices generalizing b c with
  | nil => exact ⟨h, fun _ => rfl⟩
  | cons device devices ih =>
    have first := h.dropDevice hb origin
      { Removal.ofDevice device with timestamp := some timestamp }
    have rest := ih first.tables (hb.dropDevice origin _)
    refine ⟨rest.tables, fun x => ?_⟩
    simp only [Broker.dropDevices, queuedFor_append, first.queues x, rest.queues x]

theorem routeFrom (hb : b.Wf) (p : Peer) (m : Message) :
    Agree (b.routeFrom p m) (c.routeFrom p m) := by
  have howner : b.ownerOf? = c.ownerOf? := funext (h.ownerOf?_eq hb)
  have ignored : Agree (b, []) (c, []) := ⟨h, fun _ => rfl⟩
  have reported (device : String) (m : Message) (wants : Peer → Bool) :
      Agree (b.learn p.id device, (b.learn p.id device).deliver m wants)
        (c.learn p.id device, (c.learn p.id device).deliver m wants) := by
    have hlearned := h.learn hb p.id device
    exact ⟨hlearned, fun x => hlearned.queuedFor_deliver (hb.learn ..) x m wants⟩
  cases m with
  | discover r =>
    simp only [Broker.routeFrom]
    split
    · exact ignored
    · refine ⟨h.mapPeers _, fun x => ?_⟩
      simp only [routeDiscovery, howner]
      exact h.queuedFor_deliver hb x _ _
  | change r =>
    simp only [Broker.routeFrom, routeChange, howner]
    exact ⟨h, fun _ => rfl⟩
  | payloads r => exact ⟨h.mapPeers _, fun _ => rfl⟩
  | define d =>
    simp only [Broker.routeFrom]
    split
    · exact ignored
    · exact reported ..
  | update u =>
    simp only [Broker.routeFrom]
    split
    · exact ignored
    · exact reported ..
  | notify n =>
    simp only [Broker.routeFrom, routeNotice]
    split
    · exact ignored
    · cases n.device with
      | none => exact ⟨h, fun x => h.queuedFor_deliver hb x _ _⟩
      | some device => exact reported ..
  | remove r =>
    simp only [Broker.routeFrom, routeRemoval]
    split
    · exact ignored
    · cases r.name with
      | none => exact h.dropDevice hb ..
      | some name => exact ⟨h.mapPeers _, fun x => h.queuedFor_deliver hb x _ _⟩

theorem deregister (hb : b.Wf) (now : Time.Millis) (id : PeerId) :
    Agree (b.deregister now id) (c.deregister now id) := by
  have hrest : ({ b with peers := b.peers.filter (·.id != id) } : Broker).Wf :=
    hb.of_sublist List.filter_sublist rfl
  unfold Broker.deregister
  rw [h.peer?_eq hb]
  cases c.peer? id with
  | none => exact ⟨h, fun _ => rfl⟩
  | some p =>
    dsimp only
    split
    · exact ⟨h.filter _, fun _ => rfl⟩
    · have dropped := (h.filter (·.id != id)).dropDevices hrest id (Property.timestampAt now)
      refine ⟨(dropped _).tables, fun x => ?_⟩
      simp only [queuedFor_append, (dropped _).queues x]

theorem act (hb : b.Wf) (a : Action) : Agree (b.act a) (c.act a) := by
  cases a with
  | accept address =>
    simp only [Broker.act, accept, h.policies, h.isShutDown]
    split
    · exact ⟨h, fun _ => rfl⟩
    · split
      · exact ⟨h, fun _ => rfl⟩
      · exact ⟨h.addPeer _, fun _ => rfl⟩
  | register kind identifiers =>
    simp only [Broker.act, register, h.isShutDown]
    split
    · exact ⟨h, fun _ => rfl⟩
    · refine ⟨h.addPeer _, fun x => ?_⟩
      simp only [Broker.addPeer, h.lastId]
  | claim identifiers =>
    have hloaded : b.isLoaded = c.isLoaded := funext h.isLoaded_eq
    simp only [Broker.act, claim, hloaded]
    cases identifiers.find? c.isLoaded with
    | some taken => exact ⟨h, fun _ => rfl⟩
    | none => exact ⟨{ h with claimed := h.claimed.append_left identifiers }, fun _ => rfl⟩
  | release identifiers => exact ⟨{ h with claimed := h.claimed.filter _ }, fun _ => rfl⟩
  | route origin m =>
    simp only [Broker.act, route, h.peer?_eq hb]
    split
    · exact h.routeFrom hb ..
    · exact ⟨h, fun _ => rfl⟩
  | deregister now id => exact h.deregister hb now id
  | unload identifier =>
    refine ⟨h, fun x => ?_⟩
    simp [Broker.act, unload, queuedFor, queuedFor?, List.filterMap_map, Function.comp_def]
  | shutdown =>
    refine ⟨{ h with isShutDown := rfl, peers := h.peers.filter _ }, fun x => ?_⟩
    simp [Broker.act, shutdown, queuedFor, queuedFor?, List.filterMap_map, Function.comp_def]

end

end Rearranged

theorem Wf.reaches_iff {b c : Broker} {as : List Action} (hb : b.Wf) :
    b.Reaches as c ↔ (b.after as).Rearranged c := by
  constructor
  · intro h
    induction h with
    | start h => exact h
    | act a _ hd ih =>
      rw [after_append, after_singleton]
      exact (ih.act (hb.after _) a).tables.trans hd
  · intro h
    induction as using List.reverseRecOn generalizing c with
    | nil => exact .start h
    | append_singleton as a ih =>
      rw [after_append, after_singleton] at h
      exact .act a (ih (.refl _)) h

/-- Whatever the order of the peers before, between and after the steps of a run, no device is
announced by two of them, they name the same owner for each device, and the next step does the
same. -/
theorem order_decides_nothing (policies : List AcceptPolicy) (startedAt : Time.Millis)
    (as : List Action) (b c : Broker) (hb : (ofPolicies policies startedAt).Reaches as b)
    (hc : (ofPolicies policies startedAt).Reaches as c) :
    (∀ device, ∀ p ∈ b.peers, ∀ q ∈ b.peers, device ∈ p.names → device ∈ q.names → p = q) ∧
    (∀ device, b.ownerOf? device = c.ownerOf? device) ∧
    ∀ a, Agree (b.act a) (c.act a) := by
  have hstart : (ofPolicies policies startedAt).Wf := .ofPolicies policies startedAt
  have hrun : ((ofPolicies policies startedAt).after as).Wf := hstart.after as
  rw [hstart.reaches_iff] at hb hc
  refine ⟨?_, ?_, ?_⟩
  · intro device p hp q hq hpd hqd
    exact hrun.owns_unique (hb.peers.symm.subset hp) (hb.peers.symm.subset hq) hpd hqd
  · intro device
    exact (hb.ownerOf?_eq hrun device).symm.trans (hc.ownerOf?_eq hrun device)
  · intro a
    have hb := hb.act hrun a
    have hc := hc.act hrun a
    exact ⟨hb.tables.symm.trans hc.tables, fun x => (hb.queues x).symm.trans (hc.queues x)⟩

theorem report_with_backends_swapped :
    let b := (ofPolicies [] 0).after cameraRun
    let c := { b with peers := b.peers.reverse }
    let report := Message.update ⟨.number, "Mount", "TRACK", none, none, none, none, []⟩
    (ofPolicies [] 0).Reaches cameraRun b ∧ (ofPolicies [] 0).Reaches cameraRun c ∧
      b.peers.map (·.id) ≠ c.peers.map (·.id) ∧
      Agree (b.act (.route 2 report)) (c.act (.route 2 report)) := by
  intro b c report
  have hstart : (ofPolicies [] 0).Wf := .ofPolicies [] 0
  have hb : (ofPolicies [] 0).Reaches cameraRun b := hstart.reaches_iff.2 (.refl b)
  have hc : (ofPolicies [] 0).Reaches cameraRun c :=
    hstart.reaches_iff.2 { Rearranged.refl b with peers := (List.reverse_perm b.peers).symm }
  exact ⟨hb, hc, by decide, (order_decides_nothing [] 0 cameraRun b c hb hc).2.2 _⟩

end Broker

end InstrumentBus
