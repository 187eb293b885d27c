import InstrumentBus.Proofs.Broker.Delivery
import InstrumentBus.Proofs.Broker.Presence
import InstrumentBus.Proofs.Broker.Roster

/-!
Registration is final. An id stands for one peer and one side of the bus, a peer that went gets
nothing more and moves nothing more, and a broker that was shut down has backends left to lose and
nobody to gain.
-/

namespace InstrumentBus

open Effect

namespace Broker

section

variable {b c : Broker} {x : PeerId}

theorem isClient?_eq_none_iff : b.isClient? x = none ↔ b.peer? x = none := Option.map_eq_none_iff

theorem act_route_of_none (hx : b.peer? x = none) (m : Message) : b.act (.route x m) = (b, []) := by
  simp only [act, route, hx]

theorem act_deregister_of_none (hx : b.peer? x = none) (now : Time.Millis) :
    b.act (.deregister now x) = (b, []) := by
  simp only [act, deregister, hx]

theorem Retains.peer?_eq_none (h : Retains b c) (hx : b.peer? x = none) : c.peer? x = none := by
  rw [← isClient?_eq_none_iff, h.isClient?, isClient?_eq_none_iff, hx]

section

variable (hb : b.Wf) (hx : b.peer? x = none)

include hb hx

theorem Wf.queuedFor_deliver_of_none (m : Message) (wants : Peer → Bool) :
    queuedFor x (b.deliver m wants) = [] := by
  rw [hb.queuedFor_deliver, hx, Option.any_none, if_neg Bool.false_ne_true]

theorem Wf.queuedFor_dropDevices_of_none (origin : PeerId) (timestamp : String)
    (devices : List String) : queuedFor x (b.dropDevices origin timestamp devices).2 = [] := by
  induction devices generalizing b with
  | nil => rfl
  | cons device devices ih =>
    rw [Broker.dropDevices, queuedFor_append, Broker.dropDevice, fanOut,
      hb.queuedFor_deliver_of_none hx]
    exact ih (hb.dropDevice origin _) ((Retains.dropDevice origin _).peer?_eq_none hx)

theorem Wf.queuedFor_change_of_none (p : Peer) (request : ChangeRequest) :
    queuedFor x (b.routeChange p request) = [] := by
  unfold routeChange
  split
  · cases howner : b.ownerOf? request.device with
    | none => rfl
    | some owner =>
      obtain ⟨q, hq, rfl, -⟩ := hb.ownerOf?_eq_some_iff.1 howner
      have hne : q.id ≠ x := by
        rintro rfl
        simp [hb.peer?_eq_some_iff.2 ⟨hq, rfl⟩] at hx
      simp [hne]
  · rfl

theorem Wf.queuedFor_routeFrom_of_none (p : Peer) (m : Message) :
    queuedFor x (b.routeFrom p m).2 = [] := by
  have report (device : String) (m : Message) (wants : Listener → Bool) :
      queuedFor x ((b.learn p.id device).fanOut p.id m wants) = [] :=
    (hb.learn p.id device).queuedFor_deliver_of_none
      ((Retains.learn p.id device).peer?_eq_none hx) ..
  cases m with
  | discover r =>
    simp only [Broker.routeFrom]
    split
    · rfl
    · exact hb.queuedFor_deliver_of_none hx ..
  | change r => exact hb.queuedFor_change_of_none hx p r
  | payloads r => rfl
  | define d =>
    simp only [Broker.routeFrom]
    split
    · rfl
    · exact report d.device (.define d) (·.hearsProperty d.device d.name)
  | update u =>
    simp only [Broker.routeFrom]
    split
    · rfl
    · exact report u.device (.update u) (·.hearsProperty u.device u.name)
  | notify n =>
    simp only [Broker.routeFrom, routeNotice]
    split
    · rfl
    · cases n.device with
      | some device => exact report device (.notify n) (·.hearsAnyOf device)
      | none => exact hb.queuedFor_deliver_of_none hx ..
  | remove r =>
    simp only [Broker.routeFrom, routeRemoval]
    split
    · rfl
    · split
      · exact hb.queuedFor_deliver_of_none hx ..
      · exact hb.queuedFor_deliver_of_none hx ..

theorem Wf.queuedFor_act_of_none {a : Action} (hgiven : b.given? a ≠ some x) :
    queuedFor x (b.act a).2 = [] := by
  cases a with
  | accept address =>
    simp only [Broker.act, accept]
    split
    · rfl
    · split <;> rfl
  | register kind identifiers =>
    cases hshut : b.isShutDown with
    | true => simp [Broker.act, register, hshut]
    | false =>
      have hne : b.lastId + 1 ≠ x := by simpa [given?, register, hshut, Broker.addPeer] using hgiven
      simp [Broker.act, register, hshut, Broker.addPeer, hne]
      rfl
  | route origin m =>
    simp only [Broker.act, route]
    split
    · exact hb.queuedFor_routeFrom_of_none hx ..
    · rfl
  | deregister now y =>
    simp only [Broker.act, Broker.deregister]
    split
    · rfl
    · split
      · rfl
      · have hrest : ({ b with peers := b.peers.filter (·.id != y) } : Broker).Wf :=
          hb.of_sublist List.filter_sublist rfl
        have hnone : ({ b with peers := b.peers.filter (·.id != y) } : Broker).peer? x = none := by
          rw [peer?_filter, hx, ite_self]
        rw [queuedFor_append, hrest.queuedFor_dropDevices_of_none hnone]
        rfl
  | unload identifier =>
    simp [Broker.act, unload, queuedFor, queuedFor?, List.filterMap_map, Function.comp_def]
  | shutdown =>
    simp [Broker.act, shutdown, queuedFor, queuedFor?, List.filterMap_map, Function.comp_def]
  | _ => rfl

end

theorem given?_of_isShutDown (hshut : b.isShutDown = true) (a : Action) : b.given? a = none := by
  cases a with
  | accept address =>
    simp only [given?, accept, hshut]
    split <;> rfl
  | register kind identifiers => simp [given?, register, hshut]
  | _ => rfl

theorem isShutDown_act (hshut : b.isShutDown = true) (a : Action) :
    (b.act a).1.isShutDown = true := by
  cases a with
  | accept address =>
    simp only [act, accept, hshut]
    split <;> exact hshut
  | register kind identifiers => simp [act, register, hshut]
  | claim identifiers =>
    simp only [act, claim]
    split <;> exact hshut
  | route origin m => exact (Retains.route origin m).isShutDown.trans hshut
  | deregister now y => exact (Retains.deregister now y).isShutDown.trans hshut
  | shutdown => rfl
  | _ => exact hshut

theorem roster_act_of_isShutDown (hshut : b.isShutDown = true) (a : Action) :
    (b.act a).1.roster.Sublist b.roster := by
  cases hloading : a.isLoading with
  | false => exact (loadsNothing_act hloading).roster
  | true =>
    cases a with
    | register kind identifiers => simp [act, register, hshut]
    | claim identifiers =>
      simp only [act, claim]
      split <;> exact .refl _
    | release identifiers => exact .refl _
    | _ => cases hloading

structure IsClosed (b : Broker) : Prop where
  isShutDown : b.isShutDown = true
  clients : b.clients = []

theorem Wf.isClosed_act (hb : b.Wf) (h : b.IsClosed) (a : Action) : (b.act a).1.IsClosed where
  isShutDown := isShutDown_act h.isShutDown a
  clients := by
    have hnone (x : PeerId) : b.isClient? x ≠ some true := by
      intro hclient
      obtain ⟨p, hp, hclient⟩ := Option.map_eq_some_iff.1 hclient
      have hmem : p ∈ b.clients := List.mem_filter.2 ⟨b.mem_of_peer? x hp, hclient⟩
      simp [h.clients] at hmem
    rw [clients, List.filter_eq_nil_iff]
    intro p hp hclient
    have hpresent : (b.act a).1.isClient? p.id = some true := by
      rw [isClient?, (hb.act a).peer?_eq_some_iff.2 ⟨hp, rfl⟩, Option.map_some, hclient]
    cases hb.turn (x := p.id) a with
    | stays _ hpeer => exact hnone p.id (hpeer.symm.trans hpresent)
    | comes _ hgiven => simp [given?_of_isShutDown h.isShutDown] at hgiven
    | goes now _ ha =>
      subst ha
      simp [Broker.act, isClient?_deregister] at hpresent
    | swept _ _ hpeer => simp [hpeer] at hpresent

theorem Wf.isClosed_after (hb : b.Wf) (h : b.IsClosed) (as : List Action) :
    (b.after as).IsClosed := by
  induction as generalizing b with
  | nil => exact h
  | cons a as ih => exact ih (hb.act a) (hb.isClosed_act h a)

theorem isClosed_shutdown (b : Broker) : b.shutdown.1.IsClosed where
  isShutDown := rfl
  clients := by simp [clients, shutdown, backends]

end

/-- Ids are given once, at most one by each action, and an id is a client's or a backend's for good.
Once a registered peer is deregistered, nothing is queued for it, its messages change nothing and
are queued for nobody, and it cannot be deregistered again. Once the broker is shut down, nobody is
registered any more, there are no clients, and backends can only go. -/
theorem registration_is_final (policies : List AcceptPolicy) (startedAt : Time.Millis)
    (as : List Action) :
    let b := (ofPolicies policies startedAt).after as
    ((ofPolicies policies startedAt).given as).Pairwise (· < ·) ∧
    (∀ x ∈ (ofPolicies policies startedAt).given as, x ≤ as.length) ∧
    (∀ p ∈ b.peers, ∀ later, ∀ q ∈ (b.after later).peers,
      q.id = p.id → q.isClient = p.isClient) ∧
    (∀ x p now later, b.peer? x = some p →
      let c := (b.act (.deregister now x)).1.after later
      (∀ a, queuedFor x (c.act a).2 = []) ∧
      (∀ m, c.act (.route x m) = (c, [])) ∧
      ∀ now, c.act (.deregister now x) = (c, [])) ∧
    ∀ later,
      let c := (b.act .shutdown).1.after later
      c.clients = [] ∧ ∀ a, c.given? a = none ∧ (c.act a).1.roster.Sublist c.roster := by
  intro b
  have hb : b.Wf := (Wf.ofPolicies policies startedAt).after as
  refine ⟨pairwise_given _ as, ?_, ?_, ?_, ?_⟩
  · intro x hx
    simpa [ofPolicies] using le_of_mem_given hx
  · intro p hp later q hq hid
    have hbefore : b.isClient? p.id = some p.isClient := by
      rw [isClient?, hb.peer?_eq_some_iff.2 ⟨hp, rfl⟩, Option.map_some]
    have hafter : (b.after later).isClient? p.id = some q.isClient := by
      rw [isClient?, (hb.after later).peer?_eq_some_iff.2 ⟨hq, hid⟩, Option.map_some]
    exact hb.isClient_of_after hbefore hafter
  · intro x p now later hp c
    have hgone : (b.act (.deregister now x)).1.isClient? x = none := by
      rw [act, isClient?_deregister, if_pos rfl]
    have hold : x ≤ (b.act (.deregister now x)).1.lastId := by
      have hpresent : b.isClient? x = some p.isClient := by rw [isClient?, hp, Option.map_some]
      exact Nat.le_trans (hb.le_of_isClient? hpresent) (b.lastId_le_act _)
    have hc : c.Wf := (hb.act _).after later
    have hx : c.peer? x = none :=
      isClient?_eq_none_iff.1 ((hb.act _).gone hold hgone later).1
    have hold : x ≤ c.lastId := Nat.le_trans hold (lastId_le_after _ later)
    refine ⟨fun a => hc.queuedFor_act_of_none hx fun hgiven => ?_, act_route_of_none hx,
      act_deregister_of_none hx⟩
    exact Nat.not_lt_of_le hold ((eq_of_given? hgiven).1 ▸ Nat.lt_succ_self _)
  · intro later c
    have hclosed : c.IsClosed := (hb.act .shutdown).isClosed_after b.isClosed_shutdown later
    exact ⟨hclosed.clients, fun a =>
      ⟨given?_of_isShutDown hclosed.isShutDown a, roster_act_of_isShutDown hclosed.isShutDown a⟩⟩

theorem camera_sends_in_vain :
    let b := (ofPolicies [] 0).after exposureRun
    let c := (b.act (.deregister 0 1)).1
    b.isClient? 1 = some false ∧ c.isClient? 2 = some true ∧
      ∀ m, c.act (.route 1 m) = (c, []) := by
  intro b c
  have hcamera : b.peer? 1 = some ⟨1, .empty, .backend ⟨.builtin, ["camera"], ["Camera"]⟩⟩ := by
    decide
  have hclient : b.isClient? 2 = some true := by decide
  refine ⟨by rw [isClient?, hcamera]; rfl, (isClient?_deregister 0 1).trans hclient, ?_⟩
  exact ((registration_is_final [] 0 exposureRun).2.2.2.1 1 _ 0 [] hcamera).2.1

end Broker
end InstrumentBus
