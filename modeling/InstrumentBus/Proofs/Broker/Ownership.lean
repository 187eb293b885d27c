import InstrumentBus.Proofs.Broker.History

/-!
Who owns a device. A backend comes to own it by the first report on it, and loses it in two ways
only: some backend removes the whole device, or the owner goes.
-/

namespace InstrumentBus

def Message.reported? : Message → Option String
  | .define d => some d.device
  | .update u => some u.device
  | .notify n => n.device
  | _ => none

namespace Peer

theorem names_of_isClient {p : Peer} (h : p.isClient = true) : p.names = [] := by
  cases hrole : p.role with
  | client => simp [names, backend?, hrole]
  | backend d => simp [isClient, backend?, hrole] at h

theorem isClient_of_mem_names {p : Peer} {device : String} (h : device ∈ p.names) :
    p.isClient = false := by
  cases hc : p.isClient with
  | false => rfl
  | true => simp [names_of_isClient hc] at h

end Peer

namespace Broker

/-- The backend `owner` reports on a device that nobody owns. -/
inductive Announces (owner : PeerId) (device : String) (b : Broker) : Action → Prop
  | report {p m} : b.peer? owner = some p → p.isClient = false → m.reported? = some device →
      b.ownerOf? device = none → Announces owner device b (.route owner m)

/-- A backend, whichever it is, removes the whole device, or `owner` goes. -/
inductive Frees (owner : PeerId) (device : String) (b : Broker) : Action → Prop
  | removal {origin p r} : b.peer? origin = some p → p.isClient = false → r.device = device →
      r.name = none → Frees owner device b (.route origin (.remove r))
  | departure {now} : Frees owner device b (.deregister now owner)

section

variable {b : Broker} {owner : PeerId} {device : String}

theorem owns_mapPeers {f : Peer → Peer} (keeps : Prop) (hid : ∀ p, (f p).id = p.id)
    (hnames : ∀ p : Peer, device ∈ (f p).names ↔ device ∈ p.names ∧ keeps) :
    (b.mapPeers f).Owns owner device ↔ b.Owns owner device ∧ keeps := by
  simp only [Owns, mapPeers, List.mem_map, exists_exists_and_eq_and, hid, hnames]
  constructor
  · rintro ⟨p, hp, ho, hd, hk⟩
    exact ⟨⟨p, hp, ho, hd⟩, hk⟩
  · rintro ⟨⟨p, hp, ho, hd⟩, hk⟩
    exact ⟨p, hp, ho, hd, hk⟩

theorem owns_mapListener (id : PeerId) (f : Listener → Listener) :
    (b.mapPeer id (·.mapListener f)).Owns owner device ↔ b.Owns owner device := by
  rw [mapPeer_eq_mapPeers, owns_mapPeers True, and_true]
  · intro p
    split <;> rfl
  · intro p
    split <;> simp

theorem owns_prune (d : String) (name : Option String) :
    (b.prune d name).Owns owner device ↔ b.Owns owner device := by
  rw [prune, owns_mapPeers True fun p => p.mapListener_id _, and_true]
  intro p
  simp

theorem owns_dropDevice (origin : PeerId) (r : Removal) :
    (b.dropDevice origin r).1.Owns owner device ↔ b.Owns owner device ∧ device ≠ r.device := by
  rw [dropDevice, owns_prune, owns_mapPeers (device ≠ r.device) fun p => p.unlearn_id r.device]
  intro p
  simp

theorem owns_dropDevices (origin : PeerId) (timestamp : String) (devices : List String) :
    (b.dropDevices origin timestamp devices).1.Owns owner device ↔
      b.Owns owner device ∧ device ∉ devices := by
  induction devices generalizing b with
  | nil => simp [dropDevices]
  | cons d devices ih =>
    simp only [dropDevices, ih, owns_dropDevice, List.mem_cons, not_or, and_assoc]
    rfl

theorem owns_learn (origin : PeerId) (d : String) :
    (b.learn origin d).Owns owner device ↔
      (∃ p ∈ b.peers, p.id = owner ∧ p.isClient = false ∧ owner = origin ∧ device = d ∧
        b.ownerOf? d = none) ∨ b.Owns owner device := by
  unfold learn
  split
  · rename_i h
    have : b.ownerOf? d ≠ none := Option.isSome_iff_ne_none.1 h
    simp [this]
  · rename_i h
    have hfree : b.ownerOf? d = none := by simpa using h
    simp only [Owns, mapPeer, List.mem_map, exists_exists_and_eq_and, hfree, and_true]
    constructor
    · rintro ⟨p, hp, ho, hd⟩
      split at ho
      · rename_i hpo
        rw [if_pos hpo, Peer.names_learn] at hd
        rw [Peer.learn_id] at ho
        cases hc : p.isClient with
        | true => exact .inr ⟨p, hp, ho, by simpa [hc] using hd⟩
        | false =>
          rw [hc, if_neg Bool.false_ne_true, List.mem_append, List.mem_singleton] at hd
          obtain hd | rfl := hd
          · exact .inr ⟨p, hp, ho, hd⟩
          · exact .inl ⟨p, hp, ho, hc, ho.symm.trans hpo, rfl⟩
      · rename_i hpo
        rw [if_neg hpo] at hd
        exact .inr ⟨p, hp, ho, hd⟩
    · rintro (⟨p, hp, ho, hc, rfl, rfl⟩ | ⟨p, hp, ho, hd⟩)
      · exact ⟨p, hp, by simp [ho], by simp [ho, Peer.names_learn, hc]⟩
      · refine ⟨p, hp, ?_, ?_⟩
        · split <;> simp [ho]
        · split
          · rw [Peer.names_learn]
            split
            · exact hd
            · exact List.mem_append_left _ hd
          · exact hd

theorem owns_addPeer {role : Role} (hrole : ∀ d, role = .backend d → d.names = []) :
    (b.addPeer role).1.Owns owner device ↔ b.Owns owner device := by
  have hnames : (Peer.mk (b.lastId + 1) .empty role).names = [] := by
    cases role with
    | client => rfl
    | backend d => exact hrole d rfl
  simp [Owns, addPeer, or_and_right, exists_or, hnames]

theorem owns_filter (id : PeerId) :
    ({ b with peers := b.peers.filter (·.id != id) } : Broker).Owns owner device ↔
      b.Owns owner device ∧ owner ≠ id := by
  simp only [Owns, List.mem_filter, bne_iff_ne]
  constructor
  · rintro ⟨p, ⟨hp, hne⟩, rfl, hd⟩
    exact ⟨⟨p, hp, rfl, hd⟩, hne⟩
  · rintro ⟨⟨p, hp, rfl, hd⟩, hne⟩
    exact ⟨p, ⟨hp, hne⟩, rfl, hd⟩

theorem owns_shutdown : b.shutdown.1.Owns owner device ↔ b.Owns owner device := by
  simp only [Owns, shutdown, backends, List.mem_filter, Bool.not_eq_true']
  constructor
  · rintro ⟨p, ⟨hp, -⟩, ho, hd⟩
    exact ⟨p, hp, ho, hd⟩
  · rintro ⟨p, hp, ho, hd⟩
    exact ⟨p, ⟨hp, Peer.isClient_of_mem_names hd⟩, ho, hd⟩

end

section

variable {b : Broker} (hb : b.Wf) {owner : PeerId} {device : String}

include hb

theorem Wf.owns_learn {origin : PeerId} {p : Peer} (hp : b.peer? origin = some p)
    (hbackend : p.isClient = false) (d : String) :
    (b.learn origin d).Owns owner device ↔
      (owner = origin ∧ device = d ∧ b.ownerOf? d = none) ∨ b.Owns owner device := by
  rw [Broker.owns_learn]
  apply or_congr_left
  constructor
  · rintro ⟨-, -, -, -, h⟩
    exact h
  · rintro ⟨rfl, h⟩
    obtain ⟨hmem, hid⟩ := hb.peer?_eq_some_iff.1 hp
    exact ⟨p, hmem, hid, hbackend, rfl, h⟩

theorem Wf.owns_routeFrom {p : Peer} (hp : b.peer? p.id = some p) (m : Message) :
    (b.routeFrom p m).1.Owns owner device ↔
      (owner = p.id ∧ p.isClient = false ∧ m.reported? = some device ∧
        b.ownerOf? device = none) ∨
      b.Owns owner device ∧
        ¬(p.isClient = false ∧ ∃ r, m = .remove r ∧ r.device = device ∧ r.name = none) := by
  have reports (d : String) (hc : p.isClient = false) :
      (b.learn p.id d).Owns owner device ↔
        (owner = p.id ∧ some d = some device ∧ b.ownerOf? device = none) ∨
          b.Owns owner device := by
    rw [hb.owns_learn hp hc, Option.some_inj, eq_comm (a := d)]
    apply or_congr_left
    constructor <;> rintro ⟨ho, rfl, hfree⟩ <;> exact ⟨ho, rfl, hfree⟩
  cases m with
  | discover r =>
    simp only [Broker.routeFrom]
    split <;> simp [routeDiscovery, owns_mapListener, Message.reported?]
  | change r => simp [Broker.routeFrom, Message.reported?]
  | payloads r => simp [Broker.routeFrom, owns_mapListener, Message.reported?]
  | define d =>
    cases hc : p.isClient with
    | true => simp [Broker.routeFrom, hc]
    | false => simp [Broker.routeFrom, hc, routeReport, reports d.device hc, Message.reported?]
  | update u =>
    cases hc : p.isClient with
    | true => simp [Broker.routeFrom, hc]
    | false => simp [Broker.routeFrom, hc, routeReport, reports u.device hc, Message.reported?]
  | notify n =>
    cases hc : p.isClient with
    | true => simp [Broker.routeFrom, hc]
    | false =>
      cases hd : n.device with
      | none => simp [Broker.routeFrom, hc, routeNotice, hd, Message.reported?]
      | some d => simp [Broker.routeFrom, hc, routeNotice, hd, reports d hc, Message.reported?]
  | remove r =>
    cases hc : p.isClient with
    | true => simp [Broker.routeFrom, hc]
    | false =>
      cases hn : r.name with
      | none =>
        simp [Broker.routeFrom, hc, routeRemoval, hn, owns_dropDevice, Message.reported?,
          eq_comm (a := device)]
      | some name => simp [Broker.routeFrom, hc, routeRemoval, hn, owns_prune, Message.reported?]

theorem Wf.owns_deregister (now : Time.Millis) (id : PeerId) :
    (b.deregister now id).1.Owns owner device ↔ b.Owns owner device ∧ owner ≠ id := by
  unfold Broker.deregister
  cases hp : b.peer? id with
  | none =>
    dsimp only
    rw [iff_self_and]
    rintro howns rfl
    obtain ⟨p, hp', -⟩ := hb.owns_iff.1 howns
    simp [hp] at hp'
  | some p =>
    cases hrole : p.role with
    | client =>
      dsimp only
      rw [hrole]
      exact owns_filter id
    | backend d =>
      have hnames : p.names = d.names := by simp [Peer.names, Peer.backend?, hrole]
      dsimp only
      rw [hrole]
      simp only [owns_dropDevices, owns_filter, and_assoc]
      apply and_congr_right
      intro howns
      -- The names that go are those of the peer that goes, and no other peer has one of them.
      rw [and_iff_left_iff_imp]
      intro hne hd
      obtain ⟨hmem, hid⟩ := hb.peer?_eq_some_iff.1 hp
      obtain ⟨q, hq, rfl, hqd⟩ := howns
      have hpd : device ∈ p.names := by simpa [sorted, hnames] using hd
      exact hne (hb.owns_unique hq hmem hqd hpd ▸ hid)

/-- A backend owns a device after an action exactly if the action announced it, or it owned the
device before and the action did not free it. -/
theorem Wf.owns_act (a : Action) :
    (b.act a).1.Owns owner device ↔
      Announces owner device b a ∨ b.Owns owner device ∧ ¬Frees owner device b a := by
  have quiet (hroute : ∀ origin m, a ≠ .route origin m) (hgo : ∀ now, a ≠ .deregister now owner) :
      (b.Owns owner device ↔
        Announces owner device b a ∨ b.Owns owner device ∧ ¬Frees owner device b a) := by
    have hannounces : ¬Announces owner device b a := by
      rintro ⟨-⟩
      exact hroute _ _ rfl
    have hfrees : ¬Frees owner device b a := by
      rintro (⟨-⟩ | ⟨-⟩)
      · exact hroute _ _ rfl
      · exact hgo _ rfl
    simp [hannounces, hfrees]
  cases a with
  | accept address =>
    rw [← quiet (by simp) (by simp)]
    simp only [Broker.act, accept]
    split
    · rfl
    · split
      · rfl
      · exact owns_addPeer (by simp)
  | register kind identifiers =>
    rw [← quiet (by simp) (by simp)]
    simp only [Broker.act, register]
    split
    · rfl
    · exact owns_addPeer (by rintro d ⟨⟩; rfl)
  | claim identifiers =>
    rw [← quiet (by simp) (by simp)]
    simp only [Broker.act, claim]
    split <;> rfl
  | release identifiers => exact quiet (by simp) (by simp)
  | route origin m =>
    simp only [Broker.act, route]
    cases hp : b.peer? origin with
    | none =>
      have hannounces : ¬Announces owner device b (.route origin m) := by
        rintro ⟨hq, -⟩
        simp [hp] at hq
      have hfrees : ¬Frees owner device b (.route origin m) := by
        rintro ⟨hq, -⟩
        simp [hp] at hq
      simp [hannounces, hfrees]
    | some p =>
      obtain rfl := b.id_of_peer? origin hp
      dsimp only
      rw [hb.owns_routeFrom hp]
      apply or_congr
      · constructor
        · rintro ⟨rfl, hc, hm, hfree⟩
          exact .report hp hc hm hfree
        · rintro ⟨hq, hc, hm, hfree⟩
          cases hp.symm.trans hq
          exact ⟨rfl, hc, hm, hfree⟩
      · apply and_congr_right
        intro _
        apply not_congr
        constructor
        · rintro ⟨hc, r, rfl, hd, hn⟩
          exact .removal hp hc hd hn
        · rintro ⟨hq, hc, hd, hn⟩
          cases hp.symm.trans hq
          exact ⟨hc, _, rfl, hd, hn⟩
  | deregister now id =>
    have hannounces : ¬Announces owner device b (.deregister now id) := by
      rintro ⟨-⟩
    have hfrees : Frees owner device b (.deregister now id) ↔ owner = id := by
      constructor
      · rintro ⟨-⟩
        rfl
      · rintro rfl
        exact .departure
    simp [Broker.act, hb.owns_deregister, hannounces, hfrees]
  | unload identifier => exact quiet (by simp) (by simp)
  | shutdown =>
    rw [← quiet (by simp) (by simp)]
    exact owns_shutdown

theorem Wf.ownerOf?_act_of_frees (howns : b.Owns owner device) {a : Action}
    (hfreed : Frees owner device b a) : (b.act a).1.ownerOf? device = none := by
  rw [Option.eq_none_iff_forall_ne_some]
  intro other hother
  have howner : b.ownerOf? device = some owner := hb.ownerOf?_eq_some_iff.2 howns
  obtain hnew | ⟨hold, hkept⟩ := hb.owns_act a |>.1 ((hb.act a).ownerOf?_eq_some_iff.1 hother)
  · obtain ⟨-, -, -, hfree⟩ := hnew
    simp [howner] at hfree
  · have : b.ownerOf? device = some other := hb.ownerOf?_eq_some_iff.2 hold
    cases howner.symm.trans this
    exact hkept hfreed

end

/-- In a run, a backend owns a device exactly if it announced it while nobody owned it, and nothing
has freed it since. -/
theorem owns_iff_since (policies : List AcceptPolicy) (startedAt : Time.Millis) (as : List Action)
    (owner : PeerId) (device : String) :
    ((ofPolicies policies startedAt).after as).Owns owner device ↔
      Since (ofPolicies policies startedAt) (Announces owner device) (Frees owner device) as := by
  induction as using List.reverseRecOn with
  | nil =>
    refine iff_of_false ?_ not_since_nil
    simp [Owns, ofPolicies]
  | append_singleton as a ih =>
    have hb : ((ofPolicies policies startedAt).after as).Wf := (Wf.ofPolicies ..).after as
    rw [after_append, after_singleton, since_concat, hb.owns_act, ih]

/-- The owner of a device stays its owner through every step that does not free the device,
whoever sends what. A step that frees it leaves it without an owner. -/
theorem owner_until_freed (policies : List AcceptPolicy) (startedAt : Time.Millis)
    (as : List Action) (owner : PeerId) (device : String)
    (howns : ((ofPolicies policies startedAt).after as).Owns owner device) (a : Action) :
    let b := (ofPolicies policies startedAt).after as
    (¬Frees owner device b a → (b.act a).1.ownerOf? device = some owner) ∧
      (Frees owner device b a → (b.act a).1.ownerOf? device = none) := by
  intro b
  have hb : b.Wf := (Wf.ofPolicies policies startedAt).after as
  constructor
  · intro hkept
    exact (hb.act a).ownerOf?_eq_some_iff.2 (hb.owns_act a |>.2 (.inr ⟨howns, hkept⟩))
  · exact hb.ownerOf?_act_of_frees howns

def cameraRun : List Action :=
  [.register .builtin ["camera"], .register .builtin ["mount"],
    .route 1 (.update ⟨.number, "Camera", "EXPOSE", none, none, none, none, []⟩)]

theorem report_of_other_backend_leaves_camera :
    let b := (ofPolicies [] 0).after cameraRun
    let report := Message.update ⟨.number, "Camera", "TEMP", none, none, none, none, []⟩
    b.Owns 1 "Camera" ∧ (b.act (.route 2 report)).1.ownerOf? "Camera" = some 1 := by
  have howns : ((ofPolicies [] 0).after cameraRun).Owns 1 "Camera" :=
    ⟨_, List.mem_cons_self, rfl, by decide⟩
  refine ⟨howns, (owner_until_freed [] 0 cameraRun 1 "Camera" howns _).1 ?_⟩
  rintro ⟨-⟩

/-- The other backend removes the camera, which takes it from its owner, and can then take it
over. -/
theorem removal_of_other_backend_frees_camera :
    let b := (ofPolicies [] 0).after cameraRun
    let removal := Message.remove (.ofDevice "Camera")
    let report := Message.update ⟨.number, "Camera", "TEMP", none, none, none, none, []⟩
    b.ownerOf? "Camera" = some 1 ∧ (b.act (.route 2 removal)).1.ownerOf? "Camera" = none ∧
      (b.after [.route 2 removal, .route 2 report]).ownerOf? "Camera" = some 2 := by
  decide

end Broker
end InstrumentBus
