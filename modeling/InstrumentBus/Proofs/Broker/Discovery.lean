import InstrumentBus.Proofs.Broker.History

/-!
Who may change a property. A change request reaches the owner of its device exactly if its sender
discovered the property and nothing has withdrawn it since; else it goes nowhere.
-/

namespace InstrumentBus

namespace Listener

variable (l : Listener) (r : Discovery) (d n : String)

theorem everything_listen :
    (l.listen r).everything = true ↔ r.device = none ∨ l.everything = true := by
  unfold listen
  split <;> simp_all

theorem mem_devices_listen :
    d ∈ (l.listen r).devices ↔ (r.device = some d ∧ r.name = none) ∨ d ∈ l.devices := by
  unfold listen
  split <;> simp_all [eq_comm]

theorem mem_properties_listen :
    (d, n) ∈ (l.listen r).properties ↔
      (r.device = some d ∧ r.name = some n) ∨ (d, n) ∈ l.properties := by
  unfold listen
  split <;> simp_all [eq_comm]

@[simp] theorem everything_setPolicy (r : PayloadRequest) :
    (l.setPolicy r).everything = l.everything := by
  unfold setPolicy
  split <;> rfl

@[simp] theorem devices_setPolicy (r : PayloadRequest) : (l.setPolicy r).devices = l.devices := by
  unfold setPolicy
  split <;> rfl

@[simp] theorem properties_setPolicy (r : PayloadRequest) :
    (l.setPolicy r).properties = l.properties := by
  unfold setPolicy
  split <;> rfl

theorem mem_properties_prune (device : String) (name : Option String) :
    (d, n) ∈ (l.prune device name).properties ↔
      (d, n) ∈ l.properties ∧ ¬(device = d ∧ (name = none ∨ name = some n)) := by
  cases name <;> simp [prune] <;> grind

theorem hearsProperty_iff :
    l.hearsProperty d n = true ↔
      l.everything = true ∨ d ∈ l.devices ∨ (d, n) ∈ l.properties := by
  simp [hearsProperty, hearsDevice, or_assoc]

end Listener

namespace Broker

def Asks (x : PeerId) (scope : Discovery → Prop) (b : Broker) (a : Action) : Prop :=
  ∃ p r, b.peer? x = some p ∧ a = .route x (.discover r) ∧
    (p.isClient = true → ∃ v, r.version = some v ∧ v ≠ "") ∧ scope r

inductive Withdraws (device name : String) (b : Broker) : Action → Prop
  | property {origin p r} : b.peer? origin = some p → p.isClient = false → r.device = device →
      r.name = some name → Withdraws device name b (.route origin (.remove r))
  | device {origin p r} : b.peer? origin = some p → p.isClient = false → r.device = device →
      r.name = none → Withdraws device name b (.route origin (.remove r))
  | owner {now id} : b.Owns id device → Withdraws device name b (.deregister now id)

/-- In a run, the peer `x` has asked for everything, for the device, or for just the property, the
last with no withdrawal since, and has not left after that. -/
def Discovered (b : Broker) (as : List Action) (x : PeerId) (device name : String) : Prop :=
  Since b (Asks x fun r => r.device = none) (Leaves x) as ∨
  Since b (Asks x fun r => r.device = some device ∧ r.name = none) (Leaves x) as ∨
  Since b (Asks x fun r => r.device = some device ∧ r.name = some name)
    (fun b a => Leaves x b a ∨ Withdraws device name b a) as

section

variable {b : Broker} {x : PeerId} {a : Action} {l : Listener} {scope : Discovery → Prop}

theorem asks_route_iff {origin : PeerId} {p : Peer} {r : Discovery}
    (hp : b.peer? origin = some p) :
    Asks x scope b (.route origin (.discover r)) ↔
      (x = p.id ∧ ¬(p.isClient && r.version.all String.isEmpty)) ∧ scope r := by
  have hversion : (p.isClient = true → ∃ v, r.version = some v ∧ v ≠ "") ↔
      ¬(p.isClient && r.version.all String.isEmpty) := by
    cases p.isClient <;> cases r.version <;> simp
  rw [← hversion]
  constructor
  · rintro ⟨q, s, hq, h, hv, hs⟩
    cases h
    cases hp.symm.trans hq
    exact ⟨⟨(id_of_peer? _ _ hp).symm, hv⟩, hs⟩
  · rintro ⟨⟨rfl, hv⟩, hs⟩
    cases id_of_peer? _ _ hp
    exact ⟨p, r, hp, rfl, hv, hs⟩

theorem not_asks_of_unregistered {origin : PeerId} {m : Message} (h : b.peer? origin = none) :
    ¬Asks x scope b (.route origin m) := by
  rintro ⟨p, r, hp, hm, -⟩
  cases hm
  simp [h] at hp

theorem not_asks_route {origin : PeerId} {m : Message} (h : ∀ r, m ≠ .discover r) :
    ¬Asks x scope b (.route origin m) := by
  rintro ⟨p, r, -, hm, -⟩
  cases hm
  exact h r rfl

theorem not_asks (h : ∀ origin m, a ≠ .route origin m) : ¬Asks x scope b a := by
  rintro ⟨p, r, -, rfl, -⟩
  exact h _ _ rfl

theorem isSome_of_asks (h : Asks x scope b a) :
    (b.listener? x).isSome ∧ ((b.act a).1.listener? x).isSome := by
  obtain ⟨p, r, hp, rfl, -⟩ := h
  have hl : b.listener? x = some p.listener := by simp [listener?, hp]
  simp [act, route, hp, listener?_routeFrom, hl]

/-- What holds of a listener after discovery requests of some scope, until a removal or a departure
stops it. -/
theorem heed_iff (holds : Listener → Prop) (stops : Action → Prop)
    (hlisten : ∀ l r, holds (Listener.listen l r) ↔ scope r ∨ holds l)
    (hpolicy : ∀ l r, holds (Listener.setPolicy l r) ↔ holds l)
    (hremove : ∀ origin p r l, b.peer? origin = some p →
      (holds (Listener.heed x p (.remove r) l) ↔ holds l ∧ ¬stops (.route origin (.remove r))))
    (hderegister : ∀ now id l,
      holds (b.heed x (.deregister now id) l) ↔ holds l ∧ ¬stops (.deregister now id))
    (hstops : ∀ a, stops a → (∃ origin p r, b.peer? origin = some p ∧ a = .route origin (.remove r)) ∨
      ∃ now id, a = .deregister now id) :
    holds (b.heed x a l) ↔ Asks x scope b a ∨ holds l ∧ ¬stops a := by
  have quiet (h : (∀ origin r, a ≠ .route origin (.remove r)) ∧ ∀ now id, a ≠ .deregister now id) :
      ¬stops a := by
    intro hs
    obtain ⟨o, -, r, -, ha⟩ | ⟨now, id, ha⟩ := hstops a hs
    · exact h.1 o r ha
    · exact h.2 now id ha
  have unasked : (∀ origin m, a ≠ .route origin m) → ¬Asks x scope b a := not_asks
  cases a with
  | route origin m =>
    cases hp : b.peer? origin with
    | none =>
      have hs : ¬stops (.route origin m) := by
        intro hs
        obtain ⟨o, p, r, ho, ha⟩ | ⟨now, id, ha⟩ := hstops _ hs
        · cases ha
          simp [hp] at ho
        · cases ha
      simp [heed, hp, not_asks_of_unregistered hp, hs]
    | some p =>
      have hask : (∀ r, m ≠ .discover r) → ¬Asks x scope b (.route origin m) := not_asks_route
      simp only [heed, hp, Option.map_some, Option.getD_some]
      cases m with
      | discover r =>
        rw [asks_route_iff hp]
        simp only [Listener.heed, quiet (by simp), not_false_eq_true, and_true]
        split
        · rename_i h
          rw [hlisten, and_iff_right h]
        · rename_i h
          rw [iff_false_intro h, false_and, false_or]
      | payloads r =>
        simp only [Listener.heed, hask (by simp), quiet (by simp), false_or, not_false_eq_true,
          and_true]
        split
        · rw [hpolicy]
        · rfl
      | remove r =>
        rw [hremove origin p r l hp]
        simp only [hask (by simp), false_or]
      | _ => simp [Listener.heed, hask (by simp), quiet (by simp)]
  | deregister now id =>
    rw [hderegister]
    simp only [unasked (by simp), false_or]
  | _ => simp [heed, unasked (by simp), quiet (by simp)]

theorem heed_everything :
    (b.heed x a l).everything = true ↔ Asks x (·.device = none) b a ∨ l.everything = true := by
  have : _ ↔ Asks x (·.device = none) b a ∨ l.everything = true ∧ ¬False :=
    heed_iff (·.everything = true) (fun _ => False) (fun l r => l.everything_listen r)
      (fun l r => by simp)
      (fun origin p r l _ => by simp only [Listener.heed]; split <;> simp [Listener.prune])
      (fun now id l => by simp [heed, Listener.pruneAll]) (by simp)
  simpa using this

theorem heed_devices {device : String} :
    device ∈ (b.heed x a l).devices ↔
      Asks x (fun r => r.device = some device ∧ r.name = none) b a ∨ device ∈ l.devices := by
  have : _ ↔ Asks x (fun r => r.device = some device ∧ r.name = none) b a ∨
      device ∈ l.devices ∧ ¬False :=
    heed_iff (device ∈ ·.devices) (fun _ => False) (fun l r => l.mem_devices_listen r device)
      (fun l r => by simp)
      (fun origin p r l _ => by simp only [Listener.heed]; split <;> simp [Listener.prune])
      (fun now id l => by simp [heed, Listener.pruneAll]) (by simp)
  simpa using this

theorem heed_properties (hb : b.Wf) {device name : String} :
    (device, name) ∈ (b.heed x a l).properties ↔
      Asks x (fun r => r.device = some device ∧ r.name = some name) b a ∨
        (device, name) ∈ l.properties ∧ ¬Withdraws device name b a := by
  apply heed_iff ((device, name) ∈ ·.properties) (Withdraws device name b)
  · intro l r
    exact l.mem_properties_listen r device name
  · intro l r
    simp
  · intro origin p r l hp
    have hw : Withdraws device name b (.route origin (.remove r)) ↔
        p.isClient = false ∧ r.device = device ∧ (r.name = none ∨ r.name = some name) := by
      constructor
      · rintro (⟨hq, hc, hd, hn⟩ | ⟨hq, hc, hd, hn⟩)
        · cases hp.symm.trans hq
          exact ⟨hc, hd, .inr hn⟩
        · cases hp.symm.trans hq
          exact ⟨hc, hd, .inl hn⟩
      · rintro ⟨hc, hd, hn | hn⟩
        · exact .device hp hc hd hn
        · exact .property hp hc hd hn
    simp only [Listener.heed]
    split
    · rename_i hc
      simp [hw, hc]
    · rename_i hc
      simp only [Bool.not_eq_true] at hc
      simp [Listener.mem_properties_prune, hw, hc]
  · intro now id l
    have hw : Withdraws device name b (.deregister now id) ↔ b.Owns id device := by
      refine ⟨fun h => ?_, .owner⟩
      cases h with
      | owner howns => exact howns
    rw [hw, hb.owns_iff]
    cases hp : b.peer? id with
    | none => simp [heed, hp]
    | some p => simp [heed, hp, Listener.pruneAll]
  · rintro _ (⟨hp, -⟩ | ⟨hp, -⟩ | ⟨-⟩)
    · exact .inl ⟨_, _, _, hp, rfl⟩
    · exact .inl ⟨_, _, _, hp, rfl⟩
    · exact .inr ⟨_, _, rfl⟩

end

section

variable {b : Broker} {x : PeerId} {as : List Action} {l : Listener}
  (hb : b.Wf) (hx : b.listener? x = none) (hl : (b.after as).listener? x = some l)

include hb hx hl

theorem everything_iff_since :
    l.everything = true ↔ Since b (Asks x (·.device = none)) (Leaves x) as := by
  apply iff_since (·.everything = true) hb hx (by simp [Listener.empty])
    (fun _ _ => isSome_of_asks) (fun _ _ h => h) _ hl
  intro b a l _ _ hstay
  have : ¬Leaves x b a := Option.isSome_iff_ne_none.1 hstay
  simp [heed_everything, this]

theorem devices_iff_since {device : String} :
    device ∈ l.devices ↔
      Since b (Asks x fun r => r.device = some device ∧ r.name = none) (Leaves x) as := by
  apply iff_since (device ∈ ·.devices) hb hx (by simp [Listener.empty])
    (fun _ _ => isSome_of_asks) (fun _ _ h => h) _ hl
  intro b a l _ _ hstay
  have : ¬Leaves x b a := Option.isSome_iff_ne_none.1 hstay
  simp [heed_devices, this]

theorem properties_iff_since {device name : String} :
    (device, name) ∈ l.properties ↔
      Since b (Asks x fun r => r.device = some device ∧ r.name = some name)
        (fun b a => Leaves x b a ∨ Withdraws device name b a) as := by
  apply iff_since ((device, name) ∈ ·.properties) hb hx (by simp [Listener.empty])
    (fun _ _ => isSome_of_asks) (fun _ _ => .inl) _ hl
  intro b a l hb _ hstay
  have : ¬Leaves x b a := Option.isSome_iff_ne_none.1 hstay
  simp [heed_properties hb, this]

theorem hearsProperty_iff_discovered {device name : String} :
    l.hearsProperty device name = true ↔ Discovered b as x device name := by
  rw [Listener.hearsProperty_iff, everything_iff_since hb hx hl, devices_iff_since hb hx hl,
    properties_iff_since hb hx hl]
  rfl

end

/-- A change request of a registered peer that has discovered the property is queued once, for the
owner of the device. Any other is queued for no one. -/
theorem change_needs_discovery (policies : List AcceptPolicy) (startedAt : Time.Millis)
    (as : List Action) (x : PeerId) (request : ChangeRequest)
    (hx : (((ofPolicies policies startedAt).after as).peer? x).isSome) :
    let b := (ofPolicies policies startedAt).after as
    let discovered :=
      Discovered (ofPolicies policies startedAt) as x request.device request.name
    (∀ owner, b.Owns owner request.device → discovered →
      b.act (.route x (.change request)) = (b, [.queue owner (.change request)])) ∧
    (¬(discovered ∧ ∃ owner, b.Owns owner request.device) →
      b.act (.route x (.change request)) = (b, [])) := by
  intro b discovered
  have hstart : (ofPolicies policies startedAt).Wf := .ofPolicies policies startedAt
  have hb : b.Wf := hstart.after as
  obtain ⟨p, hp⟩ := Option.isSome_iff_exists.1 hx
  have hl : b.listener? x = some p.listener := by simp [listener?, b, hp]
  have hears : p.listener.hearsProperty request.device request.name = true ↔ discovered :=
    hearsProperty_iff_discovered hstart rfl hl
  have hact : b.act (.route x (.change request)) = (b, b.routeChange p request) := by
    simp only [act, route, b, hp, routeFrom]
  rw [hact]
  constructor
  · intro owner howns hd
    have howner : b.ownerOf? request.device = some owner := hb.ownerOf?_eq_some_iff.2 howns
    simp [routeChange, hears.2 hd, howner]
  · intro h
    rw [routeChange]
    split
    · rename_i hd
      have hnone : b.ownerOf? request.device = none := by
        rw [Option.eq_none_iff_forall_not_mem]
        intro owner howner
        exact h ⟨hears.1 hd, owner, hb.ownerOf?_eq_some_iff.1 howner⟩
      simp [hnone]
    · rfl

def exposureRun : List Action :=
  [.register .builtin ["camera"], .accept ⟨.v4 127 0 0 1, 50000⟩,
    .route 1 (.update ⟨.number, "Camera", "EXPOSE", none, none, none, none, []⟩),
    .route 2 (.discover (.ofProperty "Camera" "EXPOSE"))]

theorem change_of_exposure_reaches_camera :
    let b := (ofPolicies [] 0).after exposureRun
    let request := Message.change ⟨.number, "Camera", "EXPOSE", none, []⟩
    (b.peer? 2).isSome ∧ b.act (.route 2 request) = (b, [.queue 1 request]) := by
  have hx : (((ofPolicies [] 0).after exposureRun).peer? 2).isSome := by decide
  refine ⟨hx, (change_needs_discovery [] 0 exposureRun 2 _ hx).1 1 ?_ ?_⟩
  · exact ⟨_, List.mem_cons_self, rfl, by decide⟩
  · refine .inr (.inr ⟨exposureRun.take 3, _, [], rfl, ⟨_, _, rfl, rfl, ?_, rfl, rfl⟩, by simp⟩)
    exact fun _ => ⟨protocolVersion, rfl, by decide⟩

end Broker
end InstrumentBus
