import InstrumentBus.Proofs.Broker.Delivery

/-!
What a discovery request does. Its sender hears afterwards what it heard before and what it asks
for, and nobody else hears more or less. The request goes once to the backend that owns the device,
or to all other backends if it names no device that somebody owns.
-/

namespace InstrumentBus

open Effect

inductive Discovery.Includes (r : Discovery) (device name : String) : Prop
  | everything : r.device = none → Includes r device name
  | device : r.device = some device → r.name = none → Includes r device name
  | property : r.device = some device → r.name = some name → Includes r device name

theorem Listener.hearsProperty_listen (l : Listener) (r : Discovery) (device name : String) :
    (l.listen r).hearsProperty device name = true ↔
      l.hearsProperty device name = true ∨ r.Includes device name := by
  simp only [hearsProperty_iff, everything_listen, mem_devices_listen, mem_properties_listen]
  constructor
  · rintro ((h | h) | (⟨hd, hn⟩ | h) | ⟨hd, hn⟩ | h)
    · exact .inr (.everything h)
    · exact .inl (.inl h)
    · exact .inr (.device hd hn)
    · exact .inl (.inr (.inl h))
    · exact .inr (.property hd hn)
    · exact .inl (.inr (.inr h))
  · rintro ((h | h | h) | (h | ⟨hd, hn⟩ | ⟨hd, hn⟩))
    · exact .inl (.inr h)
    · exact .inr (.inl (.inr h))
    · exact .inr (.inr (.inr h))
    · exact .inl (.inl h)
    · exact .inr (.inl (.inl ⟨hd, hn⟩))
    · exact .inr (.inr (.inl ⟨hd, hn⟩))

namespace Broker

inductive Asked (b : Broker) (origin y : PeerId) (r : Discovery) : Prop
  | owner {device} : r.device = some device → b.Owns y device → y ≠ origin → Asked b origin y r
  | any {p} : (∀ device, r.device = some device → ∀ owner, ¬b.Owns owner device) →
      b.peer? y = some p → p.isClient = false → y ≠ origin → Asked b origin y r

section

variable {b : Broker} (hb : b.Wf) {origin y : PeerId} {r : Discovery}

include hb

theorem Wf.not_owns_iff {device : String} :
    (∀ owner, ¬b.Owns owner device) ↔ b.ownerOf? device = none := by
  simp only [← hb.ownerOf?_eq_some_iff]
  exact Option.eq_none_iff_forall_ne_some.symm

theorem Wf.backend_of_owns {device : String} (h : b.Owns y device) :
    ∃ p, b.peer? y = some p ∧ p.isClient = false := by
  obtain ⟨p, hp, hd⟩ := hb.owns_iff.1 h
  exact ⟨p, hp, Peer.isClient_of_mem_names hd⟩

theorem Wf.asked_iff :
    b.Asked origin y r ↔ ∃ p, b.peer? y = some p ∧ p.isClient = false ∧ y ≠ origin ∧
      ∀ owner, r.device.bind b.ownerOf? = some owner → owner = y := by
  constructor
  · rintro (⟨hd, howns, hne⟩ | ⟨hfree, hp, hc, hne⟩)
    · obtain ⟨p, hp, hc⟩ := hb.backend_of_owns howns
      refine ⟨p, hp, hc, hne, ?_⟩
      intro owner howner
      rw [hd, Option.bind_some, hb.ownerOf?_eq_some_iff.2 howns] at howner
      exact (Option.some.inj howner).symm
    · refine ⟨_, hp, hc, hne, ?_⟩
      intro owner howner
      obtain ⟨device, hd, howner⟩ := Option.bind_eq_some_iff.1 howner
      exact absurd (hb.ownerOf?_eq_some_iff.1 howner) (hfree device hd owner)
  · rintro ⟨p, hp, hc, hne, honly⟩
    cases htarget : r.device.bind b.ownerOf? with
    | none =>
      refine .any (fun device hd => ?_) hp hc hne
      rwa [hd, Option.bind_some, ← hb.not_owns_iff] at htarget
    | some owner =>
      obtain rfl := honly owner htarget
      obtain ⟨device, hd, howner⟩ := Option.bind_eq_some_iff.1 htarget
      exact .owner hd (hb.ownerOf?_eq_some_iff.1 howner) hne

theorem Wf.queuedFor_discovery :
    let queued := queuedFor y (b.routeDiscovery origin r).2
    (b.Asked origin y r → queued = [.discover r]) ∧ (¬b.Asked origin y r → queued = []) := by
  intro queued
  have hqueued : queued = if (b.peer? y).any (fun p => !p.isClient && p.id != origin &&
      (r.device.bind b.ownerOf?).all (· == p.id)) then [.discover r] else [] :=
    hb.queuedFor_deliver y _ _
  have hiff : b.Asked origin y r ↔ (b.peer? y).any (fun p => !p.isClient && p.id != origin &&
      (r.device.bind b.ownerOf?).all (· == p.id)) := by
    rw [hb.asked_iff]
    cases hp : b.peer? y with
    | none => simp
    | some p => simp [b.id_of_peer? y hp, and_assoc, Option.all_eq_true]
  rw [hqueued, hiff]
  exact ⟨fun h => if_pos h, fun h => if_neg h⟩

theorem Wf.not_asked_of_own {device : String} (hd : r.device = some device)
    (howns : b.Owns origin device) : ¬b.Asked origin y r := by
  rw [hb.asked_iff]
  rintro ⟨-, -, -, hne, honly⟩
  refine hne (honly origin ?_).symm
  rw [hd, Option.bind_some, hb.ownerOf?_eq_some_iff.2 howns]

theorem Wf.not_asked_of_client {p : Peer} (hp : b.peer? y = some p) (hclient : p.isClient = true) :
    ¬b.Asked origin y r := by
  rw [hb.asked_iff]
  rintro ⟨q, hq, hbackend, -⟩
  cases hp.symm.trans hq
  simp [hclient] at hbackend

end

theorem mem_deliver {b : Broker} {m : Message} {wants : Peer → Bool} {e : Effect} :
    e ∈ b.deliver m wants ↔ ∃ p ∈ b.peers, wants p = true ∧ e = .queue p.id m := by
  simp only [deliver, List.mem_map, List.mem_filter, and_assoc, eq_comm (a := e)]

/-- In any state that a broker can get into, a discovery request of a client needs a version that is
not empty, else nothing changes. Any other request of a registered peer widens what the peer hears
by just what the request asks for, and is queued once for each backend that is asked, for nobody if
its sender owns the device, and never for a client. -/
theorem discovery_asks_owner (policies : List AcceptPolicy) (startedAt : Time.Millis)
    (as : List Action) (x : PeerId) (p : Peer) (r : Discovery)
    (hx : ((ofPolicies policies startedAt).after as).peer? x = some p) :
    let b := (ofPolicies policies startedAt).after as
    let c := (b.act (.route x (.discover r))).1
    let effects := (b.act (.route x (.discover r))).2
    let heard := p.isClient = true → ∃ v, r.version = some v ∧ v ≠ ""
    (¬heard → c = b ∧ effects = []) ∧
    (heard →
      (∀ y, y ≠ x → c.listener? y = b.listener? y) ∧
      (∃ l, c.listener? x = some l ∧ ∀ device name, l.hearsProperty device name = true ↔
        p.listener.hearsProperty device name = true ∨ r.Includes device name) ∧
      (∀ e ∈ effects, ∃ y, e = .queue y (.discover r)) ∧
      (∀ y, (b.Asked x y r → queuedFor y effects = [.discover r]) ∧
        (¬b.Asked x y r → queuedFor y effects = [])) ∧
      (∀ device, r.device = some device → b.Owns x device → ∀ y, queuedFor y effects = []) ∧
      ∀ y q, b.peer? y = some q → q.isClient = true → queuedFor y effects = []) := by
  intro b c effects heard
  have hb : b.Wf := (Wf.ofPolicies policies startedAt).after as
  obtain rfl := b.id_of_peer? x hx
  have hl : b.listener? p.id = some p.listener := by simp [listener?, b, hx]
  have hversion : heard ↔ ¬(p.isClient && r.version.all String.isEmpty) := by
    simp only [heard]
    cases p.isClient <;> cases r.version <;> simp
  have hact : b.act (.route p.id (.discover r)) = b.routeFrom p (.discover r) := by
    simp only [act, route, b, hx]
  constructor
  · intro hunheard
    have hroute : b.routeFrom p (.discover r) = (b, []) :=
      if_pos (not_not.1 (mt hversion.2 hunheard))
    simp only [c, effects, hact, hroute, and_self]
  · intro hheard
    have hroute : b.routeFrom p (.discover r) = b.routeDiscovery p.id r :=
      if_neg (hversion.1 hheard)
    have hc : c = b.mapPeer p.id (·.mapListener (·.listen r)) := by simp only [c, hact, hroute]; rfl
    have heffects : effects = (b.routeDiscovery p.id r).2 := by simp only [effects, hact, hroute]
    have hqueued (y : PeerId) : (b.Asked p.id y r → queuedFor y effects = [.discover r]) ∧
        (¬b.Asked p.id y r → queuedFor y effects = []) := heffects ▸ hb.queuedFor_discovery
    refine ⟨?_, ⟨p.listener.listen r, ?_, p.listener.hearsProperty_listen r⟩, ?_, hqueued, ?_, ?_⟩
    · intro y hy
      simp [hc, hy]
    · simp [hc, hl]
    · intro e he
      obtain ⟨q, -, -, rfl⟩ := mem_deliver.1 (heffects ▸ he)
      exact ⟨q.id, rfl⟩
    · intro device hd howns y
      exact (hqueued y).2 (hb.not_asked_of_own hd howns)
    · intro y q hq hclient
      exact (hqueued y).2 (hb.not_asked_of_client hq hclient)

theorem inquiry_reaches_camera :
    let b := (ofPolicies [] 0).after exposureRun
    let request := Message.discover (.ofDevice "Camera")
    (∃ l, (b.act (.route 2 request)).1.listener? 2 = some l ∧
      l.hearsProperty "Camera" "TEMP" = true) ∧
    queuedFor 1 (b.act (.route 2 request)).2 = [request] := by
  have hx : ((ofPolicies [] 0).after exposureRun).peer? 2 =
      some ⟨2, { Listener.empty with properties := [("Camera", "EXPOSE")] }, .client⟩ := by decide
  have howns : ((ofPolicies [] 0).after exposureRun).Owns 1 "Camera" :=
    ⟨_, List.mem_cons_self, rfl, by decide⟩
  obtain ⟨-, ⟨l, hl, hears⟩, -, hqueued, -⟩ :=
    (discovery_asks_owner [] 0 exposureRun 2 _ (.ofDevice "Camera") hx).2
      fun _ => ⟨protocolVersion, rfl, by decide⟩
  refine ⟨⟨l, hl, (hears "Camera" "TEMP").2 (.inr (.device rfl rfl))⟩, ?_⟩
  exact (hqueued 1).1 (.owner rfl howns (by decide))

end Broker
end InstrumentBus
