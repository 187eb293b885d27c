import InstrumentBus.Proofs.Broker.Delivery
import InstrumentBus.Proofs.Broker.Discovery

/-!
How a device goes. Its owner removes it, or goes itself: either way everyone who heard anything of
the device is told once, nobody keeps a wish for a single property of it, and it is not removed
again for the sake of this owner before this owner has announced it again.
-/

namespace InstrumentBus

open Effect

def Message.removed? : Message → Option String
  | .remove r => if r.name = none then some r.device else none
  | _ => none

namespace Effect

def removalsFor (x : PeerId) (device : String) (es : List Effect) : Nat :=
  (queuedFor x es).countP (·.removed? == some device)

@[simp] theorem removalsFor_nil (x : PeerId) (device : String) : removalsFor x device [] = 0 := rfl

@[simp] theorem removalsFor_append (x : PeerId) (device : String) (es fs : List Effect) :
    removalsFor x device (es ++ fs) = removalsFor x device es + removalsFor x device fs := by
  simp [removalsFor]

@[simp] theorem removalsFor_close_event (x id : PeerId) (device : String) (e : Event) :
    removalsFor x device [.close id, .event e] = 0 := rfl

end Effect

namespace Listener

variable (l : Listener)

theorem hearsAnyOf_prune {device other : String} (h : device ≠ other) :
    (l.prune other none).hearsAnyOf device = l.hearsAnyOf device := by
  simp only [hearsAnyOf, hearsDevice, prune, Option.any_none, Bool.or_false, List.any_filter]
  congr 2
  funext p
  by_cases hp : p.1 = device
  · simp [hp, h]
  · simp [hp]

end Listener

namespace Broker

/-- The owner of the device removes it as a whole, or goes. -/
inductive Ends (owner : PeerId) (device : String) : Action → Prop
  | removal {r} : r.device = device → r.name = none → Ends owner device (.route owner (.remove r))
  | departure {now} : Ends owner device (.deregister now owner)

/-- The peer `x`, which is not `origin`, hears all or something of the device. -/
def Watches (b : Broker) (origin x : PeerId) (device : String) : Prop :=
  x ≠ origin ∧ ∃ l, b.listener? x = some l ∧ l.Subscribed device none

variable {b : Broker} {origin owner x : PeerId} {device : String}

theorem watches_iff :
    b.Watches origin x device ↔ x ≠ origin ∧ (b.listener? x).any (·.hearsAnyOf device) := by
  simp [Watches, Listener.subscribed_none_iff, Option.any_eq_true_iff_get,
    Option.eq_some_iff_get_eq]

instance : Decidable (b.Watches origin x device) := decidable_of_iff' _ watches_iff

theorem watches_dropDevice {r : Removal} (h : device ≠ r.device) :
    (b.dropDevice origin r).1.Watches origin x device ↔ b.Watches origin x device := by
  simp only [watches_iff, listener?_dropDevice, Option.any_map,
    Listener.hearsAnyOf_prune _ h]

theorem watches_filter (id : PeerId) :
    ({ b with peers := b.peers.filter (·.id != id) } : Broker).Watches id x device ↔
      b.Watches id x device := by
  simp only [watches_iff, listener?, peer?_filter]
  by_cases h : x = id <;> simp [h]

section

variable (hb : b.Wf)

include hb

theorem Wf.queuedFor_dropDevice (origin x : PeerId) (r : Removal) :
    queuedFor x (b.dropDevice origin r).2 =
      if b.Watches origin x r.device then [.remove r] else [] := by
  rw [Broker.dropDevice, hb.queuedFor_fanOut]
  congr 1
  simp [watches_iff, Listener.admits]

theorem Wf.queuedFor_dropDevices (origin x : PeerId) (timestamp : String) {devices : List String}
    (hnodup : devices.Nodup) :
    queuedFor x (b.dropDevices origin timestamp devices).2 =
      (devices.filter (b.Watches origin x ·)).map fun d =>
        .remove { Removal.ofDevice d with timestamp := some timestamp } := by
  induction devices generalizing b with
  | nil => rfl
  | cons device devices ih =>
    obtain ⟨hnot, hnodup⟩ := List.nodup_cons.1 hnodup
    have hrest (r : Removal) (hr : r.device = device) :
        devices.filter ((b.dropDevice origin r).1.Watches origin x ·) =
          devices.filter (b.Watches origin x ·) := by
      apply List.filter_congr
      intro d hd
      have hne : d ≠ r.device := by
        rintro rfl
        exact hnot (hr ▸ hd)
      rw [decide_eq_decide, watches_dropDevice hne]
    rw [Broker.dropDevices, queuedFor_append, hb.queuedFor_dropDevice]
    dsimp only
    rw [ih (hb.dropDevice origin _) hnodup, hrest _ rfl]
    by_cases h : b.Watches origin x device <;> simp [h, Removal.ofDevice]

theorem Wf.removalsFor_dropDevices (origin x : PeerId) (device timestamp : String)
    {devices : List String} (hnodup : devices.Nodup) :
    removalsFor x device (b.dropDevices origin timestamp devices).2 =
      if device ∈ devices ∧ b.Watches origin x device then 1 else 0 := by
  have hremoved (d : String) : (Message.remove
      { Removal.ofDevice d with timestamp := some timestamp }).removed? = some d := rfl
  have hcount := (hnodup.filter (b.Watches origin x ·)).count (a := device)
  simp only [List.mem_filter, decide_eq_true_eq] at hcount
  rw [removalsFor, hb.queuedFor_dropDevices origin x timestamp hnodup, List.countP_map, ← hcount]
  simp only [Function.comp_def, hremoved, Option.some_beq_some, List.count]

theorem Wf.removalsFor_deregister (now : Time.Millis) (id : PeerId) :
    removalsFor x device (b.deregister now id).2 =
      if b.Owns id device ∧ b.Watches id x device then 1 else 0 := by
  simp only [hb.owns_iff]
  unfold Broker.deregister
  cases hp : b.peer? id with
  | none => simp
  | some p =>
    cases hrole : p.role with
    | client =>
      have hnames : p.names = [] := by simp [Peer.names, Peer.backend?, hrole]
      simp [hrole, hnames]
    | backend d =>
      have hnames : p.names = d.names := by simp [Peer.names, Peer.backend?, hrole]
      have hnodup : (sorted d.names).Nodup := by
        have := (List.nodup_flatMap.1 hb.names).1 p (b.mem_of_peer? id hp)
        exact (List.mergeSort_perm ..).nodup_iff.2 (hnames ▸ this)
      have hrest : ({ b with peers := b.peers.filter (·.id != id) } : Broker).Wf :=
        hb.of_sublist List.filter_sublist rfl
      have hdropped := hrest.removalsFor_dropDevices id x device (Property.timestampAt now) hnodup
      simp only [watches_filter] at hdropped
      simpa [hrole, hnames, sorted] using hdropped

end

section

variable (hb : b.Wf)

include hb

theorem Wf.frees_of_ends (howns : b.Owns owner device) {a : Action} (ha : Ends owner device a) :
    Frees owner device b a := by
  obtain ⟨p, hp, hname⟩ := hb.owns_iff.1 howns
  cases ha with
  | removal hd hn => exact .removal hp (Peer.isClient_of_mem_names hname) hd hn
  | departure => exact .departure

theorem Wf.removalsFor_act (howns : b.Owns owner device) {a : Action} (ha : Ends owner device a) :
    removalsFor x device (b.act a).2 = if b.Watches owner x device then 1 else 0 := by
  cases ha with
  | departure => simp only [Broker.act, hb.removalsFor_deregister, howns, true_and]
  | @removal r hd hn =>
    obtain ⟨p, hp, hname⟩ := hb.owns_iff.1 howns
    have hbackend : p.isClient = false := Peer.isClient_of_mem_names hname
    have hid : p.id = owner := b.id_of_peer? owner hp
    have hqueued := hb.queuedFor_dropDevice owner x r
    simp only [Broker.act, route, hp, Broker.routeFrom, hbackend, routeRemoval, hn, hid,
      Bool.false_eq_true, ↓reduceIte, removalsFor, hqueued, hd]
    by_cases h : b.Watches owner x device <;> simp [h, Message.removed?, hn, hd]

theorem Wf.not_mem_properties (howns : b.Owns owner device) {a : Action} (ha : Ends owner device a)
    {p : Peer} (hp : p ∈ (b.act a).1.peers) (name : String) :
    (device, name) ∉ p.listener.properties := by
  have hl : (b.act a).1.listener? p.id = some p.listener := by
    rw [listener?, (hb.act a).peer?_eq_some_iff.2 ⟨hp, rfl⟩, Option.map_some]
  obtain ⟨q, hq, hname⟩ := hb.owns_iff.1 howns
  cases ha with
  | departure =>
    rw [Broker.act, listener?_deregister] at hl
    split at hl
    · cases hl
    · obtain ⟨l, -, hl⟩ := Option.map_eq_some_iff.1 hl
      simp [← hl, Listener.pruneAll, hq, hname]
  | @removal r hd hn =>
    have hbackend : q.isClient = false := Peer.isClient_of_mem_names hname
    simp only [Broker.act, route, hq, listener?_routeFrom] at hl
    obtain ⟨l, -, hl⟩ := Option.map_eq_some_iff.1 hl
    simp [← hl, Listener.heed, hbackend, Listener.mem_properties_prune, hd, hn]

theorem Wf.not_owns_after (hfree : ¬b.Owns owner device) {as : List Action}
    (hquiet : ∀ pre a post, as = pre ++ a :: post → ¬Announces owner device (b.after pre) a) :
    ¬(b.after as).Owns owner device := by
  induction as using List.reverseRecOn with
  | nil => exact hfree
  | append_singleton as a ih =>
    rw [after_append, after_singleton, (hb.after as).owns_act]
    rintro (h | ⟨h, -⟩)
    · exact hquiet as a [] rfl h
    · refine ih (fun pre c post hpre => ?_) h
      exact hquiet pre c (post ++ [a]) (by simp [hpre])

end

/-- When the owner of a device removes it or goes, the removal is queued once for every other peer
that hears anything of the device, whatever payloads it wants, and for no one else. Then the device
has no owner, and nobody has a wish for a single property of it. However the run goes on, a later
departure of that owner removes the device for no one, unless the owner has announced it again. -/
theorem device_removed_once (policies : List AcceptPolicy) (startedAt : Time.Millis)
    (as : List Action) (owner : PeerId) (device : String)
    (howns : ((ofPolicies policies startedAt).after as).Owns owner device) (a : Action)
    (ha : Ends owner device a) :
    let b := (ofPolicies policies startedAt).after as
    let c := (b.act a).1
    (∀ x, (b.Watches owner x device → removalsFor x device (b.act a).2 = 1) ∧
      (¬b.Watches owner x device → removalsFor x device (b.act a).2 = 0)) ∧
    c.ownerOf? device = none ∧
    (∀ p ∈ c.peers, ∀ name, (device, name) ∉ p.listener.properties) ∧
    ∀ later now,
      (∀ pre e post, later = pre ++ e :: post → ¬Announces owner device (c.after pre) e) →
        ∀ x, removalsFor x device ((c.after later).act (.deregister now owner)).2 = 0 := by
  intro b c
  have hb : b.Wf := (Wf.ofPolicies policies startedAt).after as
  have hc : c.Wf := hb.act a
  have hfree : c.ownerOf? device = none :=
    hb.ownerOf?_act_of_frees howns (hb.frees_of_ends howns ha)
  refine ⟨fun x => ?_, hfree, fun p hp => hb.not_mem_properties howns ha hp, ?_⟩
  · rw [hb.removalsFor_act howns ha]
    exact ⟨fun h => if_pos h, fun h => if_neg h⟩
  · intro later now hquiet x
    have hnot : ¬c.Owns owner device := by
      simp [← hc.ownerOf?_eq_some_iff, hfree]
    have hgone := hc.not_owns_after hnot hquiet
    rw [Broker.act, (hc.after later).removalsFor_deregister]
    simp [hgone]

theorem client_hears_camera_go :
    let b := (ofPolicies [] 0).after exposureRun
    let removal := Action.route 1 (.remove (.ofDevice "Camera"))
    b.Owns 1 "Camera" ∧ removalsFor 2 "Camera" (b.act removal).2 = 1 ∧
      removalsFor 2 "Camera" ((b.act removal).1.act (.deregister 0 1)).2 = 0 := by
  have howns : ((ofPolicies [] 0).after exposureRun).Owns 1 "Camera" := by decide
  have hwatches : ((ofPolicies [] 0).after exposureRun).Watches 1 2 "Camera" := by decide
  obtain ⟨htold, -, -, hlater⟩ :=
    device_removed_once [] 0 exposureRun 1 "Camera" howns _
      (.removal (r := .ofDevice "Camera") rfl rfl)
  exact ⟨howns, (htold 2).1 hwatches, hlater [] 0 (by simp) 2⟩

end Broker

end InstrumentBus
