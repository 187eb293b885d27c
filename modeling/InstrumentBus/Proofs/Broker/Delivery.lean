import InstrumentBus.Proofs.Broker.Discovery
import InstrumentBus.Proofs.Broker.Ownership

/-!
Who gets what. A report of a backend is queued once for every other peer that subscribed to it and
whose payload policy lets it pass. Nobody else gets it, and what clients report goes nowhere.
-/

namespace InstrumentBus

def Message.isReport : Message → Bool
  | .define _ => true
  | .update _ => true
  | .notify _ => true
  | _ => false

namespace Effect

def queuedFor? (x : PeerId) : Effect → Option Message
  | .queue peer m => if peer = x then some m else none
  | _ => none

def queuedFor (x : PeerId) (es : List Effect) : List Message := es.filterMap (queuedFor? x)

@[simp] theorem queuedFor_nil (x : PeerId) : queuedFor x [] = [] := rfl

@[simp] theorem queuedFor_queue (x peer : PeerId) (m : Message) (es : List Effect) :
    queuedFor x (.queue peer m :: es) =
      if peer = x then m :: queuedFor x es else queuedFor x es := by
  by_cases h : peer = x <;> simp [queuedFor, queuedFor?, h]

@[simp] theorem queuedFor_append (x : PeerId) (es fs : List Effect) :
    queuedFor x (es ++ fs) = queuedFor x es ++ queuedFor x fs := List.filterMap_append

end Effect

open Effect

namespace Listener

/-- The listener wants to hear of a property, or of a device if no property is given. -/
inductive Subscribed (l : Listener) (device : String) : Option String → Prop
  | everything {name?} : l.everything = true → Subscribed l device name?
  | device {name?} : device ∈ l.devices → Subscribed l device name?
  | property {name} : (device, name) ∈ l.properties → Subscribed l device (some name)
  | part {name} : (device, name) ∈ l.properties → Subscribed l device none

/-- The policy set closest to a property, or to a device if no property is given. -/
inductive PolicyFor (l : Listener) (device : String) : Option String → BlobPolicy → Prop
  | property {name policy} : l.propertyPolicies.lookup (device, name) = some policy →
      PolicyFor l device (some name) policy
  | device {name? policy} :
      (∀ name, name? = some name → l.propertyPolicies.lookup (device, name) = none) →
      l.devicePolicies.lookup device = some policy → PolicyFor l device name? policy
  | general {name?} :
      (∀ name, name? = some name → l.propertyPolicies.lookup (device, name) = none) →
      l.devicePolicies.lookup device = none → PolicyFor l device name? l.policy

section

variable {l : Listener} {device name : String} {name? : Option String} {policy : BlobPolicy}

theorem subscribed_some_iff :
    l.Subscribed device (some name) ↔ l.hearsProperty device name = true := by
  rw [hearsProperty_iff]
  constructor
  · rintro (h | h | h)
    · exact .inl h
    · exact .inr (.inl h)
    · exact .inr (.inr h)
  · rintro (h | h | h)
    · exact .everything h
    · exact .device h
    · exact .property h

theorem subscribed_none_iff : l.Subscribed device none ↔ l.hearsAnyOf device = true := by
  simp only [hearsAnyOf, hearsDevice, Bool.or_eq_true, List.contains_iff_mem, List.any_eq_true,
    beq_iff_eq, Prod.exists, or_assoc]
  constructor
  · rintro (h | h | _ | h)
    · exact .inl h
    · exact .inr (.inl h)
    · exact .inr (.inr ⟨_, _, h, rfl⟩)
  · rintro (h | h | ⟨_, name, h, rfl⟩)
    · exact .everything h
    · exact .device h
    · exact .part h

theorem policyFor_iff : l.PolicyFor device name? policy ↔ l.policyOf device name? = policy := by
  have fallback (h : ∀ name, name? = some name → l.propertyPolicies.lookup (device, name) = none) :
      l.policyOf device name? = (l.devicePolicies.lookup device).getD l.policy := by
    cases name? with
    | none => rfl
    | some name => simp [policyOf, h name rfl]
  constructor
  · rintro (hn | ⟨hn, hd⟩ | ⟨hn, hd⟩)
    · simp [policyOf, hn]
    · rw [fallback hn, hd, Option.getD_some]
    · rw [fallback hn, hd, Option.getD_none]
  · rintro rfl
    by_cases hn : ∀ name, name? = some name → l.propertyPolicies.lookup (device, name) = none
    · rw [fallback hn]
      cases hd : l.devicePolicies.lookup device with
      | none => exact .general hn hd
      | some policy => exact .device hn hd
    · push Not at hn
      obtain ⟨name, rfl, hn⟩ := hn
      obtain ⟨policy, hn⟩ := Option.ne_none_iff_exists'.1 hn
      simpa [policyOf, hn] using PolicyFor.property hn

theorem admits_iff {m : Message} (hm : m.reported? = some device) :
    l.admits m = true ↔
      l.policyOf device m.property ≠ if m.carriesBlob then .never else .only := by
  have hdevice : m.device = some device := by
    cases m <;> simp_all [Message.reported?, Message.device]
  have hadmits : l.admits m =
      if m.carriesBlob then (l.policyOf device m.property).acceptsPayload
      else (l.policyOf device m.property).acceptsOthers := by
    unfold admits
    rw [hdevice]
    cases m <;> simp_all [Message.reported?]
  rw [hadmits]
  cases l.policyOf device m.property <;> cases m.carriesBlob <;> decide

end

end Listener

namespace Broker

/-- The peer is to get the report, which a backend sends. -/
inductive Receives (b : Broker) (origin x : PeerId) : Message → Prop
  | report {m device p policy} : m.reported? = some device → b.peer? x = some p → x ≠ origin →
      p.listener.Subscribed device m.property → p.listener.PolicyFor device m.property policy →
      (policy ≠ if m.carriesBlob then .never else .only) → Receives b origin x m
  | notice {n p} : n.device = none → b.peer? x = some p → p.isClient = true →
      Receives b origin x (.notify n)

section

variable {b : Broker} (hb : b.Wf)

include hb

theorem Wf.queuedFor_deliver (x : PeerId) (m : Message) (wants : Peer → Bool) :
    queuedFor x (b.deliver m wants) = if (b.peer? x).any wants then [m] else [] := by
  have hordered := hb.ordered
  unfold Broker.deliver Broker.peer?
  generalize b.peers = ps at hordered
  induction ps with
  | nil => rfl
  | cons p ps ih =>
    obtain ⟨hlt, hps⟩ := List.pairwise_cons.1 hordered
    by_cases hp : p.id = x
    · -- Ids grow, so nobody behind `p` is `x`.
      have hnone : ps.find? (·.id == x) = none := by
        rw [List.find?_eq_none]
        intro q hq hqx
        have := hlt q hq
        rw [hp, eq_of_beq hqx] at this
        exact Nat.lt_irrefl x this
      have hrest := ih hps
      rw [hnone] at hrest
      cases hw : wants p <;> simp [hp, hw, hrest]
    · cases hw : wants p <;> simp [hp, hw, ih hps]

theorem Wf.queuedFor_fanOut (x origin : PeerId) (m : Message) (wants : Listener → Bool) :
    queuedFor x (b.fanOut origin m wants) =
      if x ≠ origin ∧ (b.listener? x).any (fun l => wants l && l.admits m) then [m] else [] := by
  rw [fanOut, hb.queuedFor_deliver, listener?]
  congr 1
  cases hp : b.peer? x with
  | none => simp
  | some p => simp [b.id_of_peer? x hp, and_assoc]

end

theorem receives_report_iff {b : Broker} {origin x : PeerId} {m : Message} {device : String}
    (hm : m.reported? = some device) :
    b.Receives origin x m ↔ x ≠ origin ∧ ∃ l, b.listener? x = some l ∧
      l.Subscribed device m.property ∧ l.admits m = true := by
  simp only [Listener.admits_iff hm]
  constructor
  · rintro (⟨hd, hp, hx, hs, hpolicy, hpasses⟩ | ⟨hn, -, -⟩)
    · cases hm.symm.trans hd
      rw [← Listener.policyFor_iff.1 hpolicy] at hpasses
      exact ⟨hx, _, by simp [listener?, hp], hs, hpasses⟩
    · simp [Message.reported?, hn] at hm
  · rintro ⟨hx, l, hl, hs, hpasses⟩
    obtain ⟨p, hp, rfl⟩ := Option.map_eq_some_iff.1 hl
    exact .report hm hp hx hs (Listener.policyFor_iff.2 rfl) hpasses

theorem receives_notice_iff {b : Broker} {origin x : PeerId} {n : Notice} (hn : n.device = none) :
    b.Receives origin x (.notify n) ↔ ∃ p, b.peer? x = some p ∧ p.isClient = true := by
  constructor
  · rintro (⟨hd, -⟩ | ⟨-, hp, hc⟩)
    · simp [Message.reported?, hn] at hd
    · exact ⟨_, hp, hc⟩
  · rintro ⟨p, hp, hc⟩
    exact .notice hn hp hc

section

variable {b : Broker} (hb : b.Wf) {origin x : PeerId}

include hb

theorem Wf.queuedFor_report {m : Message} {device : String} (hm : m.reported? = some device)
    (wants : Listener → Bool) (hwants : ∀ l, l.Subscribed device m.property ↔ wants l = true) :
    let queued := queuedFor x ((b.learn origin device).fanOut origin m wants)
    (b.Receives origin x m → queued = [m]) ∧ (¬b.Receives origin x m → queued = []) := by
  intro queued
  have hqueued : queued = if x ≠ origin ∧ (b.listener? x).any (fun l => wants l && l.admits m)
      then [m] else [] := by
    simp only [queued, (hb.learn origin device).queuedFor_fanOut, listener?_learn]
  have hiff : b.Receives origin x m ↔
      x ≠ origin ∧ (b.listener? x).any (fun l => wants l && l.admits m) := by
    rw [receives_report_iff hm]
    simp [hwants, Option.any_eq_true_iff_get, Option.eq_some_iff_get_eq]
  rw [hqueued, hiff]
  exact ⟨fun h => if_pos h, fun h => if_neg h⟩

theorem Wf.queuedFor_notice {n : Notice} (hn : n.device = none) :
    let queued := queuedFor x (b.deliver (.notify n) (·.isClient))
    (b.Receives origin x (.notify n) → queued = [.notify n]) ∧
      (¬b.Receives origin x (.notify n) → queued = []) := by
  intro queued
  have hqueued : queued = if (b.peer? x).any (·.isClient) then [.notify n] else [] :=
    hb.queuedFor_deliver x _ _
  have hiff : b.Receives origin x (.notify n) ↔ (b.peer? x).any (·.isClient) := by
    rw [receives_notice_iff hn]
    simp [Option.any_eq_true_iff_get, Option.eq_some_iff_get_eq]
  rw [hqueued, hiff]
  exact ⟨fun h => if_pos h, fun h => if_neg h⟩

end

theorem not_receives_own {b : Broker} {origin : PeerId} {p : Peer} (hp : b.peer? origin = some p)
    (hbackend : p.isClient = false) (m : Message) : ¬b.Receives origin origin m := by
  rintro (⟨-, -, hx, -⟩ | ⟨-, hq, hclient⟩)
  · exact hx rfl
  · cases hp.symm.trans hq
    simp [hbackend] at hclient

/-- In any state that a broker can get into, a report of a backend is queued once for each peer that
is to get it, for no other, and not for the backend itself. Reports and removals of clients, and all
messages of peers that are not registered, go nowhere and leave the broker as it is. -/
theorem report_reaches_subscribers (policies : List AcceptPolicy) (startedAt : Time.Millis)
    (as : List Action) (origin x : PeerId) (m : Message) :
    let b := (ofPolicies policies startedAt).after as
    let queued := queuedFor x (b.act (.route origin m)).2
    (∀ p, b.peer? origin = some p → p.isClient = false → m.isReport = true →
      (b.Receives origin x m → queued = [m]) ∧ (¬b.Receives origin x m → queued = []) ∧
        (x = origin → queued = [])) ∧
    (∀ p, b.peer? origin = some p → p.isClient = true →
      (m.isReport = true ∨ ∃ r, m = .remove r) → b.act (.route origin m) = (b, [])) ∧
    (b.peer? origin = none → b.act (.route origin m) = (b, [])) := by
  intro b queued
  have hb : b.Wf := (Wf.ofPolicies policies startedAt).after as
  refine ⟨?_, ?_, ?_⟩
  · intro p hp hbackend hm
    have hqueued : (b.Receives origin x m → queued = [m]) ∧
        (¬b.Receives origin x m → queued = []) := by
      obtain rfl := b.id_of_peer? origin hp
      simp only [queued, act, route, hp]
      cases m with
      | define d =>
        simp only [routeFrom, hbackend, routeReport]
        exact hb.queuedFor_report (m := .define d) rfl _ fun l => Listener.subscribed_some_iff
      | update u =>
        simp only [routeFrom, hbackend, routeReport]
        exact hb.queuedFor_report (m := .update u) rfl _ fun l => Listener.subscribed_some_iff
      | notify n =>
        cases hn : n.device with
        | none =>
          simp only [routeFrom, hbackend, routeNotice, hn]
          exact hb.queuedFor_notice hn
        | some device =>
          simp only [routeFrom, hbackend, routeNotice, hn]
          exact hb.queuedFor_report (m := .notify n) hn _ fun l => Listener.subscribed_none_iff
      | _ => simp [Message.isReport] at hm
    refine ⟨hqueued.1, hqueued.2, ?_⟩
    rintro rfl
    exact hqueued.2 (not_receives_own hp hbackend m)
  · intro p hp hclient hm
    cases m <;> simp_all [act, route, routeFrom, Message.isReport]
  · intro hp
    simp only [act, route, hp]

theorem exposure_reaches_client :
    let b := (ofPolicies [] 0).after exposureRun
    let report := Message.update ⟨.number, "Camera", "EXPOSE", none, none, none, none, []⟩
    queuedFor 2 (b.act (.route 1 report)).2 = [report] ∧
      queuedFor 1 (b.act (.route 1 report)).2 = [] := by
  have hp : ((ofPolicies [] 0).after exposureRun).peer? 1 =
      some ⟨1, .empty, .backend ⟨.builtin, ["camera"], ["Camera"]⟩⟩ := by decide
  have hx : ((ofPolicies [] 0).after exposureRun).peer? 2 =
      some ⟨2, { Listener.empty with properties := [("Camera", "EXPOSE")] }, .client⟩ := by decide
  refine ⟨?_, ?_⟩
  · refine ((report_reaches_subscribers [] 0 exposureRun 1 2 _).1 _ hp rfl rfl).1 ?_
    refine .report rfl hx (by decide) (.property List.mem_cons_self) (.general ?_ rfl) (by decide)
    rintro name ⟨⟩
    rfl
  · exact ((report_reaches_subscribers [] 0 exposureRun 1 1 _).1 _ hp rfl rfl).2.2 rfl

end Broker

end InstrumentBus
