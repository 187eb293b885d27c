import InstrumentBus.Proofs.Broker.Inquiry

/-!
Which payload policy is in effect for a property. The last request for the property or for its whole
device decides; without one the last request without a device does, and without any a peer gets no
payloads. Over a run these are the requests that the peer has sent.
-/

namespace InstrumentBus

namespace PayloadRequest

def concerns (r : PayloadRequest) (device name : String) : Bool :=
  r.device == some device && r.name.all (· == name)

def latest? (counts : PayloadRequest → Bool) (rs : List PayloadRequest) : Option BlobPolicy :=
  (rs.reverse.find? counts).map (·.policy)

def policyBy (rs : List PayloadRequest) (device name : String) : BlobPolicy :=
  ((latest? (·.concerns device name) rs).or (latest? (·.device.isNone) rs)).getD .never

@[simp] theorem latest?_nil (counts : PayloadRequest → Bool) : latest? counts [] = none := rfl

@[simp] theorem latest?_concat (counts : PayloadRequest → Bool) (rs : List PayloadRequest)
    (r : PayloadRequest) :
    latest? counts (rs ++ [r]) = if counts r then some r.policy else latest? counts rs := by
  cases h : counts r <;> simp [latest?, h]

end PayloadRequest

open PayloadRequest Effect

namespace Listener

theorem lookup_filter {α : Type} [BEq α] [LawfulBEq α] (keeps : α → Bool) (key : α)
    (entries : List (α × BlobPolicy)) :
    (entries.filter fun e => keeps e.1).lookup key =
      if keeps key then entries.lookup key else none := by
  induction entries with
  | nil => simp
  | cons e entries ih =>
    obtain ⟨k, policy⟩ := e
    by_cases hk : key = k
    · subst hk
      cases h : keeps key <;> simp [h, ih]
    · have hne : (key == k) = false := by simpa using hk
      cases h : keeps k <;> simp [h, ih, List.lookup_cons, hne]

theorem lookup_setEntry {α : Type} [BEq α] [LawfulBEq α] (key k : α) (policy : BlobPolicy)
    (entries : List (α × BlobPolicy)) :
    (setEntry key policy entries).lookup k =
      if k == key then some policy else entries.lookup k := by
  have hrest := lookup_filter (fun k => k != key) k entries
  cases h : k == key with
  | true => simp [setEntry, List.lookup_cons, h]
  | false =>
    rw [bne, h] at hrest
    rw [setEntry, List.lookup_cons, h]
    exact hrest

def ownPolicy? (l : Listener) (device name : String) : Option BlobPolicy :=
  (l.propertyPolicies.lookup (device, name)).or (l.devicePolicies.lookup device)

theorem ownPolicy?_setPolicy (l : Listener) (r : PayloadRequest) (device name : String) :
    (l.setPolicy r).ownPolicy? device name =
      if r.concerns device name then some r.policy else l.ownPolicy? device name := by
  obtain ⟨d, n, policy⟩ := r
  cases d with
  | none => simp [setPolicy, concerns, ownPolicy?]
  | some d =>
    cases n with
    | none =>
      by_cases hd : d = device
      · subst hd
        simp [setPolicy, concerns, ownPolicy?, lookup_setEntry,
          lookup_filter (fun k : String × String => k.1 != d)]
      · have hd' : ¬device = d := fun h => hd h.symm
        simp [setPolicy, concerns, ownPolicy?, lookup_setEntry, hd, hd',
          lookup_filter (fun k : String × String => k.1 != d)]
    | some n =>
      by_cases h : d = device ∧ n = name
      · obtain ⟨rfl, rfl⟩ := h
        simp [setPolicy, concerns, ownPolicy?, lookup_setEntry]
      · have h' : ¬(device = d ∧ name = n) := fun ⟨hd, hn⟩ => h ⟨hd.symm, hn.symm⟩
        simp [setPolicy, concerns, ownPolicy?, lookup_setEntry, h, h']

theorem policy_setPolicy (l : Listener) (r : PayloadRequest) :
    (l.setPolicy r).policy = if r.device.isNone then r.policy else l.policy := by
  unfold setPolicy
  split <;> simp_all

/-- The policies of a listener are what some requests have left. -/
structure Follows (l : Listener) (rs : List PayloadRequest) : Prop where
  general : l.policy = (latest? (·.device.isNone) rs).getD .never
  own : ∀ device name, l.ownPolicy? device name = latest? (·.concerns device name) rs

namespace Follows

theorem empty : Follows .empty [] := ⟨rfl, fun _ _ => rfl⟩

section

variable {l : Listener} {rs : List PayloadRequest} (h : l.Follows rs)

include h

theorem setPolicy (r : PayloadRequest) : (l.setPolicy r).Follows (rs ++ [r]) where
  general := by
    rw [policy_setPolicy, latest?_concat, h.general]
    split <;> rfl
  own device name := by rw [ownPolicy?_setPolicy, latest?_concat, h.own]

theorem foldl (more : List PayloadRequest) :
    (more.foldl Listener.setPolicy l).Follows (rs ++ more) := by
  induction more generalizing l rs with
  | nil => simpa using h
  | cons r more ih => simpa using ih (h.setPolicy r)

theorem listen (r : Discovery) : (l.listen r).Follows rs := by
  unfold Listener.listen
  split <;> exact ⟨h.general, h.own⟩

theorem prune (device : String) (name : Option String) : (l.prune device name).Follows rs :=
  ⟨h.general, h.own⟩

theorem policyOf (device name : String) : l.policyOf device (some name) = policyBy rs device name := by
  rw [policyBy, ← h.own, Listener.policyOf, h.general, ownPolicy?, Option.bind_some]
  cases (l.propertyPolicies.lookup (device, name)).or (l.devicePolicies.lookup device) <;>
    cases latest? (·.device.isNone) rs <;> rfl

end

end Follows

end Listener

namespace Broker

def payloadRequest? (b : Broker) (x : PeerId) : Action → Option PayloadRequest
  | .route origin (.payloads r) => if origin = x ∧ (b.peer? x).isSome then some r else none
  | _ => none

def payloadRequests (b : Broker) (x : PeerId) : List Action → List PayloadRequest
  | [] => []
  | a :: as => (b.payloadRequest? x a).toList ++ (b.act a).1.payloadRequests x as

theorem payloadRequests_concat (b : Broker) (x : PeerId) (as : List Action) (a : Action) :
    b.payloadRequests x (as ++ [a]) =
      b.payloadRequests x as ++ ((b.after as).payloadRequest? x a).toList := by
  induction as generalizing b with
  | nil => simp [payloadRequests]
  | cons c as ih => simp [payloadRequests, ih, after]

section

variable {b : Broker} {x : PeerId}

theorem payloadRequest?_of_none (hx : b.listener? x = none) (a : Action) :
    b.payloadRequest? x a = none := by
  have hpeer : b.peer? x = none := Option.map_eq_none_iff.1 hx
  unfold payloadRequest?
  split <;> simp [hpeer]

theorem follows_heed {l : Listener} {rs : List PayloadRequest} (h : l.Follows rs) (a : Action)
    (hx : (b.listener? x).isSome) :
    (b.heed x a l).Follows (rs ++ (b.payloadRequest? x a).toList) := by
  have hpeer : (b.peer? x).isSome := by simpa [listener?] using hx
  cases a with
  | route origin m =>
    cases hp : b.peer? origin with
    | none =>
      have hne : origin ≠ x := by
        rintro rfl
        simp [hp] at hpeer
      have hnone : b.payloadRequest? x (.route origin m) = none := by
        cases m <;> simp [payloadRequest?, hne]
      simpa [heed, hp, hnone] using h
    | some p =>
      obtain rfl := b.id_of_peer? origin hp
      simp only [heed, hp, Option.map_some, Option.getD_some]
      cases m with
      | discover r =>
        simp only [Listener.heed, payloadRequest?, Option.toList_none, List.append_nil]
        split
        · exact h.listen r
        · exact h
      | payloads r =>
        by_cases hx : x = p.id
        · subst hx
          simpa [Listener.heed, payloadRequest?, hp] using h.setPolicy r
        · have hne : ¬p.id = x := fun h => hx h.symm
          simpa [Listener.heed, payloadRequest?, hx, hne] using h
      | remove r =>
        simp only [Listener.heed, payloadRequest?, Option.toList_none, List.append_nil]
        split
        · exact h
        · exact h.prune r.device r.name
      | _ => simpa [Listener.heed, payloadRequest?] using h
  | deregister now id =>
    have hkept : (b.heed x (.deregister now id) l).Follows rs := ⟨h.general, h.own⟩
    simpa [payloadRequest?] using hkept
  | _ => simpa [heed, payloadRequest?] using h

variable (hb : b.Wf)

include hb

theorem Wf.listener?_of_lastId_lt (h : b.lastId < x) : b.listener? x = none := by
  rw [listener?, hb.peer?_of_lastId_lt h, Option.map_none]

theorem Wf.payloadRequests_of_lastId_lt {as : List Action} (h : (b.after as).lastId < x) :
    b.payloadRequests x as = [] := by
  induction as using List.reverseRecOn with
  | nil => rfl
  | append_singleton as a ih =>
    rw [after_append, after_singleton] at h
    have hbefore : (b.after as).lastId < x := Nat.lt_of_le_of_lt (lastId_le_act _ a) h
    rw [payloadRequests_concat, ih hbefore,
      payloadRequest?_of_none ((hb.after as).listener?_of_lastId_lt hbefore)]
    rfl

theorem Wf.follows_payloadRequests (hx : b.listener? x = none) {as : List Action} {l : Listener}
    (hl : (b.after as).listener? x = some l) : l.Follows (b.payloadRequests x as) := by
  induction as using List.reverseRecOn generalizing l with
  | nil => simp [hx] at hl
  | append_singleton as a ih =>
    rw [after_append, after_singleton] at hl
    rw [payloadRequests_concat]
    obtain ⟨k, hk, rfl⟩ | ⟨hnone, hnew, rfl⟩ := listener?_act _ x (hb.after as) hl
    · exact follows_heed (ih hk) a (by simp [hk])
    · rw [hb.payloadRequests_of_lastId_lt hnew, payloadRequest?_of_none hnone]
      exact .empty

end

section

variable {b : Broker} {x : PeerId} {u : Update}

theorem not_mem_deliver {m : Message} {wants : Peer → Bool} (hm : m ≠ .update u) :
    .queue x (.update u) ∉ b.deliver m wants := by
  rw [mem_deliver]
  rintro ⟨p, -, -, he⟩
  cases he
  exact hm rfl

theorem not_mem_dropDevices (origin : PeerId) (timestamp : String) (devices : List String) :
    .queue x (.update u) ∉ (b.dropDevices origin timestamp devices).2 := by
  induction devices generalizing b with
  | nil => simp [dropDevices]
  | cons device devices ih =>
    simp only [dropDevices, List.mem_append, not_or]
    exact ⟨not_mem_deliver (by simp), ih⟩

theorem mem_of_queued {a : Action} (h : .queue x (.update u) ∈ (b.act a).2) :
    ∃ origin, .queue x (.update u) ∈ (b.learn origin u.device).fanOut origin (.update u)
      (·.hearsProperty u.device u.name) := by
  cases a with
  | accept address =>
    simp only [act, accept] at h
    split at h
    · simp at h
    · split at h <;> simp at h
  | register kind ids =>
    simp only [act, register] at h
    split at h <;> simp at h
  | claim ids => simp [act] at h
  | release ids => simp [act] at h
  | route origin m =>
    simp only [act, route] at h
    split at h
    · rename_i p hp
      cases m with
      | discover r =>
        simp only [routeFrom] at h
        split at h
        · simp at h
        · exact absurd h (not_mem_deliver (by simp))
      | change r =>
        simp only [routeFrom, routeChange] at h
        split at h <;> simp at h
      | payloads r => simp [routeFrom] at h
      | define d =>
        simp only [routeFrom] at h
        split at h
        · simp at h
        · exact absurd h (not_mem_deliver (by simp))
      | update v =>
        simp only [routeFrom] at h
        split at h
        · simp at h
        · obtain ⟨q, -, -, he⟩ := mem_deliver.1 h
          cases he
          exact ⟨p.id, h⟩
      | notify n =>
        simp only [routeFrom, routeNotice] at h
        split at h
        · simp at h
        · split at h <;> exact absurd h (not_mem_deliver (by simp))
      | remove r =>
        simp only [routeFrom, routeRemoval] at h
        split at h
        · simp at h
        · split at h <;> exact absurd h (not_mem_deliver (by simp))
    · simp at h
  | deregister now id =>
    simp only [act, deregister] at h
    split at h
    · simp at h
    · split at h
      · simp at h
      · simp [not_mem_dropDevices] at h
  | unload identifier => simp [act, unload] at h
  | shutdown => simp [act, shutdown] at h

theorem Wf.admits_of_queued (hb : b.Wf) {a : Action} (h : .queue x (.update u) ∈ (b.act a).2) :
    ∃ l, b.listener? x = some l ∧ l.admits (.update u) = true := by
  obtain ⟨origin, h⟩ := mem_of_queued h
  obtain ⟨p, hmem, hwants, he⟩ := mem_deliver.1 h
  cases he
  have hp : (b.learn origin u.device).peer? p.id = some p :=
    (hb.learn origin u.device).peer?_eq_some_iff.2 ⟨hmem, rfl⟩
  refine ⟨p.listener, ?_, ?_⟩
  · rw [← listener?_learn b p.id origin u.device, listener?, hp, Option.map_some]
  · simp only [Bool.and_eq_true] at hwants
    exact hwants.2

end

/-- Whatever payload requests a fresh listener takes, the last one for a property or its whole
device rules the property, else the last one without a device. In any run, payload updates are
queued for no peer whose requests since it came leave the property without payloads. -/
theorem last_request_rules :
    (∀ rs device name, (rs.foldl Listener.setPolicy .empty).policyOf device (some name) =
      policyBy rs device name) ∧
    ∀ (policies : List AcceptPolicy) (startedAt : Time.Millis) (as : List Action) (a : Action)
      (x : PeerId) (u : Update), u.kind = .blob →
      .queue x (.update u) ∈ (((ofPolicies policies startedAt).after as).act a).2 →
      policyBy ((ofPolicies policies startedAt).payloadRequests x as) u.device u.name ≠ .never := by
  constructor
  · intro rs device name
    exact (Listener.Follows.empty.foldl rs).policyOf device name
  · intro policies startedAt as a x u hblob hqueued
    have hstart : (ofPolicies policies startedAt).Wf := .ofPolicies policies startedAt
    obtain ⟨l, hl, hadmits⟩ := (hstart.after as).admits_of_queued hqueued
    have hpolicy := (hstart.follows_payloadRequests rfl hl).policyOf u.device u.name
    have hreported : (Message.update u).reported? = some u.device := rfl
    rw [Listener.admits_iff hreported] at hadmits
    rw [← hpolicy]
    simpa [Message.carriesBlob, Message.property, hblob] using hadmits

def imageRun : List Action :=
  [.register .builtin ["camera"], .accept ⟨.v4 127 0 0 1, 50000⟩,
    .route 2 (.discover (.ofDevice "Camera")), .route 2 (.payloads ⟨none, none, .never⟩),
    .route 2 (.payloads ⟨some "Camera", none, .also⟩)]

theorem image_reaches_client :
    let image := Update.mk .blob "Camera" "IMAGE" none none none none []
    let sent := (((ofPolicies [] 0).after imageRun).act (.route 1 (.update image))).2
    .queue 2 (.update image) ∈ sent ∧
      policyBy ((ofPolicies [] 0).payloadRequests 2 imageRun) "Camera" "IMAGE" ≠ .never := by
  intro image sent
  have hqueued : .queue 2 (.update image) ∈ sent := by decide
  exact ⟨hqueued, last_request_rules.2 [] 0 imageRun (.route 1 (.update image)) 2 image rfl hqueued⟩

end Broker
end InstrumentBus
