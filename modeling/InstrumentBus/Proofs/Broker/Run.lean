import InstrumentBus.Proofs.Broker.Retained
import Mathlib.Data.List.Flatten
import Mathlib.Data.List.Pairwise

/-!
Runs of a broker: what can happen to it, and what holds after any number of such steps. Ids grow
and are never given twice, and no device is announced by two peers.
-/

namespace InstrumentBus

inductive Action
  | accept (address : Network.Endpoint) : Action
  | register (kind : DriverKind) (identifiers : List String) : Action
  | claim (identifiers : List String) : Action
  | release (identifiers : List String) : Action
  | route (origin : PeerId) (message : Message) : Action
  | deregister (now : Time.Millis) (peer : PeerId) : Action
  | unload (identifier : String) : Action
  | shutdown : Action

namespace Broker

def act (b : Broker) : Action → Broker × List Effect
  | .accept address => ((b.accept address).1, (b.accept address).2.2)
  | .register kind identifiers =>
    ((b.register kind identifiers).1, (b.register kind identifiers).2.2)
  | .claim identifiers => ((b.claim identifiers).toOption.getD b, [])
  | .release identifiers => (b.release identifiers, [])
  | .route origin message => b.route origin message
  | .deregister now peer => b.deregister now peer
  | .unload identifier => (b, b.unload identifier)
  | .shutdown => b.shutdown

def after (b : Broker) (as : List Action) : Broker := as.foldl (fun b a => (b.act a).1) b

@[simp] theorem after_nil (b : Broker) : b.after [] = b := rfl

@[simp] theorem after_append (b : Broker) (as cs : List Action) :
    b.after (as ++ cs) = (b.after as).after cs := List.foldl_append

@[simp] theorem after_singleton (b : Broker) (a : Action) : b.after [a] = (b.act a).1 := rfl

structure Wf (b : Broker) : Prop where
  ordered : b.peers.Pairwise (·.id < ·.id)
  bounded : ∀ p ∈ b.peers, p.id ≤ b.lastId
  names : b.names.Nodup

theorem Wf.ofPolicies (policies : List AcceptPolicy) (startedAt : Time.Millis) :
    (Broker.ofPolicies policies startedAt).Wf :=
  ⟨.nil, by simp [Broker.ofPolicies], by simp [Broker.names, Broker.ofPolicies]⟩

section

variable {b : Broker} (h : b.Wf)

include h

theorem Wf.peer?_eq_some_iff {x : PeerId} {p : Peer} :
    b.peer? x = some p ↔ p ∈ b.peers ∧ p.id = x := by
  constructor
  · intro hp
    exact ⟨b.mem_of_peer? x hp, b.id_of_peer? x hp⟩
  · rintro ⟨hp, rfl⟩
    obtain ⟨q, hq⟩ : ∃ q, b.peer? p.id = some q := by
      rw [← Option.isSome_iff_exists, peer?, List.find?_isSome]
      exact ⟨p, hp, by simp⟩
    have hid := b.id_of_peer? _ hq
    have hmem := b.mem_of_peer? _ hq
    have inj : (b.peers.map (·.id)).Nodup := by
      rw [List.Nodup, List.pairwise_map]
      exact h.ordered.imp Nat.ne_of_lt
    rw [hq, List.inj_on_of_nodup_map inj hmem hp hid]

theorem Wf.peer?_of_lastId_lt {x : PeerId} (hnew : b.lastId < x) : b.peer? x = none := by
  rw [Option.eq_none_iff_forall_ne_some]
  intro p hp
  obtain ⟨hmem, rfl⟩ := h.peer?_eq_some_iff.1 hp
  exact Nat.not_lt_of_le (h.bounded p hmem) hnew

theorem Wf.owns_iff {owner : PeerId} {device : String} :
    b.Owns owner device ↔ ∃ p, b.peer? owner = some p ∧ device ∈ p.names := by
  simp only [Owns, h.peer?_eq_some_iff, and_assoc]

theorem Wf.owns_unique {device : String} {p q : Peer} (hp : p ∈ b.peers) (hq : q ∈ b.peers)
    (hpd : device ∈ p.names) (hqd : device ∈ q.names) : p = q := by
  by_contra hne
  have hdisjoint := (List.nodup_flatMap.1 h.names).2
  have hsymm : Std.Symm (Function.onFun List.Disjoint Peer.names) :=
    ⟨fun _ _ h _ hq hp => h hp hq⟩
  exact hdisjoint.forall hp hq hne hpd hqd

theorem Wf.ownerOf?_eq_some_iff {device : String} {owner : PeerId} :
    b.ownerOf? device = some owner ↔ b.Owns owner device := by
  simp only [ownerOf?, Option.map_eq_some_iff]
  constructor
  · rintro ⟨p, hp, rfl⟩
    have hd : p.announces device = true := by simpa using List.find?_some hp
    exact ⟨p, List.mem_of_find?_eq_some hp, rfl, (p.announces_iff device).1 hd⟩
  · rintro ⟨p, hp, rfl, hd⟩
    obtain ⟨q, hq⟩ : ∃ q, b.peers.find? (·.announces device) = some q := by
      rw [← Option.isSome_iff_exists, List.find?_isSome]
      exact ⟨p, hp, (p.announces_iff device).2 hd⟩
    have hqd : q.announces device = true := by simpa using List.find?_some hq
    exact ⟨q, hq, congrArg Peer.id
      (h.owns_unique (List.mem_of_find?_eq_some hq) hp ((q.announces_iff device).1 hqd) hd)⟩

end

theorem ownerOf?_eq_none_iff {b : Broker} {device : String} :
    b.ownerOf? device = none ↔ device ∉ b.names := by
  simp [ownerOf?, names, Peer.announces]

section

variable {b : Broker} (h : b.Wf)

include h

theorem Wf.of_sublist {c : Broker} (hpeers : c.peers.Sublist b.peers) (hlast : c.lastId = b.lastId) :
    c.Wf where
  ordered := h.ordered.sublist hpeers
  bounded p hp := hlast ▸ h.bounded p (hpeers.subset hp)
  names := h.names.sublist (hpeers.flatMap _)

theorem Wf.mapPeers {f : Peer → Peer} (hid : ∀ p, (f p).id = p.id)
    (hnames : ∀ p, (f p).names.Sublist p.names) : (b.mapPeers f).Wf where
  ordered := by simpa [Broker.mapPeers, List.pairwise_map, hid] using h.ordered
  bounded := by simpa [Broker.mapPeers, hid] using h.bounded
  names := by
    simp only [Broker.names, Broker.mapPeers, List.flatMap_map]
    exact h.names.sublist (List.Sublist.flatMap_right _ fun p _ => hnames p)

theorem Wf.mapListener (id : PeerId) (f : Listener → Listener) :
    (b.mapPeer id (·.mapListener f)).Wf := by
  apply h.mapPeers <;> intro p <;> dsimp only <;> split <;> simp

theorem Wf.prune (device : String) (name : Option String) : (b.prune device name).Wf :=
  h.mapPeers (fun _ => rfl) fun _ => .refl _

theorem Wf.dropDevice (origin : PeerId) (removal : Removal) :
    (b.dropDevice origin removal).1.Wf := by
  apply Wf.prune
  apply h.mapPeers
  · intro p
    simp
  · intro p
    simp

theorem Wf.dropDevices (origin : PeerId) (timestamp : String) (devices : List String) :
    (b.dropDevices origin timestamp devices).1.Wf := by
  induction devices generalizing b with
  | nil => exact h
  | cons device devices ih => exact ih (h.dropDevice origin _)

theorem Wf.learn (origin : PeerId) (device : String) : (b.learn origin device).Wf := by
  unfold Broker.learn
  split
  · exact h
  rename_i hfree
  have hfree : device ∉ b.names := ownerOf?_eq_none_iff.1 (by simpa using hfree)
  have hfree (p : Peer) (hp : p ∈ b.peers) : device ∉ p.names := fun hd =>
    hfree (List.mem_flatMap.2 ⟨p, hp, hd⟩)
  have hid (p : Peer) : (if p.id = origin then p.learn device else p).id = p.id := by
    split <;> simp
  have hmem (p : Peer) (d : String) (hd : d ∈ (if p.id = origin then p.learn device else p).names) :
      d ∈ p.names ∨ d = device ∧ p.id = origin := by
    split at hd
    · rw [Peer.names_learn] at hd
      split at hd <;> simp_all
    · exact .inl hd
  obtain ⟨hnodup, hdisjoint⟩ := List.nodup_flatMap.1 h.names
  refine ⟨?_, ?_, ?_⟩
  · simpa [mapPeer, List.pairwise_map, hid] using h.ordered
  · simpa [mapPeer, hid] using h.bounded
  simp only [Broker.names, mapPeer, List.flatMap_map]
  refine List.nodup_flatMap.2 ⟨?_, ?_⟩
  · intro p hp
    split
    · rw [Peer.names_learn]
      split
      · exact hnodup p hp
      · simpa using (hnodup p hp).concat (hfree p hp)
    · exact hnodup p hp
  · refine (h.ordered.and hdisjoint).imp_of_mem ?_
    rintro p q hp hq ⟨hlt, hpq⟩ d hdp hdq
    have hlt : p.id < q.id := hlt
    obtain hp' | ⟨hd, hpo⟩ := hmem p d hdp
    · obtain hq' | ⟨hd, -⟩ := hmem q d hdq
      · exact hpq hp' hq'
      · exact hfree p hp (hd ▸ hp')
    · obtain hq' | ⟨-, hqo⟩ := hmem q d hdq
      · exact hfree q hq (hd ▸ hq')
      · exact Nat.ne_of_lt hlt (hpo.trans hqo.symm)

theorem Wf.addPeer (role : Role) (hrole : ∀ d, role = .backend d → d.names = []) :
    (b.addPeer role).1.Wf := by
  have hnames : (Peer.mk (b.lastId + 1) .empty role).names = [] := by
    cases role with
    | client => rfl
    | backend d => exact hrole d rfl
  refine ⟨?_, ?_, ?_⟩
  · simp only [Broker.addPeer, List.pairwise_append, List.pairwise_singleton, List.mem_singleton]
    exact ⟨h.ordered, trivial, fun p hp q hq => hq ▸ Nat.lt_succ_of_le (h.bounded p hp)⟩
  · simp only [Broker.addPeer, List.mem_append, List.mem_singleton]
    rintro p (hp | rfl)
    · exact Nat.le_succ_of_le (h.bounded p hp)
    · exact Nat.le_refl _
  · simpa [Broker.names, Broker.addPeer, hnames] using h.names

theorem Wf.routeFrom (p : Peer) (m : Message) : (b.routeFrom p m).1.Wf := by
  cases m with
  | discover request =>
    simp only [Broker.routeFrom]
    split
    · exact h
    · exact h.mapListener ..
  | change request => exact h
  | payloads request => exact h.mapListener ..
  | define d =>
    simp only [Broker.routeFrom]
    split
    · exact h
    · exact h.learn ..
  | update u =>
    simp only [Broker.routeFrom]
    split
    · exact h
    · exact h.learn ..
  | notify n =>
    simp only [Broker.routeFrom, routeNotice]
    split
    · exact h
    · cases n.device with
      | none => exact h
      | some device => exact h.learn ..
  | remove r =>
    simp only [Broker.routeFrom, routeRemoval]
    split
    · exact h
    · cases r.name with
      | none => exact h.dropDevice ..
      | some name => exact h.prune ..

theorem Wf.deregister (now : Time.Millis) (id : PeerId) : (b.deregister now id).1.Wf := by
  have hrest : ({ b with peers := b.peers.filter (·.id != id) } : Broker).Wf :=
    h.of_sublist List.filter_sublist rfl
  unfold Broker.deregister
  split
  · exact h
  · dsimp only
    split
    · exact hrest
    · exact hrest.dropDevices ..

theorem Wf.act (a : Action) : (b.act a).1.Wf := by
  cases a with
  | accept address =>
    simp only [Broker.act, Broker.accept]
    split
    · exact h
    · split
      · exact h
      · exact h.addPeer _ (by simp)
  | register kind identifiers =>
    simp only [Broker.act, Broker.register]
    split
    · exact h
    · exact h.addPeer _ (by rintro d ⟨⟩; rfl)
  | claim identifiers =>
    simp only [Broker.act, Broker.claim]
    split
    · exact h
    · exact h.of_sublist (.refl _) rfl
  | release identifiers => exact h.of_sublist (.refl _) rfl
  | route origin m =>
    simp only [Broker.act, Broker.route]
    split
    · exact h.routeFrom ..
    · exact h
  | deregister now id => exact h.deregister now id
  | unload identifier => exact h
  | shutdown => exact h.of_sublist List.filter_sublist rfl

theorem Wf.after (as : List Action) : (b.after as).Wf := by
  induction as generalizing b with
  | nil => exact h
  | cons a as ih => exact ih (h.act a)

end

def given? (b : Broker) : Action → Option PeerId
  | .accept address => (b.accept address).2.1
  | .register kind identifiers => (b.register kind identifiers).2.1
  | _ => none

def given (b : Broker) : List Action → List PeerId
  | [] => []
  | a :: as => (b.given? a).toList ++ (b.act a).1.given as

theorem given?_cases (b : Broker) (a : Action) :
    b.given? a = none ∧ (b.act a).1.lastId = b.lastId ∨
      b.given? a = some (b.lastId + 1) ∧ (b.act a).1.lastId = b.lastId + 1 := by
  cases a with
  | accept address =>
    simp only [given?, act, accept]
    split
    · exact .inl ⟨rfl, rfl⟩
    · split
      · exact .inl ⟨rfl, rfl⟩
      · exact .inr ⟨rfl, rfl⟩
  | register kind identifiers =>
    simp only [given?, act, register]
    split
    · exact .inl ⟨rfl, rfl⟩
    · exact .inr ⟨rfl, rfl⟩
  | claim identifiers =>
    refine .inl ⟨rfl, ?_⟩
    simp only [act, claim]
    split <;> rfl
  | route origin m => exact .inl ⟨rfl, (Retains.route origin m).lastId⟩
  | deregister now x => exact .inl ⟨rfl, (Retains.deregister now x).lastId⟩
  | _ => exact .inl ⟨rfl, rfl⟩

theorem lastId_le_act (b : Broker) (a : Action) : b.lastId ≤ (b.act a).1.lastId := by
  obtain ⟨-, h⟩ | ⟨-, h⟩ := b.given?_cases a
  · exact Nat.le_of_eq h.symm
  · exact h ▸ Nat.le_succ _

theorem lastId_le_after (b : Broker) (as : List Action) : b.lastId ≤ (b.after as).lastId := by
  induction as generalizing b with
  | nil => exact Nat.le_refl _
  | cons a as ih => exact Nat.le_trans (b.lastId_le_act a) (ih (b.act a).1)

theorem eq_of_given? {b : Broker} {a : Action} {x : PeerId} (h : b.given? a = some x) :
    x = b.lastId + 1 ∧ (b.act a).1.lastId = x := by
  obtain ⟨hnone, -⟩ | ⟨hsome, hlast⟩ := b.given?_cases a
  · simp [hnone] at h
  · cases hsome.symm.trans h
    exact ⟨rfl, hlast⟩

theorem lt_of_mem_given {b : Broker} {as : List Action} {x : PeerId} (h : x ∈ b.given as) :
    b.lastId < x := by
  induction as generalizing b with
  | nil => simp [given] at h
  | cons a as ih =>
    obtain h | h := List.mem_append.1 h
    · obtain ⟨rfl, -⟩ := eq_of_given? (Option.mem_toList.1 h)
      exact Nat.lt_succ_self _
    · exact Nat.lt_of_le_of_lt (b.lastId_le_act a) (ih h)

theorem le_of_mem_given {b : Broker} {as : List Action} {x : PeerId} (h : x ∈ b.given as) :
    x ≤ b.lastId + as.length := by
  induction as generalizing b with
  | nil => simp [given] at h
  | cons a as ih =>
    have hstep : (b.act a).1.lastId ≤ b.lastId + 1 := by
      obtain ⟨-, hlast⟩ | ⟨-, hlast⟩ := b.given?_cases a
      · exact hlast ▸ Nat.le_succ _
      · exact Nat.le_of_eq hlast
    rw [List.length_cons, Nat.add_comm as.length, ← Nat.add_assoc]
    obtain h | h := List.mem_append.1 h
    · obtain ⟨rfl, -⟩ := eq_of_given? (Option.mem_toList.1 h)
      exact Nat.le_add_right _ _
    · exact Nat.le_trans (ih h) (Nat.add_le_add_right hstep _)

theorem pairwise_given (b : Broker) (as : List Action) : (b.given as).Pairwise (· < ·) := by
  induction as generalizing b with
  | nil => exact .nil
  | cons a as ih =>
    simp only [given, List.pairwise_append, Option.mem_toList]
    refine ⟨?_, ih _, ?_⟩
    · cases b.given? a <;> simp
    · intro x hx y hy
      obtain ⟨-, hlast⟩ := eq_of_given? hx
      exact hlast ▸ lt_of_mem_given hy

end Broker
end InstrumentBus
