import InstrumentBus.Proofs.Broker.Delivery
import InstrumentBus.Proofs.Broker.Roster
import Mathlib.Data.List.Find

/-!
What a client notices of a broker: itself and the backends, all without their ids. Changes to the
peers that look the same leave the same to be noticed, and a delivery that looks the same reaches
the client in both or in neither.
-/

namespace InstrumentBus

open Effect

namespace Peer

def guise (p : Peer) : Peer := { p with id := 0 }

section

variable (p : Peer) (device : String)

@[simp] theorem guise_listener : p.guise.listener = p.listener := rfl

@[simp] theorem guise_role : p.guise.role = p.role := rfl

@[simp] theorem guise_isClient : p.guise.isClient = p.isClient := rfl

@[simp] theorem guise_names : p.guise.names = p.names := rfl

@[simp] theorem guise_announces : p.guise.announces device = p.announces device := rfl

theorem guise_mapBackend (f : Backend → Backend) :
    (p.mapBackend f).guise = p.guise.mapBackend f := by
  unfold mapBackend
  cases hrole : p.role <;> simp [guise, hrole]

theorem guise_learn : (p.learn device).guise = p.guise.learn device := p.guise_mapBackend _

theorem guise_unlearn : (p.unlearn device).guise = p.guise.unlearn device := p.guise_mapBackend _

end

theorem marks_eq {ps qs : List Peer} {o o' : PeerId} (hps : (ps.map (·.id)).Nodup)
    (hqs : (qs.map (·.id)).Nodup) (hguises : ps.map guise = qs.map guise)
    (hplace : ps.findIdx? (·.id == o) = qs.findIdx? (·.id == o')) :
    (ps.map fun p => (p.guise, p.id == o)) = qs.map fun q => (q.guise, q.id == o') := by
  induction ps generalizing qs with
  | nil => simp_all
  | cons p ps ih =>
    obtain _ | ⟨q, qs⟩ := qs
    · simp at hguises
    obtain ⟨hp, hps⟩ := List.nodup_cons.1 hps
    obtain ⟨hq, hqs⟩ := List.nodup_cons.1 hqs
    obtain ⟨hguise, hguises⟩ := List.cons_eq_cons.1 hguises
    have unmarked {r : Peer} {rs : List Peer} {i : PeerId} (hr : r.id ∉ rs.map (·.id))
        (hi : r.id = i) : rs.findIdx? (·.id == i) = none := by
      rw [List.findIdx?_eq_none_iff]
      intro s hs
      have hne : s.id ≠ i := fun h => hr (List.mem_map.2 ⟨s, hs, h.trans hi.symm⟩)
      simpa using hne
    rw [List.findIdx?_cons, List.findIdx?_cons] at hplace
    by_cases hpo : p.id = o
    · by_cases hqo : q.id = o'
      · have hrest := ih hps hqs hguises ((unmarked hp hpo).trans (unmarked hq hqo).symm)
        simp [hpo, hqo, hguise, hrest]
      · cases hfound : qs.findIdx? (·.id == o') <;> simp [hpo, hqo, hfound] at hplace
    · by_cases hqo : q.id = o'
      · cases hfound : ps.findIdx? (·.id == o) <;> simp [hpo, hqo, hfound] at hplace
      · have hplace : (ps.findIdx? (·.id == o)).map (· + 1) =
            (qs.findIdx? (·.id == o')).map (· + 1) := by simpa [hpo, hqo] using hplace
        have hrest := ih hps hqs hguises
          (Option.map_injective (fun _ _ => Nat.succ.inj) hplace)
        simp [hpo, hqo, hguise, hrest]

end Peer

namespace Broker

/-- The peers that a client `x` can notice: itself and the backends. -/
def company (b : Broker) (x : PeerId) : List Peer :=
  b.peers.filter fun p => p.id == x || !p.isClient

def place? (b : Broker) (x id : PeerId) : Option Nat := (b.company x).findIdx? (·.id == id)

def Spares (b : Broker) (x : PeerId) : Prop := ∀ ids, (x, ids) ∉ b.roster

def guises (b : Broker) (x : PeerId) : List Peer := (b.company x).map Peer.guise

/-- What the client `x` notices of the one broker is what `y` notices of the other. -/
structure Alike (x y : PeerId) (b c : Broker) : Prop where
  guises : b.guises x = c.guises y
  isShutDown : b.isShutDown = c.isShutDown

section

variable {b c : Broker} {x y : PeerId}

theorem LoadsNothing.spares (h : LoadsNothing b c) (hx : b.Spares x) : c.Spares x :=
  fun ids hmem => hx ids (h.roster.subset hmem)

theorem Spares.isClient (hx : b.Spares x) {p : Peer} (hp : p ∈ b.peers) (hid : p.id = x) :
    p.isClient = true := by
  by_contra hbackend
  exact hx p.identifiers (mem_roster.2 ⟨p, hp, by simpa using hbackend, hid, rfl⟩)

theorem Spares.ne_of_backend (hx : b.Spares x) {p : Peer} (hp : p ∈ b.peers)
    (hbackend : p.isClient = false) : x ≠ p.id := by
  rintro rfl
  simp [hx.isClient hp rfl] at hbackend

theorem Wf.nodup_company (hb : b.Wf) (x : PeerId) : ((b.company x).map (·.id)).Nodup := by
  rw [List.Nodup, List.pairwise_map]
  exact (hb.ordered.sublist List.filter_sublist).imp Nat.ne_of_lt

theorem mem_company {p : Peer} :
    p ∈ b.company x ↔ p ∈ b.peers ∧ (p.id = x ∨ p.isClient = false) := by
  simp [company]

theorem Wf.exists_of_place? (hb : b.Wf) {o : PeerId} {k : Nat} (hk : b.place? x o = some k) :
    ∃ p, b.peer? o = some p ∧ p ∈ b.company x := by
  obtain ⟨hlt, hid, -⟩ := List.findIdx?_eq_some_iff_getElem.1 hk
  have hmem : (b.company x)[k] ∈ b.company x := List.getElem_mem hlt
  exact ⟨_, hb.peer?_eq_some_iff.2 ⟨(mem_company.1 hmem).1, by simpa using hid⟩, hmem⟩

theorem isClient_of_place? {o : PeerId} {p : Peer} (hp : b.peer? o = some p)
    (hnone : b.place? x o = none) : p.isClient = true ∧ p.id ≠ x := by
  have hid : p.id = o := b.id_of_peer? o hp
  have hout : p ∉ b.company x := by
    intro hmem
    have := List.findIdx?_eq_none_iff.1 hnone p hmem
    simp [hid] at this
  rw [mem_company, not_and, not_or] at hout
  obtain ⟨hx, hclient⟩ := hout (b.mem_of_peer? o hp)
  exact ⟨by simpa using hclient, hx⟩

theorem company_mapPeers {f : Peer → Peer} (hid : ∀ p, (f p).id = p.id)
    (hclient : ∀ p, (f p).isClient = p.isClient) :
    (b.mapPeers f).company x = (b.company x).map f := by
  simp only [company, mapPeers, List.filter_map, Function.comp_def, hid, hclient]

theorem guises_mapPeers {f : Peer → Peer} (hid : ∀ p, (f p).id = p.id)
    (hclient : ∀ p, (f p).isClient = p.isClient) (hguise : ∀ p, (f p).guise = f p.guise) :
    (b.mapPeers f).guises x = (b.guises x).map f := by
  rw [guises, company_mapPeers hid hclient, guises, List.map_map, List.map_map]
  exact List.map_congr_left fun p _ => hguise p

theorem guises_mapPeer_of_none {o : PeerId} (hnone : b.place? x o = none) {f : Peer → Peer}
    (hid : ∀ p, (f p).id = p.id) (hclient : ∀ p, (f p).isClient = p.isClient) :
    (b.mapPeer o f).guises x = b.guises x := by
  have hcompany : (b.mapPeer o f).company x =
      (b.company x).map fun p => if p.id = o then f p else p := by
    rw [mapPeer_eq_mapPeers]
    apply company_mapPeers <;> intro p <;> split <;> simp [hid, hclient]
  rw [guises, hcompany, guises, List.map_map]
  apply List.map_congr_left
  intro p hp
  have hpo : p.id ≠ o := by simpa using List.findIdx?_eq_none_iff.1 hnone p hp
  simp [hpo]

theorem guises_filter (keeps : Peer → Bool) :
    ({ b with peers := b.peers.filter keeps } : Broker).guises x =
      ((b.company x).filter keeps).map Peer.guise := by
  simp only [guises, company, List.filter_filter, Bool.and_comm]

theorem guises_addPeer (role : Role) :
    (b.addPeer role).1.guises x =
      b.guises x ++ if b.lastId + 1 = x ∨ role ≠ .client then [⟨0, .empty, role⟩] else [] := by
  cases role with
  | client =>
    by_cases h : b.lastId + 1 = x <;>
      simp [guises, company, addPeer, List.filter_append, Peer.isClient, Peer.backend?, h,
        Peer.guise]
  | backend d =>
    simp [guises, company, addPeer, List.filter_append, Peer.isClient, Peer.backend?, Peer.guise]

theorem Spares.listener?_eq (hx : b.Spares x) :
    b.listener? x = ((b.guises x).find? (·.isClient)).map (·.listener) := by
  rw [guises, List.find?_map, Option.map_map, company, List.find?_filter, listener?, peer?]
  congr 1
  apply List.find?_congr
  intro p hp
  rw [Bool.eq_iff_iff]
  by_cases hid : p.id = x
  · simp [hid, hx.isClient hp hid]
  · simp [hid]

theorem isSome_ownerOf? (b : Broker) (x : PeerId) (device : String) :
    (b.ownerOf? device).isSome = (b.guises x).any (·.announces device) := by
  rw [ownerOf?, Option.isSome_map, List.isSome_find?, guises, List.any_map, company,
    List.any_filter, Bool.eq_iff_iff, List.any_eq_true, List.any_eq_true]
  refine exists_congr fun p => and_congr_right fun _ => ?_
  rw [Function.comp_apply, Peer.guise_announces, Bool.and_eq_true, Peer.announces_iff]
  refine ⟨fun h => ⟨?_, h⟩, And.right⟩
  simp [Peer.isClient_of_mem_names h]

end

namespace Alike

variable {b c : Broker} {x y o o' : PeerId}

section

variable (h : Alike x y b c)

include h

theorem mapPeers {f : Peer → Peer} (hid : ∀ p, (f p).id = p.id)
    (hclient : ∀ p, (f p).isClient = p.isClient) (hguise : ∀ p, (f p).guise = f p.guise) :
    Alike x y (b.mapPeers f) (c.mapPeers f) := by
  refine ⟨?_, h.isShutDown⟩
  rw [guises_mapPeers hid hclient hguise, guises_mapPeers hid hclient hguise, h.guises]

theorem prune (device : String) (name : Option String) :
    Alike x y (b.prune device name) (c.prune device name) :=
  h.mapPeers (fun _ => rfl) (fun _ => rfl) fun _ => rfl

theorem listener? (hx : b.Spares x) (hy : c.Spares y) : b.listener? x = c.listener? y := by
  rw [hx.listener?_eq, hy.listener?_eq, h.guises]

theorem addPeer (role : Role) (hnew : b.lastId + 1 = x ↔ c.lastId + 1 = y) :
    Alike x y (b.addPeer role).1 (c.addPeer role).1 := by
  refine ⟨?_, h.isShutDown⟩
  simp only [guises_addPeer, h.guises, hnew]

section

variable (hb : b.Wf) (hc : c.Wf) (hplace : b.place? x o = c.place? y o')

include hb hc hplace

theorem marks :
    (b.company x).map (fun p => (p.guise, p.id == o)) =
      (c.company y).map fun q => (q.guise, q.id == o') :=
  Peer.marks_eq (hb.nodup_company x) (hc.nodup_company y) h.guises hplace

theorem mapPeer {f : Peer → Peer} (hid : ∀ p, (f p).id = p.id)
    (hclient : ∀ p, (f p).isClient = p.isClient) (hguise : ∀ p, (f p).guise = f p.guise) :
    Alike x y (b.mapPeer o f) (c.mapPeer o' f) := by
  have changed (b : Broker) (x o : PeerId) : (b.mapPeer o f).guises x =
      ((b.company x).map fun p => (p.guise, p.id == o)).map fun m =>
        if m.2 then f m.1 else m.1 := by
    rw [Broker.guises, mapPeer_eq_mapPeers, company_mapPeers, List.map_map, List.map_map]
    · apply List.map_congr_left
      intro p _
      by_cases hpo : p.id = o <;> simp [hpo, hguise]
    · intro p
      split <;> simp [hid]
    · intro p
      split <;> simp [hclient]
  refine ⟨?_, h.isShutDown⟩
  rw [changed, changed, h.marks hb hc hplace]

theorem guise_eq {p q : Peer} (hp : b.peer? o = some p) (hpmem : p ∈ b.company x)
    (hq : c.peer? o' = some q) : p.guise = q.guise := by
  have hmarked : (p.guise, true) ∈ (c.company y).map fun q => (q.guise, q.id == o') := by
    rw [← h.marks hb hc hplace, List.mem_map]
    exact ⟨p, hpmem, by simp [b.id_of_peer? o hp]⟩
  obtain ⟨r, hr, hmark⟩ := List.mem_map.1 hmarked
  obtain ⟨hguise, hid⟩ := Prod.mk.inj hmark
  have hrq : c.peer? o' = some r :=
    hc.peer?_eq_some_iff.2 ⟨(mem_company.1 hr).1, by simpa using hid⟩
  cases hq.symm.trans hrq
  exact hguise.symm

theorem filter :
    Alike x y { b with peers := b.peers.filter (·.id != o) }
      { c with peers := c.peers.filter (·.id != o') } := by
  have left (b : Broker) (x o : PeerId) :
      ((b.company x).filter (·.id != o)).map Peer.guise =
        (((b.company x).map fun p => (p.guise, p.id == o)).filter (!·.2)).map (·.1) := by
    rw [List.filter_map, List.map_map]
    rfl
  refine ⟨?_, h.isShutDown⟩
  rw [guises_filter, guises_filter, left, left, h.marks hb hc hplace]

theorem learn (device : String) : Alike x y (b.learn o device) (c.learn o' device) := by
  unfold Broker.learn
  rw [isSome_ownerOf? b x, isSome_ownerOf? c y, h.guises]
  split
  · exact h
  · exact h.mapPeer hb hc hplace (Peer.learn_id · device) (Peer.learn_isClient · device)
      (Peer.guise_learn · device)

end

section

variable (hb : b.Wf) (hc : c.Wf) (hx : b.Spares x) (hy : c.Spares y)

include hb hc hx hy

theorem queuedFor_deliver (m : Message) {wants wants' : Peer → Bool}
    (hwants : ∀ p q : Peer, p.id = x → q.id = y → p.isClient = true → q.isClient = true →
      p.listener = q.listener → wants p = wants' q) :
    queuedFor x (b.deliver m wants) = queuedFor y (c.deliver m wants') := by
  have hlistener := h.listener? hx hy
  rw [hb.queuedFor_deliver, hc.queuedFor_deliver]
  unfold Broker.listener? at hlistener
  cases hp : b.peer? x with
  | none =>
    rw [hp, Option.map_none, eq_comm, Option.map_eq_none_iff] at hlistener
    rw [hlistener]
    rfl
  | some p =>
    rw [hp, Option.map_some, eq_comm, Option.map_eq_some_iff] at hlistener
    obtain ⟨q, hq, hsame⟩ := hlistener
    have hpx := b.id_of_peer? x hp
    have hqy := c.id_of_peer? y hq
    rw [hq, Option.any_some, Option.any_some, hwants p q hpx hqy
      (hx.isClient (b.mem_of_peer? x hp) hpx) (hy.isClient (c.mem_of_peer? y hq) hqy) hsame.symm]

theorem queuedFor_fanOut (hxo : x ≠ o) (hyo : y ≠ o') (m : Message) (wants : Listener → Bool) :
    queuedFor x (b.fanOut o m wants) = queuedFor y (c.fanOut o' m wants) := by
  apply h.queuedFor_deliver hb hc hx hy
  rintro p q rfl rfl - - hsame
  rw [bne_iff_ne.2 hxo, bne_iff_ne.2 hyo, hsame]

theorem dropDevice (hxo : x ≠ o) (hyo : y ≠ o') (r : Removal) :
    Alike x y (b.dropDevice o r).1 (c.dropDevice o' r).1 ∧
      queuedFor x (b.dropDevice o r).2 = queuedFor y (c.dropDevice o' r).2 := by
  have hunlearned := h.mapPeers (Peer.unlearn_id · r.device) (Peer.unlearn_isClient · r.device)
    (Peer.guise_unlearn · r.device)
  have hqueued := h.queuedFor_fanOut hb hc hx hy hxo hyo (.remove r) (·.hearsAnyOf r.device)
  exact ⟨hunlearned.prune r.device none, hqueued⟩

theorem dropDevices (hxo : x ≠ o) (hyo : y ≠ o') (timestamp : String) (devices : List String) :
    Alike x y (b.dropDevices o timestamp devices).1 (c.dropDevices o' timestamp devices).1 ∧
      queuedFor x (b.dropDevices o timestamp devices).2 =
        queuedFor y (c.dropDevices o' timestamp devices).2 := by
  induction devices generalizing b c with
  | nil => exact ⟨h, rfl⟩
  | cons device devices ih =>
    let r := { Removal.ofDevice device with timestamp := some timestamp }
    obtain ⟨hfirst, hqueued⟩ := h.dropDevice hb hc hx hy hxo hyo r
    obtain ⟨hrest, hothers⟩ := ih hfirst (hb.dropDevice o r) (hc.dropDevice o' r)
      ((Retains.dropDevice o r).loadsNothing.spares hx)
      ((Retains.dropDevice o' r).loadsNothing.spares hy)
    refine ⟨hrest, ?_⟩
    simp only [Broker.dropDevices, queuedFor_append]
    rw [hqueued, hothers]

end

end

end Alike

end Broker
end InstrumentBus
