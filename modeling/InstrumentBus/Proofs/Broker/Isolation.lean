import InstrumentBus.Proofs.Broker.Company

/-!
What a client is told does not depend on other clients. Two runs that look the same to it queue the
same messages for it, in the same order, whatever other clients do in them.
-/

namespace InstrumentBus

open Effect

namespace Broker

/-- An action as it looks to a client, who knows peers by their places and no ids. -/
inductive Glimpse
  | accept (address : Network.Endpoint) : Glimpse
  | register (kind : DriverKind) (identifiers : List String) : Glimpse
  | route (origin : Nat) (message : Message) : Glimpse
  | deregister (now : Time.Millis) (peer : Nat) : Glimpse
  | shutdown : Glimpse
deriving DecidableEq

/-- What a client `x` sees of an action: nothing if it is one of another client, or of nobody who is
registered. -/
def glimpse? (b : Broker) (x : PeerId) : Action → Option Glimpse
  | .accept address => if (b.accept address).2.1 = some x then some (.accept address) else none
  | .register kind identifiers => some (.register kind identifiers)
  | .route origin m => (b.place? x origin).map (.route · m)
  | .deregister now id => (b.place? x id).map (.deregister now)
  | .shutdown => some .shutdown
  | .claim _ | .release _ | .unload _ => none

def view (b : Broker) (x : PeerId) : List Action → List Glimpse
  | [] => []
  | a :: as => (b.glimpse? x a).toList ++ (b.act a).1.view x as

def told (b : Broker) (x : PeerId) : List Action → List Message
  | [] => []
  | a :: as => queuedFor x (b.act a).2 ++ (b.act a).1.told x as

def Admits (b : Broker) (x : PeerId) (as : List Action) : Prop :=
  ∃ pre address post, as = pre ++ .accept address :: post ∧
    ((b.after pre).accept address).2.1 = some x

section

variable {b c : Broker} {x y o o' : PeerId}

theorem queuedFor_backends (hb : b.Wf) (hx : b.Spares x) (m : Message) (wants : Peer → Bool) :
    queuedFor x (b.deliver m fun p => !p.isClient && wants p) = [] := by
  rw [hb.queuedFor_deliver, if_neg]
  rw [Option.any_eq_true]
  rintro ⟨p, hp, hwanted⟩
  simp [hx.isClient (b.mem_of_peer? x hp) (b.id_of_peer? x hp)] at hwanted

theorem queuedFor_change (hb : b.Wf) (hx : b.Spares x) (p : Peer) (request : ChangeRequest) :
    queuedFor x (b.routeChange p request) = [] := by
  unfold routeChange
  split
  · cases howner : b.ownerOf? request.device with
    | none => rfl
    | some owner =>
      obtain ⟨q, hq, rfl, hname⟩ := hb.ownerOf?_eq_some_iff.1 howner
      have hne : q.id ≠ x := (hx.ne_of_backend hq (Peer.isClient_of_mem_names hname)).symm
      simp [hne]
  · rfl

theorem spares_act (hx : b.Spares x) (a : Action)
    (hnew : ∀ kind ids, a = .register kind ids → b.isShutDown = false → b.lastId + 1 ≠ x) :
    (b.act a).1.Spares x := by
  cases hloading : a.isLoading with
  | false => exact (loadsNothing_act hloading).spares hx
  | true =>
    cases a with
    | register kind ids =>
      simp only [act, register]
      split
      · exact hx
      · rename_i hopen
        intro is hmem
        rw [roster_addPeer_backend, List.mem_append, List.mem_singleton] at hmem
        obtain hmem | hmem := hmem
        · exact hx is hmem
        · exact hnew kind ids rfl (by simpa using hopen) (congrArg Prod.fst hmem).symm
    | claim ids =>
      simp only [act, claim]
      split <;> exact hx
    | release ids => exact hx
    | _ => cases hloading

theorem routeFrom_of_none (hb : b.Wf) (hx : b.Spares x) {p : Peer} (hp : b.peer? o = some p)
    (hnone : b.place? x o = none) (m : Message) :
    Alike x x (b.routeFrom p m).1 b ∧ queuedFor x (b.routeFrom p m).2 = [] := by
  obtain ⟨hclient, -⟩ := isClient_of_place? hp hnone
  obtain rfl : p.id = o := b.id_of_peer? o hp
  have hlistener (f : Listener → Listener) : Alike x x (b.mapPeer p.id (·.mapListener f)) b :=
    ⟨guises_mapPeer_of_none hnone (fun _ => rfl) fun _ => rfl, rfl⟩
  have ignored : Alike x x b b := ⟨rfl, rfl⟩
  cases m with
  | discover r =>
    simp only [routeFrom]
    split
    · exact ⟨ignored, rfl⟩
    · refine ⟨hlistener _, ?_⟩
      simp only [routeDiscovery, Bool.and_assoc]
      exact queuedFor_backends hb hx _ _
  | change r => exact ⟨ignored, queuedFor_change hb hx p r⟩
  | payloads r => exact ⟨hlistener _, rfl⟩
  | _ =>
    simp only [routeFrom, hclient, ↓reduceIte]
    exact ⟨ignored, rfl⟩

theorem act_of_unseen (hb : b.Wf) (hx : b.Spares x) {a : Action} (ha : b.glimpse? x a = none) :
    Alike x x (b.act a).1 b ∧ queuedFor x (b.act a).2 = [] := by
  have ignored : Alike x x b b := ⟨rfl, rfl⟩
  cases a with
  | accept address =>
    simp only [glimpse?, accept] at ha
    simp only [act, accept]
    split
    · exact ⟨ignored, rfl⟩
    · rename_i hpolicies
      rw [hpolicies] at ha
      split
      · exact ⟨ignored, rfl⟩
      · rename_i hopen
        have hid : b.lastId + 1 ≠ x := by simpa [hopen, addPeer] using ha
        refine ⟨⟨?_, rfl⟩, rfl⟩
        rw [guises_addPeer, if_neg (by simp [hid]), List.append_nil]
  | register kind ids => cases ha
  | claim ids =>
    simp only [act, claim]
    split
    · exact ⟨ignored, rfl⟩
    · exact ⟨⟨rfl, rfl⟩, rfl⟩
  | release ids => exact ⟨⟨rfl, rfl⟩, rfl⟩
  | route origin m =>
    have hnone : b.place? x origin = none := by simpa [glimpse?] using ha
    simp only [act, route]
    cases hp : b.peer? origin with
    | none => exact ⟨ignored, rfl⟩
    | some p => exact routeFrom_of_none hb hx hp hnone m
  | deregister now id =>
    have hnone : b.place? x id = none := by simpa [glimpse?] using ha
    simp only [act, deregister]
    cases hp : b.peer? id with
    | none => exact ⟨ignored, rfl⟩
    | some p =>
      obtain ⟨hclient, -⟩ := isClient_of_place? hp hnone
      cases hrole : p.role with
      | backend d => simp [Peer.isClient, Peer.backend?, hrole] at hclient
      | client =>
        dsimp only
        rw [hrole]
        refine ⟨⟨?_, rfl⟩, rfl⟩
        rw [guises_filter, guises, List.filter_eq_self.2]
        intro q hq
        simpa using List.findIdx?_eq_none_iff.1 hnone q hq
  | unload identifier =>
    refine ⟨ignored, ?_⟩
    simp [act, unload, queuedFor, queuedFor?, List.filterMap_map, Function.comp_def]
  | shutdown => cases ha

section

variable {a : Action}

theorem glimpse?_eq_accept_iff {address : Network.Endpoint} :
    b.glimpse? x a = some (.accept address) ↔
      a = .accept address ∧ (b.accept address).2.1 = some x := by
  cases a with
  | accept =>
    simp [glimpse?]
    grind
  | _ => simp [glimpse?]

theorem glimpse?_eq_register_iff {kind : DriverKind} {ids : List String} :
    b.glimpse? x a = some (.register kind ids) ↔ a = .register kind ids := by
  cases a <;> simp [glimpse?]

theorem glimpse?_eq_route_iff {k : Nat} {m : Message} :
    b.glimpse? x a = some (.route k m) ↔ ∃ o, a = .route o m ∧ b.place? x o = some k := by
  cases a with
  | route =>
    simp [glimpse?]
    grind
  | _ => simp [glimpse?]

theorem glimpse?_eq_deregister_iff {now : Time.Millis} {k : Nat} :
    b.glimpse? x a = some (.deregister now k) ↔
      ∃ o, a = .deregister now o ∧ b.place? x o = some k := by
  cases a with
  | deregister =>
    simp [glimpse?]
    grind
  | _ => simp [glimpse?]

theorem glimpse?_eq_shutdown_iff : b.glimpse? x a = some .shutdown ↔ a = .shutdown := by
  cases a <;> simp [glimpse?]

end

theorem accept_eq_some {address : Network.Endpoint} (h : (b.accept address).2.1 = some x) :
    b.accept address = ((b.addPeer .client).1, some x, [.event (.established x address)]) ∧
      b.lastId + 1 = x := by
  unfold accept at h ⊢
  split at h
  · cases h
  · cases hopen : b.isShutDown with
    | true => simp [hopen] at h
    | false =>
      obtain rfl : b.lastId + 1 = x := by simpa [hopen, addPeer] using h
      exact ⟨rfl, rfl⟩

namespace Alike

variable (h : Alike x y b c) (hb : b.Wf) (hc : c.Wf) (hx : b.Spares x) (hy : c.Spares y)

include h hb hc hx hy

theorem routeFrom (hplace : b.place? x o = c.place? y o') {p q : Peer} (hp : b.peer? o = some p)
    (hq : c.peer? o' = some q) (hguise : p.guise = q.guise) (m : Message) :
    Alike x y (b.routeFrom p m).1 (c.routeFrom q m).1 ∧
      queuedFor x (b.routeFrom p m).2 = queuedFor y (c.routeFrom q m).2 := by
  obtain rfl := b.id_of_peer? o hp
  obtain rfl := c.id_of_peer? o' hq
  have hclient : p.isClient = q.isClient := by
    rw [← p.guise_isClient, hguise, q.guise_isClient]
  have heard (f : Listener → Listener) :
      Alike x y (b.mapPeer p.id (·.mapListener f)) (c.mapPeer q.id (·.mapListener f)) :=
    h.mapPeer hb hc hplace (fun _ => rfl) (fun _ => rfl) fun _ => rfl
  have ignored : Alike x y b c ∧ queuedFor x [] = queuedFor y [] := ⟨h, rfl⟩
  have others (hbackend : ¬q.isClient = true) : x ≠ p.id ∧ y ≠ q.id := by
    rw [Bool.not_eq_true] at hbackend
    exact ⟨hx.ne_of_backend (b.mem_of_peer? _ hp) (hclient.trans hbackend),
      hy.ne_of_backend (c.mem_of_peer? _ hq) hbackend⟩
  have reported (hbackend : ¬q.isClient = true) (device : String) (m : Message)
      (wants : Listener → Bool) :
      Alike x y (b.learn p.id device) (c.learn q.id device) ∧
        queuedFor x ((b.learn p.id device).fanOut p.id m wants) =
          queuedFor y ((c.learn q.id device).fanOut q.id m wants) := by
    have hlearned := h.learn hb hc hplace device
    refine ⟨hlearned, ?_⟩
    exact hlearned.queuedFor_fanOut (hb.learn ..) (hc.learn ..)
      ((Retains.learn ..).loadsNothing.spares hx) ((Retains.learn ..).loadsNothing.spares hy)
      (others hbackend).1 (others hbackend).2 m wants
  cases m with
  | discover r =>
    simp only [Broker.routeFrom, hclient]
    split
    · exact ignored
    · refine ⟨heard _, ?_⟩
      simp only [routeDiscovery, Bool.and_assoc]
      rw [queuedFor_backends hb hx, queuedFor_backends hc hy]
  | change r => exact ⟨h, by rw [Broker.routeFrom, Broker.routeFrom, queuedFor_change hb hx,
      queuedFor_change hc hy]⟩
  | payloads r => exact ⟨heard _, rfl⟩
  | define d =>
    simp only [Broker.routeFrom, hclient]
    split
    · exact ignored
    · rename_i hbackend
      exact reported hbackend d.device (.define d) (·.hearsProperty d.device d.name)
  | update u =>
    simp only [Broker.routeFrom, hclient]
    split
    · exact ignored
    · rename_i hbackend
      exact reported hbackend u.device (.update u) (·.hearsProperty u.device u.name)
  | notify n =>
    simp only [Broker.routeFrom, hclient, routeNotice]
    split
    · exact ignored
    · rename_i hbackend
      cases n.device with
      | some device => exact reported hbackend device (.notify n) (·.hearsAnyOf device)
      | none =>
        refine ⟨h, h.queuedFor_deliver hb hc hx hy _ ?_⟩
        intro p q _ _ hp hq _
        rw [hp, hq]
  | remove r =>
    simp only [Broker.routeFrom, hclient, routeRemoval]
    split
    · exact ignored
    · rename_i hbackend
      obtain ⟨hxo, hyo⟩ := others hbackend
      cases r.name with
      | none => exact h.dropDevice hb hc hx hy hxo hyo r
      | some name =>
        refine ⟨h.prune .., h.queuedFor_deliver hb hc hx hy _ ?_⟩
        rintro p q rfl rfl - - hsame
        rw [bne_iff_ne.2 hxo, bne_iff_ne.2 hyo, hsame]

theorem deregister (now : Time.Millis) (hplace : b.place? x o = c.place? y o') {p q : Peer}
    (hp : b.peer? o = some p) (hq : c.peer? o' = some q) (hguise : p.guise = q.guise) :
    Alike x y (b.deregister now o).1 (c.deregister now o').1 ∧
      queuedFor x (b.deregister now o).2 = queuedFor y (c.deregister now o').2 := by
  have hrole : p.role = q.role := by rw [← p.guise_role, hguise, q.guise_role]
  have hrest := h.filter hb hc hplace
  simp only [Broker.deregister, hp, hq, hrole]
  cases hq' : q.role with
  | client => exact ⟨hrest, rfl⟩
  | backend d =>
    have hbackend : q.isClient = false := by simp [Peer.isClient, Peer.backend?, hq']
    have hxo : x ≠ o := by
      rw [← b.id_of_peer? o hp]
      refine hx.ne_of_backend (b.mem_of_peer? o hp) ?_
      rw [← p.guise_isClient, hguise, q.guise_isClient, hbackend]
    have hyo : y ≠ o' := by
      rw [← c.id_of_peer? o' hq]
      exact hy.ne_of_backend (c.mem_of_peer? o' hq) hbackend
    obtain ⟨hdropped, hqueued⟩ := hrest.dropDevices (hb.of_sublist List.filter_sublist rfl)
      (hc.of_sublist List.filter_sublist rfl) ((LoadsNothing.filter _).spares hx)
      ((LoadsNothing.filter _).spares hy) hxo hyo (Property.timestampAt now) (sorted d.names)
    refine ⟨hdropped, ?_⟩
    simp only [queuedFor_append]
    rw [hqueued]
    rfl

theorem act {a a' : Action} {g : Glimpse} (ha : b.glimpse? x a = some g)
    (ha' : c.glimpse? y a' = some g) (hx' : (b.act a).1.Spares x) (hy' : (c.act a').1.Spares y) :
    Alike x y (b.act a).1 (c.act a').1 ∧ queuedFor x (b.act a).2 = queuedFor y (c.act a').2 := by
  cases g with
  | accept address =>
    obtain ⟨rfl, hid⟩ := glimpse?_eq_accept_iff.1 ha
    obtain ⟨rfl, hid'⟩ := glimpse?_eq_accept_iff.1 ha'
    obtain ⟨haccept, hnew⟩ := accept_eq_some hid
    obtain ⟨haccept', hnew'⟩ := accept_eq_some hid'
    simp only [Broker.act, haccept, haccept']
    exact ⟨h.addPeer _ (by simp [hnew, hnew']), rfl⟩
  | register kind ids =>
    obtain rfl := glimpse?_eq_register_iff.1 ha
    obtain rfl := glimpse?_eq_register_iff.1 ha'
    have fresh {b : Broker} {x : PeerId} (hopen : b.isShutDown = false)
        (hx' : (b.act (.register kind ids)).1.Spares x) : b.lastId + 1 ≠ x := by
      rintro rfl
      apply hx' ids
      simp [Broker.act, Broker.register, hopen, roster_addPeer_backend]
    cases hopen : c.isShutDown with
    | true => simpa [Broker.act, Broker.register, hopen, h.isShutDown] using h
    | false =>
      have hopen' := h.isShutDown.trans hopen
      have hbx := fresh hopen' hx'
      have hcy := fresh hopen hy'
      have hadded := h.addPeer (.backend ⟨kind, ids, []⟩) (by simp [hbx, hcy])
      refine ⟨by simpa [Broker.act, Broker.register, hopen, hopen'] using hadded, ?_⟩
      simp only [Broker.act, Broker.register, hopen, hopen', Broker.addPeer]
      simp [hbx, hcy]
      rfl
  | route k m =>
    obtain ⟨o, rfl, hk⟩ := glimpse?_eq_route_iff.1 ha
    obtain ⟨o', rfl, hk'⟩ := glimpse?_eq_route_iff.1 ha'
    obtain ⟨p, hp, hmem⟩ := hb.exists_of_place? hk
    obtain ⟨q, hq, -⟩ := hc.exists_of_place? hk'
    have hplace := hk.trans hk'.symm
    simp only [Broker.act, route, hp, hq]
    exact h.routeFrom hb hc hx hy hplace hp hq (h.guise_eq hb hc hplace hp hmem hq) m
  | deregister now k =>
    obtain ⟨o, rfl, hk⟩ := glimpse?_eq_deregister_iff.1 ha
    obtain ⟨o', rfl, hk'⟩ := glimpse?_eq_deregister_iff.1 ha'
    obtain ⟨p, hp, hmem⟩ := hb.exists_of_place? hk
    obtain ⟨q, hq, -⟩ := hc.exists_of_place? hk'
    have hplace := hk.trans hk'.symm
    exact h.deregister hb hc hx hy now hplace hp hq (h.guise_eq hb hc hplace hp hmem hq)
  | shutdown =>
    obtain rfl := glimpse?_eq_shutdown_iff.1 ha
    obtain rfl := glimpse?_eq_shutdown_iff.1 ha'
    have left (b : Broker) (x : PeerId) :
        b.shutdown.1.guises x = (b.guises x).filter (!·.isClient) := by
      rw [Broker.guises, Broker.guises, List.filter_map]
      simp only [company, shutdown, backends, List.filter_filter, Function.comp_def,
        Peer.guise_isClient, Bool.and_comm]
    refine ⟨⟨?_, rfl⟩, ?_⟩
    · simp only [Broker.act, left, h.guises]
    · simp [Broker.act, shutdown, queuedFor, queuedFor?, List.filterMap_map, Function.comp_def]

end Alike

theorem Admits.lt {as : List Action} (h : b.Admits x as) : b.lastId < x := by
  obtain ⟨pre, address, post, -, hid⟩ := h
  obtain ⟨-, rfl⟩ := accept_eq_some hid
  exact Nat.lt_succ_of_le (b.lastId_le_after pre)

theorem Admits.cons {a : Action} {as : List Action} (h : b.Admits x (a :: as)) :
    x = (b.act a).1.lastId ∧ (∀ kind ids, a ≠ .register kind ids) ∨ (b.act a).1.Admits x as := by
  obtain ⟨pre, address, post, has, hid⟩ := h
  obtain _ | ⟨a', pre⟩ := pre
  · obtain ⟨rfl, rfl⟩ := List.cons_eq_cons.1 has
    rw [after_nil] at hid
    obtain ⟨haccept, rfl⟩ := accept_eq_some hid
    exact .inl ⟨by simp [act, haccept, addPeer], by simp⟩
  · obtain ⟨rfl, rfl⟩ := List.cons_eq_cons.1 has
    exact .inr ⟨pre, address, post, rfl, hid⟩

/-- In the run, `x` is nobody's id but a client's: it is given away already, or will be to a
client. -/
structure Serves (b : Broker) (x : PeerId) (as : List Action) : Prop where
  wf : b.Wf
  spares : b.Spares x
  known : x ≤ b.lastId ∨ b.Admits x as

theorem Serves.act {a : Action} {as : List Action} (h : b.Serves x (a :: as)) :
    (b.act a).1.Serves x as := by
  have hle := b.lastId_le_act a
  have hnew : ∀ kind ids, a = .register kind ids → b.isShutDown = false → b.lastId + 1 ≠ x := by
    rintro kind ids rfl hopen hid
    have hlast : (b.act (.register kind ids)).1.lastId = b.lastId + 1 := by
      simp [Broker.act, register, hopen, addPeer]
    obtain hx | hx := h.known
    · exact Nat.not_succ_le_self _ (hid.trans_le hx)
    · obtain ⟨-, hx⟩ | hx := hx.cons
      · exact hx kind ids rfl
      · exact Nat.lt_irrefl x (hlast.trans hid ▸ hx.lt)
  refine ⟨h.wf.act a, spares_act h.spares a hnew, ?_⟩
  obtain hx | hx := h.known
  · exact .inl (Nat.le_trans hx hle)
  · exact hx.cons.imp_left fun hx => hx.1.le

theorem told_of_view_nil {as : List Action} (h : b.Serves x as) (hview : b.view x as = []) :
    b.told x as = [] := by
  induction as generalizing b with
  | nil => rfl
  | cons a as ih =>
    obtain ⟨hfirst, hrest⟩ := List.append_eq_nil_iff.1 hview
    have ha : b.glimpse? x a = none := by simpa using hfirst
    rw [told, (act_of_unseen h.wf h.spares ha).2, ih h.act hrest, List.append_nil]

theorem told_eq_of_alike {as bs : List Action} (h : Alike x y b c) (hb : b.Serves x as)
    (hc : c.Serves y bs) (hview : b.view x as = c.view y bs) : b.told x as = c.told y bs := by
  induction as generalizing b c bs with
  | nil => exact (told_of_view_nil hc hview.symm).symm
  | cons a as ih =>
    cases ha : b.glimpse? x a with
    | none =>
      obtain ⟨hsame, hsilent⟩ := act_of_unseen hb.wf hb.spares ha
      rw [told, hsilent, List.nil_append]
      refine ih ⟨hsame.guises.trans h.guises, hsame.isShutDown.trans h.isShutDown⟩ hb.act hc ?_
      simpa [view, ha] using hview
    | some g =>
      -- What is seen next in the other run may come after actions that are not seen.
      induction bs generalizing c with
      | nil => simp [view, ha] at hview
      | cons a' bs ih' =>
        cases ha' : c.glimpse? y a' with
        | none =>
          obtain ⟨hsame, hsilent⟩ := act_of_unseen hc.wf hc.spares ha'
          rw [told.eq_2 c, hsilent, List.nil_append]
          refine ih' ⟨h.guises.trans hsame.guises.symm, h.isShutDown.trans hsame.isShutDown.symm⟩
            hc.act ?_
          simpa [view, ha'] using hview
        | some g' =>
          have hview : g = g' ∧ (b.act a).1.view x as = (c.act a').1.view y bs := by
            simpa [view, ha, ha'] using hview
          obtain ⟨rfl, hview⟩ := hview
          obtain ⟨hnext, hqueued⟩ :=
            h.act hb.wf hc.wf hb.spares hc.spares ha ha' hb.act.spares hc.act.spares
          rw [told, told, hqueued, ih hnext hb.act hc.act hview]

end

theorem serves_ofPolicies {policies : List AcceptPolicy} {startedAt : Time.Millis} {x : PeerId}
    {as : List Action} (h : (ofPolicies policies startedAt).Admits x as) :
    (ofPolicies policies startedAt).Serves x as :=
  ⟨.ofPolicies policies startedAt, fun _ hmem => List.not_mem_nil hmem, .inr h⟩

/-- Two runs, in each of which a client is accepted, `x` in the one and `y` in the other. If they
look the same to it, who sees its own actions, those of the backends and the shutdown, and nothing
of other clients, then it is told the same in both. -/
theorem told_eq_of_view_eq (policies : List AcceptPolicy) (startedAt : Time.Millis)
    (x y : PeerId) (as bs : List Action) (hx : (ofPolicies policies startedAt).Admits x as)
    (hy : (ofPolicies policies startedAt).Admits y bs)
    (hview : (ofPolicies policies startedAt).view x as =
      (ofPolicies policies startedAt).view y bs) :
    (ofPolicies policies startedAt).told x as = (ofPolicies policies startedAt).told y bs :=
  told_eq_of_alike ⟨rfl, rfl⟩ (serves_ofPolicies hx) (serves_ofPolicies hy) hview

theorem exposure_told_beside_other_client :
    let report := Message.update ⟨.number, "Camera", "EXPOSE", none, none, none, none, []⟩
    let alone := exposureRun ++ [.route 1 report]
    let beside : List Action :=
      [.accept ⟨.v4 127 0 0 1, 50001⟩, .register .builtin ["camera"],
        .route 1 (.discover .everything), .accept ⟨.v4 127 0 0 1, 50000⟩, .route 2 report,
        .route 1 (.payloads ⟨none, none, .only⟩),
        .route 3 (.discover (.ofProperty "Camera" "EXPOSE")),
        .deregister 0 1, .route 2 report]
    let b := ofPolicies [] 0
    b.Admits 2 alone ∧ b.Admits 3 beside ∧ b.view 2 alone = b.view 3 beside ∧
      b.told 2 alone = [report] ∧ b.told 3 beside = [report] := by
  intro report alone beside b
  have hx : b.Admits 2 alone := ⟨alone.take 1, _, alone.drop 2, rfl, rfl⟩
  have hy : b.Admits 3 beside := ⟨beside.take 3, _, beside.drop 4, rfl, rfl⟩
  have hview : b.view 2 alone = b.view 3 beside := by decide
  have htold : b.told 2 alone = [report] := by decide
  refine ⟨hx, hy, hview, htold, ?_⟩
  rw [← told_eq_of_view_eq [] 0 2 3 alone beside hx hy hview, htold]

end Broker
end InstrumentBus
