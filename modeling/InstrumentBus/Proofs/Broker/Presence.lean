import InstrumentBus.Proofs.Broker.Run
import Mathlib.Data.List.Induction

/-!
The stay of a peer at a broker: it comes once, under an id that nobody has had, it stays what it is,
and it is gone for good once it goes. What observers see of it is told by the action that lets it
come or go, but for the clients that a shutdown sweeps away unseen.
-/

namespace InstrumentBus

inductive Passage
  | comes (isClient : Bool) : Passage
  | goes (isClient : Bool) : Passage
deriving DecidableEq

def Event.passage? (x : PeerId) : Event → Option Passage
  | .established y _ => if y = x then some (.comes true) else none
  | .registered y _ => if y = x then some (.comes false) else none
  | .broken y => if y = x then some (.goes true) else none
  | .disconnected y _ _ => if y = x then some (.goes false) else none
  | .rejected .. => none

namespace Effect

def passage? (x : PeerId) : Effect → Option Passage
  | .event e => e.passage? x
  | _ => none

def passages (x : PeerId) (es : List Effect) : List Passage := es.filterMap (passage? x)

@[simp] theorem passages_nil (x : PeerId) : passages x [] = [] := rfl

@[simp] theorem passages_cons (x : PeerId) (e : Effect) (es : List Effect) :
    passages x (e :: es) = (e.passage? x).toList ++ passages x es := by
  cases h : e.passage? x <;> simp [passages, h]

@[simp] theorem passages_append (x : PeerId) (es fs : List Effect) :
    passages x (es ++ fs) = passages x es ++ passages x fs := List.filterMap_append

@[simp] theorem passages_map {α : Type} (x : PeerId) (as : List α) (f : α → Effect)
    (h : ∀ a, (f a).passage? x = none) : passages x (as.map f) = [] := by
  simp [passages, h]

end Effect

namespace Broker

def isClient? (b : Broker) (x : PeerId) : Option Bool := (b.peer? x).map (·.isClient)

def passages (b : Broker) (x : PeerId) : List Action → List Passage
  | [] => []
  | a :: as => Effect.passages x (b.act a).2 ++ (b.act a).1.passages x as

section

variable {b c : Broker} {x : PeerId}

theorem passages_append (as cs : List Action) :
    b.passages x (as ++ cs) = b.passages x as ++ (b.after as).passages x cs := by
  induction as generalizing b with
  | nil => rfl
  | cons a as ih => simp [passages, ih, after]

@[simp] theorem passages_deliver (m : Message) (wants : Peer → Bool) :
    Effect.passages x (b.deliver m wants) = [] := Effect.passages_map _ _ _ fun _ => rfl

@[simp] theorem passages_dropDevices (origin : PeerId) (timestamp : String)
    (devices : List String) :
    Effect.passages x (b.dropDevices origin timestamp devices).2 = [] := by
  induction devices generalizing b with
  | nil => rfl
  | cons device devices ih =>
    simp only [dropDevices, dropDevice, fanOut, Effect.passages_append, passages_deliver, ih]
    rfl

theorem passages_routeFrom (p : Peer) (m : Message) :
    Effect.passages x (b.routeFrom p m).2 = [] := by
  cases m with
  | discover r =>
    simp only [routeFrom]
    split
    · rfl
    · exact passages_deliver ..
  | change r =>
    simp only [routeFrom, routeChange]
    split
    · exact Effect.passages_map _ _ _ fun _ => rfl
    · rfl
  | payloads r => rfl
  | define d =>
    simp only [routeFrom]
    split
    · rfl
    · exact passages_deliver ..
  | update u =>
    simp only [routeFrom]
    split
    · rfl
    · exact passages_deliver ..
  | notify n =>
    simp only [routeFrom, routeNotice]
    split
    · rfl
    · split <;> exact passages_deliver ..
  | remove r =>
    simp only [routeFrom, routeRemoval]
    split
    · rfl
    · split <;> exact passages_deliver ..

theorem Retains.isClient? (h : Retains b c) : c.isClient? x = b.isClient? x := h.peer?_isClient x

theorem isClient?_deregister (now : Time.Millis) (y : PeerId) :
    (b.deregister now y).1.isClient? x = if x = y then none else b.isClient? x := by
  rw [(Retains.deregister now y).isClient?, isClient?, peer?_filter]
  split <;> rfl

/-- The ways in which an action can concern the peer `x`. -/
inductive Turn (b : Broker) (x : PeerId) (a : Action) : Prop
  | stays : b.given? a ≠ some x → (b.act a).1.isClient? x = b.isClient? x →
      Effect.passages x (b.act a).2 = [] → Turn b x a
  | comes (isClient : Bool) : b.given? a = some x → (b.act a).1.isClient? x = some isClient →
      Effect.passages x (b.act a).2 = [.comes isClient] → Turn b x a
  | goes (now : Time.Millis) (isClient : Bool) : a = .deregister now x →
      b.isClient? x = some isClient → Effect.passages x (b.act a).2 = [.goes isClient] → Turn b x a
  | swept : a = .shutdown → b.isClient? x = some true → (b.act a).1.isClient? x = none →
      Effect.passages x (b.act a).2 = [] → Turn b x a

theorem turn_deregister (now : Time.Millis) (y : PeerId) : Turn b x (.deregister now y) := by
  have hpeer := b.isClient?_deregister (x := x) now y
  cases hy : b.peer? y with
  | none =>
    have hact : b.act (.deregister now y) = (b, []) := by simp only [act, deregister, hy]
    exact .stays (by simp [given?]) (by rw [hact]) (by rw [hact]; rfl)
  | some p =>
    have hseen : Effect.passages x (b.act (.deregister now y)).2 =
        if y = x then [.goes p.isClient] else [] := by
      cases hrole : p.role <;>
        simp [act, deregister, hy, hrole, Effect.passage?, Event.passage?, Peer.isClient,
          Peer.backend?, apply_ite Option.toList]
    by_cases hx : y = x
    · subst hx
      rw [if_pos rfl] at hseen
      exact .goes now _ rfl (by rw [isClient?, hy, Option.map_some]) hseen
    · rw [if_neg hx] at hseen
      rw [if_neg (Ne.symm hx)] at hpeer
      exact .stays (by simp [given?]) hpeer hseen

variable (hb : b.Wf)

include hb

theorem Wf.isClient?_of_lastId_lt (h : b.lastId < x) : b.isClient? x = none := by
  rw [isClient?, hb.peer?_of_lastId_lt h, Option.map_none]

theorem Wf.le_of_isClient? {isClient : Bool} (h : b.isClient? x = some isClient) :
    x ≤ b.lastId := by
  by_contra hnew
  simp [hb.isClient?_of_lastId_lt (Nat.lt_of_not_le hnew)] at h

theorem Wf.isClient?_addPeer (role : Role) :
    (b.addPeer role).1.isClient? x =
      if x = b.lastId + 1 then some (Peer.mk x .empty role).isClient else b.isClient? x := by
  rw [isClient?, peer?_addPeer]
  split
  · rename_i hx
    rw [hb.peer?_of_lastId_lt (hx ▸ Nat.lt_succ_self _), Option.none_or, Option.map_some]
  · rw [Option.or_none, isClient?]

theorem Wf.isClient?_shutdown :
    b.shutdown.1.isClient? x = (b.isClient? x).filter (!·) := by
  have hshut : b.shutdown.1.Wf := hb.act .shutdown
  have hpeer : b.shutdown.1.peer? x = (b.peer? x).filter (!·.isClient) := by
    ext p
    simp only [hshut.peer?_eq_some_iff, Option.filter_eq_some_iff, hb.peer?_eq_some_iff]
    simp [shutdown, backends, and_right_comm]
  rw [isClient?, hpeer, isClient?]
  cases hp : b.peer? x with
  | none => rfl
  | some p => cases h : p.isClient <;> simp [Option.filter, h]

theorem Wf.turn_of_addPeer {a : Action} {role : Role} (hact : (b.act a).1 = (b.addPeer role).1)
    (hgiven : b.given? a = some (b.lastId + 1))
    (hseen : Effect.passages x (b.act a).2 =
      if b.lastId + 1 = x then [.comes (Peer.mk x .empty role).isClient] else []) :
    Turn b x a := by
  have hpeer := hb.isClient?_addPeer (x := x) role
  rw [← hact] at hpeer
  by_cases hx : x = b.lastId + 1
  · rw [if_pos hx] at hpeer
    rw [if_pos hx.symm] at hseen
    exact .comes _ (hx ▸ hgiven) hpeer hseen
  · rw [if_neg hx] at hpeer
    rw [if_neg (Ne.symm hx)] at hseen
    refine .stays ?_ hpeer hseen
    simpa [hgiven] using Ne.symm hx

theorem Wf.turn (a : Action) : Turn b x a := by
  cases a with
  | accept address =>
    cases hrefused : b.policies.find? fun p => !p.accepts address with
    | some policy =>
      have haccept : b.accept address = (b, none, [.event (.rejected address policy.name)]) := by
        simp only [accept, hrefused]
      exact .stays (by simp [given?, haccept]) (by simp [Broker.act, haccept])
        (by simp [Broker.act, haccept, Effect.passage?, Event.passage?])
    | none =>
      cases hshut : b.isShutDown with
      | true =>
        have haccept : b.accept address = (b, none, []) := by simp [accept, hrefused, hshut]
        exact .stays (by simp [given?, haccept]) (by simp [Broker.act, haccept])
          (by simp [Broker.act, haccept])
      | false =>
        have haccept : b.accept address = ((b.addPeer .client).1, some (b.lastId + 1),
            [.event (.established (b.lastId + 1) address)]) := by
          simp [accept, hrefused, hshut, Broker.addPeer]
        refine hb.turn_of_addPeer (by rw [Broker.act, haccept]) (by rw [given?, haccept]) ?_
        simp [Broker.act, haccept, Effect.passage?, Event.passage?, Peer.isClient, Peer.backend?,
          apply_ite Option.toList]
  | register kind identifiers =>
    cases hshut : b.isShutDown with
    | true =>
      have hregister : b.register kind identifiers = (b, none, []) := by simp [register, hshut]
      exact .stays (by simp [given?, hregister]) (by simp [Broker.act, hregister])
        (by simp [Broker.act, hregister])
    | false =>
      have hregister : b.register kind identifiers =
          ((b.addPeer (.backend ⟨kind, identifiers, []⟩)).1, some (b.lastId + 1),
            [.queue (b.lastId + 1) (.discover .everything),
              .event (.registered (b.lastId + 1) identifiers)]) := by
        simp [register, hshut, Broker.addPeer]
      refine hb.turn_of_addPeer (by rw [Broker.act, hregister]) (by rw [given?, hregister]) ?_
      simp [Broker.act, hregister, Effect.passage?, Event.passage?, Peer.isClient, Peer.backend?,
        apply_ite Option.toList]
  | claim identifiers =>
    refine .stays (by simp [given?]) ?_ rfl
    simp only [Broker.act, claim]
    split <;> rfl
  | release identifiers => exact .stays (by simp [given?]) rfl rfl
  | route origin m =>
    refine .stays (by simp [given?]) (Retains.route origin m).isClient? ?_
    simp only [Broker.act, route]
    split
    · exact passages_routeFrom ..
    · rfl
  | deregister now y => exact turn_deregister now y
  | unload identifier =>
    exact .stays (by simp [given?]) rfl (Effect.passages_map _ _ _ fun _ => rfl)
  | shutdown =>
    have hpeer := hb.isClient?_shutdown (x := x)
    have hseen : Effect.passages x (b.act .shutdown).2 = [] := by
      rw [Broker.act, shutdown, Effect.passages_append, Effect.passages_map _ _ _ fun _ => rfl,
        Effect.passages_map _ _ _ fun _ => rfl, List.append_nil]
    cases hx : b.isClient? x with
    | none => exact .stays (by simp [given?]) (by simp [Broker.act, hpeer, hx]) hseen
    | some isClient =>
      cases isClient with
      | true => exact .swept rfl hx (by simp [Broker.act, hpeer, hx]) hseen
      | false => exact .stays (by simp [given?]) (by simp [Broker.act, hpeer, hx]) hseen

theorem Wf.gone (hold : x ≤ b.lastId) (hgone : b.isClient? x = none) (as : List Action) :
    (b.after as).isClient? x = none ∧ b.passages x as = [] := by
  induction as generalizing b with
  | nil => exact ⟨hgone, rfl⟩
  | cons a as ih =>
    cases hb.turn (x := x) a with
    | stays _ hpeer hseen =>
      obtain ⟨hafter, hrest⟩ := ih (hb.act a) (Nat.le_trans hold (b.lastId_le_act a))
        (hpeer.trans hgone)
      exact ⟨hafter, by rw [Broker.passages, hseen, hrest, List.append_nil]⟩
    | comes _ hgiven =>
      obtain ⟨rfl, -⟩ := eq_of_given? hgiven
      exact absurd hold (Nat.not_succ_le_self _)
    | goes _ _ _ hpresent => simp [hgone] at hpresent
    | swept _ hpresent => simp [hgone] at hpresent

theorem Wf.isClient_of_after {before after : Bool} (hbefore : b.isClient? x = some before)
    {as : List Action} (hafter : (b.after as).isClient? x = some after) : after = before := by
  induction as generalizing b with
  | nil => simpa [hbefore] using hafter.symm
  | cons a as ih =>
    have hold := hb.le_of_isClient? hbefore
    have gone (hgone : (b.act a).1.isClient? x = none) : after = before := by
      have hnone := ((hb.act a).gone (Nat.le_trans hold (b.lastId_le_act a)) hgone as).1
      exact absurd (hnone.symm.trans hafter) (by simp)
    cases hb.turn (x := x) a with
    | stays _ hpeer => exact ih (hb.act a) (hpeer.trans hbefore) hafter
    | comes _ hgiven =>
      obtain ⟨rfl, -⟩ := eq_of_given? hgiven
      exact absurd hold (Nat.not_succ_le_self _)
    | goes now _ ha =>
      subst ha
      exact gone (by rw [Broker.act, isClient?_deregister, if_pos rfl])
    | swept _ _ hpeer => exact gone hpeer

theorem Wf.undisturbed {isClient : Bool} (hpresent : b.isClient? x = some isClient)
    {as : List Action} (hquiet : ∀ now, .deregister now x ∉ as) :
    b.passages x as = [] ∧
      (¬(isClient = true ∧ .shutdown ∈ as) → (b.after as).isClient? x = some isClient) ∧
      (isClient = true ∧ .shutdown ∈ as → (b.after as).isClient? x = none) := by
  induction as generalizing b with
  | nil => exact ⟨rfl, fun _ => hpresent, fun h => absurd h.2 List.not_mem_nil⟩
  | cons a as ih =>
    have hold := hb.le_of_isClient? hpresent
    have hquiet' : ∀ now, .deregister now x ∉ as := fun now h =>
      hquiet now (List.mem_cons_of_mem a h)
    cases hb.turn (x := x) a with
    | stays _ hpeer hseen =>
      have hcalm : ¬(isClient = true ∧ .shutdown = a) := by
        rintro ⟨rfl, rfl⟩
        simp [Broker.act, hb.isClient?_shutdown, hpresent] at hpeer
      have hlater : isClient = true ∧ .shutdown ∈ a :: as ↔ isClient = true ∧ .shutdown ∈ as := by
        rw [List.mem_cons, and_or_left, or_iff_right hcalm]
      obtain ⟨hrest, hstays, hsweeps⟩ := ih (hb.act a) (hpeer.trans hpresent) hquiet'
      rw [hlater, Broker.passages, hseen, hrest]
      exact ⟨rfl, hstays, hsweeps⟩
    | comes _ hgiven =>
      obtain ⟨rfl, -⟩ := eq_of_given? hgiven
      exact absurd hold (Nat.not_succ_le_self _)
    | goes now _ ha => exact absurd (ha ▸ List.mem_cons_self) (hquiet now)
    | swept ha hclient hpeer hseen =>
      obtain rfl : true = isClient := by simpa [hclient] using hpresent
      obtain ⟨hafter, hrest⟩ :=
        (hb.act a).gone (Nat.le_trans hold (b.lastId_le_act a)) hpeer as
      refine ⟨by rw [Broker.passages, hseen, hrest, List.append_nil], ?_, fun _ => hafter⟩
      exact fun hcalm => absurd ⟨rfl, ha ▸ List.mem_cons_self⟩ hcalm

theorem Wf.unborn {as : List Action} (h : (b.after as).lastId < x) : b.passages x as = [] := by
  induction as using List.reverseRecOn with
  | nil => rfl
  | append_singleton as a ih =>
    rw [after_append, after_singleton] at h
    have hbefore : (b.after as).lastId < x := Nat.lt_of_le_of_lt (lastId_le_act _ a) h
    have hnone := (hb.after as).isClient?_of_lastId_lt hbefore
    rw [passages_append, ih hbefore]
    cases (hb.after as).turn (x := x) a with
    | stays _ _ hseen => simp [Broker.passages, hseen]
    | comes _ hgiven =>
      obtain ⟨-, hlast⟩ := eq_of_given? hgiven
      exact absurd h (hlast ▸ Nat.lt_irrefl _)
    | goes _ _ _ hpresent => simp [hnone] at hpresent
    | swept _ hpresent => simp [hnone] at hpresent

theorem Wf.arrived (hnew : b.lastId < x) {as : List Action} {isClient : Bool}
    (hpresent : (b.after as).isClient? x = some isClient) :
    b.passages x as = [.comes isClient] := by
  induction as using List.reverseRecOn with
  | nil =>
    rw [after_nil, hb.isClient?_of_lastId_lt hnew] at hpresent
    cases hpresent
  | append_singleton as a ih =>
    rw [after_append, after_singleton] at hpresent
    rw [passages_append]
    cases (hb.after as).turn (x := x) a with
    | stays _ hpeer hseen => simp [Broker.passages, hseen, ih (hpeer ▸ hpresent)]
    | comes client hgiven hpeer hseen =>
      obtain ⟨hnext, -⟩ := eq_of_given? hgiven
      obtain rfl : client = isClient := by simpa [hpeer] using hpresent
      have hbefore : (b.after as).lastId < x := hnext ▸ Nat.lt_succ_self _
      simp [Broker.passages, hseen, hb.unborn hbefore]
    | goes now _ ha =>
      subst ha
      simp [Broker.act, isClient?_deregister] at hpresent
    | swept _ _ hpeer => simp [hpeer] at hpresent

theorem Wf.passages_deregister {isClient : Bool} (hpresent : b.isClient? x = some isClient)
    (now : Time.Millis) (as : List Action) :
    b.passages x (.deregister now x :: as) = [.goes isClient] := by
  have hgone : (b.act (.deregister now x)).1.isClient? x = none := by
    rw [Broker.act, isClient?_deregister, if_pos rfl]
  have hold := Nat.le_trans (hb.le_of_isClient? hpresent) (b.lastId_le_act (.deregister now x))
  rw [Broker.passages, ((hb.act _).gone hold hgone as).2, List.append_nil]
  cases hb.turn (x := x) (.deregister now x) with
  | stays _ hpeer => simp [hgone, hpresent] at hpeer
  | comes _ hgiven => simp [given?] at hgiven
  | goes _ client _ hpeer hseen =>
    obtain rfl : client = isClient := by simpa [hpeer] using hpresent
    exact hseen
  | swept ha => cases ha

end

/-- In any run, observers see a peer come once and, once it is deregistered, go once, whatever else
happens before, between and after. A client that a shutdown comes to before its first
deregistration is seen to come, and is never seen to go. -/
theorem seen_to_come_and_go (policies : List AcceptPolicy) (startedAt : Time.Millis)
    (before between later : List Action) (now : Time.Millis) (x : PeerId) (p : Peer)
    (hp : ((ofPolicies policies startedAt).after before).peer? x = some p)
    (hfirst : ∀ now, .deregister now x ∉ between) :
    let seen := (ofPolicies policies startedAt).passages x
      (before ++ between ++ .deregister now x :: later)
    (¬(p.isClient = true ∧ .shutdown ∈ between) → seen = [.comes p.isClient, .goes p.isClient]) ∧
      (p.isClient = true ∧ .shutdown ∈ between → seen = [.comes p.isClient]) := by
  intro seen
  have hstart : (ofPolicies policies startedAt).Wf := .ofPolicies policies startedAt
  have hb := hstart.after before
  have hpresent : ((ofPolicies policies startedAt).after before).isClient? x = some p.isClient := by
    rw [isClient?, hp, Option.map_some]
  have hnew : (ofPolicies policies startedAt).lastId < x := by
    refine Nat.lt_of_not_le fun hold => ?_
    simp [(hstart.gone hold rfl before).1] at hpresent
  obtain ⟨hunseen, hstays, hsweeps⟩ := hb.undisturbed hpresent hfirst
  have hseen : seen = .comes p.isClient ::
      (((ofPolicies policies startedAt).after before).after between).passages x
        (.deregister now x :: later) := by
    simp only [seen, passages_append, hstart.arrived hnew hpresent, hunseen, after_append,
      List.append_nil, List.singleton_append]
  rw [hseen]
  constructor
  · intro hcalm
    rw [(hb.after between).passages_deregister (hstays hcalm)]
  · intro hswept
    have hold := Nat.le_trans (hb.le_of_isClient? hpresent) (lastId_le_after _ between)
    rw [((hb.after between).gone hold (hsweeps hswept) _).2]

theorem backend_seen_to_go :
    (ofPolicies [] 0).passages 1
        [.register .builtin ["camera"], .shutdown, .deregister 0 1, .deregister 0 1] =
      [.comes false, .goes false] :=
  (seen_to_come_and_go [] 0 [.register .builtin ["camera"]] [.shutdown] [.deregister 0 1] 0 1
    ⟨1, .empty, .backend ⟨.builtin, ["camera"], []⟩⟩ (by decide) (by simp)).1 fun h => by cases h.1

theorem client_not_seen_to_go :
    let accepted := Action.accept ⟨.v4 127 0 0 1, 50000⟩
    ((ofPolicies [] 0).after [accepted]).isClient? 1 = some true ∧
      (ofPolicies [] 0).passages 1 [accepted, .shutdown, .deregister 0 1] = [.comes true] := by
  decide

end Broker
end InstrumentBus
