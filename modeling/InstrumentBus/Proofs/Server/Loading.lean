import InstrumentBus.Proofs.Broker.Roster
import InstrumentBus.Proofs.Except
import InstrumentBus.Server

/-!
Drivers that are loaded at the same time. A call that loads a driver reserves the identifiers of
its backend, starts the backend, registers it, and gives the reservation up, whatever came of it.
The broker takes each of these steps at once, and anything may happen between two of them.
-/

namespace InstrumentBus

open Broker (LoadsNothing)

inductive LoadStage
  | starting : LoadStage
  | started : LoadStage
  | registered (peer : PeerId) : LoadStage
  | failed (e : BrokerError) : LoadStage
deriving DecidableEq

namespace LoadStage

def result? : LoadStage → Option (Except BrokerError PeerId)
  | .registered x => some (.ok x)
  | .failed e => some (.error e)
  | _ => none

end LoadStage

/-- A call that loads a driver. It is refused before it reserves anything, or it is under way, or it
is done. -/
inductive LoadCall
  | refused (e : BrokerError) : LoadCall
  | running (launch : Launch) (stage : LoadStage) : LoadCall
  | done (launch : Launch) (result : Except BrokerError PeerId) : LoadCall
deriving DecidableEq

namespace LoadCall

def reserved : LoadCall → List String
  | .running launch _ => launch.identifiers
  | _ => []

def registered? : LoadCall → Option (PeerId × List String)
  | .running launch (.registered x) => some (x, launch.identifiers)
  | .done launch (.ok x) => some (x, launch.identifiers)
  | _ => none

def result? : LoadCall → Option (Except BrokerError PeerId)
  | .refused e => some (.error e)
  | .running .. => none
  | .done _ result => some result

end LoadCall

/-- A broker and the calls to load drivers that were made on it, in the order of their arrival. -/
structure Loader where
  builtins : List String
  broker : Broker
  shutdownRequested : Bool
  calls : List LoadCall

/-- What can happen to a broker while drivers are loaded: the steps of the `k`-th call, and
everything that loads no driver. The start of a backend can have any outcome; a call that is given
up meanwhile is one whose backend fails to start. -/
inductive LoadStep
  | call (spec : DriverSpec) : LoadStep
  | start (k : Nat) (outcome : Except BrokerError Unit) : LoadStep
  | register (k : Nat) : LoadStep
  | release (k : Nat) : LoadStep
  | requestShutdown : LoadStep
  | other (a : Action) (h : a.isLoading = false) : LoadStep

namespace Loader

def ofBroker (builtins : List String) (broker : Broker) : Loader := ⟨builtins, broker, false, []⟩

def withBroker (s : Loader) (b : Broker) : Loader := { s with broker := b }

def setCall (s : Loader) (k : Nat) (c : LoadCall) : Loader :=
  { s with calls := s.calls.set k c }

def addCall (s : Loader) (c : LoadCall) : Loader := { s with calls := s.calls ++ [c] }

def reserve (s : Loader) (spec : DriverSpec) : Except BrokerError (Launch × Broker) := do
  if s.shutdownRequested then .error .shutdown
  let launch ← Launch.ofSpec s.builtins spec
  let broker ← s.broker.claim launch.identifiers
  .ok (launch, broker)

/-- Takes a step. That of a call which is not ready for it does nothing. -/
def step (s : Loader) : LoadStep → Loader
  | .call spec =>
    match s.reserve spec with
    | .ok (launch, broker) => (s.addCall (.running launch .starting)).withBroker broker
    | .error e => s.addCall (.refused e)
  | .start k outcome =>
    match s.calls[k]? with
    | some (.running launch .starting) =>
      match outcome with
      | .ok () => s.setCall k (.running launch .started)
      | .error e => s.setCall k (.running launch (.failed e))
    | _ => s
  | .register k =>
    match s.calls[k]? with
    | some (.running launch .started) =>
      match s.broker.register launch.kind launch.identifiers with
      | (broker, some x, _) => (s.setCall k (.running launch (.registered x))).withBroker broker
      | (_, none, _) => s.setCall k (.running launch (.failed .shutdown))
    | _ => s
  | .release k =>
    match s.calls[k]? with
    | some (.running launch stage) =>
      match stage.result? with
      | some result =>
        (s.setCall k (.done launch result)).withBroker (s.broker.release launch.identifiers)
      | none => s
    | _ => s
  | .requestShutdown => { s with shutdownRequested := true }
  | .other a _ => s.withBroker (s.broker.act a).1

def after (s : Loader) (ts : List LoadStep) : Loader := ts.foldl step s

@[simp] theorem after_nil (s : Loader) : s.after [] = s := rfl

@[simp] theorem after_cons (s : Loader) (t : LoadStep) (ts : List LoadStep) :
    s.after (t :: ts) = (s.step t).after ts := rfl

@[simp] theorem after_append (s : Loader) (ts us : List LoadStep) :
    s.after (ts ++ us) = (s.after ts).after us := List.foldl_append

def Holds (s : Loader) (k : Nat) (i : String) : Prop :=
  ∃ c, s.calls[k]? = some c ∧ i ∈ c.reserved

def Registered (s : Loader) (k : Nat) (e : PeerId × List String) : Prop :=
  ∃ c, s.calls[k]? = some c ∧ c.registered? = some e

def Failed (s : Loader) (k : Nat) : Prop :=
  ∃ c e, s.calls[k]? = some c ∧ c.result? = some (.error e)

inductive Loaded
  | starting (k : Nat) : Loaded
  | registered (x : PeerId) : Loaded

inductive Carries (s : Loader) (i : String) : Loaded → Prop
  | starting {k launch stage} : s.calls[k]? = some (.running launch stage) →
      stage = .starting ∨ stage = .started → i ∈ launch.identifiers → Carries s i (.starting k)
  | registered {x p} : s.broker.peer? x = some p → i ∈ p.identifiers → Carries s i (.registered x)

/-- What is reserved is reserved by one call, no two backends share an identifier, and a call shares
one with a backend only if it has registered that backend. -/
structure Inv (s : Loader) : Prop where
  wf : s.broker.Wf
  reserved : ∀ i, i ∈ s.broker.claimed ↔ ∃ k, s.Holds k i
  exclusive : ∀ {k l i}, s.Holds k i → s.Holds l i → k = l
  disjoint : s.broker.roster.Pairwise fun e f => e.2.Disjoint f.2
  registered : ∀ e ∈ s.broker.roster, ∃ k, s.Registered k e
  apart : ∀ {k i e}, s.Holds k i → e ∈ s.broker.roster → i ∈ e.2 → s.Registered k e

section

variable {s : Loader} {k l : Nat} {c c₀ : LoadCall} {b : Broker} {i : String}
  {e : PeerId × List String}

@[simp] theorem broker_withBroker : (s.withBroker b).broker = b := rfl

@[simp] theorem holds_withBroker : (s.withBroker b).Holds k i ↔ s.Holds k i := .rfl

theorem getElem?_addCall :
    (s.addCall c).calls[l]? = if l = s.calls.length then some c else s.calls[l]? := by
  simp only [addCall, List.getElem?_append, List.getElem?_singleton]
  by_cases h : l < s.calls.length
  · simp [h, Nat.ne_of_lt h]
  · have heq : l - s.calls.length = 0 ↔ l = s.calls.length := by omega
    simp [h, heq]

theorem holds_addCall :
    (s.addCall c).Holds l i ↔ l = s.calls.length ∧ i ∈ c.reserved ∨ s.Holds l i := by
  simp only [Holds, getElem?_addCall]
  by_cases h : l = s.calls.length <;> simp [h]

theorem registered_addCall (h : s.Registered l e) : (s.addCall c).Registered l e := by
  obtain ⟨d, hd, he⟩ := h
  have hlt : l < s.calls.length := (List.getElem?_eq_some_iff.1 hd).1
  exact ⟨d, by rw [getElem?_addCall, if_neg (Nat.ne_of_lt hlt), hd], he⟩

section

variable (hk : s.calls[k]? = some c₀)

include hk

theorem getElem?_setCall :
    (s.setCall k c).calls[l]? = if l = k then some c else s.calls[l]? := by
  have hlt : k < s.calls.length := (List.getElem?_eq_some_iff.1 hk).1
  simp only [setCall, List.getElem?_set, hlt, ↓reduceIte, eq_comm (a := k)]

theorem holds_setCall :
    (s.setCall k c).Holds l i ↔ l = k ∧ i ∈ c.reserved ∨ l ≠ k ∧ s.Holds l i := by
  simp only [Holds, getElem?_setCall hk]
  by_cases h : l = k <;> simp [h]

theorem registered_setCall (hkept : ∀ e, c₀.registered? = some e → c.registered? = some e)
    (h : s.Registered l e) : (s.setCall k c).Registered l e := by
  obtain ⟨d, hd, he⟩ := h
  by_cases hl : l = k
  · subst hl
    cases hk.symm.trans hd
    exact ⟨c, by rw [getElem?_setCall hk, if_pos rfl], hkept e he⟩
  · exact ⟨d, by rw [getElem?_setCall hk, if_neg hl, hd], he⟩

end

theorem holds_restage {launch : Launch} {stage next : LoadStage}
    (hk : s.calls[k]? = some (.running launch stage)) :
    (s.setCall k (.running launch next)).Holds l i ↔ s.Holds l i := by
  rw [holds_setCall hk]
  by_cases h : l = k
  · simp [h, LoadCall.reserved, Holds, hk]
  · simp [h]

theorem Inv.restage (h : s.Inv) {launch : Launch} {stage next : LoadStage}
    (hk : s.calls[k]? = some (.running launch stage)) (hstage : stage.result? = none) :
    (s.setCall k (.running launch next)).Inv := by
  have hkept (e : PeerId × List String)
      (he : (LoadCall.running launch stage).registered? = some e) :
      (LoadCall.running launch next).registered? = some e := by
    cases stage <;> cases hstage <;> cases he
  exact {
    wf := h.wf
    reserved i := by
      simp only [holds_restage hk]
      exact h.reserved i
    exclusive hl hm := h.exclusive ((holds_restage hk).1 hl) ((holds_restage hk).1 hm)
    disjoint := h.disjoint
    registered e he := (h.registered e he).imp fun _ => registered_setCall hk hkept
    apart hl he hi := registered_setCall hk hkept (h.apart ((holds_restage hk).1 hl) he hi) }

theorem Inv.addCall (h : s.Inv) (hb : b.Wf) (hroster : b.roster = s.broker.roster)
    (hclaimed : b.claimed = c.reserved ++ s.broker.claimed)
    (hfree : ∀ i ∈ c.reserved, ¬s.broker.isLoaded i = true) :
    ((s.addCall c).withBroker b).Inv := by
  have hunheld {l : Nat} {i : String} (hi : i ∈ c.reserved) : ¬s.Holds l i := fun hl =>
    hfree i hi (Broker.isLoaded_iff.2 (.inl ((h.reserved i).2 ⟨l, hl⟩)))
  exact {
    wf := hb
    reserved i := by
      simp only [broker_withBroker, hclaimed, List.mem_append, h.reserved, holds_withBroker,
        holds_addCall, exists_or, exists_eq_left]
    exclusive hl hm := by
      obtain ⟨rfl, hi⟩ | hl := holds_addCall.1 hl <;> obtain ⟨rfl, hi'⟩ | hm := holds_addCall.1 hm
      · rfl
      · exact absurd hm (hunheld hi)
      · exact absurd hl (hunheld hi')
      · exact h.exclusive hl hm
    disjoint := hroster ▸ h.disjoint
    registered e he := (h.registered e (hroster ▸ he)).imp fun _ => registered_addCall
    apart {l i e} hl he hie := by
      have he : e ∈ s.broker.roster := hroster ▸ he
      obtain ⟨-, hi⟩ | hl := holds_addCall.1 hl
      · exact absurd (Broker.isLoaded_iff.2 (.inr ⟨e.1, e.2, he, hie⟩)) (hfree i hi)
      · exact registered_addCall (h.apart hl he hie) }

/-- A call that registers its backend still holds the identifiers of that backend, so that no other
backend can have one of them. -/
theorem Inv.register (h : s.Inv) {launch : Launch} {x : PeerId} (hb : b.Wf)
    (hk : s.calls[k]? = some (.running launch .started))
    (hroster : b.roster = s.broker.roster ++ [(x, launch.identifiers)])
    (hclaimed : b.claimed = s.broker.claimed) :
    ((s.setCall k (.running launch (.registered x))).withBroker b).Inv := by
  have hheld {i : String} (hi : i ∈ launch.identifiers) : s.Holds k i := ⟨_, hk, hi⟩
  have hapart {e : PeerId × List String} (he : e ∈ s.broker.roster) :
      e.2.Disjoint launch.identifiers := by
    intro i hie hi
    obtain ⟨c, hc, hreg⟩ := h.apart (hheld hi) he hie
    cases hk.symm.trans hc
    cases hreg
  have hmem {e : PeerId × List String} :
      e ∈ b.roster ↔ e ∈ s.broker.roster ∨ e = (x, launch.identifiers) := by
    rw [hroster, List.mem_append, List.mem_singleton]
  have hgo : (s.setCall k (.running launch (.registered x))).Inv := h.restage hk rfl
  have hnew :
      (s.setCall k (.running launch (.registered x))).Registered k (x, launch.identifiers) :=
    ⟨_, by rw [getElem?_setCall hk, if_pos rfl], rfl⟩
  exact {
    wf := hb
    reserved i := by
      rw [broker_withBroker, hclaimed]
      exact hgo.reserved i
    exclusive := hgo.exclusive
    disjoint := by
      rw [broker_withBroker, hroster, List.pairwise_append]
      exact ⟨h.disjoint, List.pairwise_singleton .., fun e he f hf => by
        rw [List.mem_singleton] at hf
        exact hf ▸ hapart he⟩
    registered e he := by
      obtain he | rfl := hmem.1 he
      · exact hgo.registered e he
      · exact ⟨k, hnew⟩
    apart {l i e} hl he hie := by
      obtain he | rfl := hmem.1 he
      · exact hgo.apart hl he hie
      · exact h.exclusive ((holds_restage hk).1 hl) (hheld hie) ▸ hnew }

theorem Inv.release (h : s.Inv) {launch : Launch} {stage : LoadStage}
    {result : Except BrokerError PeerId} (hk : s.calls[k]? = some (.running launch stage))
    (hresult : stage.result? = some result) :
    ((s.setCall k (.done launch result)).withBroker (s.broker.release launch.identifiers)).Inv := by
  have hheld {i : String} (hi : i ∈ launch.identifiers) : s.Holds k i := ⟨_, hk, hi⟩
  have hkept (e : PeerId × List String)
      (he : (LoadCall.running launch stage).registered? = some e) :
      (LoadCall.done launch result).registered? = some e := by
    cases stage <;> cases hresult <;> exact he
  have hholds (l : Nat) (i : String) :
      (s.setCall k (.done launch result)).Holds l i ↔ l ≠ k ∧ s.Holds l i := by
    simp [holds_setCall hk, LoadCall.reserved]
  exact {
    wf := h.wf.of_sublist (.refl _) rfl
    reserved i := by
      simp only [broker_withBroker, Broker.release, List.mem_filter, h.reserved, holds_withBroker,
        hholds, Bool.not_eq_true', List.contains_eq_mem, decide_eq_false_iff_not]
      constructor
      · rintro ⟨⟨l, hl⟩, hi⟩
        refine ⟨l, ?_, hl⟩
        rintro rfl
        obtain ⟨c, hc, hic⟩ := hl
        cases hk.symm.trans hc
        exact hi hic
      · rintro ⟨l, hlk, hl⟩
        exact ⟨⟨l, hl⟩, fun hi => hlk (h.exclusive hl (hheld hi))⟩
    exclusive hl hm := h.exclusive ((hholds ..).1 hl).2 ((hholds ..).1 hm).2
    disjoint := h.disjoint
    registered e he := (h.registered e he).imp fun _ => registered_setCall hk hkept
    apart hl he hi := registered_setCall hk hkept (h.apart ((hholds ..).1 hl).2 he hi) }

theorem Inv.other (h : s.Inv) (hb : b.Wf) (hloads : LoadsNothing s.broker b) :
    (s.withBroker b).Inv where
  wf := hb
  reserved i := hloads.claimed ▸ h.reserved i
  exclusive := h.exclusive
  disjoint := h.disjoint.sublist hloads.roster
  registered e he := h.registered e (hloads.roster.subset he)
  apart hl he hi := h.apart hl (hloads.roster.subset he) hi

theorem reserve_eq_ok_iff {spec : DriverSpec} {launch : Launch} :
    s.reserve spec = .ok (launch, b) ↔ s.shutdownRequested = false ∧
      Launch.ofSpec s.builtins spec = .ok launch ∧ s.broker.claim launch.identifiers = .ok b := by
  unfold reserve
  cases hs : s.shutdownRequested with
  | true => simp [bind, Except.bind]
  | false =>
    simp only [bind_eq_ok_iff, Bool.false_eq_true, ↓reduceIte, true_and]
    constructor
    · rintro ⟨_, hl, _, hb, ⟨⟩⟩
      exact ⟨hl, hb⟩
    · rintro ⟨hl, hb⟩
      exact ⟨_, hl, _, hb, rfl⟩

theorem Inv.step (h : s.Inv) (t : LoadStep) : (s.step t).Inv := by
  cases t with
  | call spec =>
    simp only [Loader.step]
    cases hr : s.reserve spec with
    | ok r =>
      obtain ⟨launch, b⟩ := r
      obtain ⟨-, -, hclaim⟩ := reserve_eq_ok_iff.1 hr
      obtain ⟨hfree, hclaimed⟩ := Broker.claim_eq_ok_iff.1 hclaim
      have hb : b.Wf := hclaimed ▸ h.wf.of_sublist (.refl _) rfl
      exact h.addCall hb (hclaimed ▸ rfl) (hclaimed ▸ rfl) hfree
    | error e =>
      exact h.addCall h.wf rfl rfl (by simp [LoadCall.reserved])
  | start k outcome =>
    simp only [Loader.step]
    split
    · rename_i hk
      split
      · exact h.restage hk rfl
      · exact h.restage hk rfl
    · exact h
  | register k =>
    simp only [Loader.step]
    split
    · rename_i launch hk
      unfold Broker.register
      cases hdown : s.broker.isShutDown with
      | true => exact h.restage hk rfl
      | false =>
        have hb := h.wf.addPeer (.backend ⟨launch.kind, launch.identifiers, []⟩) fun d hd => by
          cases hd
          rfl
        exact h.register hb hk (Broker.roster_addPeer_backend _) rfl
    · exact h
  | release k =>
    simp only [Loader.step]
    split
    · rename_i hk
      split
      · rename_i hresult
        exact h.release hk hresult
      · exact h
    · exact h
  | requestShutdown => exact ⟨h.wf, h.reserved, h.exclusive, h.disjoint, h.registered, h.apart⟩
  | other a ha => exact h.other (h.wf.act a) (Broker.loadsNothing_act ha)

theorem Inv.after (h : s.Inv) (ts : List LoadStep) : (s.after ts).Inv := by
  induction ts generalizing s with
  | nil => exact h
  | cons t ts ih => exact ih (h.step t)

theorem inv_ofBroker (builtins : List String) (policies : List AcceptPolicy)
    (startedAt : Time.Millis) : (ofBroker builtins (.ofPolicies policies startedAt)).Inv where
  wf := .ofPolicies policies startedAt
  reserved i := by simp [ofBroker, Broker.ofPolicies, Holds]
  exclusive := by simp [ofBroker, Holds]
  disjoint := .nil
  registered := by simp [ofBroker, Broker.ofPolicies, Broker.roster, Broker.backends]
  apart := by simp [ofBroker, Holds]

theorem holds_step (h : s.Holds k i) {t : LoadStep} (ht : t ≠ .release k) :
    (s.step t).Holds k i := by
  cases t with
  | call spec =>
    simp only [Loader.step]
    split
    · exact holds_addCall.2 (.inr h)
    · exact holds_addCall.2 (.inr h)
  | start l outcome =>
    simp only [Loader.step]
    split
    · rename_i hl
      split
      · exact (holds_restage hl).2 h
      · exact (holds_restage hl).2 h
    · exact h
  | register l =>
    simp only [Loader.step]
    split
    · rename_i hl
      split
      · exact (holds_restage hl).2 h
      · exact (holds_restage hl).2 h
    · exact h
  | release l =>
    have hkl : k ≠ l := by
      rintro rfl
      exact ht rfl
    simp only [Loader.step]
    split
    · rename_i hl
      split
      · exact (holds_setCall hl).2 (.inr ⟨hkl, h⟩)
      · exact h
    · exact h
  | requestShutdown => exact h
  | other a ha => exact h

theorem mem_roster_of_carries {x : PeerId} (h : s.Carries i (.registered x)) :
    ∃ ids, (x, ids) ∈ s.broker.roster ∧ i ∈ ids := by
  cases h with
  | registered hp hi =>
    exact ⟨_, Broker.mem_roster.2 ⟨_, s.broker.mem_of_peer? x hp,
      Peer.isClient_of_mem_identifiers hi, s.broker.id_of_peer? x hp, rfl⟩, hi⟩

theorem Inv.eq_of_mem_roster (h : s.Inv) {f : PeerId × List String} (he : e ∈ s.broker.roster)
    (hf : f ∈ s.broker.roster) (hie : i ∈ e.2) (hif : i ∈ f.2) : e = f := by
  by_contra hne
  have hsymm : Std.Symm fun e f : PeerId × List String => e.2.Disjoint f.2 :=
    ⟨fun _ _ h _ hf he => h he hf⟩
  exact h.disjoint.forall he hf hne hie hif

theorem Inv.not_starting_of_registered (h : s.Inv) {x : PeerId}
    (hk : s.Carries i (.starting k)) : ¬s.Carries i (.registered x) := by
  intro hx
  obtain ⟨ids, he, hi⟩ := mem_roster_of_carries hx
  obtain ⟨hk, hstage, hik⟩ := hk
  obtain ⟨c, hc, hreg⟩ := h.apart ⟨_, hk, hik⟩ he hi
  cases hk.symm.trans hc
  obtain rfl | rfl := hstage <;> cases hreg

theorem Inv.eq_of_carries (h : s.Inv) {u v : Loaded} (hu : s.Carries i u) (hv : s.Carries i v) :
    u = v := by
  cases u with
  | starting k =>
    cases v with
    | starting l =>
      obtain ⟨hk, -, hik⟩ := hu
      obtain ⟨hl, -, hil⟩ := hv
      rw [h.exclusive ⟨_, hk, hik⟩ ⟨_, hl, hil⟩]
    | registered x => exact absurd hv (h.not_starting_of_registered hu)
  | registered x =>
    cases v with
    | starting l => exact absurd hu (h.not_starting_of_registered hv)
    | registered y =>
      obtain ⟨ids, he, hie⟩ := mem_roster_of_carries hu
      obtain ⟨ids', hf, hif⟩ := mem_roster_of_carries hv
      cases h.eq_of_mem_roster he hf hie hif
      rfl

theorem not_holds_of_failed (h : s.Failed k) : ¬s.Holds k i := by
  rintro ⟨c, hc, hi⟩
  obtain ⟨c', e, hc', he⟩ := h
  cases hc.symm.trans hc'
  cases c with
  | refused e => cases hi
  | running launch stage => cases he
  | done launch result => cases hi

theorem not_registered_of_failed (h : s.Failed k) : ¬s.Registered k e := by
  rintro ⟨c, hc, hreg⟩
  obtain ⟨c', e, hc', he⟩ := h
  cases hc.symm.trans hc'
  cases c with
  | refused e => cases hreg
  | running launch stage => cases he
  | done launch result =>
    cases he
    cases hreg

/-- However the steps of any number of calls and everything else that can happen are interleaved,
no two backends that start or are registered share an identifier. Of a call that has failed nothing
is left: whatever is reserved is held by another call, and whichever backend is registered was
registered by another call. What a call has reserved stays reserved until that call gives it up. -/
theorem loading_keeps_identifiers_apart (builtins : List String) (policies : List AcceptPolicy)
    (startedAt : Time.Millis) (ts : List LoadStep) :
    let s := (ofBroker builtins (.ofPolicies policies startedAt)).after ts
    (∀ i u v, s.Carries i u → s.Carries i v → u = v) ∧
    (∀ k, s.Failed k →
      (∀ i ∈ s.broker.claimed, ∃ l, l ≠ k ∧ s.Holds l i) ∧
      (∀ p ∈ s.broker.peers, p.isClient = false →
        ∃ l, l ≠ k ∧ s.Registered l (p.id, p.identifiers))) ∧
    (∀ k i, s.Holds k i → ∀ t, t ≠ .release k → i ∈ (s.step t).broker.claimed) := by
  intro s
  have h : s.Inv := (inv_ofBroker builtins policies startedAt).after ts
  refine ⟨fun i u v => h.eq_of_carries, fun k hk => ⟨fun i hi => ?_, fun p hp hbackend => ?_⟩,
    fun k i hi t ht => ?_⟩
  · obtain ⟨l, hl⟩ := (h.reserved i).1 hi
    refine ⟨l, ?_, hl⟩
    rintro rfl
    exact not_holds_of_failed hk hl
  · obtain ⟨l, hl⟩ := h.registered _ (Broker.mem_roster.2 ⟨p, hp, hbackend, rfl, rfl⟩)
    refine ⟨l, ?_, hl⟩
    rintro rfl
    exact not_registered_of_failed hk hl
  · exact ((h.step t).reserved i).2 ⟨k, holds_step hi ht⟩

end

/-- A camera fails to start, which makes way for the third call, not for the second. -/
example :
    let camera : DriverSpec := ⟨.builtin, "camera"⟩
    let failure := BrokerError.startFailed "camera" "no such device"
    let s := (ofBroker ["camera"] (.ofPolicies [] 0)).after
      [.call camera, .start 0 (.error failure), .call camera, .release 0, .call camera,
        .start 2 (.ok ()), .register 2, .release 2]
    s.calls = [.done (.builtin "camera") (.error failure),
      .refused (.alreadyLoaded "class+-+camera"), .done (.builtin "camera") (.ok 1)] := by
  decide

section

variable {s : Loader} {b : Broker} {launch : Launch}

theorem getElem?_last {c : LoadCall} :
    ((s.addCall c).withBroker b).calls[s.calls.length]? = some c := List.getElem?_concat_length

theorem setCall_last {c d : LoadCall} :
    ((s.addCall c).withBroker b).setCall s.calls.length d = (s.addCall d).withBroker b := by
  simp [setCall, withBroker, addCall]

theorem step_call {spec : DriverSpec} (h : s.reserve spec = .ok (launch, b)) :
    s.step (.call spec) = (s.addCall (.running launch .starting)).withBroker b := by
  simp only [step, h]

theorem step_start {outcome : Except BrokerError Unit} :
    ((s.addCall (.running launch .starting)).withBroker b).step (.start s.calls.length outcome) =
      (s.addCall (.running launch (match outcome with
        | .ok () => .started
        | .error e => .failed e))).withBroker b := by
  simp only [step, getElem?_last]
  split <;> exact setCall_last

theorem step_register :
    ((s.addCall (.running launch .started)).withBroker b).step (.register s.calls.length) =
      match b.register launch.kind launch.identifiers with
      | (b, some x, _) => (s.addCall (.running launch (.registered x))).withBroker b
      | (_, none, _) => (s.addCall (.running launch (.failed .shutdown))).withBroker b := by
  simp only [step, getElem?_last, broker_withBroker]
  split <;> rename_i h
  · rw [setCall_last]
    rfl
  · exact setCall_last

theorem step_release {stage : LoadStage} {result : Except BrokerError PeerId}
    (h : stage.result? = some result) :
    ((s.addCall (.running launch stage)).withBroker b).step (.release s.calls.length) =
      (s.addCall (.done launch result)).withBroker (b.release launch.identifiers) := by
  simp only [step, getElem?_last, h, setCall_last]
  rfl

end

theorem exists_after_others {as : List Action} (h : ∀ a ∈ as, a.isLoading = false) (s : Loader) :
    ∃ ts, s.after ts = s.withBroker (s.broker.after as) := by
  induction as generalizing s with
  | nil => exact ⟨[], rfl⟩
  | cons a as ih =>
    have hrest : ∀ c ∈ as, c.isLoading = false := fun c hc => h c (List.mem_cons_of_mem a hc)
    obtain ⟨ts, hts⟩ := ih hrest (s.withBroker (s.broker.act a).1)
    exact ⟨.other a (h a List.mem_cons_self) :: ts, hts⟩

end Loader

namespace Server

def loader (s : Server) (calls : List LoadCall) : Loader :=
  ⟨builtins, s.broker, s.shutdownRequested, calls⟩

/-- On the way from `s` to `s'` things happened to the broker, and no driver was loaded. -/
structure Runs (s s' : Server) : Prop where
  actions : ∃ as : List Action,
    (∀ a ∈ as, a.isLoading = false) ∧ s'.broker = s.broker.after as
  shutdownRequested : s'.shutdownRequested = s.shutdownRequested

namespace Runs

variable {s s' s'' : Server}

protected theorem refl (s : Server) : Runs s s := ⟨⟨[], by simp⟩, rfl⟩

protected theorem trans (h : Runs s s') (h' : Runs s' s'') : Runs s s'' := by
  obtain ⟨⟨as, has, hs⟩, hshutdown⟩ := h
  obtain ⟨⟨cs, hcs, hs'⟩, hshutdown'⟩ := h'
  refine ⟨⟨as ++ cs, ?_, by rw [hs', hs, Broker.after_append]⟩, hshutdown'.trans hshutdown⟩
  intro a ha
  obtain ha | ha := List.mem_append.1 ha
  · exact has a ha
  · exact hcs a ha

theorem of_act {a : Action} (ha : a.isLoading = false) (hs : s'.broker = (s.broker.act a).1)
    (hshutdown : s'.shutdownRequested = s.shutdownRequested) : Runs s s' :=
  ⟨⟨[a], by simpa using ha, hs⟩, hshutdown⟩

theorem routeAll (s : Server) (origin : PeerId) (ms : List Message) :
    Runs s (s.routeAll origin ms).1 := by
  induction ms generalizing s with
  | nil => exact .refl s
  | cons m ms ih =>
    have hroute : Runs s { s with broker := (s.broker.route origin m).1 } :=
      of_act (a := .route origin m) rfl rfl rfl
    exact hroute.trans (ih _)

theorem react (s : Server) (now : Time.Millis) (e : Effect) : Runs s (s.react now e).1 := by
  cases e with
  | queue x m =>
    simp only [Server.react]
    split
    · rename_i c _
      have hset : Runs s (s.setDriver x (c.handle now m).1) := ⟨⟨[], by simp, rfl⟩, rfl⟩
      exact hset.trans (routeAll ..)
    · exact .refl s
  | close x => exact .refl s
  | stop x => exact of_act (a := .deregister now x) rfl rfl rfl
  | event e => exact .refl s

theorem reactAll (s : Server) (now : Time.Millis) (es : List Effect) :
    Runs s (s.reactAll now es).1 := by
  induction es generalizing s with
  | nil => exact .refl s
  | cons e es ih => exact (react s now e).trans (ih _)

theorem exists_steps (h : Runs s s') (calls : List LoadCall) :
    ∃ ts, (s.loader calls).after ts = s'.loader calls := by
  obtain ⟨⟨as, has, hbroker⟩, hshutdown⟩ := h
  obtain ⟨ts, hts⟩ := Loader.exists_after_others has (s.loader calls)
  refine ⟨ts, hts.trans ?_⟩
  simp only [loader, Loader.withBroker, hbroker, hshutdown]

theorem settleFor (rounds : Nat) (s : Server) (now : Time.Millis) (es : List Effect) :
    Runs s (Server.settleFor rounds s now es).1 := by
  induction rounds generalizing s es with
  | zero => exact .refl s
  | succ rounds ih => exact (reactAll s now es).trans (ih ..)

end Runs

section

variable {s : Server} {now : Time.Millis} {spec : DriverSpec} {calls : List LoadCall}
  {outcome : Except BrokerError Unit}

@[simp] theorem broker_addDriver (peer : PeerId) (launch : Launch) :
    (s.addDriver now peer launch).broker = s.broker := by
  cases launch <;> rfl

@[simp] theorem shutdownRequested_addDriver (peer : PeerId) (launch : Launch) :
    (s.addDriver now peer launch).shutdownRequested = s.shutdownRequested := by
  cases launch <;> rfl

theorem load_of_refused {e : BrokerError} (h : (s.loader calls).reserve spec = .error e) :
    s.load now spec outcome = .error e := by
  simp only [Loader.reserve, loader] at h
  simp only [load]
  cases hs : s.shutdownRequested with
  | true => simpa [hs, bind, Except.bind] using h
  | false =>
    cases hl : Launch.ofSpec builtins spec with
    | error e' => simpa [hs, hl, bind, Except.bind] using h
    | ok launch =>
      cases hb : s.broker.claim launch.identifiers with
      | error e' => simpa [hs, hl, hb, bind, Except.bind] using h
      | ok b => simp [hs, hl, hb, bind, Except.bind] at h

theorem load_of_reserved {launch : Launch} {b : Broker}
    (h : (s.loader calls).reserve spec = .ok (launch, b)) :
    s.load now spec outcome = (startDriver { s with broker := b } now launch outcome).map fun r =>
      ({ r.2.1 with broker := r.2.1.broker.release launch.identifiers }, r.2.2) := by
  obtain ⟨hshutdown, hlaunch, hclaim⟩ := Loader.reserve_eq_ok_iff.1 h
  have hshutdown : s.shutdownRequested = false := hshutdown
  have hlaunch : Launch.ofSpec builtins spec = .ok launch := hlaunch
  have hclaim : s.broker.claim launch.identifiers = .ok b := hclaim
  simp only [load, hshutdown, hlaunch, hclaim, bind, Except.bind, Bool.false_eq_true, ↓reduceIte]
  cases startDriver { s with broker := b } now launch outcome <;> rfl

end

/-- To load a driver is to make a call and take all its steps in turn. -/
theorem load_is_run (s : Server) (now : Time.Millis) (spec : DriverSpec)
    (outcome : Except BrokerError Unit) (calls : List LoadCall) :
    match s.load now spec outcome with
    | .ok (s', _) => ∃ ts launch x,
        (s.loader calls).after ts = s'.loader (calls ++ [.done launch (.ok x)])
    | .error e => ∃ ts c,
        (s.loader calls).after ts = s.loader (calls ++ [c]) ∧ c.result? = some (.error e) := by
  cases hr : (s.loader calls).reserve spec with
  | error e =>
    rw [load_of_refused hr]
    refine ⟨[.call spec], .refused e, ?_, rfl⟩
    simp only [Loader.after_cons, Loader.after_nil, Loader.step, hr]
    rfl
  | ok r =>
    obtain ⟨launch, b⟩ := r
    obtain ⟨-, -, hclaim⟩ := Loader.reserve_eq_ok_iff.1 hr
    have hundo := Broker.release_of_claim hclaim
    have hcall := Loader.step_call hr
    -- A call that fails has given back what it reserved, and nothing else was changed.
    have hfails {e : BrokerError} {ts : List LoadStep}
        (hts : (s.loader calls).after ts =
          ((s.loader calls).addCall (.running launch (.failed e))).withBroker b) :
        ∃ ts c, (s.loader calls).after ts = s.loader (calls ++ [c]) ∧
          c.result? = some (.error e) := by
      refine ⟨ts ++ [.release calls.length], .done launch (.error e), ?_, rfl⟩
      rw [Loader.after_append, hts]
      refine (Loader.step_release rfl).trans ?_
      rw [hundo]
      rfl
    have hstart (outcome : Except BrokerError Unit) :
        (s.loader calls).after [.call spec, .start calls.length outcome] = _ :=
      (congrArg (Loader.step · _) hcall).trans Loader.step_start
    rw [load_of_reserved hr]
    cases outcome with
    | error e => exact hfails (hstart (.error e))
    | ok _ =>
      have hregister : (s.loader calls).after
          [.call spec, .start calls.length (.ok ()), .register calls.length] = _ :=
        (congrArg (Loader.step · _) (hstart (.ok ()))).trans Loader.step_register
      simp only [startDriver, bind, Except.bind]
      cases hreg : b.register launch.kind launch.identifiers with
      | mk c r =>
        obtain ⟨x?, effects⟩ := r
        rw [hreg] at hregister
        cases x? with
        | none => exact hfails hregister
        | some x =>
          -- The driver answers its backend before the call gives its reservation up.
          let started : Server := { s with broker := c }.addDriver now x launch
          have hstarted : started.loader (calls ++ [.running launch (.registered x)]) =
              ((s.loader calls).addCall (.running launch (.registered x))).withBroker c := by
            simp only [started, loader, broker_addDriver, shutdownRequested_addDriver]
            rfl
          obtain ⟨ts, hts⟩ := (Runs.settleFor 2 started now effects).exists_steps
            (calls ++ [.running launch (.registered x)])
          refine ⟨[.call spec, .start calls.length (.ok ()), .register calls.length] ++
            (ts ++ [.release calls.length]), launch, x, ?_⟩
          let settled := (started.settle now effects).1
          have hrelease : (settled.loader (calls ++ [.running launch (.registered x)])).step
              (.release calls.length) = _ :=
            Loader.step_release (s := settled.loader calls) (b := settled.broker) rfl
          rw [Loader.after_append, hregister.trans hstarted.symm, Loader.after_append]
          exact (congrArg (Loader.step · _) hts).trans hrelease

end Server
end InstrumentBus
