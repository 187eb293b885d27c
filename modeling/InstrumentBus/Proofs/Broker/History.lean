import InstrumentBus.Proofs.Broker.Run
import Mathlib.Data.List.Induction

/-!
What a run has left in the listener of a peer. One step changes a listener in few ways, `heed`; a
condition that starts with some steps and stops with others then holds at the end of a run exactly
if it started in it and has not stopped since.
-/

namespace InstrumentBus

namespace Listener

def heed (x : PeerId) (p : Peer) (m : Message) (l : Listener) : Listener :=
  match m with
  | .discover r =>
    if x = p.id ∧ ¬(p.isClient && r.version.all String.isEmpty) then l.listen r else l
  | .payloads r => if x = p.id then l.setPolicy r else l
  | .remove r => if p.isClient then l else l.prune r.device r.name
  | _ => l

def pruneAll (devices : List String) (l : Listener) : Listener :=
  { l with properties := l.properties.filter fun p => !devices.contains p.1 }

@[simp] theorem pruneAll_nil (l : Listener) : l.pruneAll [] = l := by
  simp [pruneAll]

@[simp] theorem pruneAll_sorted (devices : List String) (l : Listener) :
    l.pruneAll (Broker.sorted devices) = l.pruneAll devices := by
  simp [pruneAll, Broker.sorted]

end Listener

namespace Broker

def heed (b : Broker) (x : PeerId) (a : Action) (l : Listener) : Listener :=
  match a with
  | .route origin m => ((b.peer? origin).map fun p => l.heed x p m).getD l
  | .deregister _ id => l.pruneAll (((b.peer? id).map Peer.names).getD [])
  | _ => l

variable (b : Broker) (x : PeerId)

theorem listener?_dropDevices (origin : PeerId) (timestamp : String) (devices : List String) :
    (b.dropDevices origin timestamp devices).1.listener? x =
      (b.listener? x).map (·.pruneAll devices) := by
  induction devices generalizing b with
  | nil =>
    cases h : b.listener? x with
    | none => simp [dropDevices, h]
    | some l => simp [dropDevices, h, Listener.pruneAll]
  | cons device devices ih =>
    simp only [dropDevices, ih, listener?_dropDevice, Option.map_map]
    congr 1
    funext l
    simp only [Function.comp_apply, Listener.pruneAll, Listener.prune, Removal.ofDevice,
      List.filter_filter, Listener.mk.injEq, true_and, and_true]
    congr 1
    funext p
    by_cases hp : p.1 = device <;> simp [hp]

theorem listener?_routeFrom {p : Peer} (m : Message) :
    (b.routeFrom p m).1.listener? x = (b.listener? x).map (·.heed x p m) := by
  have same : (b.listener? x).map (fun l => l) = b.listener? x := Option.map_id'
  cases m with
  | discover r =>
    simp only [routeFrom, Listener.heed]
    split
    · rename_i h
      simp [h]
    · rename_i h
      by_cases hx : x = p.id <;> simp [routeDiscovery, hx, h]
  | change r => exact same.symm
  | payloads r =>
    by_cases hx : x = p.id <;> simp [routeFrom, Listener.heed, hx]
  | define d =>
    simp only [routeFrom, Listener.heed]
    split <;> simp [routeReport]
  | update u =>
    simp only [routeFrom, Listener.heed]
    split <;> simp [routeReport]
  | notify n =>
    simp only [routeFrom, Listener.heed]
    split
    · exact same.symm
    · unfold routeNotice
      split <;> simp
  | remove r =>
    simp only [routeFrom, Listener.heed]
    split
    · exact same.symm
    · unfold routeRemoval
      split <;> rename_i h <;> simp [h]

theorem listener?_deregister (now : Time.Millis) (id : PeerId) :
    (b.deregister now id).1.listener? x =
      if x = id then none
      else (b.listener? x).map (·.pruneAll (((b.peer? id).map Peer.names).getD [])) := by
  have removed : ({ b with peers := b.peers.filter (·.id != id) } : Broker).listener? x =
      if x = id then none else b.listener? x := by
    rw [listener?, peer?_filter]
    split <;> rfl
  unfold deregister
  cases hp : b.peer? id with
  | none =>
    by_cases hx : x = id
    · simp [hx, listener?, hp]
    · simp [hx]
  | some p =>
    cases hr : p.role with
    | client =>
      have hnames : p.names = [] := by simp [Peer.names, Peer.backend?, hr]
      dsimp only
      rw [hr]
      simp [removed, hnames]
    | backend d =>
      have hnames : p.names = d.names := by simp [Peer.names, Peer.backend?, hr]
      dsimp only
      rw [hr]
      simp only [listener?_dropDevices, removed]
      by_cases hx : x = id
      · simp [hx]
      · simp [hx, hnames]

theorem listener?_addPeer {role : Role} {l : Listener}
    (h : (b.addPeer role).1.listener? x = some l) :
    b.listener? x = some l ∨ b.listener? x = none ∧ b.lastId < x ∧ l = .empty := by
  simp only [listener?, peer?_addPeer] at h ⊢
  cases hp : b.peer? x with
  | some p => simp_all
  | none =>
    simp only [hp, Option.none_or] at h
    split at h <;> simp_all

/-- A peer that stays registered has its listener changed by `heed`, and a new peer has an empty
one and an id that nobody has had. -/
theorem listener?_act (hb : b.Wf) {a : Action} {l : Listener} (h : (b.act a).1.listener? x = some l) :
    (∃ k, b.listener? x = some k ∧ l = b.heed x a k) ∨
      b.listener? x = none ∧ b.lastId < x ∧ l = .empty := by
  cases a with
  | accept address =>
    simp only [act, accept] at h
    split at h
    · exact .inl ⟨l, h, rfl⟩
    · split at h
      · exact .inl ⟨l, h, rfl⟩
      · exact (listener?_addPeer b x h).imp_left fun h => ⟨l, h, rfl⟩
  | register kind identifiers =>
    simp only [act, register] at h
    split at h
    · exact .inl ⟨l, h, rfl⟩
    · exact (listener?_addPeer b x h).imp_left fun h => ⟨l, h, rfl⟩
  | claim identifiers =>
    simp only [act, claim] at h
    split at h <;> exact .inl ⟨l, h, rfl⟩
  | release identifiers => exact .inl ⟨l, h, rfl⟩
  | route origin m =>
    simp only [act, route] at h
    cases hp : b.peer? origin with
    | none =>
      rw [hp] at h
      exact .inl ⟨l, h, by simp [heed, hp]⟩
    | some p =>
      rw [hp] at h
      dsimp only at h
      rw [listener?_routeFrom] at h
      obtain ⟨k, hk, rfl⟩ := Option.map_eq_some_iff.1 h
      exact .inl ⟨k, hk, by simp [heed, hp]⟩
  | deregister now id =>
    simp only [act, listener?_deregister] at h
    split at h
    · simp at h
    · obtain ⟨k, hk, rfl⟩ := Option.map_eq_some_iff.1 h
      exact .inl ⟨k, hk, rfl⟩
  | unload identifier => exact .inl ⟨l, h, rfl⟩
  | shutdown =>
    obtain ⟨p, hp, rfl⟩ := Option.map_eq_some_iff.1 h
    have hp' : b.peer? x = some p :=
      hb.peer?_eq_some_iff.2 ⟨List.mem_of_mem_filter (mem_of_peer? _ _ hp), id_of_peer? _ _ hp⟩
    exact .inl ⟨p.listener, by simp [listener?, hp'], rfl⟩

/-- Some step `starts`, and no later one `stops`. Each step is looked at with the broker before
it. -/
def Since (b : Broker) (starts stops : Broker → Action → Prop) (as : List Action) : Prop :=
  ∃ pre a post, as = pre ++ a :: post ∧ starts (b.after pre) a ∧
    ∀ mid c rest, post = mid ++ c :: rest → ¬stops (b.after (pre ++ a :: mid)) c

section

variable {b : Broker} {starts stops : Broker → Action → Prop}

theorem not_since_nil : ¬Since b starts stops [] := by
  rintro ⟨pre, a, post, h, -⟩
  simp at h

theorem concat_eq_append_cons {as pre post : List Action} {a c : Action} :
    as ++ [a] = pre ++ c :: post ↔
      pre = as ∧ c = a ∧ post = [] ∨ ∃ rest, post = rest ++ [a] ∧ as = pre ++ c :: rest := by
  constructor
  · intro h
    obtain rfl | ⟨rest, d, rfl⟩ := post.eq_nil_or_concat'
    · obtain ⟨has, hac⟩ := List.append_inj' h rfl
      exact .inl ⟨has.symm, (List.singleton_inj.1 hac).symm, rfl⟩
    · have h : as ++ [a] = (pre ++ c :: rest) ++ [d] := by simpa using h
      obtain ⟨has, had⟩ := List.append_inj' h rfl
      exact .inr ⟨rest, by rw [had], has⟩
  · rintro (⟨rfl, rfl, rfl⟩ | ⟨rest, rfl, rfl⟩) <;> simp

theorem since_concat {as : List Action} {a : Action} :
    Since b starts stops (as ++ [a]) ↔
      starts (b.after as) a ∨ Since b starts stops as ∧ ¬stops (b.after as) a := by
  constructor
  · rintro ⟨pre, c, post, h, hstart, hstop⟩
    obtain ⟨rfl, rfl, rfl⟩ | ⟨rest, rfl, rfl⟩ := concat_eq_append_cons.1 h
    · exact .inl hstart
    · refine .inr ⟨⟨pre, c, rest, rfl, hstart, ?_⟩, hstop rest a [] rfl⟩
      intro mid d tail hd
      exact hstop mid d (tail ++ [a]) (by simp [hd])
  · rintro (hstart | ⟨⟨pre, c, post, rfl, hstart, hstop⟩, hlast⟩)
    · exact ⟨as, a, [], rfl, hstart, by simp⟩
    · refine ⟨pre, c, post ++ [a], by simp, hstart, ?_⟩
      intro mid d rest h
      obtain ⟨rfl, rfl, rfl⟩ | ⟨tail, rfl, hd⟩ := concat_eq_append_cons.1 h
      · exact hlast
      · exact hstop mid d tail hd

def Leaves (x : PeerId) (b : Broker) (a : Action) : Prop := (b.act a).1.listener? x = none

theorem isSome_of_since {x : PeerId}
    (hstart : ∀ b a, starts b a → ((b.act a).1.listener? x).isSome)
    (hstop : ∀ b a, Leaves x b a → stops b a) {as : List Action} (h : Since b starts stops as) :
    ((b.after as).listener? x).isSome := by
  obtain rfl | ⟨as, a, rfl⟩ := as.eq_nil_or_concat'
  · exact absurd h not_since_nil
  · rw [after_append, after_singleton]
    obtain h | ⟨-, h⟩ := since_concat.1 h
    · exact hstart _ _ h
    · rw [Option.isSome_iff_ne_none]
      exact fun hn => h (hstop _ _ hn)

/-- A property of the listener of `x` that is started and stopped by single steps holds of a
registered peer exactly if it was started and not stopped since. -/
theorem iff_since {x : PeerId} (holds : Listener → Prop) (hb : b.Wf) (hx : b.listener? x = none)
    (hempty : ¬holds .empty)
    (hstart : ∀ b a, starts b a → (b.listener? x).isSome ∧ ((b.act a).1.listener? x).isSome)
    (hstop : ∀ b a, Leaves x b a → stops b a)
    (hstep : ∀ b a l, b.Wf → b.listener? x = some l → ((b.act a).1.listener? x).isSome →
      (holds (b.heed x a l) ↔ starts b a ∨ holds l ∧ ¬stops b a))
    {as : List Action} {l : Listener} (hl : (b.after as).listener? x = some l) :
    holds l ↔ Since b starts stops as := by
  induction as using List.reverseRecOn generalizing l with
  | nil => simp [hx] at hl
  | append_singleton as a ih =>
    rw [after_append, after_singleton] at hl
    rw [since_concat]
    obtain ⟨k, hk, rfl⟩ | ⟨hk, -, rfl⟩ := listener?_act _ x (hb.after as) hl
    · rw [hstep _ _ _ (hb.after as) hk (by simp [hl]), ih hk]
    · refine ⟨fun h => absurd h hempty, ?_⟩
      rintro (h | ⟨h, -⟩)
      · have := (hstart _ _ h).1
        simp [hk] at this
      · have := isSome_of_since (fun b a h => (hstart b a h).2) hstop h
        simp [hk] at this

end

end Broker
end InstrumentBus
