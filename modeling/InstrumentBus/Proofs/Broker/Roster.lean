import InstrumentBus.Proofs.Broker.Run

/-!
The roster of a broker: its backends, with the identifiers that they are loaded under. Registration
adds to it. Whatever else happens to a broker leaves it as it is, or shortens it.
-/

namespace InstrumentBus

def Action.isLoading : Action → Bool
  | .register .. | .claim _ | .release _ => true
  | _ => false

namespace Peer

variable (p : Peer)

theorem isClient_of_mem_identifiers {p : Peer} {i : String} (h : i ∈ p.identifiers) :
    p.isClient = false := by
  cases hrole : p.role with
  | client => simp [identifiers, backend?, hrole] at h
  | backend d => simp [isClient, backend?, hrole]

end Peer

namespace Broker

def roster (b : Broker) : List (PeerId × List String) :=
  b.backends.map fun p => (p.id, p.identifiers)

variable {b c d : Broker}

theorem mem_roster {x : PeerId} {ids : List String} :
    (x, ids) ∈ b.roster ↔
      ∃ p ∈ b.peers, p.isClient = false ∧ p.id = x ∧ p.identifiers = ids := by
  simp [roster, backends, and_assoc]

theorem roster_addPeer_client : (b.addPeer .client).1.roster = b.roster := by
  simp [roster, backends, addPeer, Peer.isClient, Peer.backend?]

theorem roster_addPeer_backend (d : Backend) :
    (b.addPeer (.backend d)).1.roster = b.roster ++ [(b.lastId + 1, d.identifiers)] := by
  simp [roster, backends, addPeer, Peer.isClient, Peer.backend?, Peer.identifiers]

theorem isLoaded_iff {i : String} :
    b.isLoaded i = true ↔ i ∈ b.claimed ∨ ∃ x ids, (x, ids) ∈ b.roster ∧ i ∈ ids := by
  simp only [isLoaded, Bool.or_eq_true, List.contains_iff_mem, List.any_eq_true, mem_roster]
  apply or_congr_right
  constructor
  · rintro ⟨p, hp, hi⟩
    exact ⟨p.id, p.identifiers, ⟨p, hp, Peer.isClient_of_mem_identifiers hi, rfl, rfl⟩, hi⟩
  · rintro ⟨-, -, ⟨p, hp, -, rfl, rfl⟩, hi⟩
    exact ⟨p, hp, hi⟩

theorem claim_eq_ok_iff {ids : List String} :
    b.claim ids = .ok c ↔
      (∀ i ∈ ids, ¬b.isLoaded i = true) ∧ c = { b with claimed := ids ++ b.claimed } := by
  unfold claim
  cases h : ids.find? b.isLoaded with
  | none =>
    rw [List.find?_eq_none] at h
    simp only [Except.ok.injEq]
    exact ⟨fun hc => ⟨h, hc.symm⟩, fun hc => hc.2.symm⟩
  | some i =>
    have hi := List.find?_some h
    have hmem := List.mem_of_find?_eq_some h
    simp only [reduceCtorEq, false_iff, not_and]
    exact fun hfree => absurd hi (hfree i hmem)

theorem release_of_claim {ids : List String} (h : b.claim ids = .ok c) : c.release ids = b := by
  obtain ⟨hfree, rfl⟩ := claim_eq_ok_iff.1 h
  have hold : ∀ i ∈ b.claimed, i ∉ ids := fun i hi hid => hfree i hid (isLoaded_iff.2 (.inl hi))
  have hkept : b.claimed.filter (!ids.contains ·) = b.claimed :=
    List.filter_eq_self.2 fun i hi => by simp [hold i hi]
  have hgone : ids.filter (!ids.contains ·) = [] :=
    List.filter_eq_nil_iff.2 fun i hi => by simp [hi]
  simp only [release, List.filter_append, hgone, hkept, List.nil_append]

/-- On the way from `b` to `c` no backend came, and no identifier was reserved or given up. -/
structure LoadsNothing (b c : Broker) : Prop where
  roster : c.roster.Sublist b.roster
  claimed : c.claimed = b.claimed

namespace LoadsNothing

protected theorem refl (b : Broker) : LoadsNothing b b := ⟨.refl _, rfl⟩

protected theorem trans (h : LoadsNothing b c) (h' : LoadsNothing c d) : LoadsNothing b d :=
  ⟨h'.roster.trans h.roster, h'.claimed.trans h.claimed⟩

theorem filter (keeps : Peer → Bool) :
    LoadsNothing b { b with peers := b.peers.filter keeps } :=
  ⟨(List.filter_sublist.filter _).map _, rfl⟩

end LoadsNothing

theorem Retains.loadsNothing (h : Retains b c) : LoadsNothing b c := by
  obtain ⟨f, hf, rfl⟩ := h
  refine ⟨?_, rfl⟩
  simp [roster, backends, Broker.mapPeers, List.filter_map, Function.comp_def, hf.id, hf.isClient,
    hf.identifiers]

theorem loadsNothing_act {a : Action} (h : a.isLoading = false) : LoadsNothing b (b.act a).1 := by
  cases a with
  | accept address =>
    simp only [act, accept]
    split
    · exact .refl b
    · split
      · exact .refl b
      · exact ⟨by rw [roster_addPeer_client], rfl⟩
  | register kind identifiers => cases h
  | claim identifiers => cases h
  | release identifiers => cases h
  | route origin m => exact (Retains.route origin m).loadsNothing
  | deregister now x => exact (LoadsNothing.filter _).trans (Retains.deregister now x).loadsNothing
  | unload identifier => exact .refl b
  | shutdown =>
    have hgone : LoadsNothing b { b with peers := b.backends } := .filter _
    exact ⟨hgone.roster, rfl⟩

end Broker
end InstrumentBus
