import InstrumentBus.Proofs.Property.Latecomer
import InstrumentBus.Proofs.Property.Verdict

/-!
An update with all elements of a property brings whoever hears it up to date, however far behind:
nothing that the listener has for the property, be it values, ranges, rule or permission, stands in
the way of what the owner reports.
-/

namespace InstrumentBus

structure NumberRange.IsNumeric (r : NumberRange) : Prop where
  min : r.min.isNaN = false
  max : r.max.isNaN = false
  step : r.step.isNaN = false

theorem Value.agrees_eq_bare {v w : Value} (hrange : w.range? = v.range?)
    (hnumeric : ∀ r ∈ v.range?, r.IsNumeric) : v.agrees w = v.bare.agrees w.bare := by
  cases v with
  | number q =>
    cases w with
    | number q' =>
      obtain ⟨x, range⟩ := q
      obtain ⟨y, range'⟩ := q'
      obtain rfl : range' = range := Option.some.inj hrange
      obtain ⟨hmin, hmax, hstep⟩ := hnumeric range' rfl
      rw [bare_agrees_number]
      simp [agrees, Quantity.agrees, Decimal.beq_self hmin, Decimal.beq_self hmax,
        Decimal.beq_self hstep]
    | _ => cases hrange
  | _ =>
    cases w with
    | number q' => cases hrange
    | _ => rfl

namespace Property

open Element (Changed Shows)

/-- A property `q` of the name and the kind of `p` that has elements of the same names, in any
order. -/
structure IsNamesake (p q : Property) : Prop where
  device : q.device = p.device
  name : q.name = p.name
  kind : q.kind = p.kind
  names : ∀ name, name ∈ q.elements.map (·.name) ↔ name ∈ p.elements.map (·.name)

/-- A property `q` that shows all that an update tells of `p`. The timeout of lights is not told. -/
structure IsUpToDate (p q : Property) : Prop where
  state : q.state = p.state
  timeout : p.kind ≠ .light → q.timeout = p.timeout
  timestamp : q.timestamp = p.timestamp
  elements : ∀ e ∈ p.elements, ∃ f ∈ q.elements, Shows e f

/-- The elements of `q` that have another value than those of `p`, but for the ranges of numbers. -/
def IsOutdated (p q : Property) (name : String) : Prop :=
  ∃ e ∈ p.elements, ∃ f ∈ q.elements,
    e.name = name ∧ f.name = name ∧ f.value.bare.agrees e.value.bare = false

/-- What `q` becomes when it takes values for elements and all else that is told of `p`. -/
def refreshed (p q : Property) (now : Time.Millis) (values : List (String × Value)) : Property :=
  { q.setState now p.state with
    elements := (assign q.elements values).elements
    timeout := (p.announcedTimeout.map clampTimeout).getD q.timeout
    timestamp := p.timestamp }

section

variable {p q : Property}

theorem timeout_refreshed (hkind : p.kind ≠ .light) (now : Time.Millis)
    (values : List (String × Value)) : (p.refreshed q now values).timeout = p.timeout := by
  simp [refreshed, announcedTimeout, hkind, clampTimeout_toFloat]

theorem mem_changed_iff_isOutdated (hq : q.IsWellFormed) {values : List (String × Value)}
    (hvalues : List.Forall₂ (fun e v => v.1 = e.name ∧ v.2.bare = e.value.bare) p.elements values)
    (hread : q.interpret .owner p.toUpdate.elements = .ok values)
    (hrange : ∀ f ∈ q.elements, ∀ r ∈ f.value.range?, r.IsNumeric) (name : String) :
    name ∈ (assign q.elements values).changed ↔ p.IsOutdated q name := by
  have hreplaces := replaces_of_interpret hq.names hread
  rw [mem_changed_assign hq.names hreplaces]
  constructor
  · rintro ⟨v, hv, rfl, f, hf, hname, hdiffers⟩
    obtain ⟨e, he, hvname, hbare⟩ := exists_of_forall₂ hvalues v hv
    refine ⟨e, he, f, hf, hvname.symm, hname, ?_⟩
    rwa [← hbare, ← Value.agrees_eq_bare (hreplaces v hv f hf hname).range? (hrange f hf)]
  · rintro ⟨e, he, f, hf, rfl, hname, hdiffers⟩
    obtain ⟨v, hv, hvname, hbare⟩ := exists_of_forall₂ hvalues.flip e he
    refine ⟨v, hv, hvname, f, hf, hname, ?_⟩
    have hreplaced := hreplaces v hv f hf (hname.trans hvname.symm)
    rwa [Value.agrees_eq_bare hreplaced.range? (hrange f hf), hbare]

theorem refreshed_refreshed (now later : Time.Millis) {values values' : List (String × Value)}
    (hvalues : (assign (p.refreshed q now values).elements values').elements =
      (p.refreshed q now values).elements) :
    p.refreshed (p.refreshed q now values) later values' = p.refreshed q now values := by
  have hbusy : ((p.refreshed q now values).setState later p.state).busySince =
      (p.refreshed q now values).busySince := by
    simp only [refreshed, setState]
    split <;> rfl
  have htimeout : (p.announcedTimeout.map clampTimeout).getD (p.refreshed q now values).timeout =
      (p.refreshed q now values).timeout := by
    simp only [refreshed]
    cases p.announcedTimeout <;> rfl
  conv_lhs => rw [refreshed, hvalues, htimeout]
  conv_rhs => rw [refreshed]
  simp only [setState] at hbusy ⊢
  rw [hbusy]
  rfl

end

namespace IsNamesake

variable {p q : Property} (h : IsNamesake p q) (hp : p.IsWellFormed) (hq : q.IsWellFormed)

include h

theorem exists_mem {e : Element} (he : e ∈ p.elements) : ∃ f ∈ q.elements, f.name = e.name :=
  List.mem_map.1 ((h.names e.name).2 (List.mem_map_of_mem he))

include hp hq

theorem interpret (htold : ∀ e ∈ p.elements, e.IsTellable) :
    ∃ values, q.interpret .owner p.toUpdate.elements = .ok values ∧
      List.Forall₂ (fun e v => v.1 = e.name ∧ v.2.bare = e.value.bare) p.elements values := by
  refine interpret_told htold ?_
  intro e he
  obtain ⟨f, hf, hname⟩ := h.exists_mem he
  refine ⟨f, hname ▸ element?_of_mem hq.names hf, ?_⟩
  exact (hq.kinds f hf).trans (h.kind.trans (hp.kinds e he).symm)

variable {values : List (String × Value)}
  (hvalues : List.Forall₂ (fun e v => v.1 = e.name ∧ v.2.bare = e.value.bare) p.elements values)

include hvalues

theorem exists_shows (htold : ∀ e ∈ p.elements, e.IsTellable) :
    ∀ e ∈ p.elements, ∃ f ∈ (assign q.elements values).elements, Shows e f := by
  intro e he
  obtain ⟨f, hf, hname⟩ := h.exists_mem he
  rw [assign, puts_elements hq.names]
  refine ⟨_, List.mem_map_of_mem hf, hname, settled_shows (htold e he).finite ?_ ?_⟩
  · rw [hname]
    exact bare_of_told hp.names (List.Subset.refl _) hvalues he
  · intro hnone
    obtain ⟨v, hv, hvname, -⟩ := exists_of_forall₂ hvalues.flip e he
    simpa [hvname, hname] using List.filter_eq_nil_iff.1 hnone v hv

end IsNamesake

section

variable {p q : Property}

theorem IsNamesake.applyUpdate (h : IsNamesake p q) {values : List (String × Value)}
    (hread : q.interpret .owner p.toUpdate.elements = .ok values) (now : Time.Millis) :
    q.applyUpdate now p.toUpdate =
      .ok (p.refreshed q now values, (assign q.elements values).changed) :=
  applyUpdate_of_interpret
    (checkTarget_eq_ok_iff.2 ⟨h.kind.symm, h.device.symm, h.name.symm⟩) hread rfl

theorem IsNamesake.of_shape (h : IsNamesake p q) {q' : Property} (hshape : q'.shape = q.shape) :
    IsNamesake p q' := by
  have hnames := names_of_outline (congrArg Shape.elements hshape)
  refine ⟨?_, ?_, ?_, ?_⟩
  · exact (congrArg Shape.device hshape).trans h.device
  · exact (congrArg Shape.name hshape).trans h.name
  · exact (congrArg Shape.kind hshape).trans h.kind
  · rw [hnames]
    exact h.names

theorem IsUpToDate.not_isOutdated (h : IsUpToDate p q) (hq : (q.elements.map (·.name)).Nodup)
    (name : String) : ¬p.IsOutdated q name := by
  rintro ⟨e, he, f, hf, rfl, hname, hdiffers⟩
  obtain ⟨f', hf', hshows⟩ := h.elements e he
  have : f' = f := List.inj_on_of_nodup_map hq hf' hf (hshows.name.trans hname.symm)
  subst this
  rw [hshows.value] at hdiffers
  cases hdiffers

theorem IsNamesake.exists_refreshed (h : IsNamesake p q) (hp : p.IsWellFormed)
    (htold : ∀ e ∈ p.elements, e.IsTellable) (hq : q.IsWellFormed) (now : Time.Millis) :
    ∃ values, q.interpret .owner p.toUpdate.elements = .ok values ∧
      List.Forall₂ (fun e v => v.1 = e.name ∧ v.2.bare = e.value.bare) p.elements values ∧
      IsUpToDate p (p.refreshed q now values) ∧
      Follows now q (p.refreshed q now values) ∧
      List.Forall₂ (Changed (assign q.elements values).changed) q.elements
        (p.refreshed q now values).elements := by
  obtain ⟨values, hread, hvalues⟩ := h.interpret hp hq htold
  have hcall : (Call.update now p.toUpdate).outcome q = .ok (p.refreshed q now values) :=
    map_eq_ok_iff.2 ⟨_, h.applyUpdate hread now, rfl⟩
  exact ⟨values, hread, hvalues,
    ⟨rfl, fun hkind => timeout_refreshed hkind now values, rfl,
      h.exists_shows hp hq hvalues htold⟩,
    hq.follows_of_outcome hcall, changed_assign (replaces_of_interpret hq.names hread)⟩

/-- A property hears all elements of a namesake of it, whatever either has been through since it was
built. It takes the update and is up to date; its elements count as changed if they had another
value. Hearing the same again changes nothing. -/
theorem snapshot_brings_up_to_date (hp : p.IsReached) (htold : ∀ e ∈ p.elements, e.IsTellable)
    (hq : q.IsReached) (h : IsNamesake p q)
    (hrange : ∀ f ∈ q.elements, ∀ r ∈ f.value.range?, r.IsNumeric) (now : Time.Millis) :
    ∃ q' changed, q.applyUpdate now p.toUpdate = .ok (q', changed) ∧ IsUpToDate p q' ∧
      q'.shape = q.shape ∧ List.Forall₂ (Changed changed) q.elements q'.elements ∧
      changed.Sublist (q.elements.map (·.name)) ∧
      (∀ name, name ∈ changed ↔ p.IsOutdated q name) ∧
      ∀ later, q'.applyUpdate later p.toUpdate = .ok (q', []) := by
  have hp := hp.isWellFormed
  have hq := hq.isWellFormed
  obtain ⟨values, hread, hvalues, htaken, hfollows, hchanged⟩ :=
    h.exists_refreshed hp htold hq now
  have hsame := map_eq_of_forall₂ hchanged fun _ _ hef => hef.name.symm
  refine ⟨_, _, h.applyUpdate hread now, htaken, hfollows.shape, hchanged, ?_,
    mem_changed_iff_isOutdated hq hvalues hread hrange, ?_⟩
  · rw [hsame]
    exact changed_sublist
  intro later
  have hnext : IsNamesake p (p.refreshed q now values) := h.of_shape hfollows.shape
  have hq' := hq.of_follows hfollows
  have hrange' : ∀ f ∈ (p.refreshed q now values).elements, ∀ r ∈ f.value.range?, r.IsNumeric := by
    intro f' hf'
    obtain ⟨f, hf, hff⟩ := exists_of_forall₂ hchanged f' hf'
    rw [hff.value.range?]
    exact hrange f hf
  obtain ⟨values', hread', hvalues', -, -, hchanged'⟩ := hnext.exists_refreshed hp htold hq' later
  have hnone : (assign (p.refreshed q now values).elements values').changed = [] := by
    refine List.eq_nil_iff_forall_not_mem.2 fun name hname => ?_
    exact htaken.not_isOutdated hq'.names name
      ((mem_changed_iff_isOutdated hq' hvalues' hread' hrange' name).1 hname)
  have hkept : (assign (p.refreshed q now values).elements values').elements =
      (p.refreshed q now values).elements := by
    rw [hnone] at hchanged'
    rw [← List.forall₂_eq_eq_eq]
    exact hchanged'.flip.imp fun _ _ hff => hff.kept List.not_mem_nil
  rw [hnext.applyUpdate hread' later, hnone, refreshed_refreshed now later hkept]

end

def staleFocus : Property :=
  Draft.property
    { Draft.ofKind "Telescope" "FOCUS" .number with
      permission := .readOnly
      state := .alert
      timeout := 5
      elements := [.named "POSITION" "Position" (.number ⟨200, ⟨"%g", 50, 60, 0.5⟩⟩)] } 0

theorem isReached_staleFocus : staleFocus.IsReached :=
  ⟨0, staleFocus, [], .draft (Draft.build_eq_ok_iff.2 ⟨⟨by simp, by decide, by decide⟩, rfl⟩), rfl⟩

theorem stale_focus_is_refreshed :
    let p := focus.afterCalls
      [.setValue 1 "POSITION" (.number ⟨7.5, focusRange⟩), .setState 2 .busy]
    p.state = .busy ∧ ∃ q, staleFocus.applyUpdate 3 p.toUpdate = .ok (q, ["POSITION"]) ∧
      IsUpToDate p q ∧ ∀ later, q.applyUpdate later p.toUpdate = .ok (q, []) := by
  intro p
  have helements : p.elements = [⟨"POSITION", "POSITION", .number ⟨7.5, focusRange⟩⟩] := by
    decide +kernel
  have hold : staleFocus.elements =
      [⟨"POSITION", "Position", .number ⟨200, ⟨"%g", 50, 60, 0.5⟩⟩⟩] := by
    decide +kernel
  have htold : ∀ e ∈ p.elements, e.IsTellable := by
    rw [helements, List.forall_mem_singleton]
    exact ⟨by decide +kernel, Value.isFinite_bare_number.2 (by decide +kernel)⟩
  have hrange : ∀ f ∈ staleFocus.elements, ∀ r ∈ f.value.range?, r.IsNumeric := by
    rw [hold, List.forall_mem_singleton]
    rintro r ⟨⟩
    exact ⟨by decide +kernel, by decide +kernel, by decide +kernel⟩
  have hnamesake : IsNamesake p staleFocus := by
    refine ⟨rfl, rfl, rfl, ?_⟩
    rw [helements, hold]
    exact fun name => Iff.rfl
  obtain ⟨q, changed, happly, huptodate, -, -, hsublist, hchanged, hagain⟩ :=
    snapshot_brings_up_to_date (isReached_focus.afterCalls _) htold isReached_staleFocus hnamesake
      hrange 3
  have hmem : "POSITION" ∈ changed := by
    rw [hchanged, IsOutdated, helements, hold]
    exact ⟨_, List.mem_singleton_self _, _, List.mem_singleton_self _, rfl, rfl, by decide +kernel⟩
  obtain rfl : changed = ["POSITION"] := by
    rw [hold] at hsublist
    obtain hnone | hone := List.sublist_singleton.1 hsublist
    · rw [hnone] at hmem
      cases hmem
    · exact hone
  exact ⟨by decide +kernel, q, happly, huptodate, hagain⟩

end Property

end InstrumentBus
