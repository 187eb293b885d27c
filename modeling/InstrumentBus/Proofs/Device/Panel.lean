import InstrumentBus.Proofs.Device.Operations
import InstrumentBus.Proofs.Property.Verdict

/-!
Devices in use. Neither a request nor what its owner does changes which properties a device has, and
each keeps what it was built with.
-/

namespace InstrumentBus

namespace Property

/-- A property that was made from a draft; values, state and times may have changed since. -/
structure Fits (d : Draft) (p : Property) : Prop where
  shape : p.shape = (d.property 0).shape
  timeout : p.timeout = d.timeout
  ranges : p.elements.map (·.value.range?) = d.elements.map (·.value.range?)
  isWellFormed : p.IsWellFormed

theorem range?_eq_none {v : Value} (h : v.kind ≠ .number) : v.range? = none := by
  cases v with
  | number q => exact absurd rfl h
  | _ => rfl

theorem ranges_property {d : Draft} (hd : d.IsSound) (now : Time.Millis) :
    (d.property now).elements.map (·.value.range?) = d.elements.map (·.value.range?) := by
  rw [Draft.property_elements]
  split
  · rename_i hkind
    have hkinds : ∀ e ∈ d.elements, e.kind = .switch := fun e he => (hd.kinds e he).trans hkind
    have hpressed := pressed_normalize d.rule d.elements
    symm
    apply map_eq_of_forall₂ (forall₂_imp_of_mem hpressed fun e he f hf _ => ?_) fun _ _ h => h
    have hf : f.kind = .switch := kind_of_pressed hpressed hkinds f hf
    rw [range?_eq_none (ne_of_eq_of_ne (hkinds e he) (by decide)),
      range?_eq_none (ne_of_eq_of_ne hf (by decide))]
  · rfl

theorem shape_property (d : Draft) (now : Time.Millis) :
    (d.property now).shape = (d.property 0).shape := by
  simp only [shape, Draft.property_device, Draft.property_name, Draft.property_label,
    Draft.property_group, Draft.property_kind, Draft.property_permission, Draft.property_rule,
    Draft.property_elements]

theorem fits_property {d : Draft} (hd : d.IsSound) (now : Time.Millis) : Fits d (d.property now) :=
  ⟨shape_property d now, rfl, ranges_property hd now,
    (BuiltAt.draft (Draft.build_eq_ok_iff.2 ⟨hd, rfl⟩)).isWellFormed⟩

namespace Fits

variable {d : Draft} {p q : Property} (h : Fits d p) {now : Time.Millis}

include h

theorem device : p.device = d.device := congrArg Shape.device h.shape

theorem name : p.name = d.name := congrArg Shape.name h.shape

theorem kind : p.kind = d.kind := congrArg Shape.kind h.shape

theorem of_follows (hfollows : Follows now p q) (htimeout : q.timeout = p.timeout)
    (hranges : q.elements.map (·.value.range?) = p.elements.map (·.value.range?)) : Fits d q :=
  ⟨hfollows.shape.trans h.shape, htimeout.trans h.timeout, hranges.trans h.ranges,
    h.isWellFormed.of_follows hfollows⟩

theorem setState (state : State) : Fits d (p.setState now state) :=
  h.of_follows (follows_setState p now state) rfl rfl

theorem applyChange {r : ChangeRequest} {changed : List String}
    (hq : p.applyChange now r = .ok (q, changed)) : Fits d q := by
  have hfollows : Follows now p q :=
    h.isWellFormed.follows_of_outcome (c := .change now r) (map_eq_ok_iff.2 ⟨_, hq, rfl⟩)
  refine h.of_follows hfollows ?_ (h.isWellFormed.ranges_of_applyChange hq)
  obtain ⟨-, -, values, -, -, rfl⟩ := applyChange_eq_ok_iff.1 hq
  rfl

theorem setValue {element : String} {value : Value} (hq : p.setValue now element value = .ok q)
    (hrange : ∀ e, p.element? element = some e → value.range? = e.value.range?) : Fits d q := by
  have hfollows : Follows now p q :=
    h.isWellFormed.follows_of_outcome (c := .setValue now element value) hq
  obtain ⟨e, he, -, rfl⟩ := setValue_eq_ok_iff.1 hq
  refine h.of_follows hfollows rfl ?_
  rw [List.map_map]
  apply List.map_congr_left
  intro f hf
  rw [Function.comp_apply]
  split
  · rename_i hname
    apply hrange
    rw [element?, ← hname]
    exact find?_eq_some_of_nodup h.isWellFormed.names hf
  · rfl

theorem forall₂_elements (hd : d.IsSound) :
    List.Forall₂ (fun e f => f.outline = e.outline ∧ f.value.range? = e.value.range?)
      d.elements p.elements := by
  have houtline : p.elements.map Element.outline = d.elements.map Element.outline :=
    (congrArg Shape.elements h.shape).trans (outline_property hd 0)
  have hranges := h.ranges
  rw [← List.forall₂_eq_eq_eq, List.forall₂_map_left_iff, List.forall₂_map_right_iff] at houtline
  rw [← List.forall₂_eq_eq_eq, List.forall₂_map_left_iff, List.forall₂_map_right_iff] at hranges
  exact forall₂_and houtline.flip hranges.flip

end Fits

end Property

namespace Device

def IsMadeOf (drafts : List Property.Draft) (d : Device) : Prop :=
  List.Forall₂ Property.Fits drafts d.properties

namespace IsMadeOf

variable {drafts : List Property.Draft} {d d' : Device} (h : IsMadeOf drafts d)
  {now : Time.Millis}

include h

theorem map {f : Property → Property}
    (hf : ∀ draft ∈ drafts, ∀ p ∈ d.properties, Property.Fits draft p → Property.Fits draft (f p)) :
    IsMadeOf drafts { d with properties := d.properties.map f } := by
  rw [IsMadeOf, List.forall₂_map_right_iff]
  exact forall₂_imp_of_mem h hf

theorem expire (now : Time.Millis) : IsMadeOf drafts (d.expire now).1 := by
  apply h.map
  intro draft _ p _ hp
  split
  · exact hp.setState .alert
  · exact hp

variable (hnames : (drafts.map (·.name)).Nodup)

include hnames

theorem names_nodup : (d.properties.map (·.name)).Nodup := by
  have hsame : drafts.map (·.name) = d.properties.map (·.name) :=
    map_eq_of_forall₂ h fun _ _ hp => hp.name.symm
  rwa [← hsame]

theorem property?_of_mem {p : Property} (hp : p ∈ d.properties) : d.property? p.name = some p :=
  find?_eq_some_of_nodup (h.names_nodup hnames) hp

theorem exists_property {draft : Property.Draft} (hdraft : draft ∈ drafts) :
    ∃ p, d.property? draft.name = some p ∧ Property.Fits draft p := by
  obtain ⟨p, hp, hfits⟩ := exists_of_forall₂ h.flip draft hdraft
  exact ⟨p, hfits.name ▸ h.property?_of_mem hnames hp, hfits⟩

theorem applyChange {r : ChangeRequest} {changed : List String}
    (hd' : d.applyChange now r = .ok (d', changed)) : IsMadeOf drafts d' := by
  obtain ⟨-, p, q, hp, hq, rfl⟩ := applyChange_eq_ok_iff.1 hd'
  apply h.map
  intro draft _ p' hp' hfits
  split
  · rename_i hname
    have hqname := Property.name_of_applyChange hq
    have hsame : p' = p := by
      have hfound := h.property?_of_mem hnames hp'
      rw [hname, hqname, hp] at hfound
      exact (Option.some.inj hfound).symm
    subst hsame
    exact hfits.applyChange hq
  · exact hfits

end IsMadeOf

end Device

end InstrumentBus
