import InstrumentBus.Proofs.Device.History

/-!
Properties that have been busy for too long. Each is told of once and moves to `alert`; nothing else
of the device changes.
-/

namespace InstrumentBus

namespace Device

section

variable {p : Property} {now : Time.Millis}

theorem isOverdue_iff :
    p.isOverdue now = true ↔ p.state = .busy ∧ p.timeout ≠ 0 ∧
      ∃ since, p.busySince = some since ∧ (p.timeout.toNat : Int) * 1000 ≤ now - since := by
  simp [Property.isOverdue, Option.any_eq_true, and_assoc]

theorem isOverdue_setState_alert (p : Property) (now : Time.Millis) :
    (p.setState now .alert).isOverdue now = false :=
  rfl

end

theorem expire_expire (d : Device) (now : Time.Millis) :
    (d.expire now).1.expire now = ((d.expire now).1, []) := by
  have hnone : ∀ p ∈ (d.expire now).1.properties, p.isOverdue now = false := by
    intro q hq
    obtain ⟨p, -, rfl⟩ := List.mem_map.1 hq
    split
    · exact isOverdue_setState_alert p now
    · rename_i h
      exact Bool.eq_false_of_not_eq_true h
  generalize (d.expire now).1 = d' at hnone
  have hmap : (d'.properties.map fun p => if p.isOverdue now then p.setState now .alert else p) =
      d'.properties := by
    refine (List.map_congr_left fun p hp => ?_).trans (List.map_id' _)
    rw [hnone p hp]
    rfl
  have hfilter : d'.properties.filter (·.isOverdue now) = [] := by
    simpa [List.filter_eq_nil_iff] using hnone
  rw [expire, hmap, hfilter]
  rfl

def overdueNotice (device : String) (p : Property) : Update where
  kind := p.kind
  device := device
  name := p.name
  state := some .alert
  timeout := p.announcedTimeout
  timestamp := some p.timestamp
  message := some (p.name ++ " timed out")
  elements := []

theorem timeoutUpdate_setState (p : Property) (now : Time.Millis) :
    timeoutUpdate (p.setState now .alert) = overdueNotice p.device p := by
  simp [timeoutUpdate, overdueNotice, Property.toUpdateOf, Property.updateOf, Property.setState,
    Property.announcedTimeout]

/-- A property that has a timeout and has been busy for as long, as the steps tell. -/
structure IsLate (device : String) (steps : List Step) (now : Time.Millis) (p : Property) :
    Prop where
  busy : p.state = .busy
  limited : p.timeout ≠ 0
  since : ∃ since, IsBusySince device steps p.name since ∧
    (p.timeout.toNat : Int) * 1000 ≤ now - since

section

variable {device : String} {steps : List Step} (hsteps : ∀ p, .define p ∈ steps → p.IsReached)
include hsteps

theorem isOverdue_iff_isLate {p : Property} (hp : p ∈ ((ofName device).after steps).properties)
    (now : Time.Millis) : p.isOverdue now = true ↔ IsLate device steps now p := by
  have hfound := ((isOrderly_ofName device).after steps hsteps).property?_of_mem hp
  have hsince (since : Time.Millis) :
      p.busySince = some since ↔ IsBusySince device steps p.name since := by
    rw [← busySince?_after hsteps, busySince?, hfound]
    rfl
  simp only [isOverdue_iff, hsince]
  constructor
  · rintro ⟨hbusy, hlimited, hlate⟩
    exact ⟨hbusy, hlimited, hlate⟩
  · intro h
    exact ⟨h.busy, h.limited, h.since⟩

/-- The properties of a device have names of their own and stand in the order in which they were
defined. A sweep at any time tells, in this order, once of each property that has been busy for its
timeout, moves it to `alert` and leaves all others as they are; a second sweep finds nothing. -/
theorem sweep_tells_late (now : Time.Millis) :
    let d := (ofName device).after steps
    d.names.Nodup ∧
    (∀ name ∈ d.names, ∃ i, IsDefinedAt device steps name i) ∧
    d.names.Pairwise (IsDefinedBefore device steps) ∧
    (∃ late : List Property, late.Sublist d.properties ∧
      (∀ p ∈ d.properties, p ∈ late ↔ IsLate device steps now p) ∧
      (d.expire now).2 = late.map (overdueNotice device)) ∧
    (d.expire now).1.name = d.name ∧
    List.Forall₂
      (fun p q => (IsLate device steps now p → q = { p with state := .alert, busySince := none }) ∧
        (¬IsLate device steps now p → q = p))
      d.properties (d.expire now).1.properties ∧
    (d.expire now).1.expire now = ((d.expire now).1, []) := by
  intro d
  have hd : d.IsOrderly := (isOrderly_ofName device).after steps hsteps
  have hname : d.name = device := name_after steps _
  have hlate : ∀ p ∈ d.properties, p.isOverdue now = true ↔ IsLate device steps now p :=
    fun p hp => isOverdue_iff_isLate hsteps hp now
  obtain ⟨hpairwise, hdefined⟩ := pairwise_names device steps
  refine ⟨hd.names, hdefined, hpairwise, ?_, rfl, ?_, expire_expire d now⟩
  · refine ⟨d.properties.filter (·.isOverdue now), List.filter_sublist, ?_, ?_⟩
    · intro p hp
      rw [List.mem_filter, and_iff_right hp, hlate p hp]
    · apply List.map_congr_left
      intro p hp
      rw [timeoutUpdate_setState, hd.device p (List.mem_of_mem_filter hp), hname]
  · rw [expire, List.forall₂_map_right_iff, List.forall₂_same]
    intro p hp
    rw [← hlate p hp]
    constructor
    · intro hoverdue
      rw [if_pos hoverdue]
      rfl
    · intro hno
      exact if_neg hno

end

theorem mount_is_late_after_a_minute :
    let steps : List Step :=
      [.define Property.tracking, .setState 2 "TRACKING" .busy, .remove 3 "TRACKING",
        .define Property.tracking, .setState 5 "TRACKING" .busy]
    let d := (ofName "Mount").after steps
    (∀ p, .define p ∈ steps → p.IsReached) ∧
      (d.expire 60004).2 = [] ∧
      (d.expire 60005).2 = d.properties.map (overdueNotice "Mount") ∧
      (∀ p ∈ d.properties, IsLate "Mount" steps 60005 p) ∧
      (d.expire 60005).1.expire 60005 = ((d.expire 60005).1, []) := by
  intro steps d
  have hreached : Property.tracking.IsReached :=
    ⟨0, Property.tracking, [],
      .draft (Property.Draft.build_eq_ok_iff.2 ⟨⟨by simp, by decide, by decide⟩, rfl⟩), rfl⟩
  have hsteps : ∀ p, .define p ∈ steps → p.IsReached := by
    intro p hp
    have hp : p = Property.tracking := by simpa [steps] using hp
    exact hp ▸ hreached
  obtain ⟨-, -, -, ⟨late, hsub, hlate, htold⟩, -, -, hrest⟩ := sweep_tells_late hsteps 60005
  have hall : (d.expire 60005).2.length = d.properties.length := by decide +kernel
  have heq : late = d.properties := by
    apply hsub.eq_of_length
    rw [← hall, htold, List.length_map]
  rw [heq] at hlate htold
  exact ⟨hsteps, by decide +kernel, htold, fun p hp => (hlate p hp).1 hp, hrest⟩

end Device

end InstrumentBus
