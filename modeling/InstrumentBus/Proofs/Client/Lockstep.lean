import InstrumentBus.Client.Catalogue
import InstrumentBus.Proofs.Device.Operations
import InstrumentBus.Proofs.Property.Mirror

/-!
A device and a client that hears everything the device says. The client's catalogue stays in step
with the device, whatever the device does.
-/

namespace InstrumentBus

namespace Device

inductive Step
  | define (p : Property) : Step
  | remove (now : Time.Millis) (name : String) : Step
  | removeAll (now : Time.Millis) : Step
  | change (now : Time.Millis) (request : ChangeRequest) : Step
  | setState (now : Time.Millis) (name : String) (state : State) : Step
  | expire (now : Time.Millis) : Step

/-- The device after a step, and what it says of it. A step that is refused changes nothing. -/
def step (d : Device) : Step → Device × List Message
  | .define p =>
    match d.define p with
    | .ok (d, m) => (d, [.define m])
    | .error _ => (d, [])
  | .remove now name =>
    match d.remove? now name with
    | some (d, m) => (d, [.remove m])
    | none => (d, [])
  | .removeAll now => ((d.removeAll now).1, [.remove (d.removeAll now).2])
  | .change now request =>
    match d.applyChange now request with
    | .ok (d, changed) =>
      (d, (d.property? request.name).toList.map fun p => .update (p.toUpdateOf changed))
    | .error _ => (d, [])
  | .setState now name state =>
    match d.property? name with
    | some p =>
      (d.replace (p.setState now state), [.update ((p.setState now state).toUpdateOf [])])
    | none => (d, [])
  | .expire now => ((d.expire now).1, (d.expire now).2.map .update)

def after (d : Device) (steps : List Step) : Device := steps.foldl (fun d s => (d.step s).1) d

def said (d : Device) : List Step → List Message
  | [] => []
  | s :: steps => (d.step s).2 ++ (d.step s).1.said steps

end Device

namespace Catalogue

inductive Hears : Catalogue → List Message → Catalogue → Prop
  | nil {c : Catalogue} : Hears c [] c
  | cons {c c' : Catalogue} {m : Message} {ms : List Message} (now : Time.Millis) :
      Hears (c.apply now m).1 ms c' → Hears c (m :: ms) c'

theorem Hears.append {c c' : Catalogue} {ms ns : List Message} (h : Hears c (ms ++ ns) c') :
    ∃ b, Hears c ms b ∧ Hears b ns c' := by
  induction ms generalizing c with
  | nil => exact ⟨c, .nil, h⟩
  | cons m ms ih =>
    cases h with
    | cons now h =>
      obtain ⟨b, hms, hns⟩ := ih h
      exact ⟨b, .cons now hms, hns⟩

theorem hears_foldl (c : Catalogue) (ms : List Message) (now : Time.Millis) :
    c.Hears ms (ms.foldl (fun c m => (c.apply now m).1) c) := by
  induction ms generalizing c with
  | nil => exact .nil
  | cons m ms ih => exact .cons now (ih _)

@[simp] theorem hears_nil {c c' : Catalogue} : c.Hears [] c' ↔ c' = c := by
  constructor
  · rintro ⟨⟩
    rfl
  · rintro rfl
    exact .nil

@[simp] theorem hears_cons {c c' : Catalogue} {m : Message} {ms : List Message} :
    c.Hears (m :: ms) c' ↔ ∃ now, (c.apply now m).1.Hears ms c' := by
  constructor
  · intro h
    cases h with
    | cons now h => exact ⟨now, h⟩
  · rintro ⟨now, h⟩
    exact .cons now h

theorem hears_singleton {c c' : Catalogue} {m : Message} :
    c.Hears [m] c' ↔ ∃ now, c' = (c.apply now m).1 := by
  simp

section

variable {c : Catalogue} {p q : Property} {now : Time.Millis}

theorem isAt_iff {device name : String} :
    isAt device name p = true ↔ p.device = device ∧ p.name = name := by
  simp [isAt]

theorem insert_of_known (h : c.property? p.device p.name = some q) :
    c.insert p = ⟨c.properties.map fun r => if isAt p.device p.name r then p else r⟩ := by
  simp [insert, h]

theorem insert_of_unknown (h : c.property? p.device p.name = none) :
    c.insert p = ⟨c.properties ++ [p]⟩ := by
  simp [insert, h]

theorem apply_define {m : Definition} (h : Property.ofDefinition now m = .ok p) :
    (c.apply now (.define m)).1 = c.insert p := by
  simp only [apply, h]

theorem apply_update {u : Update} {changed : List String}
    (hq : c.property? u.device u.name = some q) (h : q.applyUpdate now u = .ok (p, changed)) :
    (c.apply now (.update u)).1 = c.insert p := by
  simp only [apply, hq, h]

end

end Catalogue

open Property (IsMirror Later)

/-- A device whose properties are sound, and a catalogue that mirrors them one by one. -/
structure Lockstep (d : Device) (c : Catalogue) : Prop where
  sound : ∀ p ∈ d.properties, p.IsSound
  device : ∀ p ∈ d.properties, p.device = d.name
  names : (d.properties.map (·.name)).Nodup
  mirrored : List.Forall₂ IsMirror d.properties c.properties

namespace Lockstep

theorem start (name : String) : Lockstep (.ofName name) .empty :=
  ⟨by simp [Device.ofName], by simp [Device.ofName], .nil, .nil⟩

variable {d : Device} {c c' : Catalogue}

theorem find?_mirror {ps qs : List Property} {device : String} (h : List.Forall₂ IsMirror ps qs)
    (hdevice : ∀ p ∈ ps, p.device = device) (name : String) :
    Option.Rel IsMirror (ps.find? (·.name == name)) (qs.find? (Catalogue.isAt device name)) := by
  induction h with
  | nil => exact .none
  | @cons p q ps qs hmirror _ ih =>
    obtain ⟨hp, hdevice⟩ := List.forall_mem_cons.1 hdevice
    have hq : Catalogue.isAt device name q = (p.name == name) := by
      rw [Bool.eq_iff_iff, Catalogue.isAt_iff, hmirror.device, hmirror.name]
      simp [hp]
    rw [List.find?_cons, List.find?_cons, hq]
    split
    · exact .some hmirror
    · exact ih hdevice

theorem property?_mirror (h : Lockstep d c) (name : String) :
    Option.Rel IsMirror (d.property? name) (c.property? d.name name) :=
  find?_mirror h.mirrored h.device name

theorem property?_of_mem (h : Lockstep d c) {p : Property} (hp : p ∈ d.properties) :
    d.property? p.name = some p :=
  find?_eq_some_of_nodup h.names hp

theorem exists_mirror (h : Lockstep d c) {p : Property} (hp : p ∈ d.properties) :
    ∃ q, c.property? d.name p.name = some q ∧ IsMirror p q := by
  have hrel := h.property?_mirror p.name
  rw [h.property?_of_mem hp] at hrel
  cases hfound : c.property? d.name p.name with
  | none =>
    rw [hfound] at hrel
    cases hrel
  | some q =>
    rw [hfound] at hrel
    cases hrel with
    | some hmirror => exact ⟨q, rfl, hmirror⟩

theorem mem_replace {p r : Property} (h : r ∈ (d.replace p).properties) :
    r = p ∨ r ∈ d.properties := by
  obtain ⟨s, hs, hr⟩ := List.mem_map.1 h
  split at hr
  · exact .inl hr.symm
  · exact .inr (hr ▸ hs)

theorem names_replace (d : Device) (p : Property) :
    (d.replace p).properties.map (·.name) = d.properties.map (·.name) := by
  rw [Device.replace, List.map_map]
  apply List.map_congr_left
  intro r _
  rw [Function.comp_apply]
  split
  · rename_i hr
    exact hr.symm
  · rfl

theorem hear_update (h : Lockstep d c) {names : List String} {p p' : Property}
    (hp : p ∈ d.properties) (hlater : Later names p p') (message : Option String)
    (now : Time.Millis) :
    Lockstep (d.replace p') (c.apply now (.update { p'.toUpdateOf names with message })).1 := by
  obtain ⟨q, hq, hmirror⟩ := h.exists_mirror hp
  obtain ⟨q', changed, hupdate, hmirror'⟩ :=
    hmirror.applyUpdate (h.sound p hp) hlater now message
  have hdevice : p'.device = d.name := hlater.device.trans (h.device p hp)
  have hfound : c.property? p'.device p'.name = some q := by rw [hdevice, hlater.name, hq]
  have hfound' : c.property? q'.device q'.name = some q := by
    rw [hmirror'.device, hmirror'.name, hfound]
  rw [Catalogue.apply_update hfound hupdate, Catalogue.insert_of_known hfound']
  refine ⟨?_, ?_, ?_, ?_⟩
  · intro r hr
    obtain rfl | hr := mem_replace hr
    · exact hlater.isSound (h.sound p hp)
    · exact h.sound r hr
  · intro r hr
    obtain rfl | hr := mem_replace hr
    · exact hdevice
    · exact h.device r hr
  · rw [names_replace]
    exact h.names
  · rw [Device.replace, List.forall₂_map_left_iff, List.forall₂_map_right_iff]
    apply forall₂_imp_of_mem h.mirrored
    intro r hr s _ hrs
    have hat : Catalogue.isAt q'.device q'.name s = true ↔ r.name = p'.name := by
      rw [Catalogue.isAt_iff, hmirror'.device, hmirror'.name, hrs.device, hrs.name,
        h.device r hr, hdevice]
      simp
    by_cases hr' : r.name = p'.name
    · rw [if_pos hr', if_pos (hat.2 hr')]
      exact hmirror'
    · rw [if_neg hr', if_neg fun hs => hr' (hat.1 hs)]
      exact hrs

theorem hear_definition (h : Lockstep d c) {p : Property} (hp : p.IsFresh)
    (hdevice : p.device = d.name) (hnew : d.property? p.name = none) (now : Time.Millis) :
    Lockstep { d with properties := d.properties ++ [p] }
      (c.apply now (.define p.toDefinition)).1 := by
  obtain ⟨q, hq, hmirror⟩ := hp.ofDefinition now
  have hfree : c.property? q.device q.name = none := by
    have hrel := h.property?_mirror p.name
    rw [hnew] at hrel
    rw [hmirror.device, hmirror.name, hdevice]
    cases hfound : c.property? d.name p.name with
    | none => rfl
    | some r =>
      rw [hfound] at hrel
      cases hrel
  rw [Catalogue.apply_define hq, Catalogue.insert_of_unknown hfree]
  refine ⟨?_, ?_, ?_, ?_⟩
  · intro r hr
    obtain hr | hr := List.mem_append.1 hr
    · exact h.sound r hr
    · exact List.mem_singleton.1 hr ▸ hp.isSound
  · intro r hr
    obtain hr | hr := List.mem_append.1 hr
    · exact h.device r hr
    · exact List.mem_singleton.1 hr ▸ hdevice
  · rw [List.map_append, List.map_singleton, ← List.concat_eq_append]
    apply h.names.concat
    rintro hmem
    obtain ⟨r, hr, hname⟩ := List.mem_map.1 hmem
    simpa [hname] using List.find?_eq_none.1 hnew r hr
  · exact List.rel_append h.mirrored (.cons hmirror .nil)

theorem hear_removal (h : Lockstep d c) {r : Removal} (hr : r.device = d.name)
    {ps : List Property} (hps : (d.properties.filter fun p => !r.name.all (· == p.name)) = ps)
    (now : Time.Millis) : Lockstep { d with properties := ps } (c.apply now (.remove r)).1 := by
  subst hps
  refine ⟨?_, ?_, ?_, ?_⟩
  · intro p hp
    exact h.sound p (List.mem_of_mem_filter hp)
  · intro p hp
    exact h.device p (List.mem_of_mem_filter hp)
  · exact h.names.sublist (List.filter_sublist.map _)
  · have hboth : List.Forall₂ (fun p q => p.device = d.name ∧ IsMirror p q) d.properties
        c.properties :=
      forall₂_imp_of_mem h.mirrored fun p hp _ _ hmirror => ⟨h.device p hp, hmirror⟩
    apply List.Forall₂.imp fun _ _ (hpq : _ ∧ _) => hpq.2
    refine List.rel_filter ?_ hboth
    rintro p q ⟨hdevice, hmirror⟩
    simp [Catalogue.isRemoved, hmirror.device, hmirror.name, hdevice, hr]

theorem hear_expired (h : Lockstep d c) (now : Time.Millis) {os : List Property}
    (hos : os ⊆ d.properties) (hnames : (os.map (·.name)).Nodup)
    (hc : c.Hears (os.map fun p => .update (Device.timeoutUpdate (p.setState now .alert))) c') :
    Lockstep
      { d with
        properties := d.properties.map fun p =>
          if p.name ∈ os.map (·.name) then p.setState now .alert else p } c' := by
  induction os generalizing d c with
  | nil =>
    obtain rfl := Catalogue.hears_nil.1 hc
    simpa using h
  | cons o os ih =>
    obtain ⟨ho, hos⟩ := List.cons_subset.1 hos
    obtain ⟨hfresh, hnames⟩ := List.nodup_cons.1 hnames
    obtain ⟨clock, hc⟩ := Catalogue.hears_cons.1 hc
    have hstep := h.hear_update ho (Property.later_setState o now .alert)
      (some ((o.setState now .alert).name ++ " timed out")) clock
    have hos' : os ⊆ (d.replace (o.setState now .alert)).properties := by
      intro r hr
      refine List.mem_map.2 ⟨r, hos hr, if_neg ?_⟩
      intro hname
      exact hfresh (List.mem_map.2 ⟨r, hr, hname⟩)
    have hrest := ih hstep hos' hnames hc
    rw [Device.replace, List.map_map] at hrest
    convert hrest using 2
    apply List.map_congr_left
    intro r hr
    rw [Function.comp_apply]
    by_cases hname : r.name = o.name
    · cases List.inj_on_of_nodup_map h.names hr ho hname
      have hhead : o.name ∈ (o :: os).map (·.name) := List.mem_cons_self
      have hsame : (o.setState now .alert).name = o.name := rfl
      have hlast : (o.setState now .alert).name ∉ os.map (·.name) := hfresh
      rw [if_pos hhead, if_pos hsame.symm, if_neg hlast]
    · have hcons : r.name ∈ (o :: os).map (·.name) ↔ r.name ∈ os.map (·.name) := by
        rw [List.map_cons, List.mem_cons, or_iff_right hname]
      have hother : r.name ≠ (o.setState now .alert).name := hname
      simp only [hcons, if_neg hother]

theorem expire (h : Lockstep d c) (now : Time.Millis)
    (hc : c.Hears ((d.expire now).2.map .update) c') : Lockstep (d.expire now).1 c' := by
  rw [Device.expire, List.map_map] at hc
  rw [Device.expire]
  have hsub : d.properties.filter (·.isOverdue now) ⊆ d.properties := List.filter_subset_self _
  have hlock := h.hear_expired now hsub (h.names.sublist (List.filter_sublist.map _)) hc
  convert hlock using 2
  apply List.map_congr_left
  intro p hp
  have hmem : p.name ∈ (d.properties.filter (·.isOverdue now)).map (·.name) ↔
      p.isOverdue now = true := by
    constructor
    · intro hmem
      obtain ⟨r, hr, hname⟩ := List.mem_map.1 hmem
      obtain ⟨hr, hoverdue⟩ := List.mem_filter.1 hr
      rwa [List.inj_on_of_nodup_map h.names hp hr hname.symm]
    · exact fun hoverdue => List.mem_map_of_mem (List.mem_filter.2 ⟨hp, hoverdue⟩)
  simp only [hmem]

theorem change (h : Lockstep d c) {now : Time.Millis} {r : ChangeRequest} {p p' : Property}
    {changed : List String} (hp : d.property? r.name = some p)
    (happly : p.applyChange now r = .ok (p', changed))
    (hc : c.Hears (((d.replace p').property? r.name).toList.map fun p =>
      .update (p.toUpdateOf changed)) c') : Lockstep (d.replace p') c' := by
  have hmem : p ∈ d.properties := List.mem_of_find?_eq_some hp
  have hlater : Later changed p p' := (h.sound p hmem).later_applyChange happly
  have hlock (clock : Time.Millis) := h.hear_update hmem hlater none clock
  have hname : p'.name = r.name := by
    rw [hlater.name]
    simpa using List.find?_some hp
  have hmem' : p' ∈ (d.replace p').properties :=
    List.mem_map.2 ⟨p, hmem, if_pos hlater.name.symm⟩
  have hfound : (d.replace p').property? r.name = some p' := by
    rw [← hname]
    exact (hlock now).property?_of_mem hmem'
  rw [hfound, Option.toList_some, List.map_singleton] at hc
  obtain ⟨clock, rfl⟩ := Catalogue.hears_singleton.1 hc
  exact hlock clock

theorem step (h : Lockstep d c) (s : Device.Step) (hs : ∀ p, s = .define p → p.IsFresh)
    (hc : c.Hears (d.step s).2 c') : Lockstep (d.step s).1 c' := by
  have idle (hc : c.Hears [] c') : Lockstep d c' := Catalogue.hears_nil.1 hc ▸ h
  cases s with
  | define p =>
    simp only [Device.step] at hc ⊢
    cases hdefine : d.define p with
    | error e =>
      rw [hdefine] at hc
      exact idle hc
    | ok result =>
      obtain ⟨hdevice, hnew, hd, hm⟩ := Device.define_eq_ok_iff.1 hdefine
      rw [hdefine] at hc
      obtain ⟨clock, rfl⟩ := Catalogue.hears_singleton.1 hc
      rw [← hd, ← hm]
      exact h.hear_definition (hs p rfl) hdevice hnew clock
  | remove now name =>
    simp only [Device.step] at hc ⊢
    cases hremove : d.remove? now name with
    | none =>
      rw [hremove] at hc
      exact idle hc
    | some result =>
      obtain ⟨-, hd, hr⟩ := Device.remove?_eq_some_iff.1 hremove
      rw [hremove] at hc
      obtain ⟨clock, rfl⟩ := Catalogue.hears_singleton.1 hc
      rw [← hd, ← hr]
      exact h.hear_removal rfl (by simp [bne, Bool.beq_comm]) clock
  | removeAll now =>
    obtain ⟨clock, rfl⟩ := Catalogue.hears_singleton.1 hc
    exact h.hear_removal rfl (by simp [Device.removeAll]) clock
  | change now r =>
    simp only [Device.step] at hc ⊢
    cases hchange : d.applyChange now r with
    | error e =>
      rw [hchange] at hc
      exact idle hc
    | ok result =>
      obtain ⟨-, p, p', hp, happly, hd⟩ := Device.applyChange_eq_ok_iff.1 hchange
      rw [hchange] at hc
      dsimp only at hc ⊢
      rw [← hd] at hc ⊢
      exact h.change hp happly hc
  | setState now name state =>
    simp only [Device.step] at hc ⊢
    cases hp : d.property? name with
    | none =>
      rw [hp] at hc
      exact idle hc
    | some p =>
      rw [hp] at hc
      obtain ⟨clock, rfl⟩ := Catalogue.hears_singleton.1 hc
      exact h.hear_update (List.mem_of_find?_eq_some hp) (p.later_setState now state) none clock
  | expire now => exact h.expire now hc

theorem after (h : Lockstep d c) (steps : List Device.Step)
    (hsteps : ∀ p, .define p ∈ steps → p.IsFresh) (hc : c.Hears (d.said steps) c') :
    Lockstep (d.after steps) c' := by
  induction steps generalizing d c with
  | nil => exact Catalogue.hears_nil.1 hc ▸ h
  | cons s steps ih =>
    obtain ⟨b, hs, hrest⟩ := hc.append
    refine ih (h.step s ?_ hs) ?_ hrest
    · rintro p rfl
      exact hsteps p List.mem_cons_self
    · exact fun p hp => hsteps p (List.mem_cons_of_mem s hp)

end Lockstep

/-- A client that hears all that a device says, from its first step on and at whatever times, has
just the properties of the device after each of its steps, one entry for each, and each as it is.
Values are the same as elements compare them: the two zeros count as one. -/
theorem catalogue_in_lockstep (name : String) (steps : List Device.Step)
    (hfresh : ∀ p, .define p ∈ steps → p.IsFresh) {c : Catalogue}
    (hc : Catalogue.empty.Hears ((Device.ofName name).said steps) c) :
    List.Forall₂ IsMirror ((Device.ofName name).after steps).properties c.properties ∧
      (c.properties.map fun q => (q.device, q.name)).Nodup := by
  have hlock := (Lockstep.start name).after steps hfresh hc
  have hnames : ((Device.ofName name).after steps).properties.map (·.name) =
      c.properties.map (·.name) :=
    map_eq_of_forall₂ hlock.mirrored fun _ _ hmirror => hmirror.name.symm
  refine ⟨hlock.mirrored, List.Nodup.of_map Prod.snd ?_⟩
  rw [List.map_map]
  exact hnames ▸ hlock.names

theorem lockstep_of_change :
    let steps : List Device.Step :=
      [.define Property.tracking,
        .change 1 ⟨.switch, "Mount", "TRACKING", none, [⟨"LUNAR", .scalar "On"⟩]⟩,
        .setState 2 "TRACKING" .busy,
        .expire 70000]
    let c := ((Device.ofName "Mount").said steps).foldl (fun c m => (c.apply 0 m).1)
      Catalogue.empty
    (∀ p, .define p ∈ steps → p.IsFresh) ∧
      c.properties.map (fun q => (q.name, q.state, Property.onNames q.elements)) =
        [("TRACKING", .alert, ["LUNAR"])] ∧
      List.Forall₂ IsMirror ((Device.ofName "Mount").after steps).properties c.properties := by
  intro steps c
  have hfresh : ∀ p, .define p ∈ steps → p.IsFresh := by
    intro p hp
    have hp : p = Property.tracking := by simpa [steps] using hp
    subst hp
    refine ⟨_, 0, Property.Draft.build_eq_ok_iff.2 ⟨⟨by simp, by decide, by decide⟩, rfl⟩, ?_⟩
    simp only [List.forall_mem_cons]
    exact ⟨⟨_, _, _, rfl, trivial⟩, ⟨_, _, _, rfl, trivial⟩, by simp⟩
  have hc := Catalogue.empty.hears_foldl ((Device.ofName "Mount").said steps) 0
  refine ⟨hfresh, by decide +kernel, ?_⟩
  exact (catalogue_in_lockstep "Mount" steps hfresh hc).1

end InstrumentBus
