import InstrumentBus.Proofs.Message.RoundTrip
import InstrumentBus.Proofs.Property.Switches

/-!
What an accepted request changes: nothing but values, and those only of the elements that it
reports as changed.
-/

namespace InstrumentBus

namespace Value

def range? : Value → Option NumberRange
  | .number q => some q.range
  | _ => none

def IsFinite : Value → Prop
  | .number q => q.value.isFinite = true ∧ q.range.IsFinite
  | _ => True

structure Replaces (w v : Value) : Prop where
  kind : w.kind = v.kind
  range? : w.range? = v.range?
  isFinite : v.IsFinite → w.IsFinite

end Value

namespace Element

theorem replaces_of_interpretAs {v u : Value} {authority : Authority} {w : WireValue}
    (h : interpretAs v authority w = .ok u) : u.Replaces v := by
  cases w with
  | blob b =>
    cases v with
    | blob _ =>
      cases h
      exact ⟨rfl, rfl, id⟩
    | _ => cases h
  | scalar text =>
    cases v with
    | text _ =>
      cases h
      exact ⟨rfl, rfl, id⟩
    | blob _ => cases h
    | switch _ =>
      simp only [interpretAs, map_eq_ok_iff] at h
      obtain ⟨_, -, rfl⟩ := h
      exact ⟨rfl, rfl, id⟩
    | light _ =>
      simp only [interpretAs, map_eq_ok_iff] at h
      obtain ⟨_, -, rfl⟩ := h
      exact ⟨rfl, rfl, id⟩
    | number q =>
      obtain ⟨x, hx, h⟩ := bind_eq_ok_iff.1 h
      have hfinite : x.isFinite = true := Number.isFinite_of_read? (readNumber_eq_ok_iff.1 hx)
      split at h
      · cases h
      · cases h
        exact ⟨rfl, rfl, fun hq => ⟨hfinite, hq.2⟩⟩

theorem replaces_of_interpret {e : Element} {authority : Authority} {w : WireValue} {v : Value}
    (h : e.interpret authority w = .ok v) : v.Replaces e.value :=
  replaces_of_interpretAs (mapError_eq_ok_iff.1 h)

structure Changed (names : List String) (e f : Element) : Prop where
  name : f.name = e.name
  label : f.label = e.label
  value : f.value.Replaces e.value
  kept : e.name ∉ names → f = e

theorem Changed.refl (names : List String) (e : Element) : Changed names e e :=
  ⟨rfl, rfl, ⟨rfl, rfl, id⟩, fun _ => rfl⟩

end Element

namespace Property

open Element (Changed)

section

variable {es fs : List Element} {names : List String}

theorem changed_of_pressed {e f : Element} (h : Pressed e f) (he : e.kind = .switch)
    (hkept : e.switch? = f.switch? ∨ e.name ∈ names) : Changed names e f := by
  obtain ⟨name, label, value⟩ := e
  cases h with
  | kept => exact .refl names _
  | set s =>
    cases value with
    | switch t =>
      refine ⟨rfl, rfl, ⟨rfl, rfl, id⟩, ?_⟩
      intro hnames
      have hst : some t = some s := hkept.resolve_right hnames
      cases hst
      rfl
    | _ => cases he

theorem changed_switchedNames (h : List.Forall₂ Pressed es fs) (hes : ∀ e ∈ es, e.kind = .switch)
    (hnames : ∀ n ∈ switchedNames es fs, n ∈ names) : List.Forall₂ (Changed names) es fs := by
  induction h with
  | nil => exact .nil
  | @cons e f es fs he _ ih =>
    obtain ⟨hkind, hes⟩ := List.forall_mem_cons.1 hes
    have hcons : switchedNames (e :: es) (f :: fs) =
        (if e.switch? ≠ f.switch? then [f.name] else []) ++ switchedNames es fs := by
      by_cases hs : e.switch? = f.switch? <;> simp [switchedNames, hs]
    rw [hcons] at hnames
    refine .cons (changed_of_pressed he hkind ?_) (ih hes ?_)
    · by_cases hs : e.switch? = f.switch?
      · exact .inl hs
      · exact .inr (he.name ▸ hnames f.name (by simp [hs]))
    · intro n hn
      exact hnames n (List.mem_append_right _ hn)

theorem pressed_pressAll (rule : Rule) (es : List Element) (values : List (String × Value)) :
    List.Forall₂ Pressed es (pressAll rule es values) := by
  induction values generalizing es with
  | nil => exact pressed_refl es
  | cons v values ih =>
    obtain ⟨name, value⟩ := v
    cases value with
    | switch s => exact pressed_trans pressed_press (ih _)
    | _ => exact ih es

theorem changed_put {a : Assignment} (h : List.Forall₂ (Changed a.touched) es a.elements)
    {name : String} {value : Value}
    (hvalue : ∀ e ∈ es, e.name = name → value.Replaces e.value) :
    List.Forall₂ (Changed (a.put name value).touched) es (a.put name value).elements := by
  unfold Assignment.put
  split
  · split
    · exact h
    · rw [List.forall₂_map_right_iff]
      apply forall₂_imp_of_mem h
      intro e he f _ hchanged
      dsimp only
      split
      · rename_i hname
        refine ⟨hchanged.name, hchanged.label, hvalue e he (hchanged.name ▸ hname), ?_⟩
        intro hfresh
        exact absurd (by simp [← hname, hchanged.name]) hfresh
      · refine ⟨hchanged.name, hchanged.label, hchanged.value, ?_⟩
        intro hfresh
        exact hchanged.kept fun h => hfresh (List.mem_cons_of_mem _ h)
  · exact h

theorem changed_assign {values : List (String × Value)}
    (hvalues : ∀ v ∈ values, ∀ e ∈ es, e.name = v.1 → v.2.Replaces e.value) :
    List.Forall₂ (Changed (assign es values).changed) es (assign es values).elements := by
  have htouched (a : Assignment) (ha : List.Forall₂ (Changed a.touched) es a.elements) :
      List.Forall₂ (Changed (values.foldl (fun a v => a.put v.1 v.2) a).touched) es
        (values.foldl (fun a v => a.put v.1 v.2) a).elements := by
    induction values generalizing a with
    | nil => exact ha
    | cons v values ih =>
      obtain ⟨hv, hvalues⟩ := List.forall_mem_cons.1 hvalues
      exact ih hvalues _ (changed_put ha hv)
  apply forall₂_imp_of_mem (htouched ⟨es, []⟩ (List.forall₂_same.2 fun e _ => .refl _ e))
  intro e _ f hf hchanged
  refine { hchanged with kept := ?_ }
  intro hfresh
  apply hchanged.kept
  intro hmem
  apply hfresh
  refine List.mem_map.2 ⟨f, List.mem_filter.2 ⟨hf, ?_⟩, hchanged.name⟩
  rwa [List.contains_iff_mem, hchanged.name]

end

/-- What holds of all properties of a device: each element can be told apart from the others, is
named without blanks around, and is of the kind of the property; no number is infinite. -/
structure IsSound (p : Property) : Prop where
  names : (p.elements.map (·.name)).Nodup
  trimmed : ∀ e ∈ p.elements, Text.trim e.name = e.name
  kinds : ∀ e ∈ p.elements, e.kind = p.kind
  finite : ∀ e ∈ p.elements, e.value.IsFinite

structure Later (names : List String) (p q : Property) : Prop where
  device : q.device = p.device
  name : q.name = p.name
  label : q.label = p.label
  group : q.group = p.group
  kind : q.kind = p.kind
  permission : q.permission = p.permission
  rule : q.rule = p.rule
  timeout : q.timeout = p.timeout
  elements : List.Forall₂ (Changed names) p.elements q.elements

theorem Later.isSound {names : List String} {p q : Property} (h : Later names p q)
    (hp : p.IsSound) : q.IsSound := by
  have hfrom : ∀ f ∈ q.elements, ∃ e ∈ p.elements, Changed names e f :=
    exists_of_forall₂ h.elements
  refine ⟨?_, ?_, ?_, ?_⟩
  · have hnames : p.elements.map (·.name) = q.elements.map (·.name) :=
      map_eq_of_forall₂ h.elements fun _ _ hchanged => hchanged.name.symm
    rw [← hnames]
    exact hp.names
  · intro f hf
    obtain ⟨e, he, hchanged⟩ := hfrom f hf
    rw [hchanged.name]
    exact hp.trimmed e he
  · intro f hf
    obtain ⟨e, he, hchanged⟩ := hfrom f hf
    exact hchanged.value.kind.trans ((hp.kinds e he).trans h.kind.symm)
  · intro f hf
    obtain ⟨e, he, hchanged⟩ := hfrom f hf
    exact hchanged.value.isFinite (hp.finite e he)

theorem replaces_of_interpret {p : Property} (hnames : (p.elements.map (·.name)).Nodup)
    {authority : Element.Authority} {entries : List ElementValue}
    {values : List (String × Value)} (h : p.interpret authority entries = .ok values) :
    ∀ v ∈ values, ∀ e ∈ p.elements, e.name = v.1 → v.2.Replaces e.value := by
  intro v hv e he hname
  obtain ⟨entry, -, f, hf, hvalue, hfname⟩ :=
    exists_of_forall₂ (interpret_eq_ok_iff.1 h) v hv
  obtain ⟨hmem, -⟩ := element?_eq_some hf
  rw [List.inj_on_of_nodup_map hnames he hmem (hname.trans hfname)]
  exact Element.replaces_of_interpret hvalue

theorem changed_changeElements {p : Property} (hnames : (p.elements.map (·.name)).Nodup)
    (hkinds : ∀ e ∈ p.elements, e.kind = p.kind) {entries : List ElementValue}
    {values : List (String × Value)} (h : p.interpret .client entries = .ok values) :
    List.Forall₂ (Changed (p.changeElements values).2) p.elements (p.changeElements values).1 := by
  unfold changeElements
  split
  · rename_i hkind
    apply changed_switchedNames (pressed_pressAll ..)
    · intro e he
      exact (hkinds e he).trans hkind
    · exact fun _ h => h
  · exact changed_assign (replaces_of_interpret hnames h)

theorem later_setState (p : Property) (now : Time.Millis) (state : State) :
    Later [] p (p.setState now state) :=
  ⟨rfl, rfl, rfl, rfl, rfl, rfl, rfl, rfl, List.forall₂_same.2 fun e _ => .refl [] e⟩

namespace IsSound

variable {p q : Property} (hp : p.IsSound)

include hp

theorem later_applyChange {now : Time.Millis} {r : ChangeRequest} {changed : List String}
    (h : p.applyChange now r = .ok (q, changed)) : Later changed p q := by
  obtain ⟨-, -, values, hvalues, rfl, rfl⟩ := applyChange_eq_ok_iff.1 h
  exact ⟨rfl, rfl, rfl, rfl, rfl, rfl, rfl, rfl,
    changed_changeElements hp.names hp.kinds hvalues⟩

end IsSound

end Property

end InstrumentBus
