import InstrumentBus.Proofs.Decimal.Whole
import InstrumentBus.Proofs.Property.Change
import InstrumentBus.Proofs.Text.Blank

/-!
Mirrors of properties: made from a definition, and kept by updates that hold no more than what
changed.
-/

namespace InstrumentBus

theorem ofWord?_switch (s : Switch) : ofWord? Switch (word s) = some s := by
  cases s <;> decide

namespace Value

variable {v w : Value}

theorem agrees_self (h : v.IsFinite) : v.agrees v = true := by
  cases v with
  | number q =>
    obtain ⟨hvalue, hmin, hmax, hstep⟩ := h
    simp [agrees, Quantity.agrees, Decimal.beq_self_of_isFinite, hvalue, hmin, hmax, hstep]
  | _ => simp [agrees]

theorem kind_of_agrees (h : v.agrees w = true) : v.kind = w.kind := by
  cases v <;> cases w <;> simp_all [agrees, kind]

end Value

namespace Element

/-- An element `f` that shows what the element `e` is. Values are compared as elements compare
them. -/
structure IsMirror (e f : Element) : Prop where
  name : f.name = e.name
  label : f.label = e.label
  range? : f.range? = e.range?
  value : f.value.agrees e.value = true

/-- A mirror of `e` that may still have to hear its value, if the name is among those announced. -/
structure IsBehind (announced : List String) (e f : Element) : Prop where
  name : f.name = e.name
  label : f.label = e.label
  kind : f.kind = e.kind
  range? : f.range? = e.range?
  value : e.name ∉ announced → f.value.agrees e.value = true

theorem IsMirror.isBehind {names : List String} {e e' f : Element} (h : IsMirror e f)
    (hchanged : Changed names e e') : IsBehind names e' f := by
  refine ⟨h.name.trans hchanged.name.symm, h.label.trans hchanged.label.symm, ?_, ?_, ?_⟩
  · exact (Value.kind_of_agrees h.value).trans hchanged.value.kind.symm
  · exact h.range?.trans hchanged.value.range?.symm
  · intro hname
    rw [hchanged.kept (hchanged.name ▸ hname)]
    exact h.value

theorem IsBehind.isMirror {e f : Element} (h : IsBehind [] e f) : IsMirror e f :=
  ⟨h.name, h.label, h.range?, h.value List.not_mem_nil⟩

theorem interpretAs_toWire {v w : Value} (hkind : v.kind = w.kind) (hrange : v.range? = w.range?)
    (hfinite : w.IsFinite) : interpretAs v .owner w.toWire = .ok w := by
  cases w with
  | text s =>
    cases v with
    | text t => rfl
    | _ => cases hkind
  | switch s =>
    cases v with
    | switch t =>
      have hread := readWordValue_eq_ok_iff.2 (ofWord?_switch s)
      simp only [Value.toWire, interpretAs, hread, Except.map]
    | _ => cases hkind
  | light s =>
    cases v with
    | light t =>
      have hread := readWordValue_eq_ok_iff.2 (ofWord?_state s)
      simp only [Value.toWire, interpretAs, hread, Except.map]
    | _ => cases hkind
  | blob b =>
    cases v with
    | blob c => rfl
    | _ => cases hkind
  | number q =>
    cases v with
    | number r =>
      obtain ⟨x, range⟩ := q
      cases hrange
      have hread : readNumber (Decimal.write x) = .ok x :=
        readNumber_eq_ok_iff.2 (Number.read?_write hfinite.1)
      simp [Value.toWire, interpretAs, hread, bind, Except.bind]
    | _ => cases hkind

end Element

namespace Property

open Element (IsMirror IsBehind)

theorem put_elements {a : Assignment} (hnames : (a.elements.map (·.name)).Nodup) (name : String)
    (value : Value) :
    (a.put name value).elements = a.elements.map fun e =>
      if e.name = name ∧ e.value.agrees value = false then { e with value } else e := by
  have hself (h : ∀ e ∈ a.elements, ¬(e.name = name ∧ e.value.agrees value = false)) :
      a.elements = a.elements.map fun e =>
        if e.name = name ∧ e.value.agrees value = false then { e with value } else e := by
    conv_lhs => rw [← List.map_id a.elements]
    apply List.map_congr_left
    intro e he
    rw [if_neg (h e he), id]
  unfold Assignment.put
  split
  · rename_i e hfound
    have hname : e.name = name := by simpa using List.find?_some hfound
    have honly : ∀ f ∈ a.elements, f.name = name → f = e := fun f hf hfname =>
      List.inj_on_of_nodup_map hnames hf (List.mem_of_find?_eq_some hfound)
        (hfname.trans hname.symm)
    split
    · rename_i hagrees
      apply hself
      rintro f hf ⟨hfname, hdiffers⟩
      rw [honly f hf hfname, hagrees] at hdiffers
      cases hdiffers
    · rename_i hdiffers
      apply List.map_congr_left
      intro f hf
      by_cases hfname : f.name = name
      · have hdiffers : f.value.agrees value = false := by
          rw [honly f hf hfname]
          simpa using hdiffers
        rw [if_pos hfname, if_pos ⟨hfname, hdiffers⟩]
      · rw [if_neg hfname, if_neg fun h => hfname h.1]
  · rename_i hfound
    apply hself
    rintro f hf ⟨hfname, -⟩
    simpa [hfname] using List.find?_eq_none.1 hfound f hf

section

variable {es : List Element} (hnames : (es.map (·.name)).Nodup)
  (hfinite : ∀ e ∈ es, e.value.IsFinite)

include hnames hfinite

theorem behind_put {announced : List String} {a : Assignment} {e : Element} (he : e ∈ es)
    (h : List.Forall₂ (IsBehind (e.name :: announced)) es a.elements) :
    List.Forall₂ (IsBehind announced) es (a.put e.name e.value).elements := by
  have hsame : es.map (·.name) = a.elements.map (·.name) :=
    map_eq_of_forall₂ h fun _ _ hbehind => hbehind.name.symm
  rw [put_elements (hsame ▸ hnames), List.forall₂_map_right_iff]
  apply forall₂_imp_of_mem h
  intro e' he' f _ hbehind
  by_cases hname : e'.name = e.name
  · have : e' = e := List.inj_on_of_nodup_map hnames he' he hname
    subst this
    split
    · exact ⟨hbehind.name, hbehind.label, rfl, rfl, fun _ => Value.agrees_self (hfinite e' he)⟩
    · rename_i hkept
      refine { hbehind with value := fun _ => ?_ }
      simpa [hbehind.name] using hkept
  · rw [if_neg fun h => hname (hbehind.name ▸ h.1)]
    refine { hbehind with value := fun hannounced => hbehind.value ?_ }
    rw [List.mem_cons, not_or]
    exact ⟨hname, hannounced⟩

theorem behind_assign {announced : List Element} (hsub : announced ⊆ es) {a : Assignment}
    (h : List.Forall₂ (IsBehind (announced.map (·.name))) es a.elements) :
    List.Forall₂ (IsBehind []) es
      ((announced.map fun e => (e.name, e.value)).foldl (fun a v => a.put v.1 v.2) a).elements := by
  induction announced generalizing a with
  | nil => exact h
  | cons e announced ih =>
    obtain ⟨he, hsub⟩ := List.cons_subset.1 hsub
    exact ih hsub (behind_put hnames hfinite he h)

end

/-- A property `q` that shows what the property `p` is. The timeout of lights does not travel. -/
structure IsMirror (p q : Property) : Prop where
  device : q.device = p.device
  name : q.name = p.name
  label : q.label = p.label
  group : q.group = p.group
  kind : q.kind = p.kind
  permission : q.permission = p.permission
  state : q.state = p.state
  timeout : p.kind ≠ .light → q.timeout = p.timeout
  rule : q.rule = p.rule
  elements : List.Forall₂ Element.IsMirror p.elements q.elements
  timestamp : q.timestamp = p.timestamp

theorem clampTimeout_toFloat (t : UInt32) : clampTimeout t.toNat.toFloat = t := by
  have ht : t.toNat < 2 ^ 53 := Nat.lt_trans t.toNat_lt (by decide)
  rw [clampTimeout, Decimal.nearest?_toFloat ht]
  exact UInt32.ofNatClamp_toNat t

theorem element?_of_mem {p : Property} (hnames : (p.elements.map (·.name)).Nodup) {e : Element}
    (he : e ∈ p.elements) : p.element? e.name = some e :=
  find?_eq_some_of_nodup hnames he

theorem element?_mirror {p q : Property} {e : Element} (hnames : (p.elements.map (·.name)).Nodup)
    {announced : List String} (h : List.Forall₂ (IsBehind announced) p.elements q.elements)
    (he : e ∈ p.elements) : ∃ f, q.element? e.name = some f ∧ IsBehind announced e f := by
  obtain ⟨f, hf, hbehind⟩ := exists_of_forall₂ h.flip e he
  have hsame : p.elements.map (·.name) = q.elements.map (·.name) :=
    map_eq_of_forall₂ h fun _ _ hbehind => hbehind.name.symm
  refine ⟨f, ?_, hbehind⟩
  rw [← hbehind.name]
  exact element?_of_mem (hsame ▸ hnames) hf

theorem interpret_announced {p q : Property} (hp : p.IsSound) {names : List String}
    (h : List.Forall₂ (IsBehind names) p.elements q.elements) {es : List Element}
    (hes : es ⊆ p.elements) :
    q.interpret .owner (es.map Element.toValue) = .ok (es.map fun e => (e.name, e.value)) := by
  rw [interpret_eq_ok_iff, List.forall₂_map_left_iff, List.forall₂_map_right_iff, List.forall₂_same]
  intro e he
  obtain ⟨f, hf, hbehind⟩ := element?_mirror hp.names h (hes he)
  refine ⟨f, ?_, ?_, hbehind.name.symm⟩
  · rw [Element.toValue, hp.trimmed e (hes he), hf]
  · rw [Element.toValue, Element.interpret, mapError_eq_ok_iff]
    exact Element.interpretAs_toWire hbehind.kind hbehind.range? (hp.finite e (hes he))

theorem updateOf_interpreted {p q : Property} (hp : p.IsSound) {names : List String}
    (h : List.Forall₂ (IsBehind names) p.elements q.elements) :
    ∃ values, q.interpret .owner (p.toUpdateOf names).elements = .ok values ∧
      List.Forall₂ Element.IsMirror p.elements (assign q.elements values).elements := by
  have hsub : p.elements.filter (names.contains ·.name) ⊆ p.elements := List.filter_subset_self _
  refine ⟨_, interpret_announced hp h hsub, ?_⟩
  have hannounced : List.Forall₂
      (IsBehind ((p.elements.filter (names.contains ·.name)).map (·.name))) p.elements
      q.elements := by
    apply forall₂_imp_of_mem h
    intro e he f _ hbehind
    refine { hbehind with value := fun hname => hbehind.value ?_ }
    intro hmem
    exact hname (List.mem_map.2 ⟨e, List.mem_filter.2 ⟨he, List.contains_iff_mem.2 hmem⟩, rfl⟩)
  apply List.Forall₂.imp fun _ _ => IsBehind.isMirror
  exact behind_assign hp.names hp.finite hsub hannounced

theorem applyUpdate_of_interpret {p : Property} {now : Time.Millis} {u : Update} {state : State}
    {values : List (String × Value)} (htarget : p.checkTarget u.kind u.device u.name = .ok ())
    (hvalues : p.interpret .owner u.elements = .ok values) (hstate : u.state = some state) :
    p.applyUpdate now u =
      .ok ({ p.setState now state with
             elements := (assign p.elements values).elements
             timeout := (u.timeout.map clampTimeout).getD p.timeout
             timestamp := u.timestamp.getD (timestampAt now) },
        (assign p.elements values).changed) := by
  refine applyUpdate_eq_ok_iff.2 ⟨checkTarget_eq_ok_iff.1 htarget, values, hvalues, rfl, ?_⟩
  rw [hstate]
  rfl

theorem IsMirror.applyUpdate {names : List String} {p p' q : Property} (h : IsMirror p q)
    (hp : p.IsSound) (hlater : Later names p p') (now : Time.Millis) (message : Option String) :
    ∃ q' changed, q.applyUpdate now { p'.toUpdateOf names with message } = .ok (q', changed) ∧
      IsMirror p' q' := by
  have hbehind : List.Forall₂ (IsBehind names) p'.elements q.elements :=
    forall₂_trans hlater.elements.flip h.elements fun _ _ _ hchanged hmirror =>
      hmirror.isBehind hchanged
  obtain ⟨values, hvalues, helements⟩ := updateOf_interpreted (hlater.isSound hp) hbehind
  have htarget : q.checkTarget p'.kind p'.device p'.name = .ok () := by
    rw [checkTarget_eq_ok_iff, hlater.kind, hlater.device, hlater.name]
    exact ⟨h.kind.symm, h.device.symm, h.name.symm⟩
  refine ⟨_, _, applyUpdate_of_interpret htarget hvalues rfl, ?_⟩
  refine ⟨?_, ?_, ?_, ?_, ?_, ?_, rfl, ?_, ?_, helements, rfl⟩
  · exact h.device.trans hlater.device.symm
  · exact h.name.trans hlater.name.symm
  · exact h.label.trans hlater.label.symm
  · exact h.group.trans hlater.group.symm
  · exact h.kind.trans hlater.kind.symm
  · exact h.permission.trans hlater.permission.symm
  · intro hlight
    simp [toUpdateOf, updateOf, announcedTimeout, hlight, clampTimeout_toFloat]
  · exact h.rule.trans hlater.rule.symm

end Property

namespace Value

/-- A value that a definition can tell: a finite number, no payload, or anything else. -/
def IsPlain : Value → Prop
  | .number q => (Value.number q).IsFinite
  | .blob b => b = .empty
  | _ => True

end Value

namespace Element

def IsPlain (e : Element) : Prop :=
  ∃ name label value, e = named name label value ∧ value.IsPlain

variable {e f : Element}

theorem IsPlain.pressed (h : e.IsPlain) (hpressed : Property.Pressed e f) : f.IsPlain := by
  obtain ⟨name, label, value, rfl, hvalue⟩ := h
  cases hpressed with
  | kept => exact ⟨name, label, value, rfl, hvalue⟩
  | set s => exact ⟨name, label, .switch s, by simp only [named, Property.setSwitch], trivial⟩

theorem IsPlain.trim_name (h : e.IsPlain) : Text.trim e.name = e.name := by
  obtain ⟨name, label, value, rfl, -⟩ := h
  exact Text.trim_trim name

theorem IsPlain.isFinite (h : e.IsPlain) : e.value.IsFinite := by
  obtain ⟨name, label, value, rfl, hvalue⟩ := h
  cases value with
  | number q => exact hvalue
  | _ => trivial

theorem IsPlain.named_self (h : e.IsPlain) : named e.name e.label e.value = e := by
  obtain ⟨name, label, value, rfl, -⟩ := h
  by_cases hlabel : (Text.trim label).isEmpty
  · simp [named, hlabel]
  · simp [named, hlabel]

theorem IsPlain.value (h : e.IsPlain) : e.value.IsPlain := by
  obtain ⟨name, label, value, rfl, hvalue⟩ := h
  exact hvalue

theorem definedValue_toDefined (hnumber : ∀ q, e.value = .number q → q.value.isFinite = true)
    (hblob : ∀ b, e.value = .blob b → b = .empty) :
    definedValue e.kind e.toDefined = .ok e.value := by
  obtain ⟨name, label, value⟩ := e
  cases value with
  | text s => rfl
  | blob b =>
    obtain rfl := hblob b rfl
    rfl
  | switch s =>
    have hread := readWordValue_eq_ok_iff.2 (ofWord?_switch s)
    simp only [definedValue, toDefined, kind, Value.kind, Value.toWire, hread, Except.map]
  | light s =>
    have hread := readWordValue_eq_ok_iff.2 (ofWord?_state s)
    simp only [definedValue, toDefined, kind, Value.kind, Value.toWire, hread, Except.map]
  | number q =>
    have hread : readNumber (Decimal.write q.value) = .ok q.value :=
      readNumber_eq_ok_iff.2 (Number.read?_write (hnumber q rfl))
    simp only [definedValue, toDefined, kind, Value.kind, Value.toWire, hread, range?,
      Option.getD_some]
    rfl

theorem ofDefined_toDefined (hnamed : named e.name e.label e.value = e)
    (hnumber : ∀ q, e.value = .number q → q.value.isFinite = true)
    (hblob : ∀ b, e.value = .blob b → b = .empty) :
    Element.ofDefined e.kind e.toDefined = .ok e := by
  unfold Element.ofDefined
  rw [definedValue_toDefined hnumber hblob]
  dsimp only [toDefined, Option.getD_some]
  rw [hnamed]

theorem IsPlain.ofDefined (h : e.IsPlain) : Element.ofDefined e.kind e.toDefined = .ok e := by
  have hvalue := h.value
  refine ofDefined_toDefined h.named_self ?_ ?_
  · intro q hq
    rw [hq] at hvalue
    exact hvalue.1
  · intro b hb
    rw [hb] at hvalue
    exact hvalue

end Element

namespace Property

def IsFresh (p : Property) : Prop :=
  ∃ (d : Draft) (now : Time.Millis), d.build now = .ok p ∧ ∀ e ∈ d.elements, e.IsPlain

section

variable {p : Property}

theorem IsFresh.isPlain (h : p.IsFresh) : ∀ e ∈ p.elements, e.IsPlain := by
  obtain ⟨d, now, hbuild, hplain⟩ := h
  obtain ⟨-, rfl⟩ := Draft.build_eq_ok_iff.1 hbuild
  intro f hf
  rw [Draft.property_elements] at hf
  split at hf
  · obtain ⟨e, he, hpressed⟩ := exists_of_forall₂ (pressed_normalize d.rule d.elements) f hf
    exact (hplain e he).pressed hpressed
  · exact hplain f hf

theorem IsFresh.isSound (h : p.IsFresh) : p.IsSound := by
  have hplain := h.isPlain
  obtain ⟨d, now, hbuild, -⟩ := h
  obtain ⟨hd, rfl⟩ := Draft.build_eq_ok_iff.1 hbuild
  have hshape : ((d.property now).elements.map (·.name)).Nodup ∧
      ∀ e ∈ (d.property now).elements, e.kind = d.kind := by
    by_cases hkind : d.kind = .switch
    · have hswitches := isSwitches_property hd hkind now
      exact ⟨hswitches.names, fun e he => (hswitches.kinds e he).trans hkind.symm⟩
    · rw [Draft.property_elements, if_neg hkind]
      exact ⟨hd.names, hd.kinds⟩
  exact ⟨hshape.1, fun e he => (hplain e he).trim_name, hshape.2,
    fun e he => (hplain e he).isFinite⟩

theorem getD_filter_getD (f : String → Bool) (label : Option String) (name : String) :
    ((some ((label.filter f).getD name)).filter f).getD name = (label.filter f).getD name := by
  cases hlabel : label.filter f with
  | none =>
    rw [Option.getD_none, Option.filter_some]
    split <;> rfl
  | some l =>
    have hl : f l = true := (Option.filter_eq_some_iff.1 hlabel).2
    rw [Option.getD_some, Option.filter_some_pos hl, Option.getD_some]

theorem elements_ofDefinition {d : Draft} (hd : d.IsSound) (start now : Time.Millis) :
    ((Draft.ofDefinition (d.property start).toDefinition (d.property start).elements).property
      now).elements = (d.property start).elements := by
  rw [Draft.property_elements]
  split
  · rename_i hswitch
    have hswitch : d.kind = .switch := hswitch
    have hrule : (Draft.ofDefinition (d.property start).toDefinition
        (d.property start).elements).rule = d.rule := by
      simp [Draft.ofDefinition, toDefinition, hswitch]
    rw [hrule, normalize]
    split
    · rfl
    · rename_i hone
      exact keepLastOn_eq_self ((isSwitches_property hd hswitch start).atMostOne hone)
  · rfl

theorem isSound_ofDefinition {d : Draft} (hd : d.IsSound) {start : Time.Millis}
    (hp : (d.property start).IsSound) :
    (Draft.ofDefinition (d.property start).toDefinition (d.property start).elements).IsSound := by
  refine ⟨?_, hp.kinds, hp.names⟩
  change (d.property start).elements ≠ []
  rw [Draft.property_elements]
  split
  · rw [← List.length_pos_iff, ← (pressed_normalize d.rule d.elements).length_eq,
      List.length_pos_iff]
    exact hd.nonempty
  · exact hd.nonempty

theorem forall₂_ofDefined (hkinds : ∀ e ∈ p.elements, e.kind = p.kind)
    (hread : ∀ e ∈ p.elements, Element.ofDefined e.kind e.toDefined = .ok e) :
    List.Forall₂ (fun d e => Element.ofDefined p.kind d = .ok e) p.toDefinition.elements
      p.elements := by
  rw [toDefinition, List.forall₂_map_left_iff, List.forall₂_same]
  intro e he
  rw [← hkinds e he]
  exact hread e he

theorem IsFresh.ofDefinition (h : p.IsFresh) (now : Time.Millis) :
    ∃ q, Property.ofDefinition now p.toDefinition = .ok q ∧ IsMirror p q := by
  have hplain := h.isPlain
  have hsound := h.isSound
  have helements := forall₂_ofDefined hsound.kinds fun e he => (hplain e he).ofDefined
  obtain ⟨d, start, hbuild, -⟩ := h
  obtain ⟨hd, rfl⟩ := Draft.build_eq_ok_iff.1 hbuild
  have hmirror : List.Forall₂ Element.IsMirror (d.property start).elements
      ((Draft.ofDefinition (d.property start).toDefinition
        (d.property start).elements).property now).elements := by
    rw [elements_ofDefinition hd, List.forall₂_same]
    intro e he
    exact ⟨rfl, rfl, rfl, Value.agrees_self (hplain e he).isFinite⟩
  refine ⟨_, ofDefinition_eq_ok_iff.2 ⟨_, helements, isSound_ofDefinition hd hsound, rfl⟩, ?_⟩
  constructor
  case label =>
    simp only [Draft.property_label, Draft.ofDefinition, toDefinition, Draft.property_name]
    rw [getD_filter_getD]
  case permission =>
    by_cases hlight : d.kind = .light <;> simp [Draft.ofDefinition, toDefinition, hlight]
  case timeout =>
    intro hlight
    simp only [Draft.property_kind] at hlight
    simp [Draft.ofDefinition, toDefinition, announcedTimeout, hlight, clampTimeout_toFloat]
  case rule =>
    by_cases hswitch : d.kind = .switch <;> simp [Draft.ofDefinition, toDefinition, hswitch]
  case elements => exact hmirror
  all_goals rfl

end

end Property

end InstrumentBus
