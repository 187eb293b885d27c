import InstrumentBus.Proofs.Property.ChangeSet

/-!
Two ways to learn of a property: to hear its first definition and every update after it, or to hear
its last definition only. Updates are taken as they are, while what a definition says of switches is
put under their rule; so the two come to the same values exactly as long as the owner keeps to it.
-/

namespace InstrumentBus

namespace Value

/-- A value without the range of a number, which updates do not tell. -/
def bare : Value → Value
  | .number q => .number { q with range := .default }
  | v => v

variable {v w : Value}

@[simp] theorem kind_bare (v : Value) : v.bare.kind = v.kind := by
  cases v <;> rfl

theorem bare_agrees_number {q r : Quantity} :
    (number q).bare.agrees (number r).bare = (q.value == r.value) := by
  obtain ⟨hmin, hmax, hstep⟩ := NumberRange.isFinite_default
  simp [bare, agrees, Quantity.agrees, Decimal.beq_self_of_isFinite, hmin, hmax, hstep]

theorem bare_agrees (h : v.agrees w = true) : v.bare.agrees w.bare = true := by
  cases v with
  | number q =>
    cases w with
    | number r =>
      rw [bare_agrees_number]
      simp only [agrees, Quantity.agrees, Bool.and_eq_true] at h
      exact h.1.1.1.1
    | _ => cases h
  | _ =>
    cases w with
    | number r => cases h
    | _ => exact h

theorem kind_of_bare_agrees (h : v.bare.agrees w.bare = true) : v.kind = w.kind := by
  rw [← v.kind_bare, ← w.kind_bare, kind_of_agrees h]

theorem isFinite_bare_number {q : Quantity} :
    (number q).bare.IsFinite ↔ q.value.isFinite = true :=
  and_iff_left NumberRange.isFinite_default

end Value

namespace Element

structure Shows (e f : Element) : Prop where
  name : f.name = e.name
  value : f.value.bare.agrees e.value.bare = true

structure IsTellable (e : Element) : Prop where
  named : named e.name e.label e.value = e
  finite : e.value.bare.IsFinite

theorem exists_interpretAs_toWire {v w : Value} (hkind : v.kind = w.kind)
    (hfinite : w.bare.IsFinite) :
    ∃ u, interpretAs v .owner w.toWire = .ok u ∧ u.bare = w.bare := by
  cases w with
  | number q =>
    cases v with
    | number r =>
      have hread : readNumber (Decimal.write q.value) = .ok q.value :=
        readNumber_eq_ok_iff.2 (Number.read?_write (Value.isFinite_bare_number.1 hfinite))
      refine ⟨.number { r with value := q.value }, ?_, rfl⟩
      simp [Value.toWire, interpretAs, hread, bind, Except.bind]
    | _ => cases hkind
  | _ =>
    have hrange : v.range? = none := by
      cases v with
      | number r => cases hkind
      | _ => rfl
    exact ⟨_, interpretAs_toWire hkind hrange hfinite, rfl⟩

theorem isFinite_of_interpretAs {v u : Value} {authority : Authority} {w : WireValue}
    (h : interpretAs v authority w = .ok u) : u.bare.IsFinite := by
  cases u with
  | number r =>
    cases v with
    | number q =>
      cases w with
      | blob b => cases h
      | scalar text =>
        obtain ⟨x, hx, h⟩ := bind_eq_ok_iff.1 h
        split at h
        · cases h
        · cases h
          exact Value.isFinite_bare_number.2
            (Number.isFinite_of_read? (readNumber_eq_ok_iff.1 hx))
    | _ => cases (replaces_of_interpretAs h).kind
  | _ => trivial

theorem Shows.isOn {e f : Element} (h : Shows e f) : f.isOn = e.isOn := by
  obtain ⟨_, _, v⟩ := e
  obtain ⟨_, _, w⟩ := f
  have hvalue : w.bare.agrees v.bare = true := h.value
  cases v with
  | switch s =>
    cases w with
    | switch t =>
      obtain rfl : t = s := by simpa [Value.bare, Value.agrees] using hvalue
      rfl
    | _ => cases Value.kind_of_bare_agrees hvalue
  | _ =>
    cases w with
    | switch t => cases Value.kind_of_bare_agrees hvalue
    | _ => rfl

section

variable {e : Element} (h : e.IsTellable)

include h

theorem IsTellable.trim_name : Text.trim e.name = e.name := congrArg Element.name h.named

theorem IsTellable.ofDefined (hblob : e.kind ≠ .blob) :
    Element.ofDefined e.kind e.toDefined = .ok e := by
  have hfinite := h.finite
  refine ofDefined_toDefined h.named ?_ ?_
  · intro q hq
    rw [hq] at hfinite
    exact Value.isFinite_bare_number.1 hfinite
  · intro b hb
    exact absurd (congrArg Value.kind hb) hblob

end

structure Altered (names : List String) (e f : Element) : Prop where
  name : f.name = e.name
  label : f.label = e.label
  kind : f.kind = e.kind
  kept : e.name ∉ names → f = e

theorem Altered.isNamed {names : List String} {e f : Element} (h : Altered names e f)
    (he : Element.named e.name e.label e.value = e) :
    Element.named f.name f.label f.value = f := by
  obtain ⟨name, label, value⟩ := e
  obtain ⟨name', label', value'⟩ := f
  cases h.name
  cases h.label
  simp only [Element.named, Element.mk.injEq, and_true] at he ⊢
  exact he

theorem Changed.altered {names : List String} {e f : Element} (h : Changed names e f) :
    Altered names e f :=
  ⟨h.name, h.label, h.value.kind, h.kept⟩

end Element

namespace Property

namespace Call

def touched (p : Property) : Call → List String
  | .change now r => ((p.applyChange now r).toOption.map (·.2)).getD []
  | .update now u => ((p.applyUpdate now u).toOption.map (·.2)).getD []
  | .setValue _ name _ => [name]
  | .setState .. => []

/-- What is announced of a call: what it has touched, if it was accepted. -/
def announcement? (p : Property) (c : Call) : Option Update :=
  (c.outcome p).toOption.map (·.toUpdateOf (c.touched p))

end Call

def announced (p : Property) : List Call → List Update
  | [] => []
  | c :: calls => (c.announcement? p).toList ++ (p.afterCalls [c]).announced calls

def hear (p : Property) (us : List (Time.Millis × Update)) : Except PropertyError Property :=
  us.foldlM (fun p u => (p.applyUpdate u.1 u.2).map (·.1)) p

theorem settled_mem (v : Value) (values : List (String × Value)) :
    settled v values = v ∨ ∃ w ∈ values, settled v values = w.2 := by
  induction values generalizing v with
  | nil => exact .inl rfl
  | cons w values ih =>
    obtain h | ⟨u, hu, h⟩ := ih (if v.agrees w.2 then v else w.2)
    · change settled v (w :: values) = _ at h
      split at h
      · exact .inl h
      · exact .inr ⟨w, List.mem_cons_self, h⟩
    · exact .inr ⟨u, List.mem_cons_of_mem w hu, h⟩

section

variable {p q : Property} {c : Call}

theorem isFinite_assign {es : List Element} (hnames : (es.map (·.name)).Nodup)
    (hes : ∀ e ∈ es, e.value.bare.IsFinite) {values : List (String × Value)}
    (hvalues : ∀ v ∈ values, v.2.bare.IsFinite) :
    ∀ f ∈ (assign es values).elements, f.value.bare.IsFinite := by
  rw [assign, puts_elements hnames]
  intro f hf
  obtain ⟨e, he, rfl⟩ := List.mem_map.1 hf
  dsimp only
  obtain h | ⟨v, hv, h⟩ := settled_mem e.value (values.filter (·.1 = e.name))
  · rw [h]
    exact hes e he
  · rw [h]
    exact hvalues v (List.mem_of_mem_filter hv)

theorem isFinite_of_interpret {authority : Element.Authority} {entries : List ElementValue}
    {values : List (String × Value)} (h : p.interpret authority entries = .ok values) :
    ∀ v ∈ values, v.2.bare.IsFinite := by
  intro v hv
  obtain ⟨entry, -, e, -, hvalue, -⟩ := exists_of_forall₂ (interpret_eq_ok_iff.1 h) v hv
  exact Element.isFinite_of_interpretAs (mapError_eq_ok_iff.1 hvalue)

variable (hp : p.IsWellFormed) (h : c.outcome p = .ok q)

include hp h

theorem IsWellFormed.altered :
    List.Forall₂ (Element.Altered (c.touched p)) p.elements q.elements := by
  cases c with
  | change now r =>
    obtain ⟨⟨q, changed⟩, hr, rfl⟩ := map_eq_ok_iff.1 h
    have htouched : (Call.change now r).touched p = changed := by
      simp [Call.touched, hr, Except.toOption]
    obtain ⟨-, -, values, hvalues, rfl, rfl⟩ := applyChange_eq_ok_iff.1 hr
    rw [htouched]
    exact (changed_changeElements hp.names hp.kinds hvalues).imp fun _ _ => Element.Changed.altered
  | update now u =>
    obtain ⟨⟨q, changed⟩, hu, rfl⟩ := map_eq_ok_iff.1 h
    have htouched : (Call.update now u).touched p = changed := by
      simp [Call.touched, hu, Except.toOption]
    obtain ⟨-, values, hvalues, rfl, rfl⟩ := applyUpdate_eq_ok_iff.1 hu
    rw [htouched]
    exact (changed_assign (replaces_of_interpret hp.names hvalues)).imp
      fun _ _ => Element.Changed.altered
  | setValue now name value =>
    obtain ⟨e, he, hkind, rfl⟩ := setValue_eq_ok_iff.1 h
    obtain ⟨hmem, hname⟩ := element?_eq_some he
    rw [List.forall₂_map_right_iff, List.forall₂_same]
    intro f hf
    split
    · rename_i hfname
      have : f = e := List.inj_on_of_nodup_map hp.names hf hmem (hfname.trans hname.symm)
      subst this
      exact ⟨rfl, rfl, hkind, fun hfresh => absurd (List.mem_singleton.2 hfname) hfresh⟩
    · exact (Element.Changed.refl _ f).altered
  | setState now state =>
    cases h
    exact List.forall₂_same.2 fun e _ => (Element.Changed.refl _ e).altered

theorem IsWellFormed.isFinite_of_outcome (hfinite : ∀ e ∈ p.elements, e.value.bare.IsFinite)
    (hset : ∀ now name value, c = .setValue now name value → value.bare.IsFinite) :
    ∀ f ∈ q.elements, f.value.bare.IsFinite := by
  cases c with
  | change now r =>
    obtain ⟨⟨q, changed⟩, hr, rfl⟩ := map_eq_ok_iff.1 h
    obtain ⟨-, -, values, hvalues, rfl, rfl⟩ := applyChange_eq_ok_iff.1 hr
    dsimp only [changeElements]
    split
    · intro f hf
      obtain ⟨e, he, hpressed⟩ := exists_of_forall₂ (pressed_pressAll ..) f hf
      cases hpressed with
      | kept => exact hfinite f he
      | set s => trivial
    · exact isFinite_assign hp.names hfinite (isFinite_of_interpret hvalues)
  | update now u =>
    obtain ⟨⟨q, changed⟩, hu, rfl⟩ := map_eq_ok_iff.1 h
    obtain ⟨-, values, hvalues, rfl, rfl⟩ := applyUpdate_eq_ok_iff.1 hu
    exact isFinite_assign hp.names hfinite (isFinite_of_interpret hvalues)
  | setValue now name value =>
    obtain ⟨e, he, hkind, rfl⟩ := setValue_eq_ok_iff.1 h
    intro f hf
    obtain ⟨e, he, rfl⟩ := List.mem_map.1 hf
    split
    · exact hset now name value rfl
    · exact hfinite e he
  | setState now state =>
    cases h
    exact hfinite

end

def KeepsRule (p : Property) : Prop :=
  ∀ rule ∈ p.rule, rule ≠ .anyOfMany → (onNames p.elements).length ≤ 1

def ruled (p : Property) : List Element := p.rule.elim p.elements (normalize · p.elements)

section

variable {p : Property}

theorem KeepsRule.ruled (h : p.KeepsRule) : p.ruled = p.elements := by
  unfold Property.ruled
  cases hrule : p.rule with
  | none => rfl
  | some rule =>
    rw [Option.elim_some, normalize]
    split
    · rfl
    · rename_i hone
      exact keepLastOn_eq_self (h rule hrule hone)

theorem IsWellFormed.ruled_eq (hp : p.IsWellFormed) : p.ruled =
    if p.kind = .switch then normalize (p.rule.getD .oneOfMany) p.elements else p.elements := by
  rw [ruled]
  cases hrule : p.rule with
  | none =>
    have hkind : p.kind ≠ .switch := by simp [← hp.rule, hrule]
    rw [if_neg hkind, Option.elim_none]
  | some rule =>
    have hkind : p.kind = .switch := by simp [← hp.rule, hrule]
    rw [if_pos hkind, Option.getD_some, Option.elim_some]

theorem length_onNames_ruled {rule : Rule} (hrule : p.rule = some rule) (hone : rule ≠ .anyOfMany) :
    (onNames p.ruled).length ≤ 1 := by
  rw [Property.ruled, hrule, Option.elim_some, normalize, if_neg hone, onNames_keepLastOn]
  exact Option.length_toList_le

theorem BuiltAt.keepsRule {start : Time.Millis} (h : BuiltAt start p) : p.KeepsRule := by
  intro rule hrule hone
  obtain ⟨d, timestamp, hd, rfl⟩ := h.exists_draft
  have hkind : d.kind = .switch := by
    by_contra hkind
    simp [hkind] at hrule
  have hrule : d.rule = rule := by simpa [hkind] using hrule
  exact (isSwitches_property hd hkind start).atMostOne (hrule ▸ hone)

theorem onNames_of_shows {es fs : List Element} (h : List.Forall₂ Element.Shows es fs) :
    onNames fs = onNames es := by
  induction h with
  | nil => rfl
  | cons hshows _ ih => rw [onNames_cons, onNames_cons, hshows.isOn, hshows.name, ih]

theorem shows_ruled_iff {fs : List Element} (h : List.Forall₂ Element.Shows p.elements fs) :
    List.Forall₂ Element.Shows p.ruled fs ↔ p.KeepsRule := by
  constructor
  · intro hruled rule hrule hone
    rw [← onNames_of_shows h, onNames_of_shows hruled]
    exact length_onNames_ruled hrule hone
  · intro hkeeps
    rwa [hkeeps.ruled]

end

/-- A property `q` that shows what the values, the state and the timeout of the property `p` are. -/
structure Tracks (p q : Property) : Prop where
  device : q.device = p.device
  name : q.name = p.name
  kind : q.kind = p.kind
  state : q.state = p.state
  timeout : q.timeout = p.timeout
  elements : List.Forall₂ Element.Shows p.elements q.elements

section

variable {p p' q : Property}

theorem interpret_told {es : List Element} (htold : ∀ e ∈ es, e.IsTellable)
    (hfound : ∀ e ∈ es, ∃ f, q.element? e.name = some f ∧ f.kind = e.kind) :
    ∃ values, q.interpret .owner (es.map Element.toValue) = .ok values ∧
      List.Forall₂ (fun e v => v.1 = e.name ∧ v.2.bare = e.value.bare) es values := by
  have hread : ∀ e ∈ es, ∃ v : String × Value,
      (∃ f, q.element? (Text.trim e.name) = some f ∧
        f.interpret .owner e.value.toWire = .ok v.2 ∧ v.1 = f.name) ∧
      v.1 = e.name ∧ v.2.bare = e.value.bare := by
    intro e he
    obtain ⟨f, hf, hkind⟩ := hfound e he
    obtain ⟨u, hu, hbare⟩ := Element.exists_interpretAs_toWire hkind (htold e he).finite
    refine ⟨(f.name, u), ⟨f, ?_, mapError_eq_ok_iff.2 hu, rfl⟩, (element?_eq_some hf).2, hbare⟩
    rw [(htold e he).trim_name, hf]
  obtain ⟨values, hvalues⟩ := exists_forall₂ hread
  refine ⟨values, interpret_eq_ok_iff.2 ?_, hvalues.imp fun _ _ hv => hv.2⟩
  rw [List.forall₂_map_left_iff]
  exact hvalues.imp fun _ _ hv => hv.1

theorem bare_of_told {es told : List Element} (hnames : (es.map (·.name)).Nodup) (hsub : told ⊆ es)
    {values : List (String × Value)}
    (hvalues : List.Forall₂ (fun e v => v.1 = e.name ∧ v.2.bare = e.value.bare) told values)
    {e : Element} (he : e ∈ es) : ∀ v ∈ values.filter (·.1 = e.name), v.2.bare = e.value.bare := by
  intro v hv
  obtain ⟨hv, hvname⟩ := List.mem_filter.1 hv
  obtain ⟨e', he', hname, hbare⟩ := exists_of_forall₂ hvalues v hv
  have : e' = e :=
    List.inj_on_of_nodup_map hnames (hsub he') he (hname.symm.trans (of_decide_eq_true hvname))
  rw [hbare, this]

theorem settled_shows {v w : Value} (hw : w.bare.IsFinite) {values : List (String × Value)}
    (hvalues : ∀ u ∈ values, u.2.bare = w.bare)
    (hv : values = [] → v.bare.agrees w.bare = true) :
    (settled v values).bare.agrees w.bare = true := by
  induction values generalizing v with
  | nil => exact hv rfl
  | cons u values ih =>
    obtain ⟨hu, hvalues⟩ := List.forall_mem_cons.1 hvalues
    refine ih hvalues fun _ => ?_
    dsimp only
    -- A value that agrees with the one in its place is not put there.
    split
    · rename_i hagrees
      rw [← hu]
      exact Value.bare_agrees hagrees
    · rw [hu]
      exact Value.agrees_self hw

theorem IsWellFormed.ofDefinition (hp : p.IsWellFormed) (htold : ∀ e ∈ p.elements, e.IsTellable)
    (hlight : p.kind ≠ .light) (hblob : p.kind ≠ .blob) (now : Time.Millis) :
    ∃ q, Property.ofDefinition now p.toDefinition = .ok q ∧ q.device = p.device ∧
      q.name = p.name ∧ q.kind = p.kind ∧ q.state = p.state ∧ q.timeout = p.timeout ∧
      q.elements = p.ruled := by
  have helements := forall₂_ofDefined hp.kinds fun e he =>
    (htold e he).ofDefined ((hp.kinds e he).trans_ne hblob)
  have hsound : (Draft.ofDefinition p.toDefinition p.elements).IsSound :=
    ⟨hp.nonempty, hp.kinds, hp.names⟩
  obtain ⟨q, hq⟩ : ∃ q, q = { (Draft.ofDefinition p.toDefinition p.elements).property now with
      timestamp := p.toDefinition.timestamp.getD (timestampAt now) } := ⟨_, rfl⟩
  have hshown : q.device = p.device ∧ q.name = p.name ∧ q.kind = p.kind ∧ q.state = p.state ∧
      q.timeout = p.timeout := by
    simp [hq, Draft.ofDefinition, toDefinition, announcedTimeout, hlight, clampTimeout_toFloat]
  have hruled : q.elements = p.ruled := by
    rw [hp.ruled_eq]
    simp [hq, Draft.property_elements, Draft.ofDefinition, toDefinition]
  obtain ⟨hdevice, hname, hkind, hstate, htimeout⟩ := hshown
  exact ⟨q, ofDefinition_eq_ok_iff.2 ⟨p.elements, helements, hsound, hq⟩, hdevice, hname, hkind,
    hstate, htimeout, hruled⟩

variable (h : Tracks p q) {names : List String}
  (haltered : List.Forall₂ (Element.Altered names) p.elements p'.elements)

include h haltered

theorem Tracks.untouched : List.Forall₂ (fun e f => f.name = e.name ∧ f.kind = e.kind ∧
    (e.name ∉ names → f.value.bare.agrees e.value.bare = true)) p'.elements q.elements := by
  refine forall₂_trans haltered.flip h.elements ?_
  intro e' e f halter hshows
  refine ⟨hshows.name.trans halter.name.symm, ?_, ?_⟩
  · exact (Value.kind_of_bare_agrees hshows.value).trans halter.kind.symm
  · intro hname
    rw [halter.kept (halter.name ▸ hname)]
    exact hshows.value

theorem Tracks.interpret (hnames : (p'.elements.map (·.name)).Nodup)
    (htold : ∀ e ∈ p'.elements, e.IsTellable) :
    ∃ values, q.interpret .owner (p'.toUpdateOf names).elements = .ok values ∧
      List.Forall₂ (fun e v => v.1 = e.name ∧ v.2.bare = e.value.bare)
        (p'.elements.filter (names.contains ·.name)) values := by
  have hold := h.untouched haltered
  have hnames' : (q.elements.map (·.name)).Nodup :=
    map_eq_of_forall₂ hold (fun _ _ hef => hef.1.symm) ▸ hnames
  refine interpret_told (fun e he => htold e (List.mem_of_mem_filter he)) ?_
  intro e he
  obtain ⟨f, hf, hname, hkind, -⟩ := exists_of_forall₂ hold.flip e (List.mem_of_mem_filter he)
  exact ⟨f, hname ▸ element?_of_mem hnames' hf, hkind⟩

theorem Tracks.assign (hnames : (p'.elements.map (·.name)).Nodup)
    (htold : ∀ e ∈ p'.elements, e.IsTellable) {values : List (String × Value)}
    (hvalues : List.Forall₂ (fun e v => v.1 = e.name ∧ v.2.bare = e.value.bare)
        (p'.elements.filter (names.contains ·.name)) values) :
    List.Forall₂ Element.Shows p'.elements (assign q.elements values).elements := by
  have hold := h.untouched haltered
  have hnames' : (q.elements.map (·.name)).Nodup :=
    map_eq_of_forall₂ hold (fun _ _ hef => hef.1.symm) ▸ hnames
  rw [Property.assign, puts_elements hnames', List.forall₂_map_right_iff]
  apply forall₂_imp_of_mem hold
  rintro e he f hf ⟨hname, -, hkept⟩
  refine ⟨hname, settled_shows (htold e he).finite ?_ ?_⟩
  · rw [hname]
    exact bare_of_told hnames (List.filter_subset_self _) hvalues he
  · intro hnone
    apply hkept
    intro hmem
    obtain ⟨v, hv, hvname, -⟩ := exists_of_forall₂ hvalues.flip e
      (List.mem_filter.2 ⟨he, List.contains_iff_mem.2 hmem⟩)
    simpa [hvname, hname] using List.filter_eq_nil_iff.1 hnone v hv

theorem Tracks.applyUpdate (hp' : p'.IsWellFormed) (htold : ∀ e ∈ p'.elements, e.IsTellable)
    (hshape : p'.shape = p.shape) (hlight : p.kind ≠ .light) (now : Time.Millis) :
    ∃ q' changed, q.applyUpdate now (p'.toUpdateOf names) = .ok (q', changed) ∧ Tracks p' q' := by
  obtain ⟨values, hread, hvalues⟩ := h.interpret haltered hp'.names htold
  have hdevice : p'.device = p.device := congrArg Shape.device hshape
  have hname : p'.name = p.name := congrArg Shape.name hshape
  have hkind : p'.kind = p.kind := congrArg Shape.kind hshape
  have htarget : q.checkTarget p'.kind p'.device p'.name = .ok () := by
    rw [checkTarget_eq_ok_iff, hdevice, hname, hkind]
    exact ⟨h.kind.symm, h.device.symm, h.name.symm⟩
  refine ⟨_, _, applyUpdate_of_interpret htarget hread rfl, ?_⟩
  refine ⟨h.device.trans hdevice.symm, h.name.trans hname.symm, h.kind.trans hkind.symm, rfl, ?_,
    h.assign haltered hp'.names htold hvalues⟩
  simp [toUpdateOf, updateOf, announcedTimeout, hkind, hlight, clampTimeout_toFloat]

end

structure IsTold (p : Property) : Prop where
  wellFormed : p.IsWellFormed
  elements : ∀ e ∈ p.elements, e.IsTellable
  light : p.kind ≠ .light
  blob : p.kind ≠ .blob

section

variable {p q : Property} {c : Call}

theorem IsTold.of_outcome (h : p.IsTold) (hc : c.outcome p = .ok q)
    (hset : ∀ now name value, c = .setValue now name value → value.bare.IsFinite) :
    q.IsTold ∧ q.shape = p.shape := by
  have hfollows := h.wellFormed.follows_of_outcome hc
  have hkind : q.kind = p.kind := congrArg Shape.kind hfollows.shape
  refine ⟨⟨h.wellFormed.of_follows hfollows, ?_, hkind ▸ h.light, hkind ▸ h.blob⟩,
    hfollows.shape⟩
  intro f hf
  obtain ⟨e, he, haltered⟩ := exists_of_forall₂ (h.wellFormed.altered hc) f hf
  refine ⟨haltered.isNamed (h.elements e he).named, ?_⟩
  exact h.wellFormed.isFinite_of_outcome hc (fun e he => (h.elements e he).finite) hset f hf

theorem afterCalls_singleton (p : Property) (c : Call) :
    p.afterCalls [c] = (c.outcome p).toOption.getD p := by
  rw [afterCalls, List.foldl_cons, List.foldl_nil, Call.exec_program]
  cases c.outcome p <;> rfl

theorem Tracks.afterCalls {calls : List Call} (h : Tracks p q) (hp : p.IsTold)
    (hset : ∀ now name value, .setValue now name value ∈ calls → value.bare.IsFinite)
    {heard : List (Time.Millis × Update)} (hheard : heard.map (·.2) = p.announced calls) :
    (p.afterCalls calls).IsTold ∧
      ∃ q', q.hear heard = .ok q' ∧ Tracks (p.afterCalls calls) q' := by
  induction calls generalizing p q heard with
  | nil =>
    obtain rfl := List.map_eq_nil_iff.1 hheard
    exact ⟨hp, q, rfl, h⟩
  | cons c calls ih =>
    have hset' : ∀ now name value, .setValue now name value ∈ calls → value.bare.IsFinite :=
      fun now name value hmem => hset now name value (List.mem_cons_of_mem c hmem)
    have hsplit : p.afterCalls (c :: calls) = (p.afterCalls [c]).afterCalls calls := rfl
    rw [hsplit]
    rw [announced, Call.announcement?] at hheard
    rw [afterCalls_singleton] at hheard ⊢
    cases hc : c.outcome p with
    | error e =>
      -- A refused call leaves the property as it is, and nothing is announced of it.
      rw [hc] at hheard
      exact ih h hp hset' hheard
    | ok p' =>
      rw [hc] at hheard
      obtain ⟨hp', hshape⟩ := hp.of_outcome hc fun now name value hsame =>
        hset now name value (hsame ▸ List.mem_cons_self)
      obtain ⟨⟨now, u⟩, heard, rfl⟩ : ∃ u rest, heard = u :: rest := by
        cases heard with
        | nil => cases hheard
        | cons u rest => exact ⟨u, rest, rfl⟩
      obtain ⟨hu, hothers⟩ := List.cons_eq_cons.1 hheard
      obtain rfl : u = p'.toUpdateOf (c.touched p) := hu
      obtain ⟨q', changed, hupdate, htracks⟩ :=
        h.applyUpdate (hp.wellFormed.altered hc) hp'.wellFormed hp'.elements hshape hp.light now
      obtain ⟨htold, q'', hrest, htracks⟩ := ih htracks hp' hset' hothers
      refine ⟨htold, q'', ?_, htracks⟩
      rw [hear, List.foldlM_cons, hupdate]
      exact hrest

end

/-- A property of texts, numbers or switches is changed by any calls. A client that heard its first
definition accepts all that is announced of the calls; a client that comes after them accepts the
definition at the end. Both then have the state and the timeout of the property. The first has its
values, too, while the other has them under the rule of switches: the two have the same values
exactly if no more switches are on than that rule allows. -/
theorem latecomer_sees_same_iff {start : Time.Millis} {p : Property} (hp : BuiltAt start p)
    (hkind : p.kind = .text ∨ p.kind = .number ∨ p.kind = .switch)
    (htold : ∀ e ∈ p.elements, e.IsTellable) (calls : List Call)
    (hset : ∀ now name value, .setValue now name value ∈ calls → value.bare.IsFinite)
    (first last : Time.Millis) {heard : List (Time.Millis × Update)}
    (hheard : heard.map (·.2) = p.announced calls) :
    let q := p.afterCalls calls
    ∃ begun follower latecomer,
      ofDefinition first p.toDefinition = .ok begun ∧ begun.hear heard = .ok follower ∧
      ofDefinition last q.toDefinition = .ok latecomer ∧
      (follower.state = q.state ∧ latecomer.state = q.state) ∧
      (follower.timeout = q.timeout ∧ latecomer.timeout = q.timeout) ∧
      List.Forall₂ Element.Shows q.elements follower.elements ∧
      latecomer.elements = q.ruled ∧
      (List.Forall₂ Element.Shows latecomer.elements follower.elements ↔ q.KeepsRule) := by
  intro q
  have hp' : p.IsTold := by
    refine ⟨hp.isWellFormed, htold, ?_, ?_⟩ <;> rintro h <;> simp [h] at hkind
  obtain ⟨begun, hbegun, hdevice, hname, hkind, hstate, htimeout, helements⟩ :=
    hp'.wellFormed.ofDefinition htold hp'.light hp'.blob first
  have htracks : Tracks p begun := by
    refine ⟨hdevice, hname, hkind, hstate, htimeout, ?_⟩
    rw [helements, hp.keepsRule.ruled, List.forall₂_same]
    exact fun e he => ⟨rfl, Value.agrees_self (htold e he).finite⟩
  obtain ⟨hq, follower, hfollower, htracks⟩ := htracks.afterCalls hp' hset hheard
  obtain ⟨latecomer, hlatecomer, -, -, -, hstate, htimeout, hruled⟩ :=
    hq.wellFormed.ofDefinition hq.elements hq.light hq.blob last
  refine ⟨begun, follower, latecomer, hbegun, hfollower, hlatecomer, ⟨htracks.state, hstate⟩,
    ⟨htracks.timeout, htimeout⟩, htracks.elements, hruled, ?_⟩
  rw [hruled]
  exact shows_ruled_iff htracks.elements

theorem builtAt_tracking : tracking.BuiltAt 0 :=
  .draft (Draft.build_eq_ok_iff.2 ⟨⟨by simp, by decide, by decide⟩, rfl⟩)

theorem isTellable_tracking : ∀ e ∈ tracking.elements, e.IsTellable := by
  have helements : tracking.elements =
      [⟨"SIDEREAL", "SIDEREAL", .switch .on⟩, ⟨"LUNAR", "LUNAR", .switch .off⟩] := by
    decide +kernel
  rw [helements, List.forall_mem_cons, List.forall_mem_singleton]
  exact ⟨⟨by decide +kernel, trivial⟩, ⟨by decide +kernel, trivial⟩⟩

theorem latecomer_sees_lunar_rate :
    let r : ChangeRequest := ⟨.switch, "Mount", "TRACKING", none, [⟨"LUNAR", .scalar "On"⟩]⟩
    let calls : List Call := [.change 1 r, .setState 2 .busy]
    let q := tracking.afterCalls calls
    onNames q.elements = ["LUNAR"] ∧ q.state = .busy ∧
      ∃ begun follower latecomer, ofDefinition 0 tracking.toDefinition = .ok begun ∧
        begun.hear ((tracking.announced calls).map (3, ·)) = .ok follower ∧
        ofDefinition 4 q.toDefinition = .ok latecomer ∧
        follower.state = latecomer.state ∧
        List.Forall₂ Element.Shows latecomer.elements follower.elements := by
  intro r calls q
  have hset : ∀ now name value, .setValue now name value ∈ calls → value.bare.IsFinite := by
    intro now name value hmem
    simp [calls] at hmem
  have hkeeps : q.KeepsRule := fun _ _ _ => by decide +kernel
  have hheard : ((tracking.announced calls).map ((3 : Time.Millis), ·)).map (·.2) =
      tracking.announced calls := by
    rw [List.map_map]
    exact List.map_id _
  obtain ⟨begun, follower, latecomer, hbegun, hfollower, hlatecomer, hstate, -, -, -, hsame⟩ :=
    latecomer_sees_same_iff builtAt_tracking (.inr (.inr rfl)) isTellable_tracking calls hset 0 4
      hheard
  exact ⟨by decide +kernel, by decide +kernel, begun, follower, latecomer, hbegun, hfollower,
    hlatecomer, hstate.1.trans hstate.2.symm, hsame.2 hkeeps⟩

/-- The mount itself turns a second rate on. The follower sees both of them on, the latecomer the
last one only. -/
theorem latecomer_misses_second_rate :
    let calls : List Call := [.setValue 1 "LUNAR" (.switch .on)]
    let follower := do
      let begun ← ofDefinition 0 tracking.toDefinition
      begun.hear ((tracking.announced calls).map (2, ·))
    let latecomer := ofDefinition 3 (tracking.afterCalls calls).toDefinition
    tracking.BuiltAt 0 ∧ (∀ e ∈ tracking.elements, e.IsTellable) ∧
      follower.map (fun p => onNames p.elements) = .ok ["SIDEREAL", "LUNAR"] ∧
      latecomer.map (fun p => onNames p.elements) = .ok ["LUNAR"] := by
  intro calls follower latecomer
  exact ⟨builtAt_tracking, isTellable_tracking, by decide +kernel, by decide +kernel⟩

end Property

end InstrumentBus
