import InstrumentBus.Proofs.Property.Change
import InstrumentBus.Proofs.Property.InPlace

/-!
The shape of a property is what it was built with; no call changes it. What changes besides the
values is the state, and with it the time since which the property is busy.
-/

namespace InstrumentBus

def Element.outline (e : Element) : String × String × Kind := (e.name, e.label, e.kind)

namespace Property

structure Shape where
  device : String
  name : String
  label : String
  group : String
  kind : Kind
  permission : Permission
  rule : Option Rule
  elements : List (String × String × Kind)

def shape (p : Property) : Shape where
  device := p.device
  name := p.name
  label := p.label
  group := p.group
  kind := p.kind
  permission := p.permission
  rule := p.rule
  elements := p.elements.map Element.outline

/-- What holds of a property whatever was done to it since it was built. -/
structure IsWellFormed (p : Property) : Prop where
  nonempty : p.elements ≠ []
  names : (p.elements.map (·.name)).Nodup
  kinds : ∀ e ∈ p.elements, e.value.kind = p.kind
  rule : p.rule.isSome = true ↔ p.kind = .switch
  light : p.kind = .light → p.permission = .readOnly
  busy : p.busySince.isSome = true ↔ p.state = .busy

inductive BuiltAt (start : Time.Millis) (p : Property) : Prop
  | draft {d : Draft} : d.build start = .ok p → BuiltAt start p
  | definition {m} : ofDefinition start m = .ok p → BuiltAt start p

section

variable {es fs : List Element}

theorem outline_of_pressed (h : List.Forall₂ Pressed es fs) (hes : ∀ e ∈ es, e.kind = .switch) :
    fs.map Element.outline = es.map Element.outline := by
  induction h with
  | nil => rfl
  | cons hpressed _ ih =>
    obtain ⟨he, hes⟩ := List.forall_mem_cons.1 hes
    rw [List.map_cons, List.map_cons, ih hes]
    simp only [Element.outline, hpressed.name, hpressed.label, hpressed.kind he, he]

theorem outline_of_changed {names : List String} (h : List.Forall₂ (Element.Changed names) es fs) :
    fs.map Element.outline = es.map Element.outline := by
  symm
  apply map_eq_of_forall₂ h
  intro e f hchanged
  simp only [Element.outline, Element.kind, hchanged.name, hchanged.label, hchanged.value.kind]

theorem names_of_outline (h : fs.map Element.outline = es.map Element.outline) :
    fs.map (·.name) = es.map (·.name) := by
  simpa [Element.outline, Function.comp_def] using congrArg (List.map (·.1)) h

theorem ne_nil_of_outline (h : fs.map Element.outline = es.map Element.outline) (hes : es ≠ []) :
    fs ≠ [] := by
  rintro rfl
  exact hes (List.map_eq_nil_iff.1 h.symm)

theorem kinds_of_outline (h : fs.map Element.outline = es.map Element.outline) {kind : Kind}
    (hes : ∀ e ∈ es, e.value.kind = kind) : ∀ f ∈ fs, f.value.kind = kind := by
  intro f hf
  have hmem : f.outline ∈ es.map Element.outline := h ▸ List.mem_map_of_mem hf
  obtain ⟨e, he, hef⟩ := List.mem_map.1 hmem
  have hkind : e.value.kind = f.value.kind := congrArg (·.2.2) hef
  rw [← hkind]
  exact hes e he

end

structure Follows (now : Time.Millis) (p q : Property) : Prop where
  shape : q.shape = p.shape
  busySince : q.busySince =
    if q.state = .busy then (if p.state = .busy then p.busySince else some now) else none

theorem follows_setState (p : Property) (now : Time.Millis) (state : State) :
    Follows now p (p.setState now state) :=
  ⟨rfl, rfl⟩

theorem Follows.refill {now : Time.Millis} {p q : Property} (h : Follows now p q)
    {es : List Element} (hes : es.map Element.outline = q.elements.map Element.outline)
    (timeout : UInt32) (timestamp : String) :
    Follows now p { q with elements := es, timeout, timestamp } := by
  refine ⟨?_, h.busySince⟩
  rw [← h.shape]
  simp only [Property.shape, hes]

namespace IsWellFormed

variable {p q : Property} {now : Time.Millis} (hp : p.IsWellFormed)

include hp

theorem of_follows (h : Follows now p q) : q.IsWellFormed := by
  have houtline : q.elements.map Element.outline = p.elements.map Element.outline :=
    congrArg Shape.elements h.shape
  have hkind : q.kind = p.kind := congrArg Shape.kind h.shape
  constructor
  case nonempty => exact ne_nil_of_outline houtline hp.nonempty
  case names =>
    rw [names_of_outline houtline]
    exact hp.names
  case kinds =>
    rw [hkind]
    exact kinds_of_outline houtline hp.kinds
  case rule =>
    have hrule : q.rule = p.rule := congrArg Shape.rule h.shape
    rw [hkind, hrule]
    exact hp.rule
  case light =>
    have hpermission : q.permission = p.permission := congrArg Shape.permission h.shape
    rw [hkind, hpermission]
    exact hp.light
  case busy =>
    rw [h.busySince]
    split
    · rename_i hbusy
      split
      · rename_i hwas
        exact iff_of_true (hp.busy.2 hwas) hbusy
      · exact iff_of_true rfl hbusy
    · rename_i hbusy
      exact iff_of_false Bool.false_ne_true hbusy

theorem follows_self : Follows now p p := by
  refine ⟨rfl, ?_⟩
  split
  · rfl
  · rename_i hidle
    simpa using mt hp.busy.1 hidle

theorem outline_setValue {name : String} {e : Element} (he : p.element? name = some e)
    {value : Value} (hkind : value.kind = e.kind) :
    (p.elements.map fun e => if e.name = name then { e with value } else e).map
      Element.outline = p.elements.map Element.outline := by
  obtain ⟨hmem, hname⟩ := element?_eq_some he
  rw [List.map_map]
  apply List.map_congr_left
  intro f hf
  rw [Function.comp_apply]
  split
  · rename_i hfname
    have : f = e := List.inj_on_of_nodup_map hp.names hf hmem (hfname.trans hname.symm)
    subst this
    simp only [Element.outline, Element.kind, hkind]
  · rfl

theorem follows_of_outcome {c : Call} (h : c.outcome p = .ok q) : Follows c.now p q := by
  cases c with
  | change now r =>
    obtain ⟨⟨q, changed⟩, hr, rfl⟩ := map_eq_ok_iff.1 h
    obtain ⟨-, -, values, hvalues, -, rfl⟩ := applyChange_eq_ok_iff.1 hr
    have hchanged := changed_changeElements hp.names hp.kinds hvalues
    exact hp.follows_self.refill (outline_of_changed hchanged) _ _
  | update now u =>
    obtain ⟨⟨q, changed⟩, hu, rfl⟩ := map_eq_ok_iff.1 h
    obtain ⟨-, values, hvalues, -, rfl⟩ := applyUpdate_eq_ok_iff.1 hu
    have hstate : Follows now p (u.state.elim p (p.setState now)) := by
      cases u.state with
      | none => exact hp.follows_self
      | some state => exact follows_setState p now state
    have helements : (u.state.elim p (p.setState now)).elements = p.elements := by
      cases u.state <;> rfl
    have hchanged := changed_assign (replaces_of_interpret hp.names hvalues)
    have houtline := outline_of_changed hchanged
    exact hstate.refill (houtline.trans (by rw [helements])) _ _
  | setValue now name value =>
    obtain ⟨e, he, hkind, rfl⟩ := setValue_eq_ok_iff.1 h
    exact hp.follows_self.refill (hp.outline_setValue he hkind) _ _
  | setState now state =>
    cases h
    exact follows_setState p now state

theorem follows_call (c : Call) : Follows c.now p (c.program.exec p).2 := by
  rw [Call.exec_program]
  cases h : c.outcome p with
  | error e => exact hp.follows_self
  | ok q => exact hp.follows_of_outcome h

end IsWellFormed

def StaysBusy (p : Property) (calls : List Call) : Prop :=
  ∀ pre, pre <+: calls → (p.afterCalls pre).state = .busy

/-- One of the calls, at the time `since`, finds a property in another state and makes it busy, and
it stays busy through those after it. -/
def TurnsBusy (p : Property) (calls : List Call) (since : Time.Millis) : Prop :=
  ∃ pre c post, calls = pre ++ c :: post ∧ (p.afterCalls pre).state ≠ .busy ∧
    (p.afterCalls (pre ++ [c])).StaysBusy post ∧ c.now = since

section

variable {p : Property} {c : Call} {calls : List Call} {since : Time.Millis}

theorem staysBusy_nil : p.StaysBusy [] ↔ p.state = .busy := by
  simp [StaysBusy, afterCalls]

theorem staysBusy_cons :
    p.StaysBusy (c :: calls) ↔ p.state = .busy ∧ (c.program.exec p).2.StaysBusy calls := by
  constructor
  · intro h
    refine ⟨h [] List.nil_prefix, ?_⟩
    intro pre hpre
    exact h (c :: pre) (List.cons_prefix_cons.2 ⟨rfl, hpre⟩)
  · rintro ⟨hbusy, h⟩ pre hpre
    obtain rfl | ⟨rest, rfl, hrest⟩ := List.prefix_cons_iff.1 hpre
    · exact hbusy
    · exact h rest hrest

theorem StaysBusy.busy (h : p.StaysBusy calls) : p.state = .busy :=
  h [] List.nil_prefix

theorem not_turnsBusy_nil : ¬p.TurnsBusy [] since := by
  rintro ⟨pre, c, post, hsplit, -⟩
  simp at hsplit

theorem turnsBusy_cons :
    p.TurnsBusy (c :: calls) since ↔
      p.state ≠ .busy ∧ (c.program.exec p).2.StaysBusy calls ∧ c.now = since ∨
        (c.program.exec p).2.TurnsBusy calls since := by
  constructor
  · rintro ⟨pre, c', post, hsplit, hidle, hbusy, hsince⟩
    cases pre with
    | nil =>
      cases hsplit
      exact .inl ⟨hidle, hbusy, hsince⟩
    | cons d pre =>
      cases hsplit
      exact .inr ⟨pre, c', post, rfl, hidle, hbusy, hsince⟩
  · rintro (⟨hidle, hbusy, hsince⟩ | ⟨pre, c', post, rfl, hidle, hbusy, hsince⟩)
    · exact ⟨[], c, calls, rfl, hidle, hbusy, hsince⟩
    · exact ⟨c :: pre, c', post, rfl, hidle, hbusy, hsince⟩

theorem IsWellFormed.afterCalls (hp : p.IsWellFormed) (calls : List Call) :
    (p.afterCalls calls).shape = p.shape ∧ (p.afterCalls calls).IsWellFormed := by
  induction calls generalizing p with
  | nil => exact ⟨rfl, hp⟩
  | cons c calls ih =>
    have hcall := hp.follows_call c
    obtain ⟨hshape, hq⟩ := ih (hp.of_follows hcall)
    exact ⟨hshape.trans hcall.shape, hq⟩

theorem IsWellFormed.busySince_afterCalls (hp : p.IsWellFormed) :
    (p.afterCalls calls).busySince = some since ↔
      p.StaysBusy calls ∧ p.busySince = some since ∨ p.TurnsBusy calls since := by
  -- From the front: what the first call leaves is where the others begin.
  induction calls generalizing p with
  | nil =>
    rw [staysBusy_nil, or_iff_left not_turnsBusy_nil]
    refine (and_iff_right_of_imp ?_).symm
    intro hsince
    exact hp.busy.1 (Option.isSome_of_eq_some hsince)
  | cons c calls ih =>
    have hcall := hp.follows_call c
    change ((c.program.exec p).2.afterCalls calls).busySince = some since ↔ _
    rw [ih (hp.of_follows hcall), staysBusy_cons, turnsBusy_cons, ← or_assoc]
    apply or_congr_left
    by_cases hstays : (c.program.exec p).2.StaysBusy calls
    · rw [hcall.busySince, if_pos hstays.busy]
      by_cases hbusy : p.state = .busy
      · simp [hstays, hbusy]
      · simp [hstays, hbusy]
    · simp [hstays]

end

section

variable {d : Draft} (hd : d.IsSound) (start : Time.Millis)

include hd

theorem outline_property :
    (d.property start).elements.map Element.outline = d.elements.map Element.outline := by
  rw [Draft.property_elements]
  split
  · rename_i hkind
    apply outline_of_pressed (pressed_normalize ..)
    intro e he
    exact (hd.kinds e he).trans hkind
  · rfl

theorem isWellFormed_property (timestamp : String) :
    IsWellFormed { d.property start with timestamp } := by
  have houtline := outline_property hd start
  constructor
  case nonempty => exact ne_nil_of_outline houtline hd.nonempty
  case names =>
    change ((d.property start).elements.map (·.name)).Nodup
    rw [names_of_outline houtline]
    exact hd.names
  case kinds => exact kinds_of_outline houtline hd.kinds
  case rule =>
    by_cases hkind : d.kind = .switch <;> simp [hkind]
  case light =>
    intro hkind
    exact if_pos hkind
  case busy =>
    change (if d.state = .busy then _ else none : Option Time.Millis).isSome = true ↔ d.state = .busy
    by_cases hbusy : d.state = .busy
    · simp [hbusy]
    · simp [hbusy]

end

theorem BuiltAt.exists_draft {start : Time.Millis} {p : Property} (h : BuiltAt start p) :
    ∃ (d : Draft) (timestamp : String), d.IsSound ∧ p = { d.property start with timestamp } := by
  cases h with
  | draft h =>
    obtain ⟨hd, rfl⟩ := Draft.build_eq_ok_iff.1 h
    exact ⟨_, _, hd, rfl⟩
  | definition h =>
    obtain ⟨es, -, hd, rfl⟩ := ofDefinition_eq_ok_iff.1 h
    exact ⟨_, _, hd, rfl⟩

theorem BuiltAt.isWellFormed {start : Time.Millis} {p : Property} (h : BuiltAt start p) :
    p.IsWellFormed := by
  obtain ⟨d, timestamp, hd, rfl⟩ := h.exists_draft
  exact isWellFormed_property hd start timestamp

theorem BuiltAt.busySince {start : Time.Millis} {p : Property} (h : BuiltAt start p) :
    p.busySince = if p.state = .busy then some start else none := by
  obtain ⟨d, timestamp, -, rfl⟩ := h.exists_draft
  rfl

def IsReached (p : Property) : Prop :=
  ∃ start q calls, BuiltAt start q ∧ p = q.afterCalls calls

theorem IsReached.isWellFormed {p : Property} (h : p.IsReached) : p.IsWellFormed := by
  obtain ⟨start, q, calls, hq, rfl⟩ := h
  exact (hq.isWellFormed.afterCalls calls).2

theorem IsReached.afterCalls {p : Property} (h : p.IsReached) (calls : List Call) :
    (p.afterCalls calls).IsReached := by
  obtain ⟨start, q, before, hq, rfl⟩ := h
  exact ⟨start, q, before ++ calls, hq, List.foldl_append.symm⟩

/-- Calls, accepted or refused, leave a property in its shape. It is busy since the last call that
found it in another state and made it busy, or since it was built if it was busy all the time. -/
theorem shape_outlasts_calls {start : Time.Millis} {p : Property} (hp : BuiltAt start p)
    (calls : List Call) :
    (p.afterCalls calls).shape = p.shape ∧ (p.afterCalls calls).IsWellFormed ∧
      ∀ since, (p.afterCalls calls).busySince = some since ↔
        p.StaysBusy calls ∧ start = since ∨ p.TurnsBusy calls since := by
  obtain ⟨hshape, hq⟩ := hp.isWellFormed.afterCalls calls
  refine ⟨hshape, hq, ?_⟩
  intro since
  rw [hp.isWellFormed.busySince_afterCalls]
  apply or_congr_left
  apply and_congr_right
  intro hstays
  rw [hp.busySince, if_pos hstays.busy, Option.some.injEq]

theorem tracking_busy_since_turn :
    let r : ChangeRequest :=
      ⟨.switch, "Mount", "TRACKING", none, [⟨"LUNAR", .scalar "On"⟩, ⟨"SOLAR", .scalar "On"⟩]⟩
    let calls : List Call := [.setState 5 .busy, .change 6 r, .setState 7 .busy]
    tracking.BuiltAt 0 ∧ (tracking.afterCalls calls).shape = tracking.shape ∧
      (tracking.afterCalls calls).busySince = some 5 := by
  intro r calls
  have hbuilt : tracking.BuiltAt 0 :=
    .draft (Draft.build_eq_ok_iff.2 ⟨⟨by simp, by decide, by decide⟩, rfl⟩)
  obtain ⟨hshape, -, hsince⟩ := shape_outlasts_calls hbuilt calls
  have hbusy : (tracking.afterCalls [.setState 5 .busy]).StaysBusy
      [.change 6 r, .setState 7 .busy] := by
    rw [staysBusy_cons, staysBusy_cons, staysBusy_nil]
    decide +kernel
  exact ⟨hbuilt, hshape, (hsince 5).2 (.inr ⟨[], _, _, rfl, by decide, hbusy, rfl⟩)⟩

end Property

end InstrumentBus
