import InstrumentBus.Proofs.Except
import InstrumentBus.Property.Basic
import Mathlib.Data.List.Nodup

/-!
What is accepted: the drafts that make a property, and the requests and updates that change one,
each with what comes of it.
-/

namespace InstrumentBus

theorem find?_eq_some_of_nodup {α κ : Type} [DecidableEq κ] {key : α → κ} {as : List α}
    (hnodup : (as.map key).Nodup) {a : α} (ha : a ∈ as) :
    as.find? (key · == key a) = some a := by
  cases hfound : as.find? (key · == key a) with
  | none => simpa using List.find?_eq_none.1 hfound a ha
  | some b =>
    have hkey : key b = key a := by simpa using List.find?_some hfound
    rw [List.inj_on_of_nodup_map hnodup (List.mem_of_find?_eq_some hfound) ha hkey]

section

variable {α β : Type} {R S : α → β → Prop} {as : List α} {bs : List β}

theorem forall₂_imp_of_mem (h : List.Forall₂ R as bs)
    (hRS : ∀ a ∈ as, ∀ b ∈ bs, R a b → S a b) : List.Forall₂ S as bs := by
  induction h with
  | nil => exact .nil
  | cons hab _ ih =>
    refine .cons (hRS _ List.mem_cons_self _ List.mem_cons_self hab) (ih ?_)
    intro a ha b hb
    exact hRS a (List.mem_cons_of_mem _ ha) b (List.mem_cons_of_mem _ hb)

theorem forall₂_and (h : List.Forall₂ R as bs) (h' : List.Forall₂ S as bs) :
    List.Forall₂ (fun a b => R a b ∧ S a b) as bs := by
  rw [List.forall₂_iff_zip] at *
  exact ⟨h.1, fun hab => ⟨h.2 hab, h'.2 hab⟩⟩

theorem forall₂_trans {γ : Type} {T : α → γ → Prop} {R' : β → γ → Prop} {cs : List γ}
    (h : List.Forall₂ R as bs) (h' : List.Forall₂ R' bs cs)
    (hT : ∀ a b c, R a b → R' b c → T a c) : List.Forall₂ T as cs := by
  induction h generalizing cs with
  | nil =>
    cases h'
    exact .nil
  | cons hab _ ih =>
    obtain ⟨c, cs, hbc, hcs, rfl⟩ := List.forall₂_cons_left_iff.1 h'
    exact .cons (hT _ _ _ hab hbc) (ih hcs)

theorem map_eq_of_forall₂ {γ : Type} {f : α → γ} {g : β → γ} (h : List.Forall₂ R as bs)
    (hfg : ∀ a b, R a b → f a = g b) : as.map f = bs.map g := by
  rw [← List.forall₂_eq_eq_eq, List.forall₂_map_left_iff, List.forall₂_map_right_iff]
  exact h.imp hfg

theorem exists_getLast?_of_forall₂ (h : List.Forall₂ R as bs) {a : α} (ha : as.getLast? = some a) :
    ∃ b, bs.getLast? = some b ∧ R a b := by
  induction h with
  | nil => cases ha
  | @cons c d as bs hcd h ih =>
    cases h with
    | nil =>
      cases ha
      exact ⟨d, rfl, hcd⟩
    | cons _ _ =>
      rw [List.getLast?_cons_cons] at ha ⊢
      exact ih ha

theorem exists_forall₂ (h : ∀ a ∈ as, ∃ b, R a b) : ∃ bs, List.Forall₂ R as bs := by
  induction as with
  | nil => exact ⟨[], .nil⟩
  | cons a as ih =>
    obtain ⟨⟨b, hb⟩, has⟩ := List.forall_mem_cons.1 h
    obtain ⟨bs, hbs⟩ := ih has
    exact ⟨b :: bs, .cons hb hbs⟩

theorem forall₂_exists_map_iff {γ : Type} {f : β → γ} {cs : List γ} :
    List.Forall₂ (fun a c => ∃ b, R a b ∧ c = f b) as cs ↔
      ∃ bs, List.Forall₂ R as bs ∧ cs = bs.map f := by
  constructor
  · intro h
    induction h with
    | nil => exact ⟨[], .nil, rfl⟩
    | cons hac _ ih =>
      obtain ⟨b, hb, rfl⟩ := hac
      obtain ⟨bs, hbs, rfl⟩ := ih
      exact ⟨b :: bs, .cons hb hbs, rfl⟩
  · rintro ⟨bs, h, rfl⟩
    rw [List.forall₂_map_right_iff]
    exact h.imp fun _ b hb => ⟨b, hb, rfl⟩

end

namespace Element

theorem readWordValue_eq_ok_iff {α : Type} [Vocabulary α] {text : String} {a : α} :
    readWordValue α text = .ok a ↔ ofWord? α text = some a := by
  unfold readWordValue
  cases ofWord? α text <;> simp

theorem readNumber_eq_ok_iff {text : String} {x : Float} :
    readNumber text = .ok x ↔ Number.read? text = some x := by
  unfold readNumber
  cases Number.read? text <;> simp

end Element

namespace Property

theorem checkElements_eq_ok_iff {property : String} {kind : Kind} {seen : List String}
    {es : List Element} :
    checkElements property kind seen es = .ok () ↔
      (∀ e ∈ es, e.kind = kind) ∧ (es.map (·.name)).Nodup ∧ ∀ e ∈ es, e.name ∉ seen := by
  induction es generalizing seen with
  | nil => simp [checkElements]
  | cons e es ih =>
    unfold checkElements
    split
    · rename_i hkind
      simp [hkind]
    · rename_i hkind
      split
      · rename_i hseen
        simp [hseen]
      · rename_i hseen
        have hkind : e.kind = kind := not_not.1 hkind
        rw [ih]
        constructor
        · rintro ⟨hkinds, hnodup, hfresh⟩
          refine ⟨by simpa [hkind], ?_, ?_⟩
          · rw [List.map_cons, List.nodup_cons, List.mem_map]
            refine ⟨?_, hnodup⟩
            rintro ⟨f, hf, hname⟩
            exact hfresh f hf (hname ▸ List.mem_cons_self)
          · intro f hf
            obtain rfl | hf := List.mem_cons.1 hf
            · exact hseen
            · exact fun h => hfresh f hf (List.mem_cons_of_mem _ h)
        · rintro ⟨hkinds, hnodup, hfresh⟩
          rw [List.map_cons, List.nodup_cons, List.mem_map] at hnodup
          refine ⟨fun f hf => hkinds f (List.mem_cons_of_mem _ hf), hnodup.2, ?_⟩
          intro f hf hmem
          obtain hname | hmem := List.mem_cons.1 hmem
          · exact hnodup.1 ⟨f, hf, hname⟩
          · exact hfresh f (List.mem_cons_of_mem _ hf) hmem

def Draft.property (d : Draft) (now : Time.Millis) : Property :=
  setState
    { device := d.device
      name := d.name
      label := (d.label.filter fun l => !(Text.trim l).isEmpty).getD d.name
      group := d.group.getD ""
      kind := d.kind
      permission := if d.kind = .light then .readOnly else d.permission
      state := .idle
      timeout := d.timeout
      rule := if d.kind = .switch then some d.rule else none
      elements := if d.kind = .switch then normalize d.rule d.elements else d.elements
      timestamp := timestampAt now
      busySince := none }
    now d.state

section

variable (d : Draft) (now : Time.Millis)

@[simp] theorem Draft.property_device : (d.property now).device = d.device := rfl

@[simp] theorem Draft.property_name : (d.property now).name = d.name := rfl

@[simp] theorem Draft.property_label : (d.property now).label =
    (d.label.filter fun l => !(Text.trim l).isEmpty).getD d.name := rfl

@[simp] theorem Draft.property_group : (d.property now).group = d.group.getD "" := rfl

@[simp] theorem Draft.property_kind : (d.property now).kind = d.kind := rfl

@[simp] theorem Draft.property_permission : (d.property now).permission =
    if d.kind = .light then .readOnly else d.permission := rfl

@[simp] theorem Draft.property_state : (d.property now).state = d.state := rfl

@[simp] theorem Draft.property_timeout : (d.property now).timeout = d.timeout := rfl

@[simp] theorem Draft.property_rule : (d.property now).rule =
    if d.kind = .switch then some d.rule else none := rfl

theorem Draft.property_elements : (d.property now).elements =
    if d.kind = .switch then normalize d.rule d.elements else d.elements := rfl

end

structure Draft.IsSound (d : Draft) : Prop where
  nonempty : d.elements ≠ []
  kinds : ∀ e ∈ d.elements, e.kind = d.kind
  names : (d.elements.map (·.name)).Nodup

theorem Draft.build_eq_ok_iff {d : Draft} {now : Time.Millis} {p : Property} :
    d.build now = .ok p ↔ d.IsSound ∧ p = d.property now := by
  have hcheck : checkElements d.name d.kind [] d.elements = .ok () ↔
      (∀ e ∈ d.elements, e.kind = d.kind) ∧ (d.elements.map (·.name)).Nodup := by
    rw [checkElements_eq_ok_iff]
    simp
  unfold Draft.build
  dsimp only
  split
  · rename_i hempty
    refine iff_of_false (by simp [bind_eq_ok_iff]) ?_
    rintro ⟨hsound, -⟩
    exact hsound.nonempty (List.isEmpty_iff.1 hempty)
  · rename_i hempty
    rw [check_bind_eq_ok_iff, hcheck, Except.ok.injEq]
    constructor
    · rintro ⟨⟨hkinds, hnames⟩, rfl⟩
      exact ⟨⟨mt List.isEmpty_iff.2 hempty, hkinds, hnames⟩, rfl⟩
    · rintro ⟨hsound, rfl⟩
      exact ⟨⟨hsound.kinds, hsound.names⟩, rfl⟩

theorem ofDefinition_eq_ok_iff {now : Time.Millis} {m : Definition} {p : Property} :
    ofDefinition now m = .ok p ↔ ∃ es,
      List.Forall₂ (fun d e => Element.ofDefined m.kind d = .ok e) m.elements es ∧
      (Draft.ofDefinition m es).IsSound ∧
      p = { (Draft.ofDefinition m es).property now with
            timestamp := m.timestamp.getD (timestampAt now) } := by
  unfold ofDefinition
  simp only [bind_eq_ok_iff, mapM_eq_ok_iff, Draft.build_eq_ok_iff, Except.ok.injEq]
  constructor
  · rintro ⟨es, hes, q, ⟨hsound, rfl⟩, rfl⟩
    exact ⟨es, hes, hsound, rfl⟩
  · rintro ⟨es, hes, hsound, rfl⟩
    exact ⟨es, hes, _, ⟨hsound, rfl⟩, rfl⟩

section

variable {p q : Property} {name : String} {e : Element}

theorem element?_eq_some (h : p.element? name = some e) : e ∈ p.elements ∧ e.name = name :=
  ⟨List.mem_of_find?_eq_some h, by simpa using List.find?_some h⟩

theorem findElement_eq_ok_iff : p.findElement name = .ok e ↔ p.element? name = some e := by
  unfold findElement
  cases p.element? name <;> simp

theorem findElement_eq_error_iff {err : PropertyError} :
    p.findElement name = .error err ↔ p.element? name = none ∧ err = .unknownElement p.name name := by
  unfold findElement
  cases p.element? name <;> simp [eq_comm]

theorem checkTarget_eq_ok_iff {kind : Kind} {device name : String} :
    p.checkTarget kind device name = .ok () ↔
      kind = p.kind ∧ device = p.device ∧ name = p.name := by
  unfold checkTarget
  grind

theorem interpret_eq_ok_iff {authority : Element.Authority} {entries : List ElementValue}
    {values : List (String × Value)} :
    p.interpret authority entries = .ok values ↔
      List.Forall₂
        (fun entry v => ∃ e, p.element? (Text.trim entry.name) = some e ∧
          e.interpret authority entry.value = .ok v.2 ∧ v.1 = e.name) entries values := by
  unfold interpret
  simp only [mapM_eq_ok_iff, bind_eq_ok_iff, findElement_eq_ok_iff, Except.ok.injEq]
  have (entry : ElementValue) (v : String × Value) :
      (∃ e, p.element? (Text.trim entry.name) = some e ∧
        ∃ value, e.interpret authority entry.value = .ok value ∧ (e.name, value) = v) ↔
      ∃ e, p.element? (Text.trim entry.name) = some e ∧
        e.interpret authority entry.value = .ok v.2 ∧ v.1 = e.name := by
    grind
  simp only [this]

theorem applyChange_eq_ok_iff {now : Time.Millis} {r : ChangeRequest} {changed : List String} :
    p.applyChange now r = .ok (q, changed) ↔
      (r.kind = p.kind ∧ r.device = p.device ∧ r.name = p.name) ∧
      p.permission.isWritable = true ∧
      ∃ values, p.interpret .client r.elements = .ok values ∧
        changed = (p.changeElements values).2 ∧
        q = { p with
              elements := (p.changeElements values).1
              timestamp := if changed.isEmpty then p.timestamp else timestampAt now } := by
  unfold applyChange
  dsimp only
  rw [check_bind_eq_ok_iff, checkTarget_eq_ok_iff]
  apply and_congr_right
  intro _
  split
  · rename_i hreadOnly
    refine iff_of_false (by simp [bind_eq_ok_iff]) ?_
    rintro ⟨hwritable, -⟩
    simp [hwritable] at hreadOnly
  · rename_i hwritable
    simp only [bind_eq_ok_iff, Except.ok.injEq, Prod.mk.injEq]
    constructor
    · rintro ⟨values, hvalues, rfl, rfl⟩
      exact ⟨by simpa using hwritable, values, hvalues, rfl, rfl⟩
    · rintro ⟨-, values, hvalues, rfl, rfl⟩
      exact ⟨values, hvalues, rfl, rfl⟩

theorem name_of_applyChange {now : Time.Millis} {r : ChangeRequest} {changed : List String}
    (h : p.applyChange now r = .ok (q, changed)) : q.name = r.name := by
  obtain ⟨⟨-, -, hname⟩, -, values, -, -, rfl⟩ := applyChange_eq_ok_iff.1 h
  exact hname.symm

theorem applyUpdate_eq_ok_iff {now : Time.Millis} {u : Update} {changed : List String} :
    p.applyUpdate now u = .ok (q, changed) ↔
      (u.kind = p.kind ∧ u.device = p.device ∧ u.name = p.name) ∧
      ∃ values, p.interpret .owner u.elements = .ok values ∧
        changed = (assign p.elements values).changed ∧
        q = { u.state.elim p (p.setState now) with
              elements := (assign p.elements values).elements
              timeout := (u.timeout.map clampTimeout).getD p.timeout
              timestamp := u.timestamp.getD (timestampAt now) } := by
  unfold applyUpdate
  rw [check_bind_eq_ok_iff, checkTarget_eq_ok_iff]
  apply and_congr_right
  intro _
  simp only [bind_eq_ok_iff, Except.ok.injEq, Prod.mk.injEq]
  constructor
  · rintro ⟨values, hvalues, rfl, rfl⟩
    exact ⟨values, hvalues, rfl, by cases u.state <;> rfl⟩
  · rintro ⟨values, hvalues, rfl, rfl⟩
    exact ⟨values, hvalues, by cases u.state <;> rfl, rfl⟩

theorem setValue_eq_ok_iff {now : Time.Millis} {value : Value} :
    p.setValue now name value = .ok q ↔
      ∃ e, p.element? name = some e ∧ value.kind = e.kind ∧
        q = { p with
              elements := p.elements.map fun e => if e.name = name then { e with value } else e
              timestamp := timestampAt now } := by
  unfold setValue
  simp only [bind_eq_ok_iff, findElement_eq_ok_iff]
  apply exists_congr
  intro e
  apply and_congr_right
  intro _
  by_cases hkind : value.kind = e.kind
  · simp [hkind, eq_comm]
  · simp [hkind, bind_eq_ok_iff]

end

end Property
end InstrumentBus
