import InstrumentBus.Proofs.Property.Accept
import Mathlib.Data.List.Induction

/-!
The rules of switches. A property starts with no more switches on than its rule allows, and stays so
through any requests, each of which comes out as its last words would have it.
-/

namespace InstrumentBus

def ElementValue.press? (entry : ElementValue) : Option (String × Switch) :=
  (entry.value.scalar?.bind (ofWord? Switch)).map fun s => (Text.trim entry.name, s)

def ChangeRequest.presses (r : ChangeRequest) : List (String × Switch) :=
  r.elements.filterMap ElementValue.press?

namespace Property

def onNames (es : List Element) : List String := (es.filter (·.isOn)).map (·.name)

def switchOf (es : List Element) (name : String) : Option Switch :=
  (es.find? (·.name == name)).bind (·.switch?)

section

variable (e : Element) (s : Switch)

@[simp] theorem setSwitch_name : (setSwitch e s).name = e.name := rfl

@[simp] theorem setSwitch_kind : (setSwitch e s).kind = .switch := rfl

@[simp] theorem setSwitch_switch? : (setSwitch e s).switch? = some s := rfl

@[simp] theorem setSwitch_isOn : (setSwitch e s).isOn = s.isOn := by
  cases s <;> rfl

@[simp] theorem isOn_on : Switch.on.isOn = true := rfl

@[simp] theorem isOn_off : Switch.off.isOn = false := rfl

@[simp] theorem onNames_nil : onNames [] = [] := rfl

@[simp] theorem onNames_cons (es : List Element) :
    onNames (e :: es) = if e.isOn then e.name :: onNames es else onNames es := by
  cases h : e.isOn <;> simp [onNames, h]

end

inductive Pressed (e : Element) : Element → Prop
  | kept : Pressed e e
  | set (s : Switch) : Pressed e (setSwitch e s)

namespace Pressed

variable {e f g : Element}

theorem trans (h : Pressed e f) (h' : Pressed f g) : Pressed e g := by
  cases h' with
  | kept => exact h
  | set s =>
    cases h with
    | kept => exact .set s
    | set t => exact .set s

theorem name (h : Pressed e f) : f.name = e.name := by
  cases h <;> rfl

theorem label (h : Pressed e f) : f.label = e.label := by
  cases h <;> rfl

theorem kind (h : Pressed e f) (he : e.kind = .switch) : f.kind = .switch := by
  cases h with
  | kept => exact he
  | set s => rfl

end Pressed

section

variable {es fs gs : List Element}

theorem pressed_refl (es : List Element) : List.Forall₂ Pressed es es :=
  List.forall₂_same.2 fun _ _ => .kept

theorem pressed_map {f : Element → Element} (h : ∀ e, Pressed e (f e)) :
    List.Forall₂ Pressed es (es.map f) :=
  List.forall₂_map_right_iff.2 (List.forall₂_same.2 fun e _ => h e)

theorem pressed_trans (h : List.Forall₂ Pressed es fs) (h' : List.Forall₂ Pressed fs gs) :
    List.Forall₂ Pressed es gs :=
  forall₂_trans h h' fun _ _ _ => Pressed.trans

theorem map_name_of_pressed (h : List.Forall₂ Pressed es fs) :
    fs.map (·.name) = es.map (·.name) :=
  (map_eq_of_forall₂ h fun _ _ he => he.name.symm).symm

theorem kind_of_pressed (h : List.Forall₂ Pressed es fs) (hes : ∀ e ∈ es, e.kind = .switch) :
    ∀ f ∈ fs, f.kind = .switch := by
  intro f hf
  obtain ⟨e, he, hpressed⟩ := exists_of_forall₂ h f hf
  exact hpressed.kind (hes e he)

end

section

variable {es : List Element} {name : String}

theorem any_isOn : es.any (·.isOn) = true ↔ onNames es ≠ [] := by
  simp [onNames, List.filter_eq_nil_iff]

theorem mem_onNames : name ∈ onNames es ↔ ∃ e ∈ es, e.isOn = true ∧ e.name = name := by
  simp [onNames, and_assoc]

theorem pressed_keepLastOn (es : List Element) : List.Forall₂ Pressed es (keepLastOn es) := by
  induction es with
  | nil => exact .nil
  | cons e es ih =>
    refine .cons ?_ ih
    split
    · exact .set .off
    · exact .kept

theorem onNames_keepLastOn : onNames (keepLastOn es) = (onNames es).getLast?.toList := by
  induction es with
  | nil => rfl
  | cons e es ih =>
    simp only [keepLastOn, onNames_cons, ih, Bool.and_eq_true, any_isOn]
    cases he : e.isOn with
    | false => simp [he]
    | true =>
      cases hon : onNames es with
      | nil => simp [he]
      | cons n ns => simp

theorem keepLastOn_eq_self (hone : (onNames es).length ≤ 1) : keepLastOn es = es := by
  induction es with
  | nil => rfl
  | cons e es ih =>
    rw [onNames_cons] at hone
    cases he : e.isOn with
    | false =>
      rw [he] at hone
      simp [keepLastOn, he, ih hone]
    | true =>
      rw [he] at hone
      have hnone : onNames es = [] := List.eq_nil_of_length_eq_zero (by simpa using hone)
      have hany : es.any (·.isOn) = false := by
        rw [← Bool.not_eq_true, any_isOn, hnone]
        simp
      rw [keepLastOn, hany, Bool.and_false, if_neg Bool.false_ne_true, ih (by simp [hnone])]

theorem pressed_selectOnly : List.Forall₂ Pressed es (selectOnly name es) :=
  pressed_map fun _ => .set _

theorem pressed_assignSwitch {s : Switch} : List.Forall₂ Pressed es (assignSwitch name s es) := by
  apply pressed_map
  intro e
  split
  · exact .set s
  · exact .kept

theorem pressed_press {rule : Rule} {s : Switch} :
    List.Forall₂ Pressed es (press rule es name s) := by
  unfold press
  split
  · split
    · exact pressed_assignSwitch
    · exact pressed_selectOnly
  · split
    · split
      · exact pressed_assignSwitch
      · exact pressed_refl es
    · exact pressed_assignSwitch

theorem onNames_selectOnly (hnames : (es.map (·.name)).Nodup) (hname : name ∈ es.map (·.name)) :
    onNames (selectOnly name es) = [name] := by
  have : onNames (selectOnly name es) = (es.map (·.name)).filter (· == name) := by
    clear hnames hname
    induction es with
    | nil => rfl
    | cons e es ih =>
      by_cases h : e.name = name <;> simp_all [selectOnly, Switch.isOn]
  rw [this, List.filter_beq, List.count_eq_one_of_mem hnames hname]
  rfl

theorem onNames_assignSwitch_off :
    onNames (assignSwitch name .off es) = (onNames es).filter (· ≠ name) := by
  induction es with
  | nil => rfl
  | cons e es ih =>
    by_cases h : e.name = name <;> cases he : e.isOn <;> simp_all [assignSwitch, Switch.isOn]

theorem switchOf_assignSwitch {s : Switch} (hname : name ∈ es.map (·.name)) (n : String) :
    switchOf (assignSwitch name s es) n = if n = name then some s else switchOf es n := by
  have hsame (e : Element) : (if e.name = name then setSwitch e s else e).name = e.name := by
    split <;> rfl
  simp only [switchOf, assignSwitch, List.find?_map, Function.comp_def, hsame]
  cases he : es.find? (·.name == n) with
  | none =>
    have : n ≠ name := by
      rintro rfl
      obtain ⟨e, hmem, hn⟩ := List.mem_map.1 hname
      simpa [hn] using List.find?_eq_none.1 he e hmem
    simp [this]
  | some e =>
    have hn : e.name = n := by simpa using List.find?_some he
    by_cases h : n = name <;> simp [hn, h]

end

/-- What a press leaves of the switches that are on, where the rule lets at most one be on. -/
def pressName (rule : Rule) (on : List String) (name : String) : Switch → List String
  | .on => [name]
  | .off => if rule = .oneOfMany then on else on.filter (· ≠ name)

section

variable {rule : Rule} (hrule : rule ≠ .anyOfMany)

theorem length_pressName {on : List String} (hone : on.length ≤ 1) (name : String) (s : Switch) :
    (pressName rule on name s).length ≤ 1 := by
  cases s with
  | on => exact Nat.le_refl 1
  | off =>
    unfold pressName
    dsimp only
    split
    · exact hone
    · exact Nat.le_trans (List.length_filter_le ..) hone

include hrule

theorem onNames_press {es : List Element} {name : String} (hnames : (es.map (·.name)).Nodup)
    (hname : name ∈ es.map (·.name)) (hone : (onNames es).length ≤ 1) (s : Switch) :
    onNames (press rule es name s) = pressName rule (onNames es) name s := by
  cases s with
  | on =>
    rw [press, if_neg hrule, onNames_selectOnly hnames hname]
    rfl
  | off =>
    unfold press pressName
    dsimp only
    split
    · split
      · -- The one switch that is on is another one, so the press changes nothing.
        rename_i hother
        obtain ⟨e, he, hon⟩ := List.any_eq_true.1 hother
        obtain ⟨hne, hon⟩ : e.name ≠ name ∧ e.isOn = true := by simpa using hon
        have hmem : e.name ∈ onNames es := mem_onNames.2 ⟨e, he, hon, rfl⟩
        have hn : onNames es = [e.name] := by
          match h : onNames es, hone, hmem with
          | [n], _, hmem => rw [List.mem_singleton.1 hmem]
        rw [onNames_assignSwitch_off, hn]
        simp [hne]
      · rfl
    · exact onNames_assignSwitch_off

end

def pressEach (rule : Rule) (es : List Element) (presses : List (String × Switch)) :
    List Element :=
  presses.foldl (fun es q => press rule es q.1 q.2) es

def pressNames (rule : Rule) (on : List String) (presses : List (String × Switch)) : List String :=
  presses.foldl (fun on q => pressName rule on q.1 q.2) on

theorem pressAll_map (rule : Rule) (es : List Element) (presses : List (String × Switch)) :
    pressAll rule es (presses.map fun q => (q.1, .switch q.2)) = pressEach rule es presses :=
  List.foldl_map

section

variable {rule : Rule} {es : List Element} {presses : List (String × Switch)}

theorem pressed_pressEach : List.Forall₂ Pressed es (pressEach rule es presses) := by
  induction presses generalizing es with
  | nil => exact pressed_refl es
  | cons q presses ih => exact pressed_trans pressed_press ih

theorem length_pressNames {on : List String} (hone : on.length ≤ 1) :
    (pressNames rule on presses).length ≤ 1 := by
  induction presses generalizing on with
  | nil => exact hone
  | cons q presses ih => exact ih (length_pressName hone q.1 q.2)

theorem onNames_pressEach (hrule : rule ≠ .anyOfMany) (hnames : (es.map (·.name)).Nodup)
    (hone : (onNames es).length ≤ 1) (hpresses : ∀ q ∈ presses, q.1 ∈ es.map (·.name)) :
    onNames (pressEach rule es presses) = pressNames rule (onNames es) presses := by
  induction presses generalizing es with
  | nil => rfl
  | cons q presses ih =>
    obtain ⟨hq, hpresses⟩ := List.forall_mem_cons.1 hpresses
    have hpress : onNames (press rule es q.1 q.2) = pressName rule (onNames es) q.1 q.2 :=
      onNames_press hrule hnames hq hone q.2
    calc onNames (pressEach rule (press rule es q.1 q.2) presses)
      _ = pressNames rule (onNames (press rule es q.1 q.2)) presses := by
        apply ih
        · rwa [map_name_of_pressed pressed_press]
        · rw [hpress]
          exact length_pressName hone q.1 q.2
        · rwa [map_name_of_pressed pressed_press]
      _ = pressNames rule (onNames es) (q :: presses) := by
        rw [hpress]
        rfl

/-- The last switch that is turned on is all that counts of what is pressed up to then. -/
theorem pressNames_on (on : List String) (pre post : List (String × Switch)) (name : String) :
    pressNames rule on (pre ++ (name, .on) :: post) = pressNames rule [name] post := by
  simp [pressNames, pressName]

theorem pressNames_off (on : List String) (h : ∀ q ∈ presses, q.2 = .off) :
    pressNames rule on presses =
      if rule = .oneOfMany then on else on.filter fun name => (name, .off) ∉ presses := by
  induction presses generalizing on with
  | nil => simp [pressNames]
  | cons q presses ih =>
    obtain ⟨name, s⟩ := q
    obtain ⟨rfl, hpresses⟩ := List.forall_mem_cons.1 h
    change pressNames rule (pressName rule on name .off) presses = _
    rw [ih _ hpresses]
    simp only [pressName]
    split
    · rfl
    · simp [List.filter_filter, Bool.and_comm]

theorem switchOf_pressEach (hpresses : ∀ q ∈ presses, q.1 ∈ es.map (·.name)) (name : String) :
    switchOf (pressEach .anyOfMany es presses) name =
      (presses.reverse.lookup name).or (switchOf es name) := by
  induction presses using List.reverseRecOn with
  | nil => rfl
  | append_singleton presses q ih =>
    obtain ⟨n, s⟩ := q
    have hn : n ∈ (pressEach .anyOfMany es presses).map (·.name) := by
      rw [map_name_of_pressed pressed_pressEach]
      exact hpresses (n, s) (by simp)
    have hlast : pressEach .anyOfMany es (presses ++ [(n, s)]) =
        assignSwitch n s (pressEach .anyOfMany es presses) := by
      cases s <;> simp [pressEach, press]
    rw [hlast, switchOf_assignSwitch hn, ih fun q hq => hpresses q (List.mem_append_left _ hq),
      List.reverse_concat, List.lookup_cons]
    by_cases h : name = n
    · simp [h]
    · simp [h, beq_eq_false_iff_ne.2 h]

end

structure IsSwitches (rule : Rule) (p : Property) : Prop where
  kind : p.kind = .switch
  hasRule : p.rule = some rule
  kinds : ∀ e ∈ p.elements, e.kind = .switch
  names : (p.elements.map (·.name)).Nodup
  atMostOne : rule ≠ .anyOfMany → (onNames p.elements).length ≤ 1

theorem pressed_normalize (rule : Rule) (es : List Element) :
    List.Forall₂ Pressed es (normalize rule es) := by
  unfold normalize
  split
  · exact pressed_refl es
  · exact pressed_keepLastOn es

theorem isSwitches_property {d : Draft} (hd : d.IsSound) (hkind : d.kind = .switch)
    (now : Time.Millis) : (d.property now).IsSwitches d.rule := by
  have helements : (d.property now).elements = normalize d.rule d.elements := if_pos hkind
  have hkinds : ∀ e ∈ d.elements, e.kind = .switch := fun e he => (hd.kinds e he).trans hkind
  refine ⟨hkind, if_pos hkind, ?_, ?_, ?_⟩
  · rw [helements]
    exact kind_of_pressed (pressed_normalize d.rule d.elements) hkinds
  · rw [helements, map_name_of_pressed (pressed_normalize d.rule d.elements)]
    exact hd.names
  · intro hrule
    rw [helements, normalize, if_neg hrule, onNames_keepLastOn]
    exact Option.length_toList_le

inductive IsBuilt (p : Property) : Prop
  | draft {d : Draft} {now} : d.build now = .ok p → IsBuilt p
  | definition {m now} : ofDefinition now m = .ok p → IsBuilt p

theorem IsBuilt.isSwitches {p : Property} (h : p.IsBuilt) (hkind : p.kind = .switch) :
    ∃ rule, p.IsSwitches rule := by
  cases h with
  | draft h =>
    obtain ⟨hd, rfl⟩ := Draft.build_eq_ok_iff.1 h
    exact ⟨_, isSwitches_property hd hkind _⟩
  | @definition m now h =>
    obtain ⟨es, -, hd, rfl⟩ := ofDefinition_eq_ok_iff.1 h
    obtain ⟨hkind, hrule, hkinds, hnames, hone⟩ := isSwitches_property hd hkind now
    exact ⟨_, hkind, hrule, hkinds, hnames, hone⟩

theorem exists_of_interpret {e : Element} (he : e.kind = .switch) {w : WireValue} {v : Value}
    (h : e.interpret .client w = .ok v) :
    ∃ s, w.scalar?.bind (ofWord? Switch) = some s ∧ v = .switch s := by
  have h : Element.interpretAs e.value .client w = .ok v := mapError_eq_ok_iff.1 h
  cases hvalue : e.value with
  | switch current =>
    rw [hvalue] at h
    cases w with
    | blob b => simp [Element.interpretAs] at h
    | scalar text =>
      simp only [Element.interpretAs, map_eq_ok_iff, Element.readWordValue_eq_ok_iff] at h
      obtain ⟨s, hs, hv⟩ := h
      exact ⟨s, by rw [WireValue.scalar?, Option.bind_some, hs], hv.symm⟩
  | text _ | number _ | light _ | blob _ => simp [Element.kind, hvalue, Value.kind] at he

namespace IsSwitches

variable {rule : Rule} {p q : Property} (hp : p.IsSwitches rule) {now : Time.Millis}
  {r : ChangeRequest} {changed : List String}

include hp

theorem press?_of_accepted {entry : ElementValue} {e : Element} {v : String × Value}
    (he : p.element? (Text.trim entry.name) = some e)
    (hv : e.interpret .client entry.value = .ok v.2) (hname : v.1 = e.name) :
    v.1 ∈ p.elements.map (·.name) ∧
      ∃ s, entry.press? = some (v.1, s) ∧ v = (v.1, .switch s) := by
  obtain ⟨hmem, hn⟩ := element?_eq_some he
  obtain ⟨s, hs, hvs⟩ := exists_of_interpret (hp.kinds e hmem) hv
  refine ⟨hname ▸ List.mem_map_of_mem hmem, s, ?_, ?_⟩
  · simp [ElementValue.press?, hs, hname, hn]
  · rw [← hvs]

theorem presses_of_interpret {entries : List ElementValue} {values : List (String × Value)}
    (h : p.interpret .client entries = .ok values) :
    let presses := entries.filterMap ElementValue.press?
    entries.map ElementValue.press? = presses.map some ∧
      (∀ press ∈ presses, press.1 ∈ p.elements.map (·.name)) ∧
      values = presses.map fun q => (q.1, .switch q.2) := by
  rw [interpret_eq_ok_iff] at h
  induction h with
  | nil => simp
  | cons hentry _ ih =>
    obtain ⟨e, he, hv, hname⟩ := hentry
    obtain ⟨hmem, s, hpress, hvs⟩ := hp.press?_of_accepted he hv hname
    obtain ⟨hsome, hnames, hvalues⟩ := ih
    dsimp only at hsome hnames hvalues ⊢
    rw [List.filterMap_cons_some hpress]
    refine ⟨?_, List.forall_mem_cons.2 ⟨hmem, hnames⟩, ?_⟩
    · rw [List.map_cons, List.map_cons, hpress, hsome]
    · rw [List.map_cons, ← hvalues, ← hvs]

theorem elements_of_applyChange (h : p.applyChange now r = .ok (q, changed)) :
    r.elements.map ElementValue.press? = r.presses.map some ∧
      (∀ press ∈ r.presses, press.1 ∈ p.elements.map (·.name)) ∧
      q.kind = p.kind ∧ q.rule = p.rule ∧ q.elements = pressEach rule p.elements r.presses := by
  obtain ⟨-, -, values, hvalues, -, rfl⟩ := applyChange_eq_ok_iff.1 h
  obtain ⟨hsome, hmem, rfl⟩ := hp.presses_of_interpret hvalues
  refine ⟨hsome, hmem, rfl, rfl, ?_⟩
  rw [changeElements, if_pos hp.kind, hp.hasRule]
  exact pressAll_map rule p.elements r.presses

theorem applyChange (h : p.applyChange now r = .ok (q, changed)) : q.IsSwitches rule := by
  obtain ⟨-, hmem, hkind, hrule, helements⟩ := hp.elements_of_applyChange h
  refine ⟨hkind.trans hp.kind, hrule.trans hp.hasRule, ?_, ?_, ?_⟩
  · rw [helements]
    exact kind_of_pressed pressed_pressEach hp.kinds
  · rw [helements, map_name_of_pressed pressed_pressEach]
    exact hp.names
  · intro hone
    rw [helements, onNames_pressEach hone hp.names (hp.atMostOne hone) hmem]
    exact length_pressNames (hp.atMostOne hone)

end IsSwitches

/-- A property after some requests, each with its time. One that is refused changes nothing. -/
def afterChanges (p : Property) (rs : List (Time.Millis × ChangeRequest)) : Property :=
  rs.foldl (fun p r => ((p.applyChange r.1 r.2).toOption.map (·.1)).getD p) p

theorem IsSwitches.afterChanges {rule : Rule} {p : Property} (hp : p.IsSwitches rule)
    (rs : List (Time.Millis × ChangeRequest)) : (p.afterChanges rs).IsSwitches rule := by
  induction rs generalizing p with
  | nil => exact hp
  | cons r rs ih =>
    apply ih
    dsimp only
    cases h : p.applyChange r.1 r.2 with
    | error e => exact hp
    | ok result => exact hp.applyChange h

/-- Some presses turn the switches `es` into the switches `fs` by the rule: the last one that is
turned on stays on alone unless it is turned off again, which one of many can not be. Where any
number may be on, each has the status it was pressed to last. -/
def Obeys (rule : Rule) (presses : List (String × Switch)) (es fs : List Element) : Prop :=
  match rule with
  | .oneOfMany =>
    (∀ pre name post, presses = pre ++ (name, .on) :: post → (∀ q ∈ post, q.2 = .off) →
      onNames fs = [name]) ∧
    ((∀ q ∈ presses, q.2 = .off) → onNames fs = onNames es)
  | .atMostOne =>
    (∀ pre name post, presses = pre ++ (name, .on) :: post → (∀ q ∈ post, q.2 = .off) →
      onNames fs = if (name, .off) ∈ post then [] else [name]) ∧
    ((∀ q ∈ presses, q.2 = .off) →
      onNames fs = (onNames es).filter fun name => (name, .off) ∉ presses)
  | .anyOfMany =>
    ∀ name, switchOf fs name = (presses.reverse.lookup name).or (switchOf es name)

theorem IsSwitches.obeys {rule : Rule} {p q : Property} (hp : p.IsSwitches rule)
    {now : Time.Millis} {r : ChangeRequest} {changed : List String}
    (h : p.applyChange now r = .ok (q, changed)) :
    r.elements.map ElementValue.press? = r.presses.map some ∧
      Obeys rule r.presses p.elements q.elements := by
  obtain ⟨hsome, hmem, -, -, helements⟩ := hp.elements_of_applyChange h
  have hon (hrule : rule ≠ .anyOfMany) :
      onNames q.elements = pressNames rule (onNames p.elements) r.presses := by
    rw [helements]
    exact onNames_pressEach hrule hp.names (hp.atMostOne hrule) hmem
  refine ⟨hsome, ?_⟩
  cases rule with
  | oneOfMany =>
    have hon := hon (by decide)
    refine ⟨?_, ?_⟩
    · intro pre name post hsplit hpost
      rw [hon, hsplit, pressNames_on, pressNames_off _ hpost, if_pos rfl]
    · intro hoff
      rw [hon, pressNames_off _ hoff, if_pos rfl]
  | atMostOne =>
    have hon := hon (by decide)
    refine ⟨?_, ?_⟩
    · intro pre name post hsplit hpost
      rw [hon, hsplit, pressNames_on, pressNames_off _ hpost, if_neg (by decide)]
      simp [List.filter_singleton]
    · intro hoff
      rw [hon, pressNames_off _ hoff, if_neg (by decide)]
  | anyOfMany =>
    intro name
    rw [helements]
    exact switchOf_pressEach hmem name

/-- A property of switches never has more of them on than its rule allows. All entries of a request
that it accepts are presses, and what comes of them obeys the rule. -/
theorem switches_obey_rule {p : Property} (hp : p.IsBuilt) (hkind : p.kind = .switch)
    (rs : List (Time.Millis × ChangeRequest)) :
    ∃ rule, p.rule = some rule ∧
      (rule ≠ .anyOfMany → (onNames (p.afterChanges rs).elements).length ≤ 1) ∧
      ∀ now r q changed, (p.afterChanges rs).applyChange now r = .ok (q, changed) →
        r.elements.map ElementValue.press? = r.presses.map some ∧
          Obeys rule r.presses (p.afterChanges rs).elements q.elements := by
  obtain ⟨rule, hp⟩ := hp.isSwitches hkind
  refine ⟨rule, hp.hasRule, (hp.afterChanges rs).atMostOne, ?_⟩
  intro now r q changed h
  exact (hp.afterChanges rs).obeys h

def tracking : Property :=
  Draft.property
    { Draft.ofKind "Mount" "TRACKING" .switch with
      rule := .atMostOne
      elements := [.named "SIDEREAL" "" (.switch .on), .named "LUNAR" "" (.switch .off)] }
    0

theorem tracking_obeys :
    let request (name : String) : ChangeRequest :=
      ⟨.switch, "Mount", "TRACKING", none, [⟨name, .scalar "On"⟩]⟩
    let rs := [(0, request "LUNAR"), (1, request "SIDEREAL")]
    tracking.IsBuilt ∧ tracking.kind = .switch ∧
      onNames (tracking.afterChanges rs).elements = ["SIDEREAL"] ∧
      (onNames (tracking.afterChanges rs).elements).length ≤ 1 := by
  intro request rs
  have hbuilt : tracking.IsBuilt :=
    .draft (Draft.build_eq_ok_iff.2 ⟨⟨by simp, by decide, by decide⟩, rfl⟩)
  obtain ⟨rule, hrule, hone, -⟩ := switches_obey_rule hbuilt rfl rs
  cases hrule
  exact ⟨hbuilt, rfl, by decide +kernel, hone (by decide)⟩

end Property
end InstrumentBus
