import InstrumentBus.Proofs.Property.Mirror
import InstrumentBus.Proofs.Property.Shape

/-!
Which elements an accepted request reports as changed. A request for switches reports those that
differ from what they were. Any other request also reports an element that it set to another value
and then back.
-/

namespace InstrumentBus

def ChangeRequest.entriesFor (r : ChangeRequest) (name : String) : List ElementValue :=
  r.elements.filter fun entry => Text.trim entry.name = name

namespace Property

open Element (Changed)

def Differs (p q : Property) (name : String) : Prop :=
  ∃ e ∈ p.elements, ∃ f ∈ q.elements,
    e.name = name ∧ f.name = name ∧ e.value.agrees f.value = false

/-- One of the entries for an element stands for another value than the element has. -/
def Strays (p : Property) (r : ChangeRequest) (name : String) : Prop :=
  ∃ e ∈ p.elements, e.name = name ∧ ∃ entry ∈ r.entriesFor name, ∃ value,
    e.interpret .client entry.value = .ok value ∧ e.value.agrees value = false

section

variable {es fs : List Element}

theorem exists_pair (hsame : es.map (·.name) = fs.map (·.name)) (hnames : (fs.map (·.name)).Nodup)
    {X : Element → Element → Prop} {n : String} :
    (∃ e ∈ es, ∃ f ∈ fs, e.name = n ∧ f.name = n ∧ X e f) ↔
      ∃ ef ∈ es.zip fs, ef.2.name = n ∧ X ef.1 ef.2 := by
  have hpairs : List.Forall₂ (fun e f => e.name = f.name) es fs := by
    rwa [← List.forall₂_eq_eq_eq, List.forall₂_map_left_iff, List.forall₂_map_right_iff] at hsame
  obtain ⟨hlength, hzip⟩ := List.forall₂_iff_zip.1 hpairs
  have hpairs : List.Forall₂ (fun e f => (e, f) ∈ es.zip fs) es fs :=
    List.forall₂_iff_zip.2 ⟨hlength, id⟩
  constructor
  · rintro ⟨e, he, f, hf, hen, hfn, hX⟩
    obtain ⟨f', hf', hmem⟩ := exists_of_forall₂ hpairs.flip e he
    have hname : f'.name = f.name := (hzip hmem).symm.trans (hen.trans hfn.symm)
    rw [List.inj_on_of_nodup_map hnames hf' hf hname] at hmem
    exact ⟨(e, f), hmem, hfn, hX⟩
  · rintro ⟨⟨e, f⟩, hmem, hfn, hX⟩
    obtain ⟨he, hf⟩ := List.of_mem_zip hmem
    exact ⟨e, he, f, hf, (hzip hmem).trans hfn, hfn, hX⟩

theorem switch?_ne_iff {e f : Element} (he : e.kind = .switch) (hf : f.kind = .switch) :
    e.switch? ≠ f.switch? ↔ e.value.agrees f.value = false := by
  obtain ⟨_, _, value⟩ := e
  obtain ⟨_, _, value'⟩ := f
  cases value with
  | switch s =>
    cases value' with
    | switch t => simp [Element.switch?, Value.agrees]
    | _ => cases hf
  | _ => cases he

theorem mem_switchedNames {n : String} :
    n ∈ switchedNames es fs ↔ ∃ ef ∈ es.zip fs, ef.2.name = n ∧ ef.1.switch? ≠ ef.2.switch? := by
  simp only [switchedNames, List.mem_map, List.mem_filter, decide_eq_true_eq]
  constructor
  · rintro ⟨ef, ⟨hmem, hne⟩, hname⟩
    exact ⟨ef, hmem, hname, hne⟩
  · rintro ⟨ef, hmem, hname, hne⟩
    exact ⟨ef, ⟨hmem, hne⟩, hname⟩

theorem switchedNames_sublist (hlength : es.length = fs.length) :
    (switchedNames es fs).Sublist (fs.map (·.name)) := by
  have hzip : (es.zip fs).map (·.2) = fs := List.map_snd_zip hlength.ge
  conv_rhs => rw [← hzip, List.map_map]
  exact (List.filter_sublist).map _

theorem mem_switchedNames_iff (h : List.Forall₂ Pressed es fs) (hes : ∀ e ∈ es, e.kind = .switch)
    (hnames : (fs.map (·.name)).Nodup) {n : String} :
    n ∈ switchedNames es fs ↔
      ∃ e ∈ es, ∃ f ∈ fs, e.name = n ∧ f.name = n ∧ e.value.agrees f.value = false := by
  rw [exists_pair (map_name_of_pressed h).symm hnames, mem_switchedNames]
  apply exists_congr
  rintro ⟨e, f⟩
  apply and_congr_right
  intro hmem
  obtain ⟨he, hf⟩ := List.of_mem_zip hmem
  rw [switch?_ne_iff (hes e he) (kind_of_pressed h hes f hf)]

theorem changed_sublist {a : Assignment} : a.changed.Sublist (a.elements.map (·.name)) :=
  List.filter_sublist.map _

theorem mem_changed {a : Assignment} {n : String} :
    n ∈ a.changed ↔ n ∈ a.touched ∧ n ∈ a.elements.map (·.name) := by
  simp only [Assignment.changed, List.mem_map, List.mem_filter, List.contains_iff_mem]
  constructor
  · rintro ⟨e, ⟨he, htouched⟩, rfl⟩
    exact ⟨htouched, e, he, rfl⟩
  · rintro ⟨htouched, e, he, rfl⟩
    exact ⟨e, ⟨he, htouched⟩, rfl⟩

theorem mem_touched_put {a : Assignment} (hnames : (a.elements.map (·.name)).Nodup)
    {name n : String} {value : Value} :
    n ∈ (a.put name value).touched ↔
      n ∈ a.touched ∨ name = n ∧ ∃ e ∈ a.elements, e.name = n ∧ e.value.agrees value = false := by
  unfold Assignment.put
  split
  · rename_i e hfound
    have hname : e.name = name := by simpa using List.find?_some hfound
    have he : e ∈ a.elements := List.mem_of_find?_eq_some hfound
    split
    · rename_i hagrees
      refine (or_iff_left ?_).symm
      rintro ⟨rfl, f, hf, hfname, hdiffers⟩
      rw [List.inj_on_of_nodup_map hnames hf he (hfname.trans hname.symm), hagrees] at hdiffers
      cases hdiffers
    · rename_i hdiffers
      rw [List.mem_cons, or_comm]
      apply or_congr_right
      constructor
      · rintro rfl
        exact ⟨rfl, e, he, hname, by simpa using hdiffers⟩
      · rintro ⟨rfl, -⟩
        rfl
  · rename_i hfound
    refine (or_iff_left ?_).symm
    rintro ⟨rfl, f, hf, hfname, -⟩
    simpa [hfname] using List.find?_eq_none.1 hfound f hf

theorem exists_of_untouched {names : List String} (h : List.Forall₂ (Changed names) es fs)
    {n : String} (hn : n ∉ names) {value : Value} :
    (∃ f ∈ fs, f.name = n ∧ f.value.agrees value = false) ↔
      ∃ e ∈ es, e.name = n ∧ e.value.agrees value = false := by
  constructor
  · rintro ⟨f, hf, rfl, hdiffers⟩
    obtain ⟨e, he, hchanged⟩ := exists_of_forall₂ h f hf
    obtain rfl := hchanged.kept (hchanged.name ▸ hn)
    exact ⟨f, he, rfl, hdiffers⟩
  · rintro ⟨e, he, rfl, hdiffers⟩
    obtain ⟨f, hf, hchanged⟩ := exists_of_forall₂ h.flip e he
    obtain rfl := hchanged.kept hn
    exact ⟨f, hf, rfl, hdiffers⟩

/-- As long as an element is not touched it has its first value, so the first value that differs
from that one touches it. -/
theorem mem_touched_puts (hnames : (es.map (·.name)).Nodup) {values : List (String × Value)}
    (hvalues : ∀ v ∈ values, ∀ e ∈ es, e.name = v.1 → v.2.Replaces e.value) {a : Assignment}
    (h : List.Forall₂ (Changed a.touched) es a.elements) {n : String} :
    n ∈ (values.foldl (fun a v => a.put v.1 v.2) a).touched ↔
      n ∈ a.touched ∨
        ∃ v ∈ values, v.1 = n ∧ ∃ e ∈ es, e.name = n ∧ e.value.agrees v.2 = false := by
  induction values generalizing a with
  | nil => simp
  | cons v values ih =>
    obtain ⟨hv, hvalues⟩ := List.forall_mem_cons.1 hvalues
    have hsame : a.elements.map (·.name) = es.map (·.name) :=
      (map_eq_of_forall₂ h fun _ _ hchanged => hchanged.name.symm).symm
    rw [List.foldl_cons, ih hvalues (changed_put h hv), mem_touched_put (hsame ▸ hnames),
      List.exists_mem_cons_iff, ← or_assoc]
    apply or_congr_left
    apply or_congr_right'
    intro hfresh
    exact and_congr_right fun _ => exists_of_untouched h hfresh

theorem mem_changed_assign (hnames : (es.map (·.name)).Nodup) {values : List (String × Value)}
    (hvalues : ∀ v ∈ values, ∀ e ∈ es, e.name = v.1 → v.2.Replaces e.value) {n : String} :
    n ∈ (assign es values).changed ↔
      ∃ v ∈ values, v.1 = n ∧ ∃ e ∈ es, e.name = n ∧ e.value.agrees v.2 = false := by
  have hsame : (assign es values).elements.map (·.name) = es.map (·.name) :=
    (map_eq_of_forall₂ (changed_assign hvalues) fun _ _ hchanged => hchanged.name.symm).symm
  rw [mem_changed, hsame, assign,
    mem_touched_puts hnames hvalues (List.forall₂_same.2 fun e _ => .refl _ e)]
  rw [or_iff_right List.not_mem_nil, and_iff_left_of_imp]
  rintro ⟨-, -, -, e, he, rfl, -⟩
  exact List.mem_map_of_mem he

def settled (value : Value) (values : List (String × Value)) : Value :=
  values.foldl (fun w v => if w.agrees v.2 then w else v.2) value

theorem settled_concat {values : List (String × Value)} (v : Value) (w : String × Value) :
    settled v (values ++ [w]) =
      if (settled v values).agrees w.2 then settled v values else w.2 := List.foldl_append

theorem settled_of_getLast? {values : List (String × Value)} {w : String × Value}
    (h : values.getLast? = some w) (v : Value) :
    settled v values = w.2 ∨ (settled v values).agrees w.2 = true := by
  obtain ⟨values, rfl⟩ := List.getLast?_eq_some_iff.1 h
  rw [settled_concat]
  split
  · rename_i hagrees
    exact .inr hagrees
  · exact .inl rfl

theorem puts_elements {values : List (String × Value)} {a : Assignment}
    (hnames : (a.elements.map (·.name)).Nodup) :
    (values.foldl (fun a v => a.put v.1 v.2) a).elements = a.elements.map fun e =>
      { e with value := settled e.value (values.filter (·.1 = e.name)) } := by
  induction values generalizing a with
  | nil => simp [settled]
  | cons v values ih =>
    have hput := put_elements hnames v.1 v.2
    have hsame : (a.put v.1 v.2).elements.map (·.name) = a.elements.map (·.name) := by
      rw [hput, List.map_map]
      apply List.map_congr_left
      intro e _
      rw [Function.comp_apply]
      split <;> rfl
    rw [List.foldl_cons, ih (hsame ▸ hnames), hput, List.map_map]
    apply List.map_congr_left
    intro e _
    by_cases hname : e.name = v.1
    · cases hagrees : e.value.agrees v.2 <;> simp [hname, hagrees, settled]
    · simp [hname, Ne.symm hname]

end

theorem filter_contains_of_sublist {ns ms : List String} (h : ns.Sublist ms) (hnodup : ms.Nodup) :
    ms.filter (ns.contains ·) = ns := by
  induction h with
  | slnil => rfl
  | @cons ns ms m h ih =>
    obtain ⟨hm, hnodup⟩ := List.nodup_cons.1 hnodup
    have hfresh : m ∉ ns := fun hmem => hm (h.subset hmem)
    rw [List.filter_cons_of_neg (by simpa using hfresh), ih hnodup]
  | @cons_cons ns ms m h ih =>
    obtain ⟨hm, hnodup⟩ := List.nodup_cons.1 hnodup
    have hcontains : ∀ l ∈ ms, (m :: ns).contains l = ns.contains l := by
      intro l hl
      have hne : l ≠ m := fun h => hm (h ▸ hl)
      simp [hne]
    rw [List.filter_cons_of_pos (by simp), List.filter_congr hcontains, ih hnodup]

theorem sublist_of_applyChange {p q : Property} {now : Time.Millis} {r : ChangeRequest}
    {changed : List String} (h : p.applyChange now r = .ok (q, changed)) :
    changed.Sublist (q.elements.map (·.name)) := by
  obtain ⟨-, -, values, hvalues, rfl, rfl⟩ := applyChange_eq_ok_iff.1 h
  unfold changeElements
  split
  · exact switchedNames_sublist (pressed_pressAll ..).length_eq
  · exact changed_sublist

namespace IsWellFormed

variable {p q : Property} (hp : p.IsWellFormed) {now : Time.Millis} {r : ChangeRequest}
  {changed : List String} {n : String}

include hp

theorem forall₂_entriesFor {values : List (String × Value)}
    (h : p.interpret .client r.elements = .ok values) {e : Element} (he : e ∈ p.elements) :
    List.Forall₂ (fun entry v => e.interpret .client entry.value = .ok v.2)
      (r.entriesFor e.name) (values.filter (·.1 = e.name)) := by
  unfold ChangeRequest.entriesFor
  generalize r.elements = entries at h
  rw [interpret_eq_ok_iff] at h
  induction h with
  | nil => exact .nil
  | @cons entry v entries values hentry _ ih =>
    obtain ⟨f, hf, hvalue, hname⟩ := hentry
    obtain ⟨hmem, hfname⟩ := element?_eq_some hf
    have htrim : Text.trim entry.name = v.1 := hfname.symm.trans hname.symm
    by_cases hv : v.1 = e.name
    · have : f = e := List.inj_on_of_nodup_map hp.names hmem he (hname.symm.trans hv)
      subst this
      rw [List.filter_cons_of_pos (by simp [htrim, hv]), List.filter_cons_of_pos (by simp [hv])]
      exact .cons hvalue ih
    · rwa [List.filter_cons_of_neg (by simp [htrim, hv]), List.filter_cons_of_neg (by simp [hv])]

theorem strays_iff {values : List (String × Value)}
    (h : p.interpret .client r.elements = .ok values) :
    p.Strays r n ↔
      ∃ v ∈ values, v.1 = n ∧ ∃ e ∈ p.elements, e.name = n ∧ e.value.agrees v.2 = false := by
  constructor
  · rintro ⟨e, he, rfl, entry, hentry, value, hvalue, hdiffers⟩
    obtain ⟨v, hv, hread⟩ := exists_of_forall₂ (hp.forall₂_entriesFor h he).flip entry hentry
    obtain rfl : v.2 = value := Except.ok.inj (hread.symm.trans hvalue)
    obtain ⟨hmem, hname⟩ := List.mem_filter.1 hv
    exact ⟨v, hmem, of_decide_eq_true hname, e, he, rfl, hdiffers⟩
  · rintro ⟨v, hv, hname, e, he, rfl, hdiffers⟩
    have hmem : v ∈ values.filter (·.1 = e.name) := List.mem_filter.2 ⟨hv, decide_eq_true hname⟩
    obtain ⟨entry, hentry, hread⟩ := exists_of_forall₂ (hp.forall₂_entriesFor h he) v hmem
    exact ⟨e, he, rfl, entry, hentry, v.2, hread, hdiffers⟩

theorem differs_of_strays {values : List (String × Value)}
    (h : p.interpret .client r.elements = .ok values)
    (hq : q.elements = (assign p.elements values).elements) (hone : (r.entriesFor n).length ≤ 1)
    (hstrays : p.Strays r n) : Differs p q n := by
  obtain ⟨e, he, rfl, entry, hentry, value, hvalue, hdiffers⟩ := hstrays
  have hread := hp.forall₂_entriesFor h he
  obtain ⟨v, hv⟩ : ∃ v, values.filter (·.1 = e.name) = [v] := by
    rw [← List.length_eq_one_iff]
    have := List.length_pos_of_mem hentry
    have := hread.length_eq
    omega
  have hvalue : v.2 = value := by
    obtain ⟨v', hv', hread⟩ := exists_of_forall₂ hread.flip entry hentry
    rw [hv, List.mem_singleton] at hv'
    exact hv' ▸ Except.ok.inj (hread.symm.trans hvalue)
  have hsettled : settled e.value (values.filter (·.1 = e.name)) = value := by
    simp [hv, settled, hvalue, hdiffers]
  refine ⟨e, he, { e with value }, ?_, rfl, rfl, hdiffers⟩
  rw [hq, assign, puts_elements hp.names, ← hsettled]
  exact List.mem_map.2 ⟨e, he, rfl⟩

variable (h : p.applyChange now r = .ok (q, changed))

include h

theorem mem_changed_of_switches (hkind : p.kind = .switch) : n ∈ changed ↔ Differs p q n := by
  obtain ⟨-, -, values, -, rfl, rfl⟩ := applyChange_eq_ok_iff.1 h
  have hkinds : ∀ e ∈ p.elements, e.kind = .switch := fun e he => (hp.kinds e he).trans hkind
  have hpressed := pressed_pressAll (p.rule.getD .oneOfMany) p.elements values
  unfold Differs changeElements
  rw [if_pos hkind]
  refine mem_switchedNames_iff hpressed hkinds ?_
  rw [map_name_of_pressed hpressed]
  exact hp.names

theorem mem_changed_of_values (hkind : p.kind ≠ .switch) : n ∈ changed ↔ p.Strays r n := by
  obtain ⟨-, -, values, hvalues, rfl, -⟩ := applyChange_eq_ok_iff.1 h
  rw [changeElements, if_neg hkind, hp.strays_iff hvalues]
  exact mem_changed_assign hp.names (replaces_of_interpret hp.names hvalues)

theorem mem_changed_of_differs (hfinite : ∀ e ∈ p.elements, e.value.IsFinite)
    (hdiffers : Differs p q n) : n ∈ changed := by
  obtain ⟨-, -, values, hvalues, rfl, rfl⟩ := applyChange_eq_ok_iff.1 h
  obtain ⟨e, he, f, hf, rfl, hname, hdiffers⟩ := hdiffers
  obtain ⟨e', he', hchanged⟩ :=
    exists_of_forall₂ (changed_changeElements hp.names hp.kinds hvalues) f hf
  have : e' = e := List.inj_on_of_nodup_map hp.names he' he (hchanged.name.symm.trans hname)
  subst this
  by_contra hkept
  rw [hchanged.kept hkept, Value.agrees_self (hfinite e' he)] at hdiffers
  cases hdiffers

theorem names_of_applyChange : q.elements.map (·.name) = p.elements.map (·.name) := by
  obtain ⟨-, -, values, hvalues, rfl, rfl⟩ := applyChange_eq_ok_iff.1 h
  exact names_of_outline (outline_of_changed (changed_changeElements hp.names hp.kinds hvalues))

theorem names_toUpdateOf : (q.toUpdateOf changed).elements.map (·.name) = changed := by
  have hnames : (q.elements.map (·.name)).Nodup := by
    rw [hp.names_of_applyChange h]
    exact hp.names
  have hfilter := filter_contains_of_sublist (sublist_of_applyChange h) hnames
  rw [List.filter_map] at hfilter
  simpa [toUpdateOf, updateOf, Element.toValue, Function.comp_def] using hfilter

theorem mem_changed_iff (hfinite : ∀ e ∈ p.elements, e.value.IsFinite) :
    n ∈ changed ↔ Differs p q n ∨ p.kind ≠ .switch ∧ p.Strays r n := by
  by_cases hkind : p.kind = .switch
  · rw [hp.mem_changed_of_switches h hkind]
    simp [hkind]
  · rw [hp.mem_changed_of_values h hkind]
    constructor
    · exact fun hstrays => .inr ⟨hkind, hstrays⟩
    · rintro (hdiffers | ⟨-, hstrays⟩)
      · exact (hp.mem_changed_of_values h hkind).1 (hp.mem_changed_of_differs h hfinite hdiffers)
      · exact hstrays

theorem mem_changed_iff_differs (hfinite : ∀ e ∈ p.elements, e.value.IsFinite)
    (hone : p.kind = .switch ∨ (r.entriesFor n).length ≤ 1) : n ∈ changed ↔ Differs p q n := by
  rw [hp.mem_changed_iff h hfinite]
  refine or_iff_left_of_imp ?_
  rintro ⟨hkind, hstrays⟩
  obtain ⟨-, -, values, hvalues, -, rfl⟩ := applyChange_eq_ok_iff.1 h
  refine hp.differs_of_strays hvalues ?_ (hone.resolve_left hkind) hstrays
  simp only [changeElements, if_neg hkind]

end IsWellFormed

/-- What an accepted request reports as changed, each element once and in order: those that differ
from what they were, and of a property that has no switches those, too, for which an entry stood
for another value. The two are the same for an element that has a single entry. -/
theorem request_reports_changes {p q : Property} (hp : p.IsReached)
    (hfinite : ∀ e ∈ p.elements, e.value.IsFinite) {now : Time.Millis} {r : ChangeRequest}
    {changed : List String} (h : p.applyChange now r = .ok (q, changed)) :
    changed.Sublist (p.elements.map (·.name)) ∧ changed.Nodup ∧
      (q.toUpdateOf changed).elements.map (·.name) = changed ∧
      ∀ name,
        (name ∈ changed ↔ Differs p q name ∨ p.kind ≠ .switch ∧ p.Strays r name) ∧
        (p.kind = .switch ∨ (r.entriesFor name).length ≤ 1 →
          (name ∈ changed ↔ Differs p q name)) := by
  have hp := hp.isWellFormed
  have hsublist := sublist_of_applyChange h
  rw [hp.names_of_applyChange h] at hsublist
  refine ⟨hsublist, hsublist.nodup hp.names, hp.names_toUpdateOf h, ?_⟩
  intro name
  exact ⟨hp.mem_changed_iff h hfinite, hp.mem_changed_iff_differs h hfinite⟩

def driverInfo : Property :=
  Draft.property
    { Draft.ofKind "Camera" "DRIVER" .text with elements := [.named "NAME" "" (.text "demo")] } 0

def renames (names : List String) : ChangeRequest :=
  ⟨.text, "Camera", "DRIVER", none, names.map fun name => ⟨"NAME", .scalar name⟩⟩

theorem builtAt_driverInfo : driverInfo.BuiltAt 0 :=
  .draft (Draft.build_eq_ok_iff.2 ⟨⟨by simp, by decide, by decide⟩, rfl⟩)

theorem isFinite_driverInfo : ∀ e ∈ driverInfo.elements, e.value.IsFinite := by
  intro e he
  obtain rfl := List.mem_singleton.1 he
  trivial

theorem new_name_is_reported :
    let p := driverInfo.afterCalls [.setState 1 .busy]
    ∃ q, p.applyChange 2 (renames ["x"]) = .ok (q, ["NAME"]) ∧ Differs p q "NAME" := by
  intro p
  obtain ⟨q, h⟩ : ∃ q, p.applyChange 2 (renames ["x"]) = .ok (q, ["NAME"]) := by
    refine ⟨_, applyChange_eq_ok_iff.2 ⟨⟨rfl, rfl, rfl⟩, rfl, [("NAME", .text "x")], ?_, ?_, rfl⟩⟩
    · decide +kernel
    · decide +kernel
  have hp : p.IsReached := ⟨0, driverInfo, _, builtAt_driverInfo, rfl⟩
  obtain ⟨-, -, -, hreported⟩ := request_reports_changes hp isFinite_driverInfo h
  exact ⟨q, h, ((hreported "NAME").2 (.inr (by decide +kernel))).1 List.mem_cons_self⟩

/-- A name that is changed and changed back within one request is reported, too. -/
theorem change_back_is_reported :
    driverInfo.BuiltAt 0 ∧ (∀ e ∈ driverInfo.elements, e.value.IsFinite) ∧
      ∃ q, driverInfo.applyChange 1 (renames ["x", "demo"]) = .ok (q, ["NAME"]) ∧
        q.elements = driverInfo.elements ∧ ¬Differs driverInfo q "NAME" := by
  refine ⟨builtAt_driverInfo, isFinite_driverInfo,
    { driverInfo with timestamp := timestampAt 1 }, ?_, rfl, ?_⟩
  · rw [applyChange_eq_ok_iff]
    refine ⟨⟨rfl, rfl, rfl⟩, rfl, [("NAME", .text "x"), ("NAME", .text "demo")], ?_, ?_, rfl⟩
    · decide +kernel
    · decide +kernel
  · rintro ⟨e, he, f, hf, -, -, hdiffers⟩
    obtain rfl := List.mem_singleton.1 he
    obtain rfl := List.mem_singleton.1 hf
    cases (Value.agrees_self (isFinite_driverInfo _ he)).symm.trans hdiffers

end Property

end InstrumentBus
