import InstrumentBus.Client.Catalogue
import InstrumentBus.Proofs.Message.RoundTrip
import InstrumentBus.Proofs.Property.ChangeSet

/-!
What a client is promised when it tries a request on its own picture of a property. The owner reads
the request from a frame, which drops the blanks around values. It accepts exactly what the client
accepted, and ends with the same values but for the blanks around texts.
-/

namespace InstrumentBus

def Value.trimmed : Value → Value
  | .text s => .text (Text.trim s)
  | v => v

theorem Value.trimmed_of_kind {v : Value} (h : v.kind ≠ .text) : v.trimmed = v := by
  cases v with
  | text s => exact absurd rfl h
  | _ => rfl

theorem Number.read?_trim (s : String) : Number.read? (Text.trim s) = Number.read? s := by
  simp only [Number.read?, Text.trim, String.toList_ofList, Text.trimChars_trimChars]

theorem ofWord?_trim (α : Type) [Vocabulary α] (s : String) :
    ofWord? α (Text.trim s) = ofWord? α s := by
  simp only [ofWord?, Text.trim_trim]

namespace Element

def trimmed (e : Element) : Element := { e with value := e.value.trimmed }

theorem trimmed_of_kind {e : Element} (h : e.kind ≠ .text) : e.trimmed = e := by
  rw [trimmed, Value.trimmed_of_kind h]

theorem interpretAs_trim {v u : Value} (hv : v.kind ≠ .text) {authority : Authority}
    {text : String} :
    interpretAs v authority (.scalar (Text.trim text)) = .ok u ↔
      interpretAs v authority (.scalar text) = .ok u := by
  cases v with
  | text s => exact absurd rfl hv
  | number q =>
    simp only [interpretAs, bind_eq_ok_iff, readNumber_eq_ok_iff, Number.read?_trim]
  | switch s =>
    simp only [interpretAs, map_eq_ok_iff, readWordValue_eq_ok_iff, ofWord?_trim]
  | light s =>
    simp only [interpretAs, map_eq_ok_iff, readWordValue_eq_ok_iff, ofWord?_trim]
  | blob b => rfl

theorem interpretAs_trimmed {v u : Value} {authority : Authority} {w : WireValue} :
    interpretAs v authority w.trimmed = .ok u ↔
      ∃ u₀, interpretAs v authority w = .ok u₀ ∧ u = u₀.trimmed := by
  -- A text is taken with its blanks; all else is read without them, and has none to lose.
  by_cases hv : v.kind = .text
  · cases v with
    | text s => cases w <;> simp [WireValue.trimmed, interpretAs, Value.trimmed, eq_comm]
    | _ => cases hv
  · have hkeeps : interpretAs v authority w.trimmed = .ok u ↔
        interpretAs v authority w = .ok u := by
      cases w with
      | scalar text => exact interpretAs_trim hv
      | blob b => rfl
    have hsame {u : Value} (h : interpretAs v authority w = .ok u) : u.trimmed = u :=
      Value.trimmed_of_kind ((replaces_of_interpretAs h).kind ▸ hv)
    rw [hkeeps]
    constructor
    · intro h
      exact ⟨u, h, (hsame h).symm⟩
    · rintro ⟨u₀, h, rfl⟩
      rwa [hsame h]

end Element

namespace Property

def trimmedValues (values : List (String × Value)) : List (String × Value) :=
  values.map fun v => (v.1, v.2.trimmed)

section

variable {p : Property} {values : List (String × Value)} {es : List Element}

theorem interpret_carried {authority : Element.Authority} {entries : List ElementValue} :
    p.interpret authority (entries.map ElementValue.carried) = .ok values ↔
      ∃ values₀, p.interpret authority entries = .ok values₀ ∧ values = trimmedValues values₀ := by
  have hentry (entry : ElementValue) (v : String × Value) :
      (∃ e, p.element? (Text.trim entry.carried.name) = some e ∧
        e.interpret authority entry.carried.value = .ok v.2 ∧ v.1 = e.name) ↔
      ∃ v₀ : String × Value, (∃ e, p.element? (Text.trim entry.name) = some e ∧
        e.interpret authority entry.value = .ok v₀.2 ∧ v₀.1 = e.name) ∧
        v = (v₀.1, v₀.2.trimmed) := by
    simp only [ElementValue.carried, Element.interpret, mapError_eq_ok_iff,
      Element.interpretAs_trimmed]
    constructor
    · rintro ⟨e, he, ⟨u, hu, hv⟩, hname⟩
      exact ⟨(v.1, u), ⟨e, he, hu, hname⟩, Prod.ext rfl hv⟩
    · rintro ⟨v₀, ⟨e, he, hv, hname⟩, rfl⟩
      exact ⟨e, he, ⟨v₀.2, hv, rfl⟩, hname⟩
  simp only [interpret_eq_ok_iff, List.forall₂_map_left_iff, hentry]
  exact forall₂_exists_map_iff

theorem pressAll_trimmed (rule : Rule) :
    pressAll rule es (trimmedValues values) = pressAll rule es values := by
  rw [pressAll, trimmedValues, List.foldl_map, pressAll]
  congr 1
  funext es v
  obtain ⟨name, value⟩ := v
  cases value <;> rfl

theorem put_of_kind {v w : Value} (h : w.kind ≠ .number) : (if v.agrees w then v else w) = w := by
  have hagrees : v.agrees w = (v == w) := by
    cases w with
    | number q => exact absurd rfl h
    | _ => cases v <;> rfl
  rw [hagrees]
  split
  · exact eq_of_beq ‹_›
  · rfl

theorem put_trimmed {v v' w : Value} (h : v' = v ∨ v' = v.trimmed) :
    (if v'.agrees w.trimmed then v' else w.trimmed) =
      (if v.agrees w then v else w).trimmed := by
  cases w with
  | number q =>
    cases v with
    | number r =>
      obtain rfl : v' = .number r := h.elim id id
      have hq : (Value.number q).trimmed = .number q := rfl
      rw [hq]
      split <;> rfl
    | _ => obtain rfl | rfl := h <;> rfl
  | _ => rw [put_of_kind (by exact Kind.noConfusion), put_of_kind (by exact Kind.noConfusion)]

theorem settled_trimmed (v : Value) (hvalues : values ≠ []) :
    settled v (trimmedValues values) = (settled v values).trimmed := by
  -- From the end: what the last value is put in the place of is trimmed, or it is the first value.
  induction values using List.reverseRecOn with
  | nil => exact absurd rfl hvalues
  | append_singleton values w ih =>
    have hsplit : trimmedValues (values ++ [w]) = trimmedValues values ++ [(w.1, w.2.trimmed)] :=
      List.map_append
    rw [hsplit, settled_concat, settled_concat]
    by_cases hvalues : values = []
    · subst hvalues
      exact put_trimmed (.inl rfl)
    · exact put_trimmed (.inr (ih hvalues))

theorem assign_trimmed (hnames : (es.map (·.name)).Nodup) :
    (assign es (trimmedValues values)).elements = (assign es values).elements.map fun e =>
      if e.name ∈ values.map (·.1) then e.trimmed else e := by
  rw [assign, puts_elements hnames, assign, puts_elements hnames, List.map_map]
  apply List.map_congr_left
  intro e _
  have hfilter : (trimmedValues values).filter (·.1 = e.name) =
      trimmedValues (values.filter (·.1 = e.name)) := List.filter_map
  have hmem : e.name ∈ values.map (·.1) ↔ values.filter (·.1 = e.name) ≠ [] := by
    simp [List.filter_eq_nil_iff]
  rw [hfilter, Function.comp_apply]
  dsimp only
  split
  · rename_i h
    rw [settled_trimmed _ (hmem.1 h)]
    rfl
  · rename_i h
    rw [not_not.1 (mt hmem.2 h)]
    rfl

theorem changeElements_trimmed (hp : p.IsWellFormed) :
    (p.changeElements (trimmedValues values)).1 = (p.changeElements values).1.map fun e =>
      if e.name ∈ values.map (·.1) then e.trimmed else e := by
  unfold changeElements
  split
  · rename_i hkind
    have hswitches : ∀ e ∈ p.elements, e.kind = .switch := fun e he => (hp.kinds e he).trans hkind
    have hpressed := kind_of_pressed (pressed_pressAll (p.rule.getD .oneOfMany) p.elements values)
      hswitches
    have hkept : ∀ e ∈ pressAll (p.rule.getD .oneOfMany) p.elements values,
        (if e.name ∈ values.map (·.1) then e.trimmed else e) = e := by
      intro e he
      rw [Element.trimmed_of_kind, ite_self]
      exact (hpressed e he).trans_ne Kind.noConfusion
    rw [pressAll_trimmed]
    exact ((List.map_congr_left hkept).trans (List.map_id _)).symm
  · exact assign_trimmed hp.names

end

theorem accepts_iff {p : Property} {now : Time.Millis} {r : ChangeRequest} :
    (∃ result, p.applyChange now r = .ok result) ↔
      (r.kind = p.kind ∧ r.device = p.device ∧ r.name = p.name) ∧
        p.permission.isWritable = true ∧ ∃ values, p.interpret .client r.elements = .ok values := by
  simp only [Prod.exists, applyChange_eq_ok_iff]
  constructor
  · rintro ⟨q, changed, htarget, hwritable, values, hvalues, -⟩
    exact ⟨htarget, hwritable, values, hvalues⟩
  · rintro ⟨htarget, hwritable, values, hvalues⟩
    exact ⟨_, _, htarget, hwritable, values, hvalues, rfl, rfl⟩

end Property

/-- The request that is read from the frame of a request. -/
def ChangeRequest.carried (r : ChangeRequest) : ChangeRequest :=
  { r with elements := r.elements.map ElementValue.carried }

namespace Property

variable {p q : Property} {r : ChangeRequest} {now later : Time.Millis} {changed : List String}

theorem accepts_carried_iff :
    (∃ result, p.applyChange later r.carried = .ok result) ↔
      ∃ result, p.applyChange now r = .ok result := by
  rw [accepts_iff, accepts_iff]
  simp only [ChangeRequest.carried, interpret_carried]
  exact and_congr_right fun _ => and_congr_right fun _ =>
    ⟨fun ⟨_, values, h, _⟩ => ⟨values, h⟩, fun ⟨values, h⟩ => ⟨_, values, h, rfl⟩⟩

theorem names_of_interpret {authority : Element.Authority} {entries : List ElementValue}
    {values : List (String × Value)} (h : p.interpret authority entries = .ok values) :
    values.map (·.1) = entries.map (Text.trim ·.name) := by
  refine (map_eq_of_forall₂ (interpret_eq_ok_iff.1 h) ?_).symm
  rintro entry v ⟨e, he, -, hname⟩
  rw [hname, (element?_eq_some he).2]

theorem IsWellFormed.elements_of_carried (hp : p.IsWellFormed)
    (h : p.applyChange later r.carried = .ok (q, changed)) :
    ∃ q₀ changed₀, p.applyChange now r = .ok (q₀, changed₀) ∧
      q.elements = q₀.elements.map fun e =>
        if e.name ∈ r.elements.map (Text.trim ·.name) then e.trimmed else e := by
  obtain ⟨htarget, hwritable, values, hvalues, -, rfl⟩ := applyChange_eq_ok_iff.1 h
  obtain ⟨values₀, hvalues₀, rfl⟩ := interpret_carried.1 hvalues
  refine ⟨_, _, applyChange_eq_ok_iff.2 ⟨htarget, hwritable, values₀, hvalues₀, rfl, rfl⟩, ?_⟩
  rw [← names_of_interpret hvalues₀]
  exact changeElements_trimmed hp

end Property

namespace Assignment

variable {p : Property} {as : List Assignment} {now later : Time.Millis}

theorem misplaced?_eq_none_iff :
    misplaced? p as = none ↔ ∀ a ∈ as, a.device = p.device ∧ a.property = p.name := by
  simp [misplaced?]

theorem toRequest_eq_ok_iff (has : ∀ a ∈ as, a.device = p.device ∧ a.property = p.name)
    {r : ChangeRequest} :
    toRequest p now as = .ok r ↔
      r = requestOf p as ∧ ∃ result, p.applyChange now (requestOf p as) = .ok result := by
  unfold toRequest
  rw [misplaced?_eq_none_iff.2 has]
  dsimp only
  cases p.applyChange now (requestOf p as) <;> simp [eq_comm]

theorem carried_requestOf (hkind : p.kind ≠ .blob) :
    Message.ofFrame? (Message.change (requestOf p as)).toBytes =
      .ok (some (.change (requestOf p as).carried)) := by
  apply Message.ofFrame?_toBytes
  intro entry hentry
  obtain ⟨a, -, rfl⟩ := List.mem_map.1 hentry
  exact hkind

/-- A client builds a request for assignments to one property exactly if the owner of the property,
who is in the same state, will accept the frame of the request, and then the owner ends with the
values that the client saw, but for the blanks around the texts that were sent. Assignments to
another property are always refused, without a look at what they assign. -/
theorem owner_agrees_with_client {p : Property} (hp : p.IsReached) (hkind : p.kind ≠ .blob)
    (now later : Time.Millis) (as : List Assignment) :
    let request := requestOf p as
    ((∃ a ∈ as, ¬(a.device = p.device ∧ a.property = p.name)) →
      ∃ text, toRequest p now as = .error (.config text)) ∧
    ((∀ a ∈ as, a.device = p.device ∧ a.property = p.name) →
      (∀ r, toRequest p now as = .ok r → r = request) ∧
      ∃ received, Message.ofFrame? (Message.change request).toBytes =
          .ok (some (.change received)) ∧
        (toRequest p now as = .ok request ↔
          ∃ result, p.applyChange later received = .ok result) ∧
        ∀ q changed, p.applyChange later received = .ok (q, changed) →
          ∃ q₀ changed₀, p.applyChange now request = .ok (q₀, changed₀) ∧
            q.elements = q₀.elements.map fun e =>
              if e.name ∈ as.map (Text.trim ·.element) then e.trimmed else e) := by
  intro request
  constructor
  · rintro ⟨a, ha, hmisplaced⟩
    have hsome : misplaced? p as ≠ none := fun h => hmisplaced (misplaced?_eq_none_iff.1 h a ha)
    obtain ⟨b, hb⟩ := Option.ne_none_iff_exists'.1 hsome
    exact ⟨_, by rw [toRequest, hb]⟩
  · intro has
    refine ⟨fun r h => ((toRequest_eq_ok_iff has).1 h).1, request.carried,
      carried_requestOf hkind, ?_, ?_⟩
    · rw [toRequest_eq_ok_iff has, Property.accepts_carried_iff]
      exact and_iff_right rfl
    · intro q changed h
      have hnames : request.elements.map (Text.trim ·.name) = as.map (Text.trim ·.element) :=
        List.map_map
      rw [← hnames]
      exact hp.isWellFormed.elements_of_carried h

theorem name_arrives_without_blanks :
    let a : Assignment := ⟨"Camera", "DRIVER", "NAME", " x "⟩
    ∃ received q changed,
      Message.ofFrame? (Message.change (requestOf Property.driverInfo [a])).toBytes =
          .ok (some (.change received)) ∧
        Property.driverInfo.applyChange 2 received = .ok (q, changed) ∧
        q.elements.map (·.value) = [.text "x"] := by
  intro a
  let request := requestOf Property.driverInfo [a]
  obtain ⟨q₀, changed₀, h₀, hq₀⟩ : ∃ q₀ changed₀,
      Property.driverInfo.applyChange 1 request = .ok (q₀, changed₀) ∧
        q₀.elements = [⟨"NAME", "NAME", .text " x "⟩] := by
    refine ⟨_, _, Property.applyChange_eq_ok_iff.2
      ⟨⟨rfl, rfl, rfl⟩, rfl, [("NAME", .text " x ")], ?_, rfl, rfl⟩, ?_⟩
    · decide +kernel
    · decide +kernel
  have hp : Property.driverInfo.IsReached :=
    ⟨0, Property.driverInfo, [], Property.builtAt_driverInfo, rfl⟩
  have hplaced : ∀ b ∈ [a], b.device = Property.driverInfo.device ∧
      b.property = Property.driverInfo.name := by
    intro b hb
    obtain rfl := List.mem_singleton.1 hb
    exact ⟨rfl, rfl⟩
  have hbuilt : toRequest Property.driverInfo 1 [a] = .ok request :=
    (toRequest_eq_ok_iff hplaced).2 ⟨rfl, _, h₀⟩
  obtain ⟨-, received, hread, haccepted, hvalues⟩ :=
    (owner_agrees_with_client hp Kind.noConfusion 1 2 [a]).2 hplaced
  obtain ⟨⟨q, changed⟩, h⟩ := haccepted.1 hbuilt
  obtain ⟨q₁, changed₁, h₁, helements⟩ := hvalues q changed h
  cases h₀.symm.trans h₁
  refine ⟨received, q, changed, hread, h, ?_⟩
  rw [helements, hq₀]
  decide +kernel

end Assignment

end InstrumentBus
