import InstrumentBus.Proofs.Decimal.Order
import InstrumentBus.Proofs.Property.ChangeSet

/-!
Which requests a property carries out. A request is refused as a whole for the first thing that is
wrong with it: its target, its kind, the permission of the property, and then its entries in order.
-/

namespace InstrumentBus

open Element (interpretAs readNumber readNumber_eq_ok_iff readWordValue readWordValue_eq_ok_iff)

theorem NumberRange.holds_iff {r : NumberRange} (hmin : r.min.isFinite = true)
    (hmax : r.max.isFinite = true) {x : Float} :
    r.holds x = true ↔ (r.min < r.max → r.min ≤ x ∧ x ≤ r.max) := by
  have hempty : r.max ≤ r.min ↔ ¬r.min < r.max :=
    (Decimal.not_lt_iff (Decimal.isNaN_of_isFinite hmin) (Decimal.isNaN_of_isFinite hmax)).symm
  simp only [holds, ge_iff_le, Bool.or_eq_true, Bool.and_eq_true, decide_eq_true_eq, hempty]
  exact Decidable.imp_iff_not_or.symm

namespace Value

def IsBounded : Value → Prop
  | .number q => q.range.min.isFinite = true ∧ q.range.max.isFinite = true
  | _ => True

/-- What a client may put in the place of a value, and what comes of it. -/
inductive Admits : Value → WireValue → Value → Prop
  | blob {b c : Blob} : Admits (.blob b) (.blob c) (.blob c)
  | text {s t : String} : Admits (.text s) (.scalar t) (.text t)
  | number {q : Quantity} {t : String} {x : Float} (hread : Number.read? t = some x)
      (hfinite : x.isFinite = true)
      (hrange : q.range.min < q.range.max → q.range.min ≤ x ∧ x ≤ q.range.max) :
      Admits (.number q) (.scalar t) (.number { q with value := x })
  | switch {s : Switch} {t : String} {u : Switch} (hword : ofWord? Switch t = some u) :
      Admits (.switch s) (.scalar t) (.switch u)
  | light {s : State} {t : String} {u : State} (hword : ofWord? State t = some u) :
      Admits (.light s) (.scalar t) (.light u)

/-- What a client may not put in the place of a value, and why. -/
inductive Bars : Value → WireValue → ValueError → Prop
  | blob {b : Blob} {t : String} : Bars (.blob b) (.scalar t) .payloadExpected
  | scalar {v : Value} {b : Blob} (hkind : v.kind ≠ .blob) : Bars v (.blob b) .payloadSent
  | number {q : Quantity} {t : String} (hread : Number.read? t = none) :
      Bars (.number q) (.scalar t) (.notNumber t)
  | range {q : Quantity} {t : String} {x : Float} (hread : Number.read? t = some x)
      (hrange : q.range.min < q.range.max) (hout : ¬(q.range.min ≤ x ∧ x ≤ q.range.max)) :
      Bars (.number q) (.scalar t) (.outside x q.range.min q.range.max)
  | switch {s : Switch} {t : String} (hword : ofWord? Switch t = none) :
      Bars (.switch s) (.scalar t) (.badWord (Vocabulary.title Switch) t)
  | light {s : State} {t : String} (hword : ofWord? State t = none) :
      Bars (.light s) (.scalar t) (.badWord (Vocabulary.title State) t)

/-- The same value, where the two zeros count as one. -/
inductive Same : Value → Value → Prop
  | refl (v : Value) : Same v v
  | zero {q : Quantity} {x : Float} (hq : (q.value == 0) = true) (hx : (x == 0) = true) :
      Same (.number q) (.number { q with value := x })

variable {v v' u : Value} {w : WireValue} {cause : ValueError}

theorem interpretAs_eq_ok_iff (hv : v.IsBounded) :
    interpretAs v .client w = .ok u ↔ v.Admits w u := by
  constructor
  · intro h
    cases w with
    | blob b =>
      cases v with
      | blob c =>
        cases h
        exact .blob
      | _ => cases h
    | scalar t =>
      cases v with
      | text s =>
        cases h
        exact .text
      | blob b => cases h
      | switch s =>
        simp only [interpretAs, map_eq_ok_iff, readWordValue_eq_ok_iff] at h
        obtain ⟨u, hu, rfl⟩ := h
        exact .switch hu
      | light s =>
        simp only [interpretAs, map_eq_ok_iff, readWordValue_eq_ok_iff] at h
        obtain ⟨u, hu, rfl⟩ := h
        exact .light hu
      | number q =>
        obtain ⟨x, hx, h⟩ := bind_eq_ok_iff.1 h
        have hread := readNumber_eq_ok_iff.1 hx
        split at h
        · cases h
        · rename_i hholds
          cases h
          refine .number hread (Number.isFinite_of_read? hread) ?_
          exact (NumberRange.holds_iff hv.1 hv.2).1 (by simpa using hholds)
  · intro h
    cases h with
    | blob => rfl
    | text => rfl
    | switch hword => simp only [interpretAs, readWordValue_eq_ok_iff.2 hword, Except.map]
    | light hword => simp only [interpretAs, readWordValue_eq_ok_iff.2 hword, Except.map]
    | number hread hfinite hrange =>
      refine bind_eq_ok_iff.2 ⟨_, readNumber_eq_ok_iff.2 hread, ?_⟩
      have hholds := (NumberRange.holds_iff hv.1 hv.2).2 hrange
      rw [if_neg (by simp [hholds])]

theorem readNumber_eq_error_iff {t : String} :
    readNumber t = .error cause ↔ Number.read? t = none ∧ cause = .notNumber t := by
  unfold readNumber
  cases Number.read? t <;> simp [eq_comm]

theorem readWordValue_eq_error_iff {α : Type} [Vocabulary α] {t : String} :
    readWordValue α t = .error cause ↔
      ofWord? α t = none ∧ cause = .badWord (Vocabulary.title α) t := by
  unfold readWordValue
  cases ofWord? α t <;> simp [eq_comm]

theorem interpretAs_eq_error_iff (hv : v.IsBounded) :
    interpretAs v .client w = .error cause ↔ v.Bars w cause := by
  constructor
  · intro h
    cases w with
    | blob b =>
      cases v with
      | blob c => cases h
      | _ =>
        cases h
        exact .scalar Kind.noConfusion
    | scalar t =>
      cases v with
      | text s => cases h
      | blob b =>
        cases h
        exact .blob
      | switch s =>
        simp only [interpretAs, map_eq_error_iff, readWordValue_eq_error_iff] at h
        obtain ⟨hword, rfl⟩ := h
        exact .switch hword
      | light s =>
        simp only [interpretAs, map_eq_error_iff, readWordValue_eq_error_iff] at h
        obtain ⟨hword, rfl⟩ := h
        exact .light hword
      | number q =>
        obtain h | ⟨x, hx, h⟩ := bind_eq_error_iff.1 h
        · obtain ⟨hread, rfl⟩ := readNumber_eq_error_iff.1 h
          exact .number hread
        · split at h
          · rename_i hout
            cases h
            have hout := mt (NumberRange.holds_iff hv.1 hv.2).2 hout.2
            rw [Classical.not_imp] at hout
            exact .range (readNumber_eq_ok_iff.1 hx) hout.1 hout.2
          · cases h
  · intro h
    cases h with
    | blob => rfl
    | scalar hkind =>
      cases v with
      | blob b => exact absurd rfl hkind
      | _ => rfl
    | switch hword =>
      rw [interpretAs, map_eq_error_iff, readWordValue_eq_error_iff]
      exact ⟨hword, rfl⟩
    | light hword =>
      rw [interpretAs, map_eq_error_iff, readWordValue_eq_error_iff]
      exact ⟨hword, rfl⟩
    | number hread =>
      exact bind_eq_error_iff.2 (.inl (readNumber_eq_error_iff.2 ⟨hread, rfl⟩))
    | range hread hrange hout =>
      refine bind_eq_error_iff.2 (.inr ⟨_, readNumber_eq_ok_iff.2 hread, ?_⟩)
      have hholds := mt (NumberRange.holds_iff hv.1 hv.2).1 fun h => hout (h hrange)
      rw [if_pos ⟨rfl, hholds⟩]

theorem Admits.isFinite {q : Quantity} (h : v.Admits w (.number q)) : q.value.isFinite = true := by
  cases h with
  | number _ hfinite _ => exact hfinite

theorem same_of_agrees (hrange : v.range? = u.range?) (hu : v'.Admits w u)
    (h : v.agrees u = true) : v.Same u := by
  cases v with
  | number q =>
    cases u with
    | number r =>
      obtain ⟨x, range⟩ := q
      obtain ⟨y, _⟩ := r
      cases hrange
      simp only [agrees, Quantity.agrees, Bool.and_eq_true] at h
      obtain hxy | ⟨hx, hy⟩ := Decimal.eq_or_zero_of_beq hu.isFinite h.1.1.1.1
      · cases hxy
        exact .refl _
      · exact .zero hx hy
    | _ => cases hrange
  | _ =>
    cases u with
    | number r => cases hrange
    | _ =>
      rw [eq_of_beq h]
      exact .refl _

end Value

namespace Property

def Admits (p : Property) (entry : ElementValue) : Prop :=
  ∃ e, p.element? (Text.trim entry.name) = some e ∧ ∃ v, e.value.Admits entry.value v

/-- What a request must be to be carried out. -/
structure Permits (p : Property) (r : ChangeRequest) : Prop where
  device : r.device = p.device
  name : r.name = p.name
  kind : r.kind = p.kind
  writable : p.permission.isWritable = true
  entries : ∀ entry ∈ r.elements, p.Admits entry

/-- The first thing that is wrong with a request, as the error tells it. -/
inductive Refuses (p : Property) (r : ChangeRequest) : PropertyError → Prop
  | target (h : r.device ≠ p.device ∨ r.name ≠ p.name) :
      Refuses p r (.unknownProperty r.device r.name)
  | kind (hdevice : r.device = p.device) (hname : r.name = p.name) (h : r.kind ≠ p.kind) :
      Refuses p r (.kindMismatch p.kind r.kind)
  | permission (hdevice : r.device = p.device) (hname : r.name = p.name) (hkind : r.kind = p.kind)
      (h : p.permission.isWritable = false) : Refuses p r (.readOnly p.device p.name)
  | element (hdevice : r.device = p.device) (hname : r.name = p.name) (hkind : r.kind = p.kind)
      (hwritable : p.permission.isWritable = true) {pre post : List ElementValue}
      {entry : ElementValue} (hsplit : r.elements = pre ++ entry :: post)
      (hpre : ∀ d ∈ pre, p.Admits d) (h : p.element? (Text.trim entry.name) = none) :
      Refuses p r (.unknownElement p.name (Text.trim entry.name))
  | value (hdevice : r.device = p.device) (hname : r.name = p.name) (hkind : r.kind = p.kind)
      (hwritable : p.permission.isWritable = true) {pre post : List ElementValue}
      {entry : ElementValue} (hsplit : r.elements = pre ++ entry :: post)
      (hpre : ∀ d ∈ pre, p.Admits d) {e : Element} (he : p.element? (Text.trim entry.name) = some e)
      {cause : ValueError} (h : e.value.Bars entry.value cause) :
      Refuses p r (.badValue e.name cause)

/-- An element before and after a request: it has what the last entry for it stands for. -/
def Fulfils (r : ChangeRequest) (e f : Element) : Prop :=
  match (r.entriesFor e.name).getLast? with
  | none => f = e
  | some entry => ∃ v u, f = { e with value := v } ∧ e.value.Admits entry.value u ∧ v.Same u

section

variable {p : Property} (hp : ∀ e ∈ p.elements, e.value.IsBounded)

include hp

theorem interpret_admits_iff {e : Element} (he : e ∈ p.elements) {w : WireValue} {v : Value} :
    e.interpret .client w = .ok v ↔ e.value.Admits w v := by
  rw [Element.interpret, mapError_eq_ok_iff, Value.interpretAs_eq_ok_iff (hp e he)]

theorem interpret_bars_iff {e : Element} (he : e ∈ p.elements) {w : WireValue}
    {err : PropertyError} :
    e.interpret .client w = .error err ↔
      ∃ cause, e.value.Bars w cause ∧ err = .badValue e.name cause := by
  simp only [Element.interpret, mapError_eq_error_iff, Value.interpretAs_eq_error_iff (hp e he),
    eq_comm (a := err)]

theorem exists_interpret_iff {entries : List ElementValue} :
    (∃ values, p.interpret .client entries = .ok values) ↔ ∀ entry ∈ entries, p.Admits entry := by
  simp only [interpret_eq_ok_iff]
  constructor
  · rintro ⟨values, h⟩ entry hentry
    obtain ⟨v, -, e, he, hvalue, -⟩ := exists_of_forall₂ h.flip entry hentry
    exact ⟨e, he, v.2, (interpret_admits_iff hp (element?_eq_some he).1).1 hvalue⟩
  · intro h
    apply exists_forall₂
    intro entry hentry
    obtain ⟨e, he, v, hv⟩ := h entry hentry
    exact ⟨(e.name, v), e, he, (interpret_admits_iff hp (element?_eq_some he).1).2 hv, rfl⟩

theorem applyChange_isOk_iff {now : Time.Millis} {r : ChangeRequest} :
    (∃ q changed, p.applyChange now r = .ok (q, changed)) ↔ p.Permits r := by
  simp only [applyChange_eq_ok_iff]
  constructor
  · rintro ⟨q, changed, ⟨hkind, hdevice, hname⟩, hwritable, values, hvalues, -, -⟩
    exact ⟨hdevice, hname, hkind, hwritable, (exists_interpret_iff hp).1 ⟨values, hvalues⟩⟩
  · intro h
    obtain ⟨values, hvalues⟩ := (exists_interpret_iff hp).2 h.entries
    exact ⟨_, _, ⟨h.kind, h.device, h.name⟩, h.writable, values, hvalues, rfl, rfl⟩

end

theorem checkTarget_eq_error_iff {p : Property} {kind : Kind} {device name : String}
    {err : PropertyError} :
    p.checkTarget kind device name = .error err ↔
      (device ≠ p.device ∨ name ≠ p.name) ∧ err = .unknownProperty device name ∨
      device = p.device ∧ name = p.name ∧ kind ≠ p.kind ∧ err = .kindMismatch p.kind kind := by
  unfold checkTarget
  grind

section

variable {p : Property} (hp : ∀ e ∈ p.elements, e.value.IsBounded)

include hp

theorem interpret_eq_error_iff {entries : List ElementValue} {err : PropertyError} :
    p.interpret .client entries = .error err ↔
      ∃ pre entry post, entries = pre ++ entry :: post ∧ (∀ d ∈ pre, p.Admits d) ∧
        (p.element? (Text.trim entry.name) = none ∧
            err = .unknownElement p.name (Text.trim entry.name) ∨
          ∃ e, p.element? (Text.trim entry.name) = some e ∧
            ∃ cause, e.value.Bars entry.value cause ∧ err = .badValue e.name cause) := by
  -- What is read for one entry.
  generalize hread : (fun entry : ElementValue => do
    let e ← p.findElement (Text.trim entry.name)
    .ok (e.name, ← e.interpret .client entry.value) :
      ElementValue → Except PropertyError (String × Value)) = read
  have hok (entry : ElementValue) : (∃ v, read entry = .ok v) ↔ p.Admits entry := by
    subst hread
    simp only [bind_eq_ok_iff, findElement_eq_ok_iff, Except.ok.injEq]
    constructor
    · rintro ⟨-, e, he, v, hv, rfl⟩
      exact ⟨e, he, v, (interpret_admits_iff hp (element?_eq_some he).1).1 hv⟩
    · rintro ⟨e, he, v, hv⟩
      exact ⟨_, e, he, v, (interpret_admits_iff hp (element?_eq_some he).1).2 hv, rfl⟩
  have herror (entry : ElementValue) : read entry = .error err ↔
      p.element? (Text.trim entry.name) = none ∧
          err = .unknownElement p.name (Text.trim entry.name) ∨
        ∃ e, p.element? (Text.trim entry.name) = some e ∧
          ∃ cause, e.value.Bars entry.value cause ∧ err = .badValue e.name cause := by
    subst hread
    simp only [bind_eq_error_iff, findElement_eq_error_iff, findElement_eq_ok_iff, reduceCtorEq,
      and_false, exists_false, or_false]
    apply or_congr_right
    apply exists_congr
    intro e
    apply and_congr_right
    intro he
    exact interpret_bars_iff hp (element?_eq_some he).1
  change entries.mapM _ = _ ↔ _
  rw [hread, mapM_eq_error_iff]
  simp only [hok, herror]

theorem applyChange_eq_error_iff {now : Time.Millis} {r : ChangeRequest} {err : PropertyError} :
    p.applyChange now r = .error err ↔ p.Refuses r err := by
  unfold applyChange
  dsimp only
  rw [check_bind_eq_error_iff, checkTarget_eq_error_iff, checkTarget_eq_ok_iff]
  constructor
  · rintro ((⟨h, rfl⟩ | ⟨hdevice, hname, h, rfl⟩) | ⟨⟨hkind, hdevice, hname⟩, h⟩)
    · exact .target h
    · exact .kind hdevice hname h
    · split at h
      · rename_i hwritable
        cases (h : Except.error (.readOnly p.device p.name) = .error err)
        exact .permission hdevice hname hkind (by simpa using hwritable)
      · rename_i hwritable
        have hwritable : p.permission.isWritable = true := by simpa using hwritable
        obtain h | ⟨values, -, hvalues⟩ := bind_eq_error_iff.1 h
        · obtain ⟨pre, entry, post, hsplit, hpre, ⟨hnone, rfl⟩ | ⟨e, he, cause, hbars, rfl⟩⟩ :=
            (interpret_eq_error_iff hp).1 h
          · exact .element hdevice hname hkind hwritable hsplit hpre hnone
          · exact .value hdevice hname hkind hwritable hsplit hpre he hbars
        · cases hvalues
  · intro h
    cases h with
    | target h => exact .inl (.inl ⟨h, rfl⟩)
    | kind hdevice hname h => exact .inl (.inr ⟨hdevice, hname, h, rfl⟩)
    | permission hdevice hname hkind h =>
      refine .inr ⟨⟨hkind, hdevice, hname⟩, ?_⟩
      rw [if_pos (by simp [h])]
      rfl
    | element hdevice hname hkind hwritable hsplit hpre h =>
      refine .inr ⟨⟨hkind, hdevice, hname⟩, ?_⟩
      rw [if_neg (by simp [hwritable])]
      exact bind_eq_error_iff.2 (.inl ((interpret_eq_error_iff hp).2
        ⟨_, _, _, hsplit, hpre, .inl ⟨h, rfl⟩⟩))
    | value hdevice hname hkind hwritable hsplit hpre he h =>
      refine .inr ⟨⟨hkind, hdevice, hname⟩, ?_⟩
      rw [if_neg (by simp [hwritable])]
      exact bind_eq_error_iff.2 (.inl ((interpret_eq_error_iff hp).2
        ⟨_, _, _, hsplit, hpre, .inr ⟨_, he, _, h, rfl⟩⟩))

end

namespace IsWellFormed

variable {p q : Property} (hp : p.IsWellFormed) {now : Time.Millis} {r : ChangeRequest}
  {changed : List String} (h : p.applyChange now r = .ok (q, changed))

include hp h

theorem ranges_of_applyChange :
    q.elements.map (·.value.range?) = p.elements.map (·.value.range?) := by
  obtain ⟨-, -, values, hvalues, rfl, rfl⟩ := applyChange_eq_ok_iff.1 h
  symm
  apply map_eq_of_forall₂ (changed_changeElements hp.names hp.kinds hvalues)
  intro e f hchanged
  exact hchanged.value.range?.symm

theorem fulfils_of_applyChange (hbounded : ∀ e ∈ p.elements, e.value.IsBounded)
    (hkind : p.kind ≠ .switch) : List.Forall₂ (Fulfils r) p.elements q.elements := by
  obtain ⟨-, -, values, hvalues, rfl, rfl⟩ := applyChange_eq_ok_iff.1 h
  have hchanged := changed_changeElements hp.names hp.kinds hvalues
  have helements : (p.changeElements values).1 = p.elements.map fun e =>
      { e with value := settled e.value (values.filter (·.1 = e.name)) } := by
    rw [changeElements, if_neg hkind]
    exact puts_elements hp.names
  rw [helements, List.forall₂_map_right_iff] at hchanged ⊢
  rw [List.forall₂_same] at hchanged ⊢
  intro e he
  have hread := hp.forall₂_entriesFor hvalues he
  unfold Fulfils
  split
  · rename_i hnone
    rw [List.getLast?_eq_none_iff.1 hnone, List.forall₂_nil_left_iff] at hread
    rw [hread]
    rfl
  · rename_i entry hlast
    obtain ⟨v, hv, hvalue⟩ := exists_getLast?_of_forall₂ hread hlast
    have hadmits := (interpret_admits_iff hbounded he).1 hvalue
    refine ⟨_, v.2, rfl, hadmits, ?_⟩
    obtain hsame | hagrees := settled_of_getLast? hv e.value
    · rw [hsame]
      exact .refl _
    · refine Value.same_of_agrees ?_ hadmits hagrees
      exact (hchanged e he).value.range?.trans (Element.replaces_of_interpret hvalue).range?.symm

end IsWellFormed

/-- A request is carried out if it is permitted, and else refused for the first thing that is wrong
with it. One that is carried out touches nothing but values and the time they were set at; where
there are no switches, each element then has the value that the last entry for it stands for. -/
theorem request_judged {p : Property} (hp : p.IsReached)
    (hbounded : ∀ e ∈ p.elements, e.value.IsBounded) (now : Time.Millis) (r : ChangeRequest) :
    ((∃ q changed, p.applyChange now r = .ok (q, changed)) ↔ p.Permits r) ∧
    (∀ q changed, p.applyChange now r = .ok (q, changed) →
      q = { p with elements := q.elements, timestamp := q.timestamp } ∧
      q.elements.map (·.value.range?) = p.elements.map (·.value.range?) ∧
      (p.kind ≠ .switch → List.Forall₂ (Fulfils r) p.elements q.elements)) ∧
    ∀ err, p.applyChange now r = .error err ↔ p.Refuses r err := by
  have hp := hp.isWellFormed
  refine ⟨applyChange_isOk_iff hbounded, ?_, fun err => applyChange_eq_error_iff hbounded⟩
  intro q changed h
  refine ⟨?_, hp.ranges_of_applyChange h, hp.fulfils_of_applyChange h hbounded⟩
  obtain ⟨-, -, values, -, -, rfl⟩ := applyChange_eq_ok_iff.1 h
  rfl

def focusRange : NumberRange := ⟨"%g", 0, 100, 1⟩

def focus : Property :=
  Draft.property
    { Draft.ofKind "Telescope" "FOCUS" .number with
      elements := [.named "POSITION" "" (.number ⟨0, focusRange⟩)] } 0

theorem isReached_focus : focus.IsReached :=
  ⟨0, focus, [], .draft (Draft.build_eq_ok_iff.2 ⟨⟨by simp, by decide, by decide⟩, rfl⟩), rfl⟩

theorem isBounded_focus : ∀ e ∈ focus.elements, e.value.IsBounded := by
  intro e he
  obtain rfl := List.mem_singleton.1 he
  exact ⟨by decide +kernel, by decide +kernel⟩

def focusings (positions : List String) : ChangeRequest :=
  ⟨.number, "Telescope", "FOCUS", none, positions.map fun text => ⟨" POSITION", .scalar text⟩⟩

theorem focusing_judged :
    focus.IsReached ∧ (∀ e ∈ focus.elements, e.value.IsBounded) ∧
      focus.Permits (focusings ["7", "12.5"]) ∧
      (∃ q changed, focus.applyChange 1 (focusings ["7", "12.5"]) = .ok (q, changed) ∧
        List.Forall₂ (Fulfils (focusings ["7", "12.5"])) focus.elements q.elements) ∧
      focus.Refuses (focusings ["7", "125"]) (.badValue "POSITION" (.outside 125 0 100)) := by
  obtain ⟨hiff, hcarried, -⟩ :=
    request_judged isReached_focus isBounded_focus 1 (focusings ["7", "12.5"])
  obtain ⟨q, changed, h⟩ : ∃ q changed,
      focus.applyChange 1 (focusings ["7", "12.5"]) = .ok (q, changed) := by
    refine ⟨_, _, applyChange_eq_ok_iff.2 ⟨⟨rfl, rfl, rfl⟩, rfl,
      [("POSITION", .number ⟨7, focusRange⟩), ("POSITION", .number ⟨12.5, focusRange⟩)],
      ?_, rfl, rfl⟩⟩
    decide +kernel
  obtain ⟨-, -, hfulfils⟩ := hcarried q changed h
  have hrefused : focus.applyChange 1 (focusings ["7", "125"]) =
      .error (.badValue "POSITION" (.outside 125 0 100)) := by
    decide +kernel
  exact ⟨isReached_focus, isBounded_focus, hiff.1 ⟨q, changed, h⟩,
    ⟨q, changed, h, hfulfils (by decide)⟩,
    ((request_judged isReached_focus isBounded_focus 1 _).2.2 _).1 hrefused⟩

end Property

end InstrumentBus
