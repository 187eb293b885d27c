import InstrumentBus.Device
import InstrumentBus.Proofs.Property.InPlace
import InstrumentBus.Proofs.Property.Switches

/-!
Refusals. A call that fails on a property, or on a device, leaves it as it was: all checks come
before the first write, wherever in a request the fault is.
-/

namespace InstrumentBus

namespace InPlace

variable {α : Type}

theorem settle_eq_error_iff {σ : Type} {s s' : σ} {r : Except PropertyError (σ × α)}
    {e : PropertyError} : settle s r = (.error e, s') ↔ r = .error e ∧ s' = s := by
  cases r <;> simp [settle, eq_comm]

theorem settle_eq_ok_iff {σ : Type} {s s' : σ} {r : Except PropertyError σ} :
    settle s (r.map fun t => (t, ())) = (.ok (), s') ↔ r = .ok s' := by
  cases r <;> simp [settle, Except.map]

theorem exec_ignore_eq_error_iff {σ : Type} {program : InPlace σ α} {s s' : σ}
    {e : PropertyError} :
    exec (do let _ ← program) s = (.error e, s') ↔ exec program s = (.error e, s') := by
  rw [exec_bind]
  rcases program.exec s with ⟨_ | a, s''⟩ <;> simp

def define (p : Property) : InPlace Device Definition := do
  let d ← get
  if p.device ≠ d.name then throw (.unknownProperty d.name p.name)
  if (d.property? p.name).isSome then throw (.duplicateProperty d.name p.name)
  let m := p.toDefinition
  modify fun d => { d with properties := d.properties ++ [p] }
  return m

/-- Runs a program on the property at a place and keeps there what the program leaves, also when
it fails. -/
def onProperty (i : Nat) (p : Property) (program : InPlace Property α) : InPlace Device α := do
  modify fun d => { d with properties := d.properties.set i (program.exec p).2 }
  MonadExcept.ofExcept (program.exec p).1

def change (now : Time.Millis) (r : ChangeRequest) : InPlace Device (List String) := do
  let d ← get
  if r.device ≠ d.name then throw (.unknownProperty r.device r.name)
  match d.property? r.name with
  | none => throw (.unknownProperty r.device r.name)
  | some p => onProperty (d.properties.findIdx (·.name == r.name)) p (applyChange now r)

variable (d : Device)

theorem exec_define (p : Property) : exec (define p) d = settle d (d.define p) := by
  unfold define Device.define
  rw [exec_bind, exec_get]
  dsimp only
  split
  · rfl
  · split
    · rfl
    · rfl

theorem exec_onProperty {i : Nat} {p : Property} (hp : d.properties[i]? = some p)
    {program : InPlace Property α} {r : Except PropertyError (Property × α)}
    (h : program.exec p = settle p r) :
    exec (onProperty i p program) d =
      settle d (r.map fun q => ({ d with properties := d.properties.set i q.1 }, q.2)) := by
  rw [onProperty, h, exec_bind]
  cases r with
  | ok q => rfl
  | error e =>
    obtain ⟨hi, rfl⟩ := List.getElem?_eq_some_iff.1 hp
    have hset : d.properties.set i d.properties[i] = d.properties := List.set_getElem_self hi
    simp [settle, hset, Except.map]

theorem getElem?_findIdx {name : String} {p : Property} (hp : d.property? name = some p) :
    d.properties[d.properties.findIdx (·.name == name)]? = some p := by
  rw [← hp, Device.property?, List.find?_eq_getElem?_findIdx]

theorem replace_eq_set (hnames : (d.properties.map (·.name)).Nodup) {i : Nat} {p q : Property}
    (hp : d.properties[i]? = some p) (hq : q.name = p.name) :
    d.replace q = { d with properties := d.properties.set i q } := by
  obtain ⟨hi, rfl⟩ := List.getElem?_eq_some_iff.1 hp
  unfold Device.replace
  congr 1
  apply List.ext_getElem
  · simp
  · intro j hj _
    have hj : j < d.properties.length := by simpa using hj
    have hi' : i < (d.properties.map (·.name)).length := by simpa using hi
    have hj' : j < (d.properties.map (·.name)).length := by simpa using hj
    have hinj : (d.properties.map (·.name))[j] = (d.properties.map (·.name))[i] ↔ j = i :=
      hnames.getElem_inj_iff
    rw [List.getElem_map, List.getElem_map, eq_comm (b := i)] at hinj
    simp only [List.getElem_map, List.getElem_set, hq, hinj]

variable (now : Time.Millis) (r : ChangeRequest)

theorem exec_change (hnames : (d.properties.map (·.name)).Nodup) :
    exec (change now r) d = settle d (d.applyChange now r) := by
  unfold change Device.applyChange
  rw [exec_bind, exec_get]
  dsimp only
  split
  · rfl
  · cases hp : d.property? r.name with
    | none => rfl
    | some p =>
      have hplace := getElem?_findIdx d hp
      dsimp only
      rw [exec_onProperty d hplace (exec_applyChange p now r)]
      cases hq : p.applyChange now r with
      | error e => rfl
      | ok q =>
        obtain ⟨-, -, values, -, -, hchanged⟩ := Property.applyChange_eq_ok_iff.1 hq
        have hname : q.1.name = p.name := by rw [hchanged]
        simp [settle, Except.map, bind, Except.bind, replace_eq_set d hnames hplace hname]

theorem exec_change_eq_error_iff {e : PropertyError} {d' : Device} :
    exec (change now r) d = (.error e, d') ↔ d.applyChange now r = .error e ∧ d' = d := by
  unfold change Device.applyChange
  rw [exec_bind, exec_get]
  dsimp only
  split
  · simp [eq_comm]
  · cases hp : d.property? r.name with
    | none => simp [eq_comm]
    | some p =>
      dsimp only
      rw [exec_onProperty d (getElem?_findIdx d hp) (exec_applyChange p now r),
        settle_eq_error_iff]
      cases p.applyChange now r <;> simp [Except.map, bind, Except.bind]

end InPlace

theorem Property.Call.exec_eq_ok_iff {c : Property.Call} {p q : Property} :
    c.program.exec p = (.ok (), q) ↔ c.outcome p = .ok q := by
  rw [Property.Call.exec_program, InPlace.settle_eq_ok_iff]

theorem Property.Call.exec_eq_error_iff {c : Property.Call} {p q : Property} {e : PropertyError} :
    c.program.exec p = (.error e, q) ↔ c.outcome p = .error e ∧ q = p := by
  rw [Property.Call.exec_program, InPlace.settle_eq_error_iff, map_eq_error_iff]

namespace Device

inductive Call
  | define (p : Property) : Call
  | change (now : Time.Millis) (r : ChangeRequest) : Call

namespace Call

def outcome (d : Device) : Call → Except PropertyError Device
  | .define p => (d.define p).map (·.1)
  | .change now r => (d.applyChange now r).map (·.1)

def program : Call → InPlace Device Unit
  | .define p => do
    let _ ← InPlace.define p
  | .change now r => do
    let _ ← InPlace.change now r

theorem exec_program (c : Call) {d : Device} (hnames : (d.properties.map (·.name)).Nodup) :
    c.program.exec d = InPlace.settle d ((c.outcome d).map fun d' => (d', ())) := by
  cases c with
  | define p =>
    rw [program, InPlace.exec_bind, InPlace.exec_define, outcome]
    cases d.define p <;> rfl
  | change now r =>
    rw [program, InPlace.exec_bind, InPlace.exec_change d now r hnames, outcome]
    cases d.applyChange now r <;> rfl

theorem exec_eq_error_iff {c : Call} {d d' : Device} {e : PropertyError} :
    c.program.exec d = (.error e, d') ↔ c.outcome d = .error e ∧ d' = d := by
  cases c with
  | define p =>
    rw [program, InPlace.exec_ignore_eq_error_iff, InPlace.exec_define,
      InPlace.settle_eq_error_iff, outcome, map_eq_error_iff]
  | change now r =>
    rw [program, InPlace.exec_ignore_eq_error_iff, InPlace.exec_change_eq_error_iff, outcome,
      map_eq_error_iff]

end Call

end Device

/-- Calls on a property or on a device, made in place, are those that take effect as a whole: they
are accepted and refused alike, for the same cause. After a refusal the property or the device is
what it was before. -/
theorem refusal_leaves_all :
    (∀ (c : Property.Call) (p q : Property),
      (c.program.exec p = (.ok (), q) ↔ c.outcome p = .ok q) ∧
      ∀ e, c.program.exec p = (.error e, q) ↔ c.outcome p = .error e ∧ q = p) ∧
    ∀ (c : Device.Call) (d d' : Device),
      ((d.properties.map (·.name)).Nodup →
        (c.program.exec d = (.ok (), d') ↔ c.outcome d = .ok d')) ∧
      ∀ e, c.program.exec d = (.error e, d') ↔ c.outcome d = .error e ∧ d' = d := by
  constructor
  · intro c p q
    exact ⟨Property.Call.exec_eq_ok_iff, fun e => Property.Call.exec_eq_error_iff⟩
  · intro c d d'
    refine ⟨?_, fun e => Device.Call.exec_eq_error_iff⟩
    intro hnames
    rw [Device.Call.exec_program c hnames, InPlace.settle_eq_ok_iff]

theorem mount_keeps_rate :
    let d : Device := ⟨"Mount", [Property.tracking]⟩
    let asks (rates : List String) : Device.Call :=
      .change 1 ⟨.switch, "Mount", "TRACKING", none, rates.map fun rate => ⟨rate, .scalar "On"⟩⟩
    (asks ["LUNAR", "SOLAR"]).program.exec d = (.error (.unknownElement "TRACKING" "SOLAR"), d) ∧
      ∃ d', d' ≠ d ∧ (asks ["LUNAR"]).program.exec d = (.ok (), d') := by
  intro d asks
  obtain ⟨-, hdevice⟩ := refusal_leaves_all
  have hrefused : (asks ["LUNAR", "SOLAR"]).outcome d =
      .error (.unknownElement "TRACKING" "SOLAR") := rfl
  obtain ⟨d', hne, haccepted⟩ : ∃ d', d' ≠ d ∧ (asks ["LUNAR"]).outcome d = .ok d' := by
    refine ⟨_, ?_, rfl⟩
    decide +kernel
  exact ⟨((hdevice _ d d).2 _).2 ⟨hrefused, rfl⟩,
    d', hne, ((hdevice _ d d').1 (by decide)).2 haccepted⟩

end InstrumentBus
