import InstrumentBus.Camera
import InstrumentBus.Proofs.Device.Panel
import InstrumentBus.Proofs.Property.Asked

/-!
Runs of the camera: what can happen to it, and what holds after any number of such steps. Its
properties keep the shape that they were built with.
-/

namespace InstrumentBus

namespace Camera

inductive Event
  | message (now : Time.Millis) (m : Message) : Event
  | tick (now : Time.Millis) : Event

def step (c : Camera) : Event → Camera × List Message
  | .message now m => c.handle now m
  | .tick now => c.tick now

def after (c : Camera) (events : List Event) : Camera := events.foldl (fun c e => (c.step e).1) c

def sent (c : Camera) : List Event → List Message
  | [] => []
  | e :: events => (c.step e).2 ++ sent (c.step e).1 events

@[simp] theorem after_nil (c : Camera) : c.after [] = c := rfl

@[simp] theorem after_cons (c : Camera) (e : Event) (events : List Event) :
    c.after (e :: events) = (c.step e).1.after events := rfl

@[simp] theorem after_append (c : Camera) (events more : List Event) :
    c.after (events ++ more) = (c.after events).after more := List.foldl_append

theorem after_induction {P : Camera → Prop} {c : Camera} (hc : P c)
    (hstep : ∀ c e, P c → P (c.step e).1) (events : List Event) : P (c.after events) := by
  induction events generalizing c with
  | nil => exact hc
  | cons e events ih => exact ih (hstep c e hc)

/-- If only some requests can undo what holds of a camera, it holds all along a run exactly if there
is no such request in it. -/
theorem forall_prefix_iff {P : Camera → Prop} {Q : Camera → Time.Millis → ChangeRequest → Prop}
    {c : Camera} (hc : P c)
    (hstep : ∀ pre e, P (c.after pre) → (P ((c.after pre).step e).1 ↔
      ∀ now r, e = .message now (.change r) → ¬Q (c.after pre) now r))
    (events : List Event) :
    (∀ pre, pre <+: events → P (c.after pre)) ↔
      ∀ pre now r, pre ++ [.message now (.change r)] <+: events → ¬Q (c.after pre) now r := by
  constructor
  · intro hholds pre now r hpre
    have hnext := hholds _ hpre
    rw [after_append] at hnext
    have hpre := hholds pre ((List.prefix_append pre _).trans hpre)
    exact (hstep pre _ hpre).1 hnext now r rfl
  · intro hno pre hpre
    induction pre using List.reverseRecOn with
    | nil => exact hc
    | append_singleton pre e ih =>
      have hholds := ih ((List.prefix_append pre _).trans hpre)
      rw [after_append]
      refine (hstep pre e hholds).2 ?_
      rintro now r rfl
      exact hno pre now r hpre

theorem quantity?_eq_some_iff {c : Camera} {name element : String} {q : Quantity} :
    c.quantity? name element = some q ↔
      ∃ p e, c.device.property? name = some p ∧ p.element? element = some e ∧
        e.value = .number q := by
  unfold quantity? element?
  cases c.device.property? name with
  | none => simp
  | some p =>
    cases he : p.element? element with
    | none => simp [he]
    | some e =>
      obtain ⟨_, _, value⟩ := e
      cases value <;> simp [he, eq_comm]

section

variable (c : Camera) (now : Time.Millis) (name : String)

theorem name_setValue (p : Property) (element : String) (value : Value) :
    (((p.setValue now element value).toOption).getD p).name = p.name := by
  cases h : p.setValue now element value with
  | error e => rfl
  | ok q =>
    obtain ⟨-, -, -, rfl⟩ := Property.setValue_eq_ok_iff.1 h
    rfl

theorem property?_mapProperty {f : Property → Property} (hf : ∀ p, (f p).name = p.name)
    (other : String) :
    (c.mapProperty name f).device.property? other =
      (c.device.property? other).map fun p => if other = name then f p else p := by
  have hname (p : Property) : (if p.name = name then f p else p).name = p.name := by
    split
    · exact hf p
    · rfl
  refine (Device.property?_map hname other).trans ?_
  cases h : c.device.property? other with
  | none => rfl
  | some p =>
    obtain ⟨-, rfl⟩ := Device.property?_eq_some h
    rfl

theorem property?_setState (state : State) (other : String) :
    (c.setState now name state).device.property? other =
      (c.device.property? other).map fun p => if other = name then p.setState now state else p :=
  c.property?_mapProperty name (f := (·.setState now state)) (fun _ => rfl) other

@[simp] theorem state?_setState (state : State) (other : String) :
    (c.setState now name state).device.state? other =
      (c.device.state? other).map fun s => if other = name then state else s := by
  rw [Device.state?, property?_setState, Option.map_map, Device.state?, Option.map_map]
  congr 1
  funext p
  rw [Function.comp_apply]
  split <;> rfl

theorem clock?_setState_of_ne {name other : String} (h : other ≠ name) (state : State) :
    (c.setState now name state).device.clock? other = c.device.clock? other := by
  simp only [Device.clock?, property?_setState, if_neg h, Option.map_id']

theorem clock?_setState (state : State) :
    (c.setState now name state).device.clock? name =
      (c.device.clock? name).map fun (s, timeout, since) =>
        (state, timeout,
          if state = .busy then (if s = .busy then since else some now) else none) := by
  rw [Device.clock?, property?_setState, Option.map_map, Device.clock?, Option.map_map]
  congr 1
  funext p
  rw [Function.comp_apply, if_pos rfl]
  rfl

theorem clock?_setState_busy {p : Property} (hp : c.device.property? name = some p)
    (hwell : p.IsWellFormed) :
    (c.setState now name .busy).device.clock? name =
      some (.busy, p.timeout, some ((c.device.busySince? name).getD now)) := by
  have hsince : (if p.state = .busy then p.busySince else some now) =
      some (p.busySince.getD now) := by
    split
    · rename_i hbusy
      obtain ⟨since, hsince⟩ := Option.isSome_iff_exists.1 (hwell.busy.2 hbusy)
      rw [hsince]
      rfl
    · rename_i hidle
      have hnone : p.busySince = none := by simpa using mt hwell.busy.1 hidle
      rw [hnone]
      rfl
  rw [Device.clock?, property?_setState, Device.busySince?, hp, Option.bind_some, ← hsince]
  simp [Property.setState]

@[simp] theorem clock?_setValue (element : String) (value : Value) (other : String) :
    (c.setValue now name element value).device.clock? other = c.device.clock? other := by
  rw [Device.clock?, setValue, property?_mapProperty _ _ fun p => name_setValue now p element value,
    Option.map_map, Device.clock?]
  congr 1
  funext p
  rw [Function.comp_apply]
  split
  · cases h : p.setValue now element value with
    | error e => rfl
    | ok q =>
      obtain ⟨-, -, -, rfl⟩ := Property.setValue_eq_ok_iff.1 h
      rfl
  · rfl

@[simp] theorem state?_setValue (element : String) (value : Value) (other : String) :
    (c.setValue now name element value).device.state? other = c.device.state? other := by
  rw [Device.state?_eq_clock?, clock?_setValue, Device.state?_eq_clock?]

theorem property?_setValue {name element : String} {value : Value} {p q : Property}
    (hp : c.device.property? name = some p) (hq : p.setValue now element value = .ok q) :
    (c.setValue now name element value).device.property? name = some q := by
  rw [setValue, property?_mapProperty _ _ fun p => name_setValue now p element value, hp,
    Option.map_some, if_pos rfl, hq]
  rfl

@[simp] theorem clock?_setNumber (element : String) (x : Float) (other : String) :
    (c.setNumber now name element x).device.clock? other = c.device.clock? other := by
  unfold setNumber
  split
  · exact clock?_setValue ..
  · rfl

@[simp] theorem state?_setNumber (element : String) (x : Float) (other : String) :
    (c.setNumber now name element x).device.state? other = c.device.state? other := by
  rw [Device.state?_eq_clock?, clock?_setNumber, Device.state?_eq_clock?]

@[simp] theorem element?_setState (state : State) (other element : String) :
    (c.setState now name state).element? other element = c.element? other element := by
  rw [Camera.element?, property?_setState, Camera.element?]
  cases c.device.property? other with
  | none => rfl
  | some p =>
    rw [Option.map_some, Option.bind_some, Option.bind_some]
    split <;> rfl

theorem element?_setValue_of_ne {name other : String} (h : other ≠ name) (element element' : String)
    (value : Value) :
    (c.setValue now name element value).element? other element' = c.element? other element' := by
  rw [Camera.element?, setValue,
    property?_mapProperty _ _ fun p => name_setValue now p element value, Camera.element?]
  simp only [if_neg h, Option.map_id']

theorem element?_setNumber_of_ne {name other : String} (h : other ≠ name)
    (element element' : String) (x : Float) :
    (c.setNumber now name element x).element? other element' = c.element? other element' := by
  unfold setNumber
  split
  · exact element?_setValue_of_ne c now h ..
  · rfl

theorem quantity?_congr {c d : Camera} {name element : String}
    (h : d.element? name element = c.element? name element) :
    d.quantity? name element = c.quantity? name element := by
  rw [quantity?, h, quantity?]

theorem quantity?_setNumber {name element : String} {q : Quantity}
    (hq : c.quantity? name element = some q) (x : Float) :
    (c.setNumber now name element x).quantity? name element = some { q with value := x } := by
  obtain ⟨p, e, hp, he, hvalue⟩ := quantity?_eq_some_iff.1 hq
  have hkind : (Value.number { q with value := x }).kind = e.kind := by
    rw [Element.kind, hvalue]
    rfl
  have hset : p.setValue now element (.number { q with value := x }) = .ok _ :=
    Property.setValue_eq_ok_iff.2 ⟨e, he, hkind, rfl⟩
  have hname (f : Element) : (if f.name = element then
      { f with value := .number { q with value := x } } else f).name = f.name := by
    split <;> rfl
  simp only [setNumber, hq]
  refine quantity?_eq_some_iff.2 ⟨_, { e with value := .number { q with value := x } },
    property?_setValue c now hp hset, ?_, rfl⟩
  have he' := he
  simp only [Property.element?] at he' ⊢
  rw [List.find?_map, Function.comp_def]
  simp only [hname, he', Option.map_some, if_pos (Property.element?_eq_some he).2]

@[simp] theorem isConnected_setState (state : State) :
    (c.setState now name state).isConnected = c.isConnected := by
  rw [isConnected, element?_setState, isConnected]

theorem isConnected_setValue {name : String} (h : connectionName ≠ name) (element : String)
    (value : Value) : (c.setValue now name element value).isConnected = c.isConnected := by
  rw [isConnected, element?_setValue_of_ne c now h, isConnected]

theorem isConnected_setNumber {name : String} (h : connectionName ≠ name) (element : String)
    (x : Float) : (c.setNumber now name element x).isConnected = c.isConnected := by
  rw [isConnected, element?_setNumber_of_ne c now h, isConnected]

@[simp] theorem exposure_setState (state : State) :
    (c.setState now name state).exposure = c.exposure := rfl

@[simp] theorem setPoint_setState (state : State) :
    (c.setState now name state).setPoint = c.setPoint := rfl

@[simp] theorem temperature_setState (state : State) :
    (c.setState now name state).temperature = c.temperature := rfl

@[simp] theorem frames_setState (state : State) :
    (c.setState now name state).frames = c.frames := rfl

@[simp] theorem exposure_setValue (element : String) (value : Value) :
    (c.setValue now name element value).exposure = c.exposure := rfl

@[simp] theorem setPoint_setValue (element : String) (value : Value) :
    (c.setValue now name element value).setPoint = c.setPoint := rfl

@[simp] theorem temperature_setValue (element : String) (value : Value) :
    (c.setValue now name element value).temperature = c.temperature := rfl

@[simp] theorem frames_setValue (element : String) (value : Value) :
    (c.setValue now name element value).frames = c.frames := rfl

theorem setNumber_eq (element : String) (x : Float) :
    c.setNumber now name element x =
      { c with device := (c.setNumber now name element x).device } := by
  unfold setNumber
  split <;> rfl

@[simp] theorem exposure_setNumber (element : String) (x : Float) :
    (c.setNumber now name element x).exposure = c.exposure := by
  rw [setNumber_eq]

@[simp] theorem setPoint_setNumber (element : String) (x : Float) :
    (c.setNumber now name element x).setPoint = c.setPoint := by
  rw [setNumber_eq]

@[simp] theorem temperature_setNumber (element : String) (x : Float) :
    (c.setNumber now name element x).temperature = c.temperature := by
  rw [setNumber_eq]

@[simp] theorem frames_setNumber (element : String) (x : Float) :
    (c.setNumber now name element x).frames = c.frames := by
  rw [setNumber_eq]

end

/-- The property that an event changes, if it is a request that the camera carries out. -/
def granted? (c : Camera) : Event → Option String
  | .message now (.change r) =>
    if r.device = deviceName ∧ (r.name = connectionName ∨ c.isConnected) then
      (c.device.applyChange now r).toOption.map fun _ => r.name
    else none
  | _ => none

def switchingOn (name element : String) : ChangeRequest :=
  ⟨.switch, deviceName, name, none, [⟨element, .scalar "On"⟩]⟩

def asking (name element number : String) : ChangeRequest :=
  ⟨.number, deviceName, name, none, [⟨element, .scalar number⟩]⟩

def granted (c : Camera) : List Event → List String
  | [] => []
  | e :: events => (c.granted? e).toList ++ granted (c.step e).1 events

section

variable {c : Camera} {now : Time.Millis} {r : ChangeRequest} {d : Device} {changed : List String}

theorem step_change (c : Camera) (now : Time.Millis) {r : ChangeRequest}
    (hr : r.device = deviceName) : c.step (.message now (.change r)) = c.change now r :=
  if_pos hr

theorem step_change_of_ne (c : Camera) (now : Time.Millis) {r : ChangeRequest}
    (hr : r.device ≠ deviceName) : c.step (.message now (.change r)) = (c, []) :=
  if_neg hr

theorem change_cases (c : Camera) (now : Time.Millis) {r : ChangeRequest}
    (hr : r.device = deviceName) :
    (c.granted? (.message now (.change r)) = none ∧
      ∃ reason, c.change now r = c.reject now r.name reason) ∨
    (c.granted? (.message now (.change r)) = some r.name ∧
      (r.name = connectionName ∨ c.isConnected) ∧
      ∃ d changed, c.device.applyChange now r = .ok (d, changed) ∧
        c.change now r = { c with device := d }.follow now r.name changed) := by
  by_cases hguard : r.name = connectionName ∨ c.isConnected = true
  · have hguard' : ¬(r.name ≠ connectionName ∧ ¬c.isConnected = true) := by tauto
    cases happly : c.device.applyChange now r with
    | error e =>
      refine .inl ⟨?_, e.message, ?_⟩
      · simp [granted?, happly, Except.toOption]
      · simp only [change, if_neg hguard', happly]
    | ok result =>
      obtain ⟨d, changed⟩ := result
      refine .inr ⟨?_, hguard, d, changed, rfl, ?_⟩
      · simp [granted?, happly, hr, hguard, Except.toOption]
      · simp only [change, if_neg hguard', happly]
  · have hguard' : r.name ≠ connectionName ∧ ¬c.isConnected = true := by tauto
    refine .inl ⟨?_, "camera is not connected", ?_⟩
    · simp [granted?, hguard]
    · rw [change, if_pos hguard']

theorem exists_of_granted {name : String}
    (h : c.granted? (.message now (.change r)) = some name) :
    r.device = deviceName ∧ r.name = name ∧ ∃ d changed,
      c.device.applyChange now r = .ok (d, changed) ∧
        c.change now r = { c with device := d }.follow now name changed := by
  have hr : r.device = deviceName := by
    simp only [granted?] at h
    by_contra hr
    simp [hr] at h
  obtain ⟨hrefused, -⟩ | ⟨hgranted, -, d, changed, hd, hchange⟩ := change_cases c now hr
  · cases hrefused.symm.trans h
  · cases hgranted.symm.trans h
    exact ⟨hr, rfl, d, changed, hd, hchange⟩

variable (hd : c.device.applyChange now r = .ok (d, changed))

include hd

theorem isConnected_of_applyChange (hname : r.name ≠ connectionName) :
    { c with device := d }.isConnected = c.isConnected := by
  obtain ⟨p, q, -, -, hproperty⟩ := Device.property?_of_applyChange hd
  simp only [isConnected, Camera.element?, hproperty, if_neg hname.symm]

end

section

variable (c : Camera) (now : Time.Millis)

theorem tick_fst : (c.tick now).1 =
    (({ c with device := (c.device.expire now).1 }.progressExposure now).1.progressCooler now).1 :=
  rfl

theorem tick_snd : (c.tick now).2 = (c.device.expire now).2.map .update ++
    ({ c with device := (c.device.expire now).1 }.progressExposure now).2 ++
    (({ c with device := (c.device.expire now).1 }.progressExposure now).1.progressCooler now).2 :=
  rfl

theorem tick_of_none (hexposure : c.exposure = none) (hsetPoint : c.setPoint = none) :
    c.tick now =
      ({ c with device := (c.device.expire now).1 }, (c.device.expire now).2.map .update) := by
  simp [tick, progressExposure, progressCooler, hexposure, hsetPoint]

theorem element?_expire (name element : String) :
    { c with device := (c.device.expire now).1 }.element? name element = c.element? name element := by
  rw [Camera.element?, Device.property?_expire, Camera.element?]
  cases c.device.property? name with
  | none => rfl
  | some p =>
    rw [Option.map_some, Option.bind_some, Option.bind_some]
    split <;> rfl

theorem isConnected_expire :
    { c with device := (c.device.expire now).1 }.isConnected = c.isConnected := by
  rw [isConnected, element?_expire, isConnected]

theorem progressExposure_cases :
    (c.exposure = none ∧ c.progressExposure now = (c, [])) ∨
    ∃ e, c.exposure = some e ∧
      (c.device.state? exposureName ≠ some .busy ∧
          c.progressExposure now = ({ c with exposure := none }, []) ∨
        c.device.state? exposureName = some .busy ∧
          let c' := c.setNumber now exposureName exposureElement (remaining e now)
          (remaining e now > 0 ∧
              c.progressExposure now = (c', c'.report exposureName [exposureElement]) ∨
            ¬remaining e now > 0 ∧ c.progressExposure now = c'.finish now)) := by
  unfold progressExposure
  cases c.exposure with
  | none => exact .inl ⟨rfl, rfl⟩
  | some e =>
    refine .inr ⟨e, rfl, ?_⟩
    by_cases hbusy : c.device.state? exposureName = some .busy
    · refine .inr ⟨hbusy, ?_⟩
      have hbusy : ¬(c.device.property? exposureName).map (·.state) ≠ some .busy := not_not.2 hbusy
      by_cases hleft : remaining e now > 0
      · exact .inl ⟨hleft, by simp only [if_neg hbusy, if_pos hleft]⟩
      · exact .inr ⟨hleft, by simp only [if_neg hbusy, if_neg hleft]⟩
    · exact .inl ⟨hbusy, if_pos hbusy⟩

theorem progressCooler_cases :
    (c.setPoint = none ∧ c.progressCooler now = (c, [])) ∨
    ∃ target, c.setPoint = some target ∧
      let c' := { c with temperature := approach c.temperature target }.setNumber now
        temperatureName temperatureElement (approach c.temperature target)
      let c'' := { c' with setPoint := none }.setState now temperatureName .ok
      (c.progressCooler now = (c'', c''.report temperatureName [temperatureElement]) ∨
        c.progressCooler now = (c', c'.report temperatureName [temperatureElement])) := by
  unfold progressCooler
  cases c.setPoint with
  | none => exact .inl ⟨rfl, rfl⟩
  | some target =>
    refine .inr ⟨target, rfl, ?_⟩
    by_cases hreached : (target - c.temperature).abs ≤ coolingStep
    · exact .inl (by simp only [if_pos hreached])
    · exact .inr (by simp only [if_neg hreached])

end

section

variable (c : Camera) (now : Time.Millis)

theorem isConnected_connect (changed : List String) :
    (c.connect now changed).1.isConnected = c.isConnected := by
  unfold connect
  dsimp only
  rw [isConnected_setState]
  split <;> rfl

theorem isConnected_dropExposure : (c.dropExposure now).1.isConnected = c.isConnected := by
  unfold dropExposure
  split
  · rfl
  · rw [isConnected_setState, isConnected_setState, isConnected_setNumber _ _ (by decide)]
    rfl

theorem isConnected_follow {name : String} (h : name ≠ connectionName) (changed : List String) :
    (c.follow now name changed).1.isConnected = c.isConnected := by
  unfold follow
  rw [if_neg h]
  split_ifs
  · unfold expose
    split
    · rfl
    · rw [isConnected_setState, isConnected_setState]
      rfl
  · have habort : (c.abort now).1 = ((c.dropExposure now).1.setValue now abortName abortElement
        (.switch .off)).setState now abortName .ok := rfl
    rw [habort, isConnected_setState, isConnected_setValue _ _ (by decide),
      isConnected_dropExposure]
  · unfold steer
    split
    · rfl
    · dsimp only
      split
      · rw [isConnected_setState, isConnected_setNumber _ _ (by decide)]
      · rw [isConnected_setState]
        exact isConnected_setNumber _ _ (by decide) ..
  · rfl

theorem isConnected_finish : (c.finish now).1.isConnected = c.isConnected := by
  unfold finish
  rw [isConnected_setState, isConnected_setState, isConnected_setValue _ _ (by decide)]
  rfl

theorem isConnected_progressExposure : (c.progressExposure now).1.isConnected = c.isConnected := by
  obtain ⟨-, hsame⟩ | ⟨e, -, ⟨-, hsame⟩ | ⟨-, ⟨-, hsame⟩ | ⟨-, hsame⟩⟩⟩ := c.progressExposure_cases now
  · rw [hsame]
  · rw [hsame]
    rfl
  · rw [hsame]
    exact isConnected_setNumber _ _ (by decide) ..
  · rw [hsame, isConnected_finish]
    exact isConnected_setNumber _ _ (by decide) ..

theorem isConnected_progressCooler : (c.progressCooler now).1.isConnected = c.isConnected := by
  obtain ⟨-, hsame⟩ | ⟨target, -, hsame | hsame⟩ := c.progressCooler_cases now
  · rw [hsame]
  · rw [hsame, isConnected_setState]
    exact isConnected_setNumber _ _ (by decide) ..
  · rw [hsame]
    exact isConnected_setNumber _ _ (by decide) ..

theorem isConnected_tick : (c.tick now).1.isConnected = c.isConnected := by
  rw [tick_fst, isConnected_progressCooler, isConnected_progressExposure, isConnected_expire]

end

/-- The device of the camera: the properties that it began with, whatever they show by now. -/
structure IsFurnished (d : Device) : Prop where
  name : d.name = deviceName
  isMadeOf : d.IsMadeOf drafts

theorem elements_exposureDraft : exposureDraft.elements =
    [⟨exposureElement, "Duration (s)", .number ⟨1, exposureRange⟩⟩] := rfl

theorem elements_temperatureDraft : temperatureDraft.elements =
    [⟨temperatureElement, "Temperature (C)", .number ⟨ambient, temperatureRange⟩⟩] := rfl

theorem nodup_drafts : (drafts.map (·.name)).Nodup := by decide

theorem isSound_drafts : ∀ d ∈ drafts, d.IsSound := by
  have hcheck : ∀ d ∈ drafts, d.elements ≠ [] ∧ (∀ e ∈ d.elements, e.kind = d.kind) ∧
      (d.elements.map (·.name)).Nodup := by
    decide +kernel
  intro d hd
  obtain ⟨hnonempty, hkinds, hnames⟩ := hcheck d hd
  exact ⟨hnonempty, hkinds, hnames⟩

theorem device_start (now : Time.Millis) :
    (start now).device = ⟨deviceName, drafts.map (·.property now)⟩ := by
  have hbuild (d : Property.Draft) (hd : d ∈ drafts) :
      (d.build now).toOption = some (d.property now) := by
    rw [Property.Draft.build_eq_ok_iff.2 ⟨isSound_drafts d hd, rfl⟩]
    rfl
  change Device.mk deviceName (drafts.filterMap _) = _
  rw [List.filterMap_congr hbuild]
  rfl

theorem isFurnished_start (now : Time.Millis) : IsFurnished (start now).device := by
  rw [device_start]
  refine ⟨rfl, ?_⟩
  rw [Device.IsMadeOf, List.forall₂_map_right_iff, List.forall₂_same]
  exact fun d hd => Property.fits_property (isSound_drafts d hd) now

namespace IsFurnished

section

variable {c : Camera} (h : IsFurnished c.device) (now : Time.Millis)

include h

theorem mapProperty {name : String} {f : Property → Property}
    (hf : ∀ d p, c.device.property? name = some p → Property.Fits d p → Property.Fits d (f p)) :
    IsFurnished (c.mapProperty name f).device := by
  refine ⟨h.name, h.isMadeOf.map ?_⟩
  intro d _ p hp hfits
  split
  · rename_i hname
    exact hf d p (hname ▸ h.isMadeOf.property?_of_mem nodup_drafts hp) hfits
  · exact hfits

theorem setState (name : String) (state : State) :
    IsFurnished (c.setState now name state).device :=
  h.mapProperty fun _ _ _ hfits => hfits.setState state

theorem setValue {name element : String} {value : Value}
    (hrange : ∀ p e, c.device.property? name = some p → p.element? element = some e →
      value.kind = e.value.kind → value.range? = e.value.range?) :
    IsFurnished (c.setValue now name element value).device := by
  apply h.mapProperty
  intro d p hp hfits
  cases hq : p.setValue now element value with
  | error e => exact hfits
  | ok q =>
    refine hfits.setValue hq ?_
    intro e he
    obtain ⟨e', he', hkind, -⟩ := Property.setValue_eq_ok_iff.1 hq
    cases he'.symm.trans he
    exact hrange p e hp he hkind

theorem setValue_of_kind (name element : String) (value : Value) (hvalue : value.kind ≠ .number) :
    IsFurnished (c.setValue now name element value).device := by
  apply h.setValue
  intro p e _ _ hkind
  rw [Property.range?_eq_none hvalue, Property.range?_eq_none (hkind ▸ hvalue)]

theorem setNumber (name element : String) (x : Float) :
    IsFurnished (c.setNumber now name element x).device := by
  unfold Camera.setNumber
  split
  · rename_i q hq
    obtain ⟨p, e, hp, he, hvalue⟩ := quantity?_eq_some_iff.1 hq
    apply h.setValue
    intro p' e' hp' he' _
    cases hp'.symm.trans hp
    cases he'.symm.trans he
    rw [hvalue]
    rfl
  · exact h

theorem reject (name reason : String) : IsFurnished (c.reject now name reason).1.device :=
  h.setState now name .alert

theorem connect (changed : List String) : IsFurnished (c.connect now changed).1.device := by
  have hjobs : IsFurnished (if c.isConnected then c
      else { c with exposure := none, setPoint := none }).device := by
    split <;> exact h
  exact hjobs.setState now connectionName .ok

theorem expose (changed : List String) : IsFurnished (c.expose now changed).1.device := by
  unfold Camera.expose
  split
  · exact h
  · exact (h.setState now frameName .busy).setState now exposureName .busy

theorem dropExposure : IsFurnished (c.dropExposure now).1.device := by
  unfold Camera.dropExposure
  split
  · exact h
  · have hnumber := setNumber (c := { c with exposure := none }) h now exposureName exposureElement 0
    exact (hnumber.setState now _ _).setState now _ _

theorem abort : IsFurnished (c.abort now).1.device := by
  have hvalue := (h.dropExposure now).setValue_of_kind now abortName abortElement
    (.switch .off) Kind.noConfusion
  exact hvalue.setState now _ _

theorem steer : IsFurnished (c.steer now).1.device := by
  unfold Camera.steer
  split
  · exact h
  · rename_i q _
    have hnumber := h.setNumber now temperatureName temperatureElement c.temperature
    dsimp only
    split
    · exact hnumber.setState now _ _
    · exact hnumber.setState now temperatureName .busy

theorem follow (name : String) (changed : List String) :
    IsFurnished (c.follow now name changed).1.device := by
  unfold Camera.follow
  split_ifs
  · exact h.connect now changed
  · exact h.expose now changed
  · exact h.abort now
  · exact h.steer now
  · exact h

theorem applyChange {r : ChangeRequest} {d : Device} {changed : List String}
    (hd : c.device.applyChange now r = .ok (d, changed)) : IsFurnished d := by
  refine ⟨?_, h.isMadeOf.applyChange nodup_drafts hd⟩
  obtain ⟨-, p, q, -, -, rfl⟩ := Device.applyChange_eq_ok_iff.1 hd
  exact h.name

theorem change (r : ChangeRequest) : IsFurnished (c.change now r).1.device := by
  unfold Camera.change
  split
  · exact h.reject now _ _
  · split
    · exact h.reject now _ _
    · rename_i d changed hd
      exact follow (c := { c with device := d }) (h.applyChange now hd) now _ _

theorem handle (m : Message) : IsFurnished (c.handle now m).1.device := by
  unfold Camera.handle
  split
  · exact h
  · split
    · exact h.change now _
    · exact h
  · exact h

theorem finish : IsFurnished (c.finish now).1.device := by
  have hvalue := h.setValue_of_kind now frameName frameName
    (.blob (picture (c.frames + 1))) Kind.noConfusion
  exact (hvalue.setState now frameName .ok).setState now exposureName .ok

theorem expire : IsFurnished (c.device.expire now).1 := ⟨h.name, h.isMadeOf.expire now⟩

theorem progressExposure : IsFurnished (c.progressExposure now).1.device := by
  unfold Camera.progressExposure
  split
  · exact h
  · rename_i e _
    split
    · exact h
    · have hnumber := h.setNumber now exposureName exposureElement (remaining e now)
      dsimp only
      split
      · exact hnumber
      · exact hnumber.finish now

theorem progressCooler : IsFurnished (c.progressCooler now).1.device := by
  unfold Camera.progressCooler
  split
  · exact h
  · rename_i target _
    have hnumber := setNumber (c := { c with temperature := approach c.temperature target }) h now
      temperatureName temperatureElement (approach c.temperature target)
    dsimp only
    split
    · exact hnumber.setState now temperatureName .ok
    · exact hnumber

theorem tick : IsFurnished (c.tick now).1.device :=
  (progressExposure (c := { c with device := (c.device.expire now).1 }) (h.expire now) now)
    |>.progressCooler now

theorem step (e : Event) : IsFurnished (c.step e).1.device := by
  cases e with
  | message now m => exact h.handle now m
  | tick now => exact h.tick now

end

end IsFurnished

def IsReached (c : Camera) : Prop := ∃ now events, c = (start now).after events

theorem IsReached.isFurnished {c : Camera} (h : c.IsReached) : IsFurnished c.device := by
  obtain ⟨now, events, rfl⟩ := h
  exact after_induction (P := (IsFurnished ·.device)) (isFurnished_start now)
    (fun _ e h => h.step e) events

theorem IsReached.after {c : Camera} (h : c.IsReached) (events : List Event) :
    (c.after events).IsReached := by
  obtain ⟨now, earlier, rfl⟩ := h
  exact ⟨now, earlier ++ events, (after_append ..).symm⟩

def connected : Camera :=
  (start 0).after [.message 0 (.change (switchingOn connectionName "CONNECT"))]

theorem isReached_connected : connected.IsReached := ⟨0, _, rfl⟩

namespace IsFurnished

variable {c : Camera} (h : IsFurnished c.device)

include h

theorem exists_state {d : Property.Draft} (hd : d ∈ drafts) :
    ∃ s, c.device.state? d.name = some s := by
  obtain ⟨p, hp, -⟩ := h.isMadeOf.exists_property nodup_drafts hd
  refine ⟨p.state, ?_⟩
  rw [Device.state?, hp]
  rfl

theorem exists_single {d : Property.Draft} (hd : d ∈ drafts) {e : Element} (he : d.elements = [e]) :
    ∃ p f, c.device.property? d.name = some p ∧ Property.Fits d p ∧ p.elements = [f] ∧
      f.outline = e.outline ∧ f.value.range? = e.value.range? := by
  obtain ⟨p, hp, hfits⟩ := h.isMadeOf.exists_property nodup_drafts hd
  have helements := hfits.forall₂_elements (isSound_drafts d hd)
  rw [he, List.forall₂_cons_left_iff] at helements
  obtain ⟨f, _, hf, hnil, helements⟩ := helements
  cases List.forall₂_nil_left_iff.1 hnil
  exact ⟨p, f, hp, hfits, helements, hf⟩

theorem exists_number {d : Property.Draft} (hd : d ∈ drafts) {element label : String} {x : Float}
    {range : NumberRange} (he : d.elements = [⟨element, label, .number ⟨x, range⟩⟩]) :
    ∃ p y, c.device.property? d.name = some p ∧ Property.Fits d p ∧
      p.elements = [⟨element, label, .number ⟨y, range⟩⟩] := by
  obtain ⟨p, ⟨name, label', value⟩, hp, hfits, helements, houtline, hrange⟩ :=
    h.exists_single hd he
  cases value with
  | number q =>
    obtain ⟨y, _⟩ := q
    cases houtline
    cases hrange
    exact ⟨p, y, hp, hfits, helements⟩
  | _ => cases hrange

theorem exists_exposure :
    ∃ p x, c.device.property? exposureName = some p ∧ Property.Fits exposureDraft p ∧
      p.elements = [⟨exposureElement, "Duration (s)", .number ⟨x, exposureRange⟩⟩] :=
  h.exists_number (by simp [drafts]) elements_exposureDraft

theorem exists_temperature :
    ∃ p x, c.device.property? temperatureName = some p ∧ Property.Fits temperatureDraft p ∧
      p.elements = [⟨temperatureElement, "Temperature (C)", .number ⟨x, temperatureRange⟩⟩] :=
  h.exists_number (by simp [drafts]) elements_temperatureDraft

theorem exists_frame :
    ∃ p b, c.device.property? frameName = some p ∧ Property.Fits frameDraft p ∧
      p.elements = [⟨frameName, "Image", .blob b⟩] := by
  obtain ⟨p, ⟨name, label, value⟩, hp, hfits, helements, houtline, -⟩ :=
    h.exists_single (d := frameDraft) (e := ⟨frameName, "Image", .blob .empty⟩)
      (by simp [drafts]) (by decide +kernel)
  cases value with
  | blob b =>
    cases houtline
    exact ⟨p, b, hp, hfits, helements⟩
  | _ => cases houtline

omit h in
theorem quantity?_of_elements {name element label : String} {p : Property} {x : Float}
    {range : NumberRange} (hp : c.device.property? name = some p)
    (helements : p.elements = [⟨element, label, .number ⟨x, range⟩⟩]) :
    c.quantity? name element = some ⟨x, range⟩ :=
  quantity?_eq_some_iff.2 ⟨p, ⟨element, label, .number ⟨x, range⟩⟩, hp,
    by simp [Property.element?, helements], rfl⟩

theorem number_of_granted {draft : Property.Draft} (hdraft : draft ∈ drafts) {element label : String}
    {x : Float} {range : NumberRange} (he : draft.elements = [⟨element, label, .number ⟨x, range⟩⟩])
    (hbounded : range.min.isFinite = true ∧ range.max.isFinite = true) {now : Time.Millis}
    {r : ChangeRequest} (hgranted : c.granted? (.message now (.change r)) = some draft.name) :
    ∃ d changed y z, c.device.applyChange now r = .ok (d, changed) ∧
      c.step (.message now (.change r)) = { c with device := d }.follow now draft.name changed ∧
      c.quantity? draft.name element = some ⟨y, range⟩ ∧
      { c with device := d }.quantity? draft.name element = some ⟨z, range⟩ ∧
      (r.elements = [] ∧ z = y ∨
        ∃ asked, r.number? element = some asked ∧ asked.isFinite = true ∧
          (range.min < range.max → range.min ≤ asked ∧ asked ≤ range.max) ∧ (z == asked) = true) := by
  obtain ⟨hr, hname, d, changed, hd, hchange⟩ := exists_of_granted hgranted
  obtain ⟨p, q, hp, hq, hproperty⟩ := Device.property?_of_applyChange hd
  obtain ⟨p', y, hp', hfits, hone⟩ := h.exists_number hdraft he
  rw [hname] at hp
  cases hp'.symm.trans hp
  have hfound : d.property? draft.name = some q :=
    (hproperty draft.name).trans (if_pos hname.symm)
  have hstep := (c.step_change now hr).trans hchange
  have hshown := quantity?_of_elements hp' hone
  obtain ⟨hnil, hsame⟩ | ⟨asked, z, hasked, hfinite, hrange, hz, helements⟩ :=
    hfits.isWellFormed.number_of_applyChange hone hbounded hq
  · exact ⟨d, changed, y, y, hd, hstep, hshown,
      quantity?_of_elements (c := { c with device := d }) hfound (hsame.trans hone), .inl ⟨hnil, rfl⟩⟩
  · exact ⟨d, changed, y, z, hd, hstep, hshown,
      quantity?_of_elements (c := { c with device := d }) hfound helements,
      .inr ⟨asked, hasked, hfinite, hrange, hz⟩⟩

theorem exists_quantity_temperature :
    ∃ x, c.quantity? temperatureName temperatureElement = some ⟨x, temperatureRange⟩ := by
  obtain ⟨p, x, hp, -, helements⟩ := h.exists_temperature
  exact ⟨x, quantity?_of_elements hp helements⟩

theorem not_isOverdue_temperature {p : Property} (hp : c.device.property? temperatureName = some p)
    (now : Time.Millis) : p.isOverdue now = false := by
  obtain ⟨p', -, hp', hfits, -⟩ := h.exists_temperature
  cases hp'.symm.trans hp
  have htimeout : p.timeout = 0 := hfits.timeout
  simp [Property.isOverdue, htimeout]

end IsFurnished

end Camera

end InstrumentBus
