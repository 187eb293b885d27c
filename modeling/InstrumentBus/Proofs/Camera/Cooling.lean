import InstrumentBus.Proofs.Camera.Run
import InstrumentBus.Proofs.Decimal.Arithmetic

/-!
How the cooler works. Each tick takes the temperature a step nearer to the set point, and not past
it. A request sets another set point, unless the temperature asked for is there already.
-/

namespace InstrumentBus.Camera

open Decimal (value IsValue le_iff_value lt_iff_value)

def IsTemperature (x : Float) : Prop := -50 ≤ x ∧ x ≤ 50

/-- A temperature that is `y` after it was `x`, with the cooler at work towards `target`. -/
structure Nears (x target y : Float) : Prop where
  rises : x < target → x < y ∧ y ≤ target
  falls : target < x → target ≤ y ∧ y < x
  rests : ¬x < target → ¬target < x → y = target

theorem IsTemperature.isFinite {x : Float} (h : IsTemperature x) : x.isFinite = true :=
  Decimal.isFinite_of_le_of_le (x := -50) (z := 50) (by decide +kernel) (by decide +kernel) h.1 h.2

theorem isTemperature_iff {x : Float} (h : x.isFinite = true) :
    IsTemperature x ↔ -50 ≤ value x ∧ value x ≤ 50 := by
  have hlow : value (-50) = -50 := by decide +kernel
  have hhigh : value 50 = 50 := by decide +kernel
  rw [IsTemperature, le_iff_value (by decide +kernel) h, hlow, le_iff_value h (by decide +kernel),
    hhigh]

theorem IsTemperature.bounds {x : Float} (h : IsTemperature x) : -50 ≤ value x ∧ value x ≤ 50 :=
  (isTemperature_iff h.isFinite).1 h

theorem IsTemperature.not_lt_self {x : Float} (h : IsTemperature x) : ¬x < x :=
  fun hlt => lt_irrefl _ ((lt_iff_value h.isFinite h.isFinite).1 hlt)

theorem value_coolingStep : value coolingStep = 1 / 2 := by decide +kernel

theorem isFinite_coolingStep : coolingStep.isFinite = true := by decide +kernel

theorem isValue_hundred : IsValue 100 := by
  have h := Decimal.isValue_half (k := 200) (by decide)
  norm_num at h
  exact h

theorem isValue_step : IsValue (1 / 2) := by
  have h := Decimal.isValue_half (k := 1) (by decide)
  norm_num at h
  exact h

theorem exists_half {v : ℚ} (hlow : -50 ≤ v) (hhigh : v ≤ 50) :
    ∃ w, IsValue w ∧ v < w ∧ w ≤ v + 1 / 2 := by
  have hfloor := Int.floor_le (2 * v)
  have hceil := Int.lt_floor_add_one (2 * v)
  have hmin : -100 ≤ ⌊2 * v⌋ := Int.le_floor.2 (by push_cast; linarith)
  have hmax : ⌊2 * v⌋ ≤ 100 := by
    have : (⌊2 * v⌋ : ℚ) ≤ 100 := by linarith
    exact_mod_cast this
  refine ⟨((⌊2 * v⌋ + 1 : Int) : ℚ) / 2, Decimal.isValue_half (by omega), ?_, ?_⟩
  · push_cast
    linarith
  · push_cast
    linarith

section

variable {x target : Float} (hx : IsTemperature x) (htarget : IsTemperature target)

include hx htarget

/-- What the cooler takes for the way to the set point: no float is between that and the exact way. -/
theorem delta_between {v w : ℚ} (hv : IsValue v) (hw : IsValue w) (hle : v ≤ value target - value x)
    (hge : value target - value x ≤ w) :
    (target - x).isFinite = true ∧ v ≤ value (target - x) ∧ value (target - x) ≤ w :=
  Decimal.sub_between htarget.isFinite hx.isFinite hv hw hle hge

theorem delta_bounds : -100 ≤ value target - value x ∧ value target - value x ≤ 100 := by
  have := hx.bounds
  have := htarget.bounds
  constructor <;> linarith

theorem approach_cases :
    approach x target = target ∨
    (value target < value x - 1 / 2 ∧ approach x target = x - coolingStep) ∨
      (value x + 1 / 2 < value target ∧ approach x target = x + coolingStep) := by
  obtain ⟨hlow, hhigh⟩ := delta_bounds hx htarget
  obtain ⟨hfinite, -⟩ := delta_between hx htarget isValue_hundred.neg isValue_hundred hlow hhigh
  obtain ⟨habs, hvalue⟩ := Decimal.value_abs hfinite
  have hzero : value 0 = 0 := by decide +kernel
  have hnegative : target - x < 0 ↔ value (target - x) < 0 :=
    hzero ▸ lt_iff_value hfinite (by decide +kernel)
  have hclose : (target - x).abs ≤ coolingStep ↔
      -(1 / 2) ≤ value (target - x) ∧ value (target - x) ≤ 1 / 2 := by
    rw [le_iff_value habs isFinite_coolingStep, hvalue, value_coolingStep, abs_le]
  unfold approach
  dsimp only
  split_ifs with hnear hbelow
  · exact .inl rfl
  · refine .inr (.inl ⟨?_, rfl⟩)
    by_contra hno
    have hfar := (delta_between hx htarget isValue_step.neg isValue_hundred (by linarith) hhigh).2
    rw [hnegative] at hbelow
    exact hnear (hclose.2 ⟨hfar.1, by linarith⟩)
  · refine .inr (.inr ⟨?_, rfl⟩)
    by_contra hno
    have hfar := (delta_between hx htarget isValue_hundred.neg isValue_step hlow (by linarith)).2
    rw [hnegative, not_lt] at hbelow
    exact hnear (hclose.2 ⟨by linarith, hfar.2⟩)

theorem falls_of_far (hfar : value target < value x - 1 / 2) :
    (x - coolingStep).isFinite = true ∧ value target ≤ value (x - coolingStep) ∧
      value (x - coolingStep) < value x := by
  obtain ⟨hlow, hhigh⟩ := hx.bounds
  obtain ⟨w, hw, hlt, hle⟩ := exists_half (v := -value x) (by linarith) (by linarith)
  have hstep := value_coolingStep
  obtain ⟨hfinite, hge, hle⟩ := Decimal.sub_between hx.isFinite isFinite_coolingStep
    (Decimal.isValue_value htarget.isFinite) hw.neg (by linarith) (by linarith)
  exact ⟨hfinite, hge, by linarith⟩

theorem rises_of_far (hfar : value x + 1 / 2 < value target) :
    (x + coolingStep).isFinite = true ∧ value x < value (x + coolingStep) ∧
      value (x + coolingStep) ≤ value target := by
  obtain ⟨hlow, hhigh⟩ := hx.bounds
  obtain ⟨w, hw, hlt, hle⟩ := exists_half hlow hhigh
  have hstep := value_coolingStep
  obtain ⟨hfinite, hge, hle⟩ := Decimal.add_between hx.isFinite isFinite_coolingStep hw
    (Decimal.isValue_value htarget.isFinite) (by linarith) (by linarith)
  exact ⟨hfinite, by linarith, hle⟩

theorem isTemperature_approach : IsTemperature (approach x target) := by
  have := hx.bounds
  have := htarget.bounds
  obtain hsame | ⟨hfar, hsame⟩ | ⟨hfar, hsame⟩ := approach_cases hx htarget
  · rw [hsame]
    exact htarget
  · obtain ⟨hfinite, hle, hlt⟩ := falls_of_far hx htarget hfar
    rw [hsame, isTemperature_iff hfinite]
    constructor <;> linarith
  · obtain ⟨hfinite, hlt, hle⟩ := rises_of_far hx htarget hfar
    rw [hsame, isTemperature_iff hfinite]
    constructor <;> linarith

theorem nears_approach : Nears x target (approach x target) := by
  have hfinite := (isTemperature_approach hx htarget).isFinite
  obtain hsame | ⟨hfar, hsame⟩ | ⟨hfar, hsame⟩ := approach_cases hx htarget
  · have hself := (le_iff_value htarget.isFinite htarget.isFinite).2 le_rfl
    rw [hsame]
    exact ⟨fun h => ⟨h, hself⟩, fun h => ⟨hself, h⟩, fun _ _ => rfl⟩
  · obtain ⟨-, hle, hlt⟩ := falls_of_far hx htarget hfar
    rw [← hsame] at hle hlt
    refine ⟨fun h => ?_, fun _ => ?_, fun _ h => ?_⟩
    · have := (lt_iff_value hx.isFinite htarget.isFinite).1 h
      linarith
    · exact ⟨(le_iff_value htarget.isFinite hfinite).2 hle, (lt_iff_value hfinite hx.isFinite).2 hlt⟩
    · exact absurd ((lt_iff_value htarget.isFinite hx.isFinite).2 (by linarith)) h
  · obtain ⟨-, hlt, hle⟩ := rises_of_far hx htarget hfar
    rw [← hsame] at hle hlt
    refine ⟨fun _ => ?_, fun h => ?_, fun h _ => ?_⟩
    · exact ⟨(lt_iff_value hx.isFinite hfinite).2 hlt, (le_iff_value hfinite htarget.isFinite).2 hle⟩
    · have := (lt_iff_value htarget.isFinite hx.isFinite).1 h
      linarith
    · exact absurd ((lt_iff_value hx.isFinite htarget.isFinite).2 (by linarith)) h

end

structure CooledAs (c d : Camera) : Prop where
  temperature : d.temperature = c.temperature
  setPoint : d.setPoint = c.setPoint
  shown : d.quantity? temperatureName temperatureElement =
    c.quantity? temperatureName temperatureElement

namespace CooledAs

section

variable {c d : Camera} (h : CooledAs c d) (now : Time.Millis)

include h

theorem trans {e : Camera} (h' : CooledAs d e) : CooledAs c e :=
  ⟨h'.temperature.trans h.temperature, h'.setPoint.trans h.setPoint, h'.shown.trans h.shown⟩

theorem setState (name : String) (state : State) : CooledAs c (d.setState now name state) :=
  h.trans ⟨rfl, rfl, quantity?_congr (element?_setState ..)⟩

theorem setValue {name : String} (hname : temperatureName ≠ name) (element : String) (value : Value) :
    CooledAs c (d.setValue now name element value) :=
  h.trans ⟨rfl, rfl, quantity?_congr (element?_setValue_of_ne d now hname ..)⟩

theorem setNumber {name : String} (hname : temperatureName ≠ name) (element : String) (x : Float) :
    CooledAs c (d.setNumber now name element x) :=
  h.trans ⟨temperature_setNumber .., setPoint_setNumber ..,
    quantity?_congr (element?_setNumber_of_ne d now hname ..)⟩

end

section

variable (c : Camera) (now : Time.Millis)

theorem exposure (e : Option Exposure) (frames : Nat) :
    CooledAs c { c with exposure := e, frames := frames } :=
  ⟨rfl, rfl, rfl⟩

theorem dropExposure : CooledAs c (c.dropExposure now).1 := by
  unfold Camera.dropExposure
  split
  · exact ⟨rfl, rfl, rfl⟩
  · exact (((exposure c none c.frames).setNumber now (by decide) ..).setState now ..).setState now ..

theorem finish : CooledAs c (c.finish now).1 :=
  (((exposure c none (c.frames + 1)).setValue now (by decide) ..).setState now ..).setState now ..

theorem progressExposure : CooledAs c (c.progressExposure now).1 := by
  have hself : CooledAs c c := ⟨rfl, rfl, rfl⟩
  obtain ⟨-, hsame⟩ | ⟨e, -, ⟨-, hsame⟩ | ⟨-, ⟨-, hsame⟩ | ⟨-, hsame⟩⟩⟩ :=
    c.progressExposure_cases now
  · rw [hsame]
    exact hself
  · rw [hsame]
    exact exposure c none c.frames
  · rw [hsame]
    exact hself.setNumber now (by decide) ..
  · rw [hsame]
    exact (hself.setNumber now (by decide) ..).trans (finish ..)

theorem progress :
    CooledAs c ({ c with device := (c.device.expire now).1 }.progressExposure now).1 := by
  have hexpire : CooledAs c { c with device := (c.device.expire now).1 } :=
    ⟨rfl, rfl, quantity?_congr (c.element?_expire now ..)⟩
  exact hexpire.trans (progressExposure _ now)

theorem follow {name : String} (hconnection : name ≠ connectionName)
    (htemperature : name ≠ temperatureName) (changed : List String) :
    CooledAs c (c.follow now name changed).1 := by
  unfold Camera.follow
  rw [if_neg hconnection]
  split_ifs
  · unfold expose
    split
    · exact ⟨rfl, rfl, rfl⟩
    · exact ((exposure c _ c.frames).setState now ..).setState now ..
  · exact ((dropExposure c now).setValue now (by decide) ..).setState now ..
  · exact ⟨rfl, rfl, rfl⟩

end

end CooledAs

/-- The panel shows the temperature. That and the set point can both be asked for. -/
structure IsTempered (c : Camera) : Prop where
  isFurnished : IsFurnished c.device
  shown : c.quantity? temperatureName temperatureElement = some ⟨c.temperature, temperatureRange⟩
  temperature : IsTemperature c.temperature
  setPoint : ∀ s ∈ c.setPoint, IsTemperature s

theorem isTempered_setNumber {c : Camera} (hc : IsFurnished c.device) (now : Time.Millis) {x : Float}
    (hx : c.quantity? temperatureName temperatureElement = some ⟨x, temperatureRange⟩)
    (htemperature : IsTemperature c.temperature) (hsetPoint : ∀ s ∈ c.setPoint, IsTemperature s) :
    (c.setNumber now temperatureName temperatureElement c.temperature).IsTempered where
  isFurnished := hc.setNumber now ..
  shown := by rw [quantity?_setNumber c now hx, temperature_setNumber]
  temperature := by rwa [temperature_setNumber]
  setPoint := by rwa [setPoint_setNumber]

namespace IsTempered

variable {c d : Camera} (h : c.IsTempered) (now : Time.Millis)

include h

theorem of_cooledAs (hd : IsFurnished d.device) (hsame : CooledAs c d) : d.IsTempered where
  isFurnished := hd
  shown := by rw [hsame.shown, h.shown, hsame.temperature]
  temperature := hsame.temperature ▸ h.temperature
  setPoint := hsame.setPoint ▸ h.setPoint

theorem setState (name : String) (state : State) : (c.setState now name state).IsTempered :=
  h.of_cooledAs (h.isFurnished.setState now ..) (.setState ⟨rfl, rfl, rfl⟩ now ..)

theorem withSetPoint {s : Option Float} (hs : ∀ t ∈ s, IsTemperature t) :
    { c with setPoint := s }.IsTempered :=
  ⟨h.isFurnished, h.shown, h.temperature, hs⟩

theorem progressCooler : (c.progressCooler now).1.IsTempered := by
  obtain ⟨-, hsame⟩ | ⟨target, htarget, hcases⟩ := c.progressCooler_cases now
  · rw [hsame]
    exact h
  · have hnext := isTempered_setNumber (c := { c with temperature := approach c.temperature target })
      h.isFurnished now h.shown (isTemperature_approach h.temperature (h.setPoint target htarget))
      h.setPoint
    obtain hsame | hsame := hcases
    · rw [hsame]
      exact (hnext.withSetPoint (s := none) fun _ hs => nomatch hs).setState now ..
    · rw [hsame]
      exact hnext

theorem tick : (c.tick now).1.IsTempered := by
  rw [tick_fst]
  refine progressCooler (h.of_cooledAs ?_ (.progress c now)) now
  exact IsFurnished.progressExposure (c := { c with device := _ }) (h.isFurnished.expire now) now

theorem connect (changed : List String) : (c.connect now changed).1.IsTempered := by
  unfold Camera.connect
  dsimp only
  split
  · exact h.setState now ..
  · exact setState (c := { c with exposure := none, setPoint := none })
      ⟨h.isFurnished, h.shown, h.temperature, fun _ hs => nomatch hs⟩ now ..

end IsTempered

theorem steer_fst {c : Camera} {q : Quantity} (now : Time.Millis)
    (hq : c.quantity? temperatureName temperatureElement = some q) :
    let c' := c.setNumber now temperatureName temperatureElement c.temperature
    (c.steer now).1 =
      if (q.value - c.temperature).abs < tolerance then c'.setState now temperatureName .ok
      else { c' with setPoint := some q.value }.setState now temperatureName .busy := by
  intro c'
  have htemperature : c'.temperature = c.temperature := temperature_setNumber ..
  simp only [steer, hq]
  split
  · rename_i hpresent
    rw [htemperature] at hpresent
    rw [if_pos hpresent]
  · rename_i hpresent
    rw [htemperature] at hpresent
    rw [if_neg hpresent]

/-- A request for a temperature sets it as the set point, unless it is there already. It takes the
number that was asked for, or else the temperature that the property shows. -/
theorem steers_of_granted {c : Camera} (h : c.IsTempered) {now : Time.Millis} {r : ChangeRequest}
    (hgranted : c.granted? (.message now (.change r)) = some temperatureName) :
    let begun := (c.step (.message now (.change r))).1
    ∃ target, (target == (r.number? temperatureElement).getD c.temperature) = true ∧
      IsTemperature target ∧ begun.IsTempered ∧ begun.temperature = c.temperature ∧
      begun.setPoint =
        if (target - c.temperature).abs < tolerance then c.setPoint else some target := by
  intro begun
  obtain ⟨d, changed, x, target, hd, hfollow, hx, hquantity, hcases⟩ :=
    h.isFurnished.number_of_granted (by simp [drafts]) elements_temperatureDraft
      (by decide +kernel) hgranted
  have hbegun : begun = ({ c with device := d }.steer now).1 := congrArg Prod.fst hfollow
  have hx : x = c.temperature := by
    cases hx.symm.trans h.shown
    rfl
  obtain ⟨hasked, htarget⟩ : (target == (r.number? temperatureElement).getD c.temperature) = true ∧
      IsTemperature target := by
    obtain ⟨hnil, rfl⟩ | ⟨asked, hasked, hfinite, hrange, hsame⟩ := hcases
    · rw [ChangeRequest.number?_of_nil hnil, hx]
      exact ⟨Decimal.beq_self_of_isFinite h.temperature.isFinite, h.temperature⟩
    · have hrange : IsTemperature asked := hrange (by decide +kernel)
      rw [hasked]
      refine ⟨hsame, ?_⟩
      obtain rfl | ⟨hzero, -⟩ := Decimal.eq_or_zero_of_beq hfinite hsame
      · exact hrange
      · obtain rfl | rfl := Decimal.eq_zero_of_beq hzero
        · exact ⟨by decide +kernel, by decide +kernel⟩
        · exact ⟨by decide +kernel, by decide +kernel⟩
  have hshows := isTempered_setNumber (c := { c with device := d }) (h.isFurnished.applyChange now hd)
    now hquantity h.temperature h.setPoint
  refine ⟨target, hasked, htarget, ?_⟩
  rw [hbegun, steer_fst now hquantity]
  dsimp only
  split_ifs with hpresent
  · exact ⟨hshows.setState now .., by simp, by simp⟩
  · have hsteers : ∀ s ∈ some target, IsTemperature s := by simpa using htarget
    exact ⟨(hshows.withSetPoint hsteers).setState now .., by simp, rfl⟩

theorem IsTempered.change {c : Camera} (h : c.IsTempered) (now : Time.Millis) {r : ChangeRequest}
    (hr : r.device = deviceName) : (c.change now r).1.IsTempered := by
  obtain ⟨-, reason, hchange⟩ | ⟨hgranted, -, d, changed, hd, hchange⟩ := c.change_cases now hr
  · rw [hchange]
    exact h.setState now ..
  · by_cases htemperature : r.name = temperatureName
    · obtain ⟨-, -, -, hbegun, -⟩ := steers_of_granted h (htemperature ▸ hgranted)
      rw [← c.step_change now hr]
      exact hbegun
    · have hfurnished := h.isFurnished.applyChange now hd
      have hsame : CooledAs c { c with device := d } := by
        obtain ⟨p, q, -, -, hproperty⟩ := Device.property?_of_applyChange hd
        refine ⟨rfl, rfl, quantity?_congr ?_⟩
        simp only [Camera.element?, hproperty, if_neg (Ne.symm htemperature)]
      have hnext := h.of_cooledAs hfurnished hsame
      rw [hchange]
      by_cases hconnection : r.name = connectionName
      · rw [follow, if_pos hconnection]
        exact hnext.connect now changed
      · exact hnext.of_cooledAs (hnext.isFurnished.follow now ..)
          (.follow _ now hconnection htemperature changed)

theorem IsTempered.step {c : Camera} (h : c.IsTempered) (e : Event) : (c.step e).1.IsTempered := by
  cases e with
  | tick now => exact h.tick now
  | message now m =>
    cases m with
    | change r =>
      by_cases hr : r.device = deviceName
      · rw [c.step_change now hr]
        exact h.change now hr
      · rw [c.step_change_of_ne now hr]
        exact h
    | _ => exact h

theorem isTemperature_ambient : IsTemperature ambient := ⟨by decide +kernel, by decide +kernel⟩

theorem isTempered_start (now : Time.Millis) : (start now).IsTempered where
  isFurnished := isFurnished_start now
  shown := by
    have hmem : temperatureDraft.property now ∈ (start now).device.properties := by
      rw [device_start]
      exact List.mem_map_of_mem (by simp [drafts])
    have hproperty := (isFurnished_start now).isMadeOf.property?_of_mem nodup_drafts hmem
    exact IsFurnished.quantity?_of_elements hproperty rfl
  temperature := isTemperature_ambient
  setPoint := fun _ hs => nomatch hs

theorem IsReached.isTempered {c : Camera} (h : c.IsReached) : c.IsTempered := by
  obtain ⟨now, events, rfl⟩ := h
  exact after_induction (isTempered_start now) (fun _ e h => h.step e) events

theorem exists_cooledAs (c : Camera) (u : Time.Millis) :
    ∃ d, CooledAs c d ∧ (c.tick u).1 = (d.progressCooler u).1 :=
  ⟨_, .progress c u, tick_fst c u⟩

/-- The camera steers to the set point or is there, with nothing left to steer to. -/
def HeadsFor (c : Camera) (target : Float) : Prop :=
  c.setPoint = some target ∨ c.setPoint = none ∧ c.temperature = target

structure Rests (c : Camera) (x : Float) : Prop where
  temperature : c.temperature = x
  setPoint : ∀ s ∈ c.setPoint, s = x

section

variable {c : Camera} (u : Time.Millis)

theorem tick_of_no_setPoint (h : c.setPoint = none) :
    (c.tick u).1.temperature = c.temperature ∧ (c.tick u).1.setPoint = none := by
  obtain ⟨d, hsame, htick⟩ := exists_cooledAs c u
  have hnone := hsame.setPoint.trans h
  simp only [htick, progressCooler, hnone]
  exact ⟨hsame.temperature, trivial⟩

theorem tick_of_setPoint {target : Float} (h : c.setPoint = some target) :
    (c.tick u).1.temperature = approach c.temperature target ∧ (c.tick u).1.HeadsFor target := by
  obtain ⟨d, hsame, htick⟩ := exists_cooledAs c u
  have hsome := hsame.setPoint.trans h
  simp only [htick, progressCooler, hsome, ← hsame.temperature]
  split_ifs with hreached
  · exact ⟨by simp, .inr ⟨by simp, by simp [approach, hreached]⟩⟩
  · exact ⟨by simp, .inl (by simp)⟩

variable (hc : c.IsTempered)

include hc

theorem HeadsFor.tick {target : Float} (htarget : IsTemperature target) (h : c.HeadsFor target) :
    (c.tick u).1.HeadsFor target ∧ Nears c.temperature target (c.tick u).1.temperature := by
  obtain h | ⟨hnone, rfl⟩ := h
  · obtain ⟨htemperature, hheads⟩ := tick_of_setPoint u h
    rw [htemperature]
    exact ⟨hheads, nears_approach hc.temperature htarget⟩
  · obtain ⟨htemperature, hstill⟩ := tick_of_no_setPoint u hnone
    refine ⟨.inr ⟨hstill, htemperature⟩, ?_⟩
    rw [htemperature]
    exact ⟨(absurd · htarget.not_lt_self), (absurd · htarget.not_lt_self), fun _ _ => rfl⟩

theorem Rests.tick {x : Float} (h : c.Rests x) : (c.tick u).1.Rests x := by
  obtain ⟨rfl, hsetPoint⟩ := h
  cases hs : c.setPoint with
  | none =>
    obtain ⟨htemperature, hstill⟩ := tick_of_no_setPoint u hs
    exact ⟨htemperature, fun s hs => by simp [hstill] at hs⟩
  | some s =>
    obtain rfl := hsetPoint s hs
    obtain ⟨hheads, hnears⟩ := HeadsFor.tick u hc hc.temperature (.inl hs)
    have hself := hc.temperature.not_lt_self
    refine ⟨hnears.rests hself hself, fun s hs => ?_⟩
    obtain hstill | ⟨hnone, -⟩ := hheads
    · cases hstill.symm.trans hs
      rfl
    · cases hnone.symm.trans hs

theorem temperature_tick_ne {s : Float} (hs : c.setPoint = some s) (hne : s ≠ c.temperature) :
    (c.tick u).1.temperature ≠ c.temperature := by
  have hself := hc.temperature.not_lt_self
  obtain ⟨-, hnears⟩ := HeadsFor.tick u hc (hc.setPoint s hs) (.inl hs)
  intro hsame
  rw [hsame] at hnears
  have hno : ¬c.temperature < s := fun h => hself (hnears.rises h).1
  have hno' : ¬s < c.temperature := fun h => hself (hnears.falls h).2
  exact hne (hnears.rests hno hno').symm

end

/-- What is asked of a camera with a request for `target`. If it was there already the temperature
stays through all ticks to come. Otherwise it comes nearer with each, as the camera steers to
nothing else, and stays at `target` once it is there. -/
structure Obeys (c : Camera) (target : Float) : Prop where
  stays : (target - c.temperature).abs < tolerance → ∀ times : List Time.Millis,
    (c.after (times.map .tick)).temperature = c.temperature
  nears : ¬(target - c.temperature).abs < tolerance → ∀ times : List Time.Millis,
    let c' := c.after (times.map .tick)
    c'.HeadsFor target ∧ ∀ u, Nears c'.temperature target (c'.tick u).1.temperature

section

variable {c : Camera} (hc : c.IsTempered)

include hc

theorem IsTempered.ticks (times : List Time.Millis) : (c.after (times.map .tick)).IsTempered :=
  after_induction hc (fun _ e h => h.step e) _

theorem HeadsFor.ticks {target : Float} (htarget : IsTemperature target) (h : c.HeadsFor target)
    (times : List Time.Millis) : (c.after (times.map .tick)).HeadsFor target := by
  induction times generalizing c with
  | nil => exact h
  | cons u times ih => exact ih (hc.tick u) (h.tick u hc htarget).1

theorem Rests.ticks {x : Float} (h : c.Rests x) (times : List Time.Millis) :
    (c.after (times.map .tick)).temperature = x := by
  induction times generalizing c with
  | nil => exact h.temperature
  | cons u times ih => exact ih (hc.tick u) (h.tick u hc)

end

/-- A camera follows the last request for a temperature, unless that was there already and the camera
was on its way to another set point, which it then goes on to. -/
theorem temperature_follows_request_iff {c : Camera} (hc : c.IsReached) {now : Time.Millis}
    {r : ChangeRequest} (hgranted : c.granted? (.message now (.change r)) = some temperatureName) :
    let begun := (c.step (.message now (.change r))).1
    (∀ times : List Time.Millis, let c' := begun.after (times.map .tick)
      c'.quantity? temperatureName temperatureElement = some ⟨c'.temperature, temperatureRange⟩) ∧
    ∃ target, (target == (r.number? temperatureElement).getD c.temperature) = true ∧
      (-50 ≤ target ∧ target ≤ 50) ∧ begun.temperature = c.temperature ∧
      (begun.Obeys target ↔
        ¬((target - c.temperature).abs < tolerance ∧ ∃ s ∈ c.setPoint, s ≠ c.temperature)) := by
  intro begun
  obtain ⟨target, hasked, htarget, htempered, htemperature, hsetPoint⟩ :=
    steers_of_granted hc.isTempered hgranted
  refine ⟨fun times => (htempered.ticks times).shown, target, hasked, htarget, htemperature, ?_⟩
  rw [← htemperature] at hsetPoint ⊢
  by_cases hpresent : (target - begun.temperature).abs < tolerance
  · have hsetPoint : begun.setPoint = c.setPoint := hsetPoint.trans (if_pos hpresent)
    rw [← hsetPoint]
    constructor
    · rintro hobeys ⟨-, s, hs, hne⟩
      exact temperature_tick_ne 0 htempered hs hne (hobeys.stays hpresent [0])
    · intro hno
      have hrests : begun.Rests begun.temperature :=
        ⟨rfl, fun s hs => by_contra fun hne => hno ⟨hpresent, s, hs, hne⟩⟩
      exact ⟨fun _ => hrests.ticks htempered, fun hfar => absurd hpresent hfar⟩
  · have hheads : begun.HeadsFor target := .inl (hsetPoint.trans (if_neg hpresent))
    refine iff_of_true ⟨fun hpresent' => absurd hpresent' hpresent, fun _ times => ?_⟩
      fun h => hpresent h.1
    have hlater := hheads.ticks htempered htarget times
    exact ⟨hlater, fun u => (hlater.tick u (htempered.ticks times) htarget).2⟩

theorem last_request_is_followed :
    let c := connected.after
      [.message 0 (.change (asking temperatureName temperatureElement "10")), .tick 100]
    let r := asking temperatureName temperatureElement "30"
    let begun := (c.step (.message 150 (.change r))).1
    c.IsReached ∧ c.granted? (.message 150 (.change r)) = some temperatureName ∧
      c.temperature = 19.5 ∧ c.setPoint = some 10 ∧ begun.Obeys 30 ∧
      (begun.after ([200, 300].map .tick)).temperature = 20.5 := by
  intro c r begun
  have hc : c.IsReached := isReached_connected.after _
  have hgranted : c.granted? (.message 150 (.change r)) = some temperatureName := by decide +kernel
  have hasked : (r.number? temperatureElement).getD c.temperature = 30 := by decide +kernel
  obtain ⟨-, target, htarget, -, -, hiff⟩ := temperature_follows_request_iff hc hgranted
  rw [hasked] at htarget
  obtain rfl | ⟨-, hzero⟩ := Decimal.eq_or_zero_of_beq (by decide +kernel) htarget
  · have hfar : ¬(30 - c.temperature).abs < tolerance := by decide +kernel
    exact ⟨hc, hgranted, by decide +kernel, by decide +kernel, hiff.2 fun h => hfar h.1,
      by decide +kernel⟩
  · exact absurd hzero (by decide +kernel)

/-- On its way to ten degrees the camera is asked for the twenty that are there still. It goes on. -/
theorem present_temperature_is_left :
    let c := connected.after [.message 0 (.change (asking temperatureName temperatureElement "10"))]
    let r := asking temperatureName temperatureElement "20"
    let begun := (c.step (.message 0 (.change r))).1
    c.IsReached ∧ c.isConnected = true ∧
      c.granted? (.message 0 (.change r)) = some temperatureName ∧
      r.number? temperatureElement = some 20 ∧ c.temperature = 20 ∧
      (begun.tick 100).1.temperature = 19.5 ∧ ¬begun.Obeys 20 := by
  intro c r begun
  refine ⟨isReached_connected.after _, by decide +kernel, by decide +kernel, by decide +kernel,
    by decide +kernel, by decide +kernel, fun hobeys => ?_⟩
  have hstays := hobeys.stays (by decide +kernel) [100]
  exact absurd hstays (by decide +kernel)

end InstrumentBus.Camera
