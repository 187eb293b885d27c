import InstrumentBus.Proofs.Camera.Frames

/-!
How an exposure ends. It does so with a picture, at the first tick at which its time is over, but it
is given up before that if its property has been busy for a minute.
-/

namespace InstrumentBus.Camera

def elapsed (started now : Time.Millis) : Float := Float.ofInt (now - started) / 1000

theorem isNaN_elapsed (started now : Time.Millis) : (elapsed started now).isNaN = false :=
  Decimal.isNaN_div (Decimal.isNaN_ofInt _) (by decide +kernel) (by decide +kernel)

theorem remaining_pos_iff {e : Exposure} {now : Time.Millis} :
    remaining e now > 0 ↔ elapsed e.started now < e.seconds := by
  have hleft : (if e.seconds - elapsed e.started now > 0 then e.seconds - elapsed e.started now
      else 0) > 0 ↔ e.seconds - elapsed e.started now > 0 := by
    split
    · rfl
    · rename_i hover
      exact iff_of_false (by decide +kernel) hover
  exact hleft.trans Decimal.sub_pos_iff

theorem not_elapsed_lt {started now : Time.Millis} {seconds : Float}
    (h : seconds ≤ elapsed started now) : ¬elapsed started now < seconds :=
  (Decimal.not_lt_iff (isNaN_elapsed started now) (Decimal.isNaN_of_le h)).2 h

structure Exposes (c : Camera) (e : Exposure) (since : Time.Millis) : Prop where
  isFurnished : IsFurnished c.device
  exposure : c.exposure = some e
  clock : c.device.clock? exposureName = some (.busy, 60, some since)

structure HasGivenUp (c : Camera) : Prop where
  exposure : c.exposure = none
  state : c.device.state? exposureName = some .alert

structure Completes (c : Camera) (now : Time.Millis) : Prop where
  exposure : (c.tick now).1.exposure = none
  pictures : (framesOf (c.tick now).2).map (·.state) = [some .ok]
  state : (c.tick now).1.device.state? exposureName = some .ok
  frameState : (c.tick now).1.device.state? frameName = some .ok

section

variable {c : Camera} (now : Time.Millis)

theorem givesUp_of_alert (halert : (c.device.expire now).1.state? exposureName = some .alert) :
    (c.tick now).1.HasGivenUp ∧ framesOf (c.tick now).2 = [] := by
  have hdropped : { c with device := (c.device.expire now).1 }.progressExposure now =
      ({ c with device := (c.device.expire now).1, exposure := none }, []) := by
    have hidle : (c.device.expire now).1.state? exposureName ≠ some .busy := by simp [halert]
    cases hexposure : c.exposure with
    | none => rfl
    | some e =>
      simp only [progressExposure]
      exact if_pos hidle
  rw [framesOf_tick, hdropped]
  refine ⟨⟨?_, ?_⟩, rfl⟩
  · rw [exposure_tick, hdropped]
  · rw [state?_tick _ _ (by decide), hdropped]
    exact halert

theorem HasGivenUp.tick (h : c.HasGivenUp) :
    (c.tick now).1.HasGivenUp ∧ framesOf (c.tick now).2 = [] :=
  givesUp_of_alert now (Device.alert_expire h.state)

variable {e : Exposure} {since : Time.Millis} (h : c.Exposes e since)

include h

theorem Exposes.tick_of_overdue (hlate : 60000 ≤ now - since) :
    (c.tick now).1.HasGivenUp ∧ framesOf (c.tick now).2 = [] :=
  givesUp_of_alert now (Device.state?_expire_of_overdue h.clock (by decide) hlate)

variable (hin : now - since < 60000)

include hin

theorem Exposes.progress :
    ∃ c' : Camera, c'.Exposes e since ∧
      { c with device := (c.device.expire now).1 }.progressExposure now =
        if elapsed e.started now < e.seconds then (c', c'.report exposureName [exposureElement])
        else c'.finish now := by
  have hclock := Device.clock?_expire h.clock hin
  have hbusy : (c.device.expire now).1.state? exposureName = some .busy := by
    rw [Device.state?_eq_clock?, hclock]
    rfl
  refine ⟨{ c with device := (c.device.expire now).1 }.setNumber now exposureName exposureElement
    (remaining e now), ⟨?_, ?_, ?_⟩, ?_⟩
  · exact IsFurnished.setNumber (c := { c with device := _ }) (h.isFurnished.expire now) now ..
  · rw [exposure_setNumber]
    exact h.exposure
  · rw [clock?_setNumber]
    exact hclock
  · simp only [← remaining_pos_iff, progressExposure, h.exposure]
    exact if_neg (not_not.2 hbusy)

theorem Exposes.tick_of_lt (hbelow : elapsed e.started now < e.seconds) :
    (c.tick now).1.Exposes e since ∧ framesOf (c.tick now).2 = [] := by
  obtain ⟨c', h', hprogress⟩ := h.progress now hin
  rw [if_pos hbelow] at hprogress
  rw [framesOf_tick, hprogress]
  refine ⟨⟨h.isFurnished.tick now, ?_, ?_⟩, framesOf_report _ (by decide) _⟩
  · rw [exposure_tick, hprogress]
    exact h'.exposure
  · rw [clock?_tick _ _ (by decide), hprogress]
    exact h'.clock

theorem Exposes.completes (hover : e.seconds ≤ elapsed e.started now) : c.Completes now := by
  obtain ⟨c', h', hprogress⟩ := h.progress now hin
  rw [if_neg (not_elapsed_lt hover)] at hprogress
  obtain ⟨hexposure, hframe⟩ := state?_finish h'.isFurnished now
  constructor
  case exposure =>
    rw [exposure_tick, hprogress]
    rfl
  case pictures =>
    rw [framesOf_tick, hprogress, framesOf_finish h'.isFurnished]
    rfl
  case state =>
    rw [state?_tick _ _ (by decide), hprogress, hexposure]
  case frameState =>
    rw [state?_tick _ _ (by decide), hprogress, hframe]

end

section

variable {c : Camera} {times : List Time.Millis}

theorem framesOf_sent_tick {u : Time.Millis} (hframes : framesOf (c.tick u).2 = [])
    (hsent : framesOf ((c.tick u).1.sent (times.map .tick)) = []) :
    framesOf (c.sent ((u :: times).map .tick)) = [] := by
  change framesOf ((c.tick u).2 ++ (c.tick u).1.sent (times.map .tick)) = []
  rw [framesOf_append, hframes, hsent]
  rfl

theorem HasGivenUp.ticks (h : c.HasGivenUp) (times : List Time.Millis) :
    (c.after (times.map .tick)).HasGivenUp ∧ framesOf (c.sent (times.map .tick)) = [] := by
  induction times generalizing c with
  | nil => exact ⟨h, rfl⟩
  | cons u times ih =>
    obtain ⟨htick, hframes⟩ := h.tick u
    obtain ⟨hafter, hsent⟩ := ih htick
    exact ⟨hafter, framesOf_sent_tick hframes hsent⟩

section

variable {e : Exposure} {since : Time.Millis} (h : c.Exposes e since)
  (hbelow : ∀ u ∈ times, elapsed e.started u < e.seconds)

include h hbelow

theorem Exposes.ticks (hin : ∀ u ∈ times, u - since < 60000) :
    (c.after (times.map .tick)).Exposes e since ∧ framesOf (c.sent (times.map .tick)) = [] := by
  induction times generalizing c with
  | nil => exact ⟨h, rfl⟩
  | cons u times ih =>
    rw [List.forall_mem_cons] at hbelow hin
    obtain ⟨htick, hframes⟩ := h.tick_of_lt u hin.1 hbelow.1
    obtain ⟨hafter, hsent⟩ := ih htick hbelow.2 hin.2
    exact ⟨hafter, framesOf_sent_tick hframes hsent⟩

theorem Exposes.ticks_of_overdue (hlate : ∃ u ∈ times, 60000 ≤ u - since) :
    (c.after (times.map .tick)).HasGivenUp ∧ framesOf (c.sent (times.map .tick)) = [] := by
  induction times generalizing c with
  | nil => simp at hlate
  | cons u times ih =>
    rw [List.forall_mem_cons] at hbelow
    by_cases hin : u - since < 60000
    · have hlate : ∃ u ∈ times, 60000 ≤ u - since := by
        obtain ⟨v, hv, hlate⟩ := hlate
        obtain rfl | hv := List.mem_cons.1 hv
        · exact absurd hin (Int.not_lt.2 hlate)
        · exact ⟨v, hv, hlate⟩
      obtain ⟨htick, hframes⟩ := h.tick_of_lt u hin hbelow.1
      obtain ⟨hafter, hsent⟩ := ih htick hbelow.2 hlate
      exact ⟨hafter, framesOf_sent_tick hframes hsent⟩
    · obtain ⟨htick, hframes⟩ := h.tick_of_overdue u (Int.not_lt.1 hin)
      obtain ⟨hafter, hsent⟩ := htick.ticks times
      exact ⟨hafter, framesOf_sent_tick hframes hsent⟩

end

end

/-- A request for an exposure begins it at once; if the property was busy before, it stays so since
then. The exposure takes the time that was asked for, or else the time that the property shows. -/
theorem begins_of_granted {c : Camera} (h : IsFurnished c.device) {start : Time.Millis}
    {r : ChangeRequest}
    (hgranted : c.granted? (.message start (.change r)) = some exposureName) :
    ∃ seconds, (c.step (.message start (.change r))).1.Exposes ⟨start, seconds⟩
        ((c.device.busySince? exposureName).getD start) ∧
      (r.number? exposureElement = some seconds ∧ 0.001 ≤ seconds ∧ seconds ≤ 3600 ∨
        r.elements = [] ∧
          c.quantity? exposureName exposureElement = some ⟨seconds, exposureRange⟩) := by
  obtain ⟨d, changed, x, seconds, hd, hfollow, hshown, hquantity, hcases⟩ :=
    h.number_of_granted (by simp [drafts]) elements_exposureDraft (by decide +kernel)
      hgranted
  have hstep : (c.step (.message start (.change r))).1 =
      ({ c with device := d, exposure := some ⟨start, seconds⟩ }.setState start frameName
        .busy).setState start exposureName .busy := by
    have hquantity : { c with device := d }.quantity? exposureName exposureElement =
        some ⟨seconds, exposureRange⟩ := hquantity
    rw [hfollow]
    change (expose _ start changed).1 = _
    simp only [expose, hquantity]
  refine ⟨seconds, ⟨h.step _, ?_, ?_⟩, ?_⟩
  · rw [hstep]
    rfl
  · obtain ⟨q, -, hfound, hfits, -⟩ :=
      IsFurnished.exists_exposure (c := { c with device := d }) (h.applyChange start hd)
    have htimeout : q.timeout = 60 := hfits.timeout
    have hbusy : d.busySince? exposureName = c.device.busySince? exposureName := by
      rw [Device.busySince?_eq_clock?, Device.clock?_of_applyChange hd, Device.busySince?_eq_clock?]
    have hfound' : ({ c with device := d, exposure := some ⟨start, seconds⟩ }.setState start frameName
        .busy).device.property? exposureName = some q := by
      rw [property?_setState]
      change (d.property? exposureName).map _ = _
      rw [hfound]
      rfl
    rw [hstep, clock?_setState_busy _ _ _ hfound' hfits.isWellFormed, htimeout,
      Device.busySince?_eq_clock?, clock?_setState_of_ne _ _ (by decide),
      ← Device.busySince?_eq_clock?, hbusy]
  · obtain ⟨hnil, rfl⟩ | ⟨asked, hasked, hfinite, hrange, hsame⟩ := hcases
    · exact .inr ⟨hnil, hshown⟩
    · have hrange : 0.001 ≤ asked ∧ asked ≤ 3600 := hrange (by decide +kernel)
      left
      obtain rfl | ⟨-, hzero⟩ := Decimal.eq_or_zero_of_beq hfinite hsame
      · exact ⟨hasked, hrange⟩
      · obtain rfl | rfl := Decimal.eq_zero_of_beq hzero
        · exact absurd hrange.1 (by decide +kernel)
        · exact absurd hrange.1 (by decide +kernel)

theorem exposes_of_granted {c : Camera} (h : IsFurnished c.device) {start : Time.Millis}
    {r : ChangeRequest} {seconds : Float}
    (hgranted : c.granted? (.message start (.change r)) = some exposureName)
    (hseconds : r.number? exposureElement = some seconds) :
    (0.001 ≤ seconds ∧ seconds ≤ 3600) ∧
      (c.step (.message start (.change r))).1.Exposes ⟨start, seconds⟩
        ((c.device.busySince? exposureName).getD start) := by
  obtain ⟨seconds', hexposes, ⟨hasked, hrange⟩ | ⟨hnil, -⟩⟩ := begins_of_granted h hgranted
  · cases hasked.symm.trans hseconds
    exact ⟨hrange, hexposes⟩
  · cases (ChangeRequest.number?_of_nil hnil _).symm.trans hseconds

/-- An exposure that was asked for goes on through all ticks before its time is over, and the first
one after that ends it with one picture, as long as its property has been busy for less than a minute.
With the first tick after a minute it is given up, and no picture comes any more. The minute counts from
the request on, or from the time since which the property was busy already. -/
theorem exposure_ends {c : Camera} (hc : c.IsReached) {start : Time.Millis} {r : ChangeRequest}
    {seconds : Float} (hgranted : c.granted? (.message start (.change r)) = some exposureName)
    (hseconds : r.number? exposureElement = some seconds) {times : List Time.Millis}
    (hbelow : ∀ u ∈ times, elapsed start u < seconds) :
    let since := (c.device.busySince? exposureName).getD start
    let begun := (c.step (.message start (.change r))).1
    let c' := begun.after (times.map .tick)
    (0.001 ≤ seconds ∧ seconds ≤ 3600) ∧
    framesOf (begun.sent (times.map .tick)) = [] ∧
    ((∀ u ∈ times, u - since < 60000) →
      c'.exposure = some ⟨start, seconds⟩ ∧ c'.device.state? exposureName = some .busy) ∧
    ((∃ u ∈ times, 60000 ≤ u - since) → c'.HasGivenUp) ∧
    ∀ t, seconds ≤ elapsed start t →
      ((∀ u ∈ times ++ [t], u - since < 60000) → c'.Completes t) ∧
      ((∃ u ∈ times ++ [t], 60000 ≤ u - since) →
        (c'.tick t).1.HasGivenUp ∧ framesOf (c'.tick t).2 = []) := by
  intro since begun c'
  obtain ⟨hrange, hbegun⟩ := exposes_of_granted hc.isFurnished hgranted hseconds
  have hlate (hlate : ∃ u ∈ times, 60000 ≤ u - since) :
      c'.HasGivenUp ∧ framesOf (begun.sent (times.map .tick)) = [] :=
    hbegun.ticks_of_overdue hbelow hlate
  have hin (hin : ∀ u ∈ times, u - since < 60000) :
      c'.Exposes ⟨start, seconds⟩ since ∧ framesOf (begun.sent (times.map .tick)) = [] :=
    hbegun.ticks hbelow hin
  have hcases : (∀ u ∈ times, u - since < 60000) ∨ ∃ u ∈ times, 60000 ≤ u - since := by
    rw [or_iff_not_imp_left]
    intro hnot
    push Not at hnot
    exact hnot
  refine ⟨hrange, hcases.elim (fun h => (hin h).2) fun h => (hlate h).2, ?_, fun h => (hlate h).1, ?_⟩
  · intro h
    have hexposes := (hin h).1
    refine ⟨hexposes.exposure, ?_⟩
    rw [Device.state?_eq_clock?, hexposes.clock]
    rfl
  · intro t hover
    constructor
    · intro h
      rw [List.forall_mem_append, List.forall_mem_singleton] at h
      exact (hin h.1).1.completes t h.2 hover
    · intro h
      obtain hin' | hlate' := hcases
      · obtain ⟨u, hu, hlate⟩ := h
        obtain hu | hu := List.mem_append.1 hu
        · exact absurd (hin' u hu) (Int.not_lt.2 hlate)
        · rw [List.mem_singleton.1 hu] at hlate
          exact (hin hin').1.tick_of_overdue t hlate
      · exact (hlate hlate').1.tick t

theorem quarter_second_ends :
    let r := asking exposureName exposureElement "0.25"
    let c := (connected.step (.message 0 (.change r))).1.after ([100, 200].map .tick)
    connected.IsReached ∧ connected.granted? (.message 0 (.change r)) = some exposureName ∧
      r.number? exposureElement = some 0.25 ∧ (∀ u ∈ [100, 200], elapsed 0 u < 0.25) ∧
      c.exposure = some ⟨0, 0.25⟩ ∧ c.Completes 300 := by
  intro r c
  have hgranted : connected.granted? (.message 0 (.change r)) = some exposureName := by
    decide +kernel
  have hseconds : r.number? exposureElement = some 0.25 := by decide +kernel
  have hbelow : ∀ u ∈ [100, 200], elapsed 0 u < 0.25 := by decide +kernel
  obtain ⟨-, -, hin, -, hover⟩ := exposure_ends isReached_connected hgranted hseconds hbelow
  have hidle : connected.device.busySince? exposureName = none := by decide +kernel
  rw [hidle] at hin hover
  exact ⟨isReached_connected, hgranted, hseconds, hbelow, (hin (by decide)).1,
    (hover 300 (by decide +kernel)).1 (by decide)⟩

theorem ninety_seconds_are_given_up :
    let r := asking exposureName exposureElement "90"
    let c := (connected.step (.message 0 (.change r))).1
    connected.IsReached ∧ connected.isConnected = true ∧
      connected.granted? (.message 0 (.change r)) = some exposureName ∧
      r.number? exposureElement = some 90 ∧ c.exposure = some ⟨0, 90⟩ ∧
      elapsed 0 60000 < 90 ∧ (c.tick 60000).1.exposure = none ∧
      90 ≤ elapsed 0 90000 ∧ framesOf ((c.tick 60000).1.tick 90000).2 = [] := by
  intro r c
  refine ⟨isReached_connected, ?_⟩
  decide +kernel

end InstrumentBus.Camera
