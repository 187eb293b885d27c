import InstrumentBus.Proofs.Camera.Exposure

/-!
How long exposures take. A request that says for how long is held to the range of the property. One
that does not repeats what the property shows, and that may be what is left of the last exposure.
-/

namespace InstrumentBus.Camera

def IsDuration (seconds : Float) : Prop := 0.001 ≤ seconds ∧ seconds ≤ 3600

def TakesDuration (c : Camera) : Prop := ∀ e ∈ c.exposure, IsDuration e.seconds

/-- A request that begins an exposure without saying for how long, when the property shows a time
that could not be asked for. -/
structure RepeatsRest (c : Camera) (now : Time.Millis) (r : ChangeRequest) : Prop where
  granted : c.granted? (.message now (.change r)) = some exposureName
  nothing : r.elements = []
  shown : ∀ q ∈ c.quantity? exposureName exposureElement, ¬IsDuration q.value

section

variable {c : Camera}

theorem takesDuration_of_exposure {d : Camera} (h : c.TakesDuration)
    (hd : d.exposure = c.exposure ∨ d.exposure = none) : d.TakesDuration := by
  intro e he
  obtain hsame | hnone := hd
  · exact h e (hsame ▸ he)
  · rw [hnone] at he
    cases he

theorem takesDuration_of_granted (hc : IsFurnished c.device) {now : Time.Millis} {r : ChangeRequest}
    (hgranted : c.granted? (.message now (.change r)) = some exposureName) :
    (c.step (.message now (.change r))).1.TakesDuration ↔ ¬c.RepeatsRest now r := by
  obtain ⟨seconds, hbegun, hcases⟩ := begins_of_granted hc hgranted
  have htakes : (c.step (.message now (.change r))).1.TakesDuration ↔ IsDuration seconds := by
    simp [TakesDuration, hbegun.exposure]
  rw [htakes]
  obtain ⟨hasked, hrange⟩ | ⟨hnil, hshown⟩ := hcases
  · refine iff_of_true hrange fun hrepeats => ?_
    cases (ChangeRequest.number?_of_nil hrepeats.nothing _).symm.trans hasked
  · constructor
    · exact fun hrange hrepeats => hrepeats.shown _ hshown hrange
    · intro hno
      by_contra hout
      refine hno ⟨hgranted, hnil, ?_⟩
      rintro q hq
      cases hshown.symm.trans hq
      exact hout

theorem takesDuration_step_iff (hc : IsFurnished c.device) (h : c.TakesDuration) (e : Event) :
    (c.step e).1.TakesDuration ↔ ∀ now r, e = .message now (.change r) → ¬c.RepeatsRest now r := by
  cases e with
  | tick now =>
    refine iff_of_true (takesDuration_of_exposure h ?_) (by rintro _ _ ⟨⟩)
    change (c.tick now).1.exposure = _ ∨ (c.tick now).1.exposure = _
    rw [exposure_tick]
    obtain ⟨-, hend, -⟩ | ⟨hexposure, -⟩ :=
      frames_progressExposure (c := { c with device := _ }) (hc.expire now) now
    · exact .inr hend
    · exact hexposure
  | message now m =>
    by_cases hgranted : c.granted? (.message now m) = some exposureName
    · cases m with
      | change r =>
        rw [takesDuration_of_granted hc hgranted]
        constructor
        · rintro hno _ _ ⟨⟩
          exact hno
        · exact fun hno => hno now r rfl
      | _ => cases hgranted
    · have hexposure := c.exposure_handle now m
      rw [or_iff_left hgranted] at hexposure
      refine iff_of_true (takesDuration_of_exposure h hexposure) ?_
      rintro _ _ ⟨⟩ hrepeats
      exact hgranted hrepeats.granted

end

/-- At all times the exposure in progress takes a time that can be asked for, unless some request has
begun one without saying for how long, when what the property showed was no such time. -/
theorem durations_in_range_iff (now : Time.Millis) (events : List Event) :
    (∀ pre, pre <+: events → ∀ e ∈ ((start now).after pre).exposure,
        0.001 ≤ e.seconds ∧ e.seconds ≤ 3600) ↔
      ∀ pre later r, pre ++ [.message later (.change r)] <+: events →
        ¬((start now).after pre).RepeatsRest later r := by
  have hstart : (start now).TakesDuration := fun e he => nomatch he
  refine forall_prefix_iff (P := TakesDuration) hstart (fun pre e htakes => ?_) events
  exact takesDuration_step_iff (IsReached.isFurnished ⟨now, pre, rfl⟩) htakes e

def exposingAgain : ChangeRequest := ⟨.number, deviceName, exposureName, none, []⟩

theorem exposure_is_repeated :
    let events : List Event :=
      [.message 0 (.change (switchingOn connectionName "CONNECT")),
        .message 0 (.change (asking exposureName exposureElement "5")),
        .message 100 (.change exposingAgain)]
    (∀ pre, pre <+: events → ∀ e ∈ ((start 0).after pre).exposure,
        0.001 ≤ e.seconds ∧ e.seconds ≤ 3600) ∧
      ((start 0).after events).exposure = some ⟨100, 5⟩ := by
  intro events
  refine ⟨(durations_in_range_iff 0 events).2 ?_, by decide +kernel⟩
  intro pre later r hpre hrepeats
  have hnothing := hrepeats.nothing
  obtain _ | ⟨e, _ | ⟨e', _ | ⟨e'', pre⟩⟩⟩ := pre
  · cases (List.cons_prefix_cons.1 hpre).1
    cases hnothing
  · cases (List.cons_prefix_cons.1 (List.cons_prefix_cons.1 hpre).2).1
    cases hnothing
  · -- The only request that says nothing finds the property as the one before has left it.
    obtain ⟨he, hrest⟩ := List.cons_prefix_cons.1 hpre
    obtain ⟨he', -⟩ := List.cons_prefix_cons.1 hrest
    subst he he'
    exact hrepeats.shown ⟨5, exposureRange⟩ (by decide +kernel)
      ⟨by decide +kernel, by decide +kernel⟩
  · have hlength := hpre.length_le
    simp [events] at hlength
    omega

/-- After an exposure was aborted, the property shows that nothing is left of it. One that is begun
without saying for how long then takes no time at all. -/
theorem nothing_left_is_exposed :
    let events : List Event :=
      [.message 0 (.change (switchingOn connectionName "CONNECT")),
        .message 0 (.change (asking exposureName exposureElement "5")),
        .message 100 (.change (switchingOn abortName abortElement)),
        .message 200 (.change exposingAgain)]
    ((start 0).after events).exposure = some ⟨200, 0⟩ ∧ ¬(0.001 : Float) ≤ 0 := by
  decide +kernel

end InstrumentBus.Camera
