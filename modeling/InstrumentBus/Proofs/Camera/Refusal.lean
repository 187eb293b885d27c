import InstrumentBus.Proofs.Camera.Exposure

/-!
What a refused request does to an exposure in progress. A run with the request is compared to the
run without it, with the same ticks after it: both send the same pictures, unless it is the exposure
that the request was for.
-/

namespace InstrumentBus.Camera

def picturesAt (c : Camera) : List Time.Millis → List (List Update)
  | [] => []
  | u :: times => framesOf (c.tick u).2 :: (c.tick u).1.picturesAt times

/-- Cameras between which the course of an exposure can tell no difference. -/
structure ExposesAlike (c d : Camera) : Prop where
  exposure : d.exposure = c.exposure
  frames : d.frames = c.frames
  clock : d.device.clock? exposureName = c.device.clock? exposureName

theorem clock?_finish (c : Camera) (now : Time.Millis) :
    (c.finish now).1.device.clock? exposureName =
      (c.device.clock? exposureName).map fun (_, timeout, _) => (.ok, timeout, none) := by
  simp only [finish, clock?_setState, clock?_setState_of_ne _ _ (show exposureName ≠ frameName by decide),
    clock?_setValue]
  rfl

namespace ExposesAlike

variable {c d : Camera} (hc : IsFurnished c.device) (hd : IsFurnished d.device)
  (h : ExposesAlike c d) (now : Time.Millis)

include h

theorem expire : ExposesAlike { c with device := (c.device.expire now).1 }
    { d with device := (d.device.expire now).1 } :=
  ⟨h.exposure, h.frames, Device.clock?_expire_congr h.clock now⟩

include hc hd

theorem finish : ExposesAlike (c.finish now).1 (d.finish now).1 ∧
    framesOf (d.finish now).2 = framesOf (c.finish now).2 := by
  refine ⟨⟨rfl, ?_, ?_⟩, ?_⟩
  · simp [Camera.finish, h.frames]
  · rw [clock?_finish, clock?_finish, h.clock]
  · rw [framesOf_finish hd, framesOf_finish hc, h.frames]

theorem progressExposure : ExposesAlike (c.progressExposure now).1 (d.progressExposure now).1 ∧
    framesOf (d.progressExposure now).2 = framesOf (c.progressExposure now).2 := by
  have hstate : d.device.state? exposureName = c.device.state? exposureName := by
    rw [Device.state?_eq_clock?, h.clock, Device.state?_eq_clock?]
  simp only [Device.state?] at hstate
  simp only [Camera.progressExposure, h.exposure, hstate]
  cases c.exposure with
  | none => exact ⟨h, rfl⟩
  | some e =>
    dsimp only
    split
    · exact ⟨⟨rfl, h.frames, h.clock⟩, rfl⟩
    · have hnumber : ExposesAlike (c.setNumber now exposureName exposureElement (remaining e now))
          (d.setNumber now exposureName exposureElement (remaining e now)) :=
        ⟨by simp [h.exposure], by simp [h.frames], by simp [h.clock]⟩
      split
      · refine ⟨hnumber, ?_⟩
        rw [framesOf_report _ (by decide), framesOf_report _ (by decide)]
      · exact hnumber.finish (hc.setNumber now ..) (hd.setNumber now ..) now

theorem tick : ExposesAlike (c.tick now).1 (d.tick now).1 ∧
    framesOf (d.tick now).2 = framesOf (c.tick now).2 := by
  obtain ⟨hnext, hframes⟩ := (h.expire now).progressExposure (c := { c with device := _ })
    (d := { d with device := _ }) (hc.expire now) (hd.expire now) now
  refine ⟨⟨?_, ?_, ?_⟩, ?_⟩
  · rw [exposure_tick, exposure_tick, hnext.exposure]
  · rw [frames_tick, frames_tick, hnext.frames]
  · rw [clock?_tick _ _ (by decide), clock?_tick _ _ (by decide), hnext.clock]
  · rw [framesOf_tick, framesOf_tick, hframes]

theorem picturesAt (times : List Time.Millis) : d.picturesAt times = c.picturesAt times := by
  induction times generalizing c d with
  | nil => rfl
  | cons u times ih =>
    obtain ⟨hnext, hframes⟩ := h.tick hc hd u
    rw [Camera.picturesAt, Camera.picturesAt, hframes, ih (hc.tick u) (hd.tick u) hnext]

end ExposesAlike

theorem HasGivenUp.picturesAt {c : Camera} (h : c.HasGivenUp) (times : List Time.Millis) :
    c.picturesAt times = times.map fun _ => [] := by
  induction times generalizing c with
  | nil => rfl
  | cons u times ih =>
    obtain ⟨hnext, hframes⟩ := h.tick u
    rw [Camera.picturesAt, hframes, ih hnext, List.map_cons]

theorem picturesAt_of_alert {c : Camera} (h : c.device.state? exposureName = some .alert)
    (times : List Time.Millis) : c.picturesAt times = times.map fun _ => [] := by
  cases times with
  | nil => rfl
  | cons u times =>
    obtain ⟨hnext, hframes⟩ := givesUp_of_alert u (Device.alert_expire h)
    rw [picturesAt, hframes, hnext.picturesAt, List.map_cons]

/-- A refused request leaves the pictures that come as they are, tick by tick, unless it was for the
exposure. After one that was there are none, so it makes a difference if there would have been. -/
theorem pictures_same_after_refusal_iff {c : Camera} (hc : c.IsReached) {now : Time.Millis}
    {r : ChangeRequest} (hr : r.device = deviceName)
    (hrefused : c.granted? (.message now (.change r)) = none) (times : List Time.Millis) :
    let d := (c.step (.message now (.change r))).1
    (d.picturesAt times = c.picturesAt times ↔
      r.name ≠ exposureName ∨ c.picturesAt times = times.map fun _ => []) ∧
    (r.name = exposureName → d.picturesAt times = times.map fun _ => []) := by
  intro d
  have hfurnished := hc.isFurnished
  obtain ⟨reason, hd⟩ : ∃ reason, d = (c.reject now r.name reason).1 := by
    obtain ⟨-, reason, hchange⟩ | ⟨hgranted, -⟩ := c.change_cases now hr
    · exact ⟨reason, congrArg Prod.fst ((c.step_change now hr).trans hchange)⟩
    · cases hrefused.symm.trans hgranted
  have hother (hname : r.name ≠ exposureName) : d.picturesAt times = c.picturesAt times := by
    refine ExposesAlike.picturesAt hfurnished (hfurnished.step _) ?_ times
    change ExposesAlike c d
    rw [hd]
    exact ⟨rfl, rfl, clock?_setState_of_ne _ _ hname.symm _⟩
  have hown (hname : r.name = exposureName) : d.picturesAt times = times.map fun _ => [] := by
    obtain ⟨s, hs⟩ := hfurnished.exists_state (d := exposureDraft) (by simp [drafts])
    have hs : c.device.state? exposureName = some s := hs
    refine picturesAt_of_alert ?_ times
    simp [hd, reject, hname, hs]
  refine ⟨?_, hown⟩
  constructor
  · intro hsame
    by_cases hname : r.name = exposureName
    · exact .inr (hsame.symm.trans (hown hname))
    · exact .inl hname
  · rintro (hname | hnone)
    · exact hother hname
    · by_cases hname : r.name = exposureName
      · rw [hown hname, hnone]
      · exact hother hname

def exposing : Camera :=
  (connected.step (.message 0 (.change (asking exposureName exposureElement "0.25")))).1

theorem isReached_exposing : exposing.IsReached := isReached_connected.after [_]

theorem picturesAt_exposing : exposing.picturesAt [100, 300] = [[], [pictureUpdate 300 1]] := by
  decide +kernel

theorem refused_temperature_keeps_picture :
    let r := asking temperatureName temperatureElement "500"
    exposing.exposure = some ⟨0, 0.25⟩ ∧ exposing.granted? (.message 50 (.change r)) = none ∧
      (exposing.step (.message 50 (.change r))).1.picturesAt [100, 300] =
        [[], [pictureUpdate 300 1]] := by
  intro r
  have hrefused : exposing.granted? (.message 50 (.change r)) = none := by decide +kernel
  obtain ⟨hsame, -⟩ := pictures_same_after_refusal_iff isReached_exposing rfl hrefused [100, 300]
  rw [hsame.2 (.inl (by decide)), picturesAt_exposing]
  exact ⟨by decide +kernel, hrefused, rfl⟩

theorem refused_exposure_loses_picture :
    let r := asking exposureName exposureElement "7200"
    exposing.IsReached ∧ exposing.exposure = some ⟨0, 0.25⟩ ∧
      exposing.granted? (.message 50 (.change r)) = none ∧
      exposing.picturesAt [100, 300] = [[], [pictureUpdate 300 1]] ∧
      (exposing.step (.message 50 (.change r))).1.picturesAt [100, 300] = [[], []] := by
  intro r
  exact ⟨isReached_exposing, by decide +kernel, by decide +kernel, picturesAt_exposing,
    by decide +kernel⟩

end InstrumentBus.Camera
