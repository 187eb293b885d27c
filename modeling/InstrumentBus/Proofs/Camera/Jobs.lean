import InstrumentBus.Proofs.Camera.Run

/-!
What the properties of a camera tell of its jobs. The exposure is busy while there is one, and the
temperature while there is a set point, until a request comes between.
-/

namespace InstrumentBus.Camera

/-- The exposure and the temperature are busy as long as the camera is at work on them. -/
structure ShowsJobs (c : Camera) : Prop where
  exposure : c.device.state? exposureName = some .busy ↔ c.exposure.isSome = true
  temperature : c.device.state? temperatureName = some .busy ↔ c.setPoint.isSome = true

/-- A request after which a property tells something else than what the camera does. -/
inductive Upsets (c : Camera) (now : Time.Millis) (r : ChangeRequest) : Prop
  /-- A refusal puts the property to alert while the work on it goes on. -/
  | refused (hr : r.device = deviceName) (hrefused : c.granted? (.message now (.change r)) = none)
      (hjob : r.name = exposureName ∧ c.exposure.isSome = true ∨
        r.name = temperatureName ∧ c.setPoint.isSome = true) :
      Upsets c now r
  /-- Without a connection the camera stops work, and the properties go on as busy. -/
  | disconnected (hgranted : c.granted? (.message now (.change r)) = some connectionName)
      (hoff : (c.change now r).1.isConnected = false)
      (hjob : c.exposure.isSome = true ∨ c.setPoint.isSome = true) :
      Upsets c now r
  /-- The temperature asked for is there already, and the camera goes on to its set point. -/
  | present {d : Device} {changed : List String} {q : Quantity}
      (hgranted : c.granted? (.message now (.change r)) = some temperatureName)
      (hd : c.device.applyChange now r = .ok (d, changed))
      (hq : { c with device := d }.quantity? temperatureName temperatureElement = some q)
      (hpresent : (q.value - c.temperature).abs < tolerance) (hjob : c.setPoint.isSome = true) :
      Upsets c now r

theorem Upsets.atWork {c : Camera} {now : Time.Millis} {r : ChangeRequest} (h : c.Upsets now r) :
    c.exposure.isSome = true ∨ c.setPoint.isSome = true := by
  cases h with
  | refused _ _ hjob => exact hjob.imp And.right And.right
  | disconnected _ _ hjob => exact hjob
  | present _ _ _ _ hjob => exact .inr hjob

section

variable {c : Camera} (h : IsFurnished c.device) (now : Time.Millis)

include h

theorem state?_temperature_expire :
    (c.device.expire now).1.state? temperatureName =
      c.device.state? temperatureName := by
  obtain ⟨p, -, hp, -⟩ := h.exists_temperature
  rw [Device.state?_expire, Device.state?, hp, Option.map_some, h.not_isOverdue_temperature hp]
  rfl

theorem exists_state_exposure : ∃ s, c.device.state? exposureName = some s :=
  h.exists_state (d := exposureDraft) (by simp [drafts])

theorem exists_state_temperature : ∃ s, c.device.state? temperatureName = some s :=
  h.exists_state (d := temperatureDraft) (by simp [drafts])

theorem showsJobs_progressExposure
    (hexposure : c.device.state? exposureName = some .busy → c.exposure.isSome = true)
    (htemperature : c.device.state? temperatureName = some .busy ↔ c.setPoint.isSome = true) :
    (c.progressExposure now).1.ShowsJobs := by
  obtain ⟨s, hs⟩ := exists_state_exposure h
  obtain ⟨hnone, hsame⟩ | ⟨e, he, ⟨hidle, hsame⟩ | ⟨hbusy, ⟨-, hsame⟩ | ⟨-, hsame⟩⟩⟩ :=
    c.progressExposure_cases now
  · rw [hsame]
    exact ⟨⟨hexposure, fun hsome => by simp [hnone] at hsome⟩, htemperature⟩
  · rw [hsame]
    exact ⟨iff_of_false hidle (by simp), htemperature⟩
  · rw [hsame]
    exact ⟨by simp [hbusy, he], by simpa using htemperature⟩
  · rw [hsame]
    refine ⟨?_, ?_⟩
    · simp [finish, hs]
    · simpa +decide [finish] using htemperature

theorem showsJobs_progressCooler (hs : c.ShowsJobs) : (c.progressCooler now).1.ShowsJobs := by
  obtain ⟨s, htemperature⟩ := exists_state_temperature h
  obtain ⟨-, hsame⟩ | ⟨target, htarget, hsame | hsame⟩ := c.progressCooler_cases now
  · rw [hsame]
    exact hs
  · rw [hsame]
    exact ⟨by simpa +decide using hs.exposure, by simp [htemperature]⟩
  · rw [hsame]
    exact ⟨by simpa using hs.exposure, by simpa using hs.temperature⟩

theorem showsJobs_tick (hs : c.ShowsJobs) : (c.tick now).1.ShowsJobs := by
  have hexpire := h.expire now
  refine showsJobs_progressCooler (hexpire.progressExposure (c := { c with device := _ }) now) now
    (showsJobs_progressExposure (c := { c with device := _ }) hexpire now ?_ ?_)
  · exact fun hbusy => hs.exposure.1 (Device.busy_of_expire hbusy)
  · rw [state?_temperature_expire h now]
    exact hs.temperature

end

section

variable {c : Camera} (h : IsFurnished c.device) (hs : c.ShowsJobs) (now : Time.Millis)

include h hs

theorem showsJobs_alert_iff (name : String) :
    (c.setState now name .alert).ShowsJobs ↔
      ¬(name = exposureName ∧ c.exposure.isSome = true ∨
        name = temperatureName ∧ c.setPoint.isSome = true) := by
  obtain ⟨s, hexposure⟩ := exists_state_exposure h
  obtain ⟨t, htemperature⟩ := exists_state_temperature h
  constructor
  · rintro ⟨he, ht⟩ (⟨rfl, hjob⟩ | ⟨rfl, hjob⟩)
    · simp [hexposure, hjob] at he
    · simp [htemperature, hjob] at ht
  · intro hno
    rw [not_or, not_and, not_and] at hno
    constructor
    · by_cases hname : exposureName = name
      · simpa [hname ▸ hexposure, hname] using hno.1 hname.symm
      · simpa [hname] using hs.exposure
    · by_cases hname : temperatureName = name
      · simpa [hname ▸ htemperature, hname] using hno.2 hname.symm
      · simpa [hname] using hs.temperature

omit h in
theorem showsJobs_connect_iff (changed : List String) :
    (c.connect now changed).1.ShowsJobs ↔
      ¬(c.isConnected = false ∧ (c.exposure.isSome = true ∨ c.setPoint.isSome = true)) := by
  unfold connect
  dsimp only
  split
  · rename_i hon
    refine iff_of_true ⟨?_, ?_⟩ (by simp [hon])
    · simpa +decide using hs.exposure
    · simpa +decide using hs.temperature
  · rename_i hoff
    constructor
    · rintro ⟨he, ht⟩ ⟨-, hjob⟩
      simp +decide [hs.exposure, hs.temperature] at he ht
      simp [he, ht] at hjob
    · intro hno
      simp only [hoff, true_and, not_or] at hno
      constructor
      · simpa +decide [hs.exposure] using hno.1
      · simpa +decide [hs.temperature] using hno.2

theorem showsJobs_expose (changed : List String) : (c.expose now changed).1.ShowsJobs := by
  obtain ⟨s, hexposure⟩ := exists_state_exposure h
  unfold expose
  split
  · exact hs
  · refine ⟨?_, ?_⟩
    · simp [hexposure]
    · simpa +decide using hs.temperature

theorem showsJobs_dropExposure : (c.dropExposure now).1.ShowsJobs := by
  obtain ⟨s, hexposure⟩ := exists_state_exposure h
  unfold dropExposure
  split
  · exact hs
  · refine ⟨?_, ?_⟩
    · simp +decide [hexposure]
    · simpa +decide using hs.temperature

theorem showsJobs_abort : (c.abort now).1.ShowsJobs := by
  obtain ⟨hexposure, htemperature⟩ := showsJobs_dropExposure h hs now
  have habort : (c.abort now).1 = ((c.dropExposure now).1.setValue now abortName abortElement
      (.switch .off)).setState now abortName .ok := rfl
  rw [habort]
  exact ⟨by simpa +decide using hexposure, by simpa +decide using htemperature⟩

theorem showsJobs_steer_iff {q : Quantity}
    (hq : c.quantity? temperatureName temperatureElement = some q) :
    (c.steer now).1.ShowsJobs ↔
      ¬((q.value - c.temperature).abs < tolerance ∧ c.setPoint.isSome = true) := by
  obtain ⟨t, htemperature⟩ := exists_state_temperature h
  unfold steer
  simp only [hq, temperature_setNumber]
  split
  · rename_i hpresent
    constructor
    · rintro ⟨-, ht⟩ ⟨-, hjob⟩
      simp [htemperature, hjob] at ht
    · intro hno
      constructor
      · simpa +decide using hs.exposure
      · simpa [htemperature, hpresent] using hno
  · rename_i hpresent
    refine iff_of_true ⟨?_, ?_⟩ (by simp [hpresent])
    · simpa +decide using hs.exposure
    · simp [htemperature]

theorem showsJobs_change_iff {r : ChangeRequest} (hr : r.device = deviceName) :
    (c.change now r).1.ShowsJobs ↔ ¬c.Upsets now r := by
  obtain ⟨hrefused, reason, hchange⟩ | ⟨hgranted, -, d, changed, hd, hchange⟩ :=
    c.change_cases now hr
  · rw [hchange]
    refine (showsJobs_alert_iff h hs now r.name).trans (not_congr ⟨.refused hr hrefused, ?_⟩)
    intro hupsets
    cases hupsets with
    | refused _ _ hjob => exact hjob
    | disconnected hgranted => cases hrefused.symm.trans hgranted
    | present hgranted => cases hrefused.symm.trans hgranted
  · have hfurnished : IsFurnished d := h.applyChange now hd
    have hshows : ShowsJobs { c with device := d } :=
      ⟨Device.state?_of_applyChange hd _ ▸ hs.exposure,
        Device.state?_of_applyChange hd _ ▸ hs.temperature⟩
    have hname {name : String} (h : c.granted? (.message now (.change r)) = some name) :
        r.name = name := Option.some.inj (hgranted.symm.trans h)
    have hother (hconnection : r.name ≠ connectionName) (htemperature : r.name ≠ temperatureName) :
        ¬c.Upsets now r := by
      intro hupsets
      cases hupsets with
      | refused _ hrefused => cases hrefused.symm.trans hgranted
      | disconnected hgranted => exact hconnection (hname hgranted)
      | present hgranted => exact htemperature (hname hgranted)
    rw [hchange, follow]
    split_ifs with hconnection hexposure habort htemperature
    · rw [showsJobs_connect_iff hshows, not_iff_not]
      constructor
      · rintro ⟨hoff, hjob⟩
        refine .disconnected (hconnection ▸ hgranted) ?_ hjob
        rw [hchange, follow, if_pos hconnection, isConnected_connect]
        exact hoff
      · intro hupsets
        cases hupsets with
        | refused _ hrefused => cases hrefused.symm.trans hgranted
        | disconnected _ hoff hjob =>
          rw [hchange, follow, if_pos hconnection, isConnected_connect] at hoff
          exact ⟨hoff, hjob⟩
        | present hgranted => exact absurd ((hname hgranted).symm.trans hconnection) (by decide)
    · exact iff_of_true (showsJobs_expose hfurnished hshows now changed)
        (hother hconnection (by rw [hexposure]; decide))
    · exact iff_of_true (showsJobs_abort hfurnished hshows now)
        (hother hconnection (by rw [habort]; decide))
    · obtain ⟨x, hq⟩ :=
        IsFurnished.exists_quantity_temperature (c := { c with device := d }) hfurnished
      rw [showsJobs_steer_iff hfurnished hshows now hq, not_iff_not]
      constructor
      · rintro ⟨hpresent, hjob⟩
        exact .present (htemperature ▸ hgranted) hd hq hpresent hjob
      · intro hupsets
        cases hupsets with
        | refused _ hrefused => cases hrefused.symm.trans hgranted
        | disconnected hgranted => exact absurd (hname hgranted) hconnection
        | present _ hd' hq' hpresent hjob =>
          cases hd.symm.trans hd'
          cases hq.symm.trans hq'
          exact ⟨hpresent, hjob⟩
    · exact iff_of_true hshows (hother hconnection htemperature)

theorem showsJobs_step_iff (e : Event) :
    (c.step e).1.ShowsJobs ↔ ∀ now r, e = .message now (.change r) → ¬c.Upsets now r := by
  cases e with
  | tick now =>
    refine iff_of_true (showsJobs_tick h now hs) ?_
    rintro _ _ ⟨⟩
  | message now m =>
    cases m with
    | change r =>
      by_cases hr : r.device = deviceName
      · rw [c.step_change now hr, showsJobs_change_iff h hs now hr]
        constructor
        · rintro hno _ _ ⟨⟩
          exact hno
        · exact fun hno => hno now r rfl
      · rw [c.step_change_of_ne now hr]
        refine iff_of_true hs ?_
        rintro _ _ ⟨⟩ hupsets
        cases hupsets with
        | refused h => exact hr h
        | disconnected hgranted => simp [granted?, hr] at hgranted
        | present hgranted => simp [granted?, hr] at hgranted
    | _ =>
      refine iff_of_true hs ?_
      rintro _ _ ⟨⟩

end

theorem state?_start (now : Time.Millis) {d : Property.Draft} (hd : d ∈ drafts) :
    (start now).device.state? d.name = some d.state := by
  have hmem : d.property now ∈ (start now).device.properties := by
    rw [device_start]
    exact List.mem_map_of_mem hd
  have hproperty := (isFurnished_start now).isMadeOf.property?_of_mem nodup_drafts hmem
  rw [Property.Draft.property_name] at hproperty
  rw [Device.state?, hproperty]
  rfl

theorem showsJobs_start (now : Time.Millis) : (start now).ShowsJobs := by
  have hexposure : (start now).device.state? exposureName = some .idle :=
    state?_start now (d := exposureDraft) (by simp [drafts])
  have htemperature : (start now).device.state? temperatureName = some .idle :=
    state?_start now (d := temperatureDraft) (by simp [drafts])
  constructor
  · rw [hexposure]
    exact iff_of_false (by decide) Bool.false_ne_true
  · rw [htemperature]
    exact iff_of_false (by decide) Bool.false_ne_true

/-- The properties tell at all times what the camera does, unless a request upsets them: one that is
refused, one that ends the connection, or one for the temperature that is there already, each while
the camera is at work. -/
theorem jobs_shown_iff (now : Time.Millis) (events : List Event) :
    (∀ pre, pre <+: events → ((start now).after pre).ShowsJobs) ↔
      ∀ pre later r, pre ++ [.message later (.change r)] <+: events →
        ¬((start now).after pre).Upsets later r := by
  refine forall_prefix_iff (P := ShowsJobs) (showsJobs_start now) (fun pre e hs => ?_) events
  exact showsJobs_step_iff (IsReached.isFurnished ⟨now, pre, rfl⟩) hs e

theorem jobs_shown_of_exposure :
    let events : List Event :=
      [.message 0 (.change (switchingOn connectionName "CONNECT")),
        .message 0 (.change (asking exposureName exposureElement "0.25")), .tick 100]
    (∀ pre, pre <+: events → ((start 0).after pre).ShowsJobs) ∧
      ((start 0).after events).exposure = some ⟨0, 0.25⟩ := by
  intro events
  refine ⟨(jobs_shown_iff 0 events).2 ?_, by decide +kernel⟩
  intro pre later r hpre hupsets
  have hrest : ((start 0).after pre).exposure = none ∧ ((start 0).after pre).setPoint = none := by
    obtain _ | ⟨e, _ | ⟨e', pre⟩⟩ := pre
    · exact ⟨rfl, rfl⟩
    · obtain ⟨rfl, -⟩ := List.cons_prefix_cons.1 hpre
      decide +kernel
    · -- After the second request there is only the tick.
      have htick : pre ++ [.message later (.change r)] <+: [.tick 100] :=
        (List.cons_prefix_cons.1 (List.cons_prefix_cons.1 hpre).2).2
      have hmem := htick.subset (List.mem_append_right pre (List.mem_singleton_self _))
      simp at hmem
  have hwork := hupsets.atWork
  simp [hrest] at hwork

theorem cooler_shown_as_done :
    let c := connected.after
      [.message 0 (.change (asking temperatureName temperatureElement "10")),
        .message 0 (.change (asking temperatureName temperatureElement "20"))]
    c.IsReached ∧ c.device.state? temperatureName = some .ok ∧ c.setPoint = some 10 ∧
      ¬(c.device.state? temperatureName = some .busy ↔ c.setPoint.isSome = true) := by
  refine ⟨isReached_connected.after _, ?_⟩
  decide +kernel

end InstrumentBus.Camera
