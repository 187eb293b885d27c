import InstrumentBus.Proofs.Camera.Run

/-!
The pictures that a camera sends. Each takes a request for an exposure, and without a connection
there is none.
-/

namespace InstrumentBus.Camera

def frame? : Message → Option Update
  | .update u => if u.name = frameName ∧ u.elements.any (·.value.hasPayload) then some u else none
  | _ => none

def framesOf (ms : List Message) : List Update := ms.filterMap frame?

@[simp] theorem framesOf_nil : framesOf [] = [] := rfl

@[simp] theorem framesOf_append (ms ns : List Message) :
    framesOf (ms ++ ns) = framesOf ms ++ framesOf ns := List.filterMap_append

@[simp] theorem framesOf_notice (now : Time.Millis) (text : String) :
    framesOf [notice now text] = [] := rfl

section

variable (c : Camera) (now : Time.Millis)

@[simp] theorem framesOf_report_nil (name : String) : framesOf (c.report name []) = [] := by
  unfold report
  cases c.device.property? name with
  | none => rfl
  | some p =>
    have hnil : (p.toUpdateOf []).elements = [] := by simp [Property.toUpdateOf, Property.updateOf]
    simp [framesOf, frame?, hnil]

theorem framesOf_report {name : String} (h : name ≠ frameName) (elements : List String) :
    framesOf (c.report name elements) = [] := by
  unfold report
  cases hp : c.device.property? name with
  | none => rfl
  | some p =>
    have hname : (p.toUpdateOf elements).name ≠ frameName := by
      rw [← (Device.property?_eq_some hp).2] at h
      exact h
    simp [framesOf, frame?, hname]

theorem framesOf_define (ms : List Definition) : framesOf (ms.map .define) = [] := by
  rw [framesOf, List.filterMap_eq_nil_iff]
  intro m hm
  obtain ⟨d, -, rfl⟩ := List.mem_map.1 hm
  rfl

theorem framesOf_expire : framesOf ((c.device.expire now).2.map .update) = [] := by
  rw [framesOf, List.filterMap_eq_nil_iff]
  intro m hm
  obtain ⟨u, hu, rfl⟩ := List.mem_map.1 hm
  obtain ⟨p, -, rfl⟩ := List.mem_map.1 hu
  simp [frame?, Device.timeoutUpdate, Property.toUpdateOf, Property.updateOf]

theorem framesOf_dropExposure : framesOf (c.dropExposure now).2 = [] := by
  unfold dropExposure
  split
  · rfl
  · simp [framesOf_report _ (show exposureName ≠ frameName by decide)]

theorem framesOf_follow (name : String) (changed : List String) :
    framesOf (c.follow now name changed).2 = [] := by
  unfold follow
  split_ifs
  · exact framesOf_report _ (by decide) _
  · unfold expose
    split
    · rfl
    · simp [framesOf_report _ (show exposureName ≠ frameName by decide)]
  · have habort : framesOf (c.abort now).2 = framesOf (c.dropExposure now).2 ++ framesOf _ :=
      framesOf_append _ _
    rw [habort, framesOf_dropExposure, framesOf_report _ (by decide)]
    rfl
  · unfold steer
    split
    · rfl
    · dsimp only
      split <;> exact framesOf_report_nil ..
  · rfl

theorem framesOf_handle (m : Message) : framesOf (c.handle now m).2 = [] := by
  unfold handle
  split
  · exact framesOf_define _
  · split
    · rename_i r hr
      obtain ⟨-, reason, h⟩ | ⟨-, -, d, changed, -, h⟩ := c.change_cases now hr
      · rw [h]
        simp [reject]
      · rw [h]
        exact framesOf_follow ..
    · rfl
  · rfl

theorem frames_dropExposure : (c.dropExposure now).1.frames = c.frames := by
  unfold dropExposure
  split
  · rfl
  · simp

theorem frames_follow (name : String) (changed : List String) :
    (c.follow now name changed).1.frames = c.frames := by
  unfold follow
  split_ifs
  · unfold connect
    split <;> rfl
  · unfold expose
    split <;> rfl
  · exact c.frames_dropExposure now
  · unfold steer
    split
    · rfl
    · dsimp only
      split <;> simp
  · rfl

theorem exposure_dropExposure : (c.dropExposure now).1.exposure = none := by
  unfold dropExposure
  split
  · rename_i hnone
    exact Option.isNone_iff_eq_none.1 hnone
  · simp

theorem exposure_follow {name : String} (h : name ≠ exposureName) (changed : List String) :
    (c.follow now name changed).1.exposure = c.exposure ∨
      (c.follow now name changed).1.exposure = none := by
  unfold follow
  rw [if_neg h]
  split_ifs
  · unfold connect
    split
    · exact .inl rfl
    · exact .inr rfl
  · exact .inr (c.exposure_dropExposure now)
  · left
    unfold steer
    split
    · rfl
    · dsimp only
      split <;> simp
  · exact .inl rfl

theorem frames_handle (m : Message) : (c.handle now m).1.frames = c.frames := by
  unfold handle
  split
  · rfl
  · split
    · rename_i r hr
      obtain ⟨-, reason, h⟩ | ⟨-, -, d, changed, -, h⟩ := c.change_cases now hr
      · rw [h]
        rfl
      · rw [h]
        exact frames_follow ..
    · rfl
  · rfl

theorem exposure_handle (m : Message) :
    (c.handle now m).1.exposure = c.exposure ∨ (c.handle now m).1.exposure = none ∨
      c.granted? (.message now m) = some exposureName := by
  unfold handle
  split
  · exact .inl rfl
  · split
    · rename_i r hr
      obtain ⟨-, reason, h⟩ | ⟨hgranted, -, d, changed, -, h⟩ := c.change_cases now hr
      · rw [h]
        exact .inl rfl
      · rw [h, hgranted]
        by_cases hname : r.name = exposureName
        · exact .inr (.inr (congrArg some hname))
        · obtain hsame | hnone := exposure_follow { c with device := d } now hname changed
          · exact .inl hsame
          · exact .inr (.inl hnone)
    · exact .inl rfl
  · exact .inl rfl

end

def pictureElements (sequence : Nat) : List ElementValue :=
  [⟨frameName, .blob (picture sequence)⟩]

def pictureUpdate (now : Time.Millis) (sequence : Nat) : Update where
  kind := .blob
  device := deviceName
  name := frameName
  state := some .ok
  timeout := some frameDraft.timeout.toNat.toFloat
  timestamp := some (Property.timestampAt now)
  message := none
  elements := pictureElements sequence

theorem hasPayload_picture (sequence : Nat) : (WireValue.blob (picture sequence)).hasPayload = true := by
  have hsize : (picture sequence).data.length = frameWidth * frameHeight := by simp [picture]
  rw [WireValue.hasPayload, Bool.not_eq_true', List.isEmpty_eq_false_iff, ← List.length_pos_iff, hsize]
  decide

section

variable {c : Camera} (h : IsFurnished c.device) (now : Time.Millis)

include h

theorem report_frame (sequence : Nat) :
    ((c.setValue now frameName frameName (.blob (picture sequence))).setState now frameName
      .ok).report frameName [frameName] = [.update (pictureUpdate now sequence)] := by
  obtain ⟨p, b, hp, hfits, helements⟩ := h.exists_frame
  have hfound : p.element? frameName = some ⟨frameName, "Image", .blob b⟩ := by
    simp [Property.element?, helements]
  obtain ⟨q, hq⟩ : ∃ q, p.setValue now frameName (.blob (picture sequence)) = .ok q :=
    ⟨_, Property.setValue_eq_ok_iff.2 ⟨_, hfound, rfl, rfl⟩⟩
  have hfits' : Property.Fits frameDraft q := by
    refine hfits.setValue hq ?_
    rintro e he
    cases hfound.symm.trans he
    rfl
  obtain ⟨htimestamp, helements'⟩ : q.timestamp = Property.timestampAt now ∧
      q.elements = [⟨frameName, "Image", .blob (picture sequence)⟩] := by
    obtain ⟨-, -, -, rfl⟩ := Property.setValue_eq_ok_iff.1 hq
    exact ⟨rfl, by simp [helements]⟩
  have hupdate : (q.setState now .ok).toUpdateOf [frameName] = pictureUpdate now sequence := by
    have hkind : q.kind = .blob := hfits'.kind
    have hdevice : q.device = deviceName := hfits'.device
    have hname : q.name = frameName := hfits'.name
    simp [Property.toUpdateOf, Property.updateOf, Property.announcedTimeout, Property.setState,
      Element.toValue, Value.toWire, pictureUpdate, pictureElements, helements', htimestamp, hkind,
      hdevice, hname, hfits'.timeout]
  rw [report, property?_setState, c.property?_setValue now hp hq, Option.map_some, if_pos rfl,
    Option.map_some, hupdate]
  rfl

theorem framesOf_finish : framesOf (c.finish now).2 = [pictureUpdate now (c.frames + 1)] := by
  have hframe : frame? (.update (pictureUpdate now (c.frames + 1))) =
      some (pictureUpdate now (c.frames + 1)) := by
    simp [frame?, pictureUpdate, pictureElements, hasPayload_picture]
  have hreport := report_frame (c := { c with exposure := none, frames := c.frames + 1 }) h now
    (c.frames + 1)
  have hfinish : framesOf (c.finish now).2 =
      framesOf [.update (pictureUpdate now (c.frames + 1))] ++ framesOf _ :=
    (framesOf_append _ _).trans (by rw [← hreport])
  rw [hfinish, framesOf_report _ (by decide), List.append_nil]
  simp [framesOf, hframe]

theorem state?_finish : (c.finish now).1.device.state? exposureName = some .ok ∧
    (c.finish now).1.device.state? frameName = some .ok := by
  obtain ⟨s, hs⟩ := h.exists_state (d := exposureDraft) (by simp [drafts])
  obtain ⟨t, ht⟩ := h.exists_state (d := frameDraft) (by simp [drafts])
  have hs : c.device.state? exposureName = some s := hs
  have ht : c.device.state? frameName = some t := ht
  constructor
  · simp [finish, hs]
  · simp +decide [finish, ht]

theorem frames_progressExposure :
    (c.exposure.isSome ∧ (c.progressExposure now).1.exposure = none ∧
        (c.progressExposure now).1.frames = c.frames + 1 ∧
        (framesOf (c.progressExposure now).2).map (·.elements) = [pictureElements (c.frames + 1)]) ∨
      ((c.progressExposure now).1.exposure = c.exposure ∨ (c.progressExposure now).1.exposure = none) ∧
        (c.progressExposure now).1.frames = c.frames ∧
        framesOf (c.progressExposure now).2 = [] := by
  obtain ⟨-, hsame⟩ | ⟨e, he, ⟨-, hsame⟩ | ⟨-, ⟨-, hsame⟩ | ⟨-, hsame⟩⟩⟩ := c.progressExposure_cases now
  · rw [hsame]
    exact .inr ⟨.inl rfl, rfl, rfl⟩
  · rw [hsame]
    exact .inr ⟨.inr rfl, rfl, rfl⟩
  · rw [hsame]
    exact .inr ⟨.inl (by simp), by simp, framesOf_report _ (by decide) _⟩
  · rw [hsame]
    refine .inl ⟨by simp [he], rfl, by simp [finish], ?_⟩
    rw [framesOf_finish (h.setNumber now exposureName exposureElement (remaining e now)),
      List.map_singleton, frames_setNumber]
    rfl

end

section

variable (c : Camera) (now : Time.Millis)

theorem frames_progressCooler :
    (c.progressCooler now).1.exposure = c.exposure ∧ (c.progressCooler now).1.frames = c.frames ∧
      framesOf (c.progressCooler now).2 = [] := by
  obtain ⟨-, hsame⟩ | ⟨target, -, hsame | hsame⟩ := c.progressCooler_cases now
  · rw [hsame]
    exact ⟨rfl, rfl, rfl⟩
  · rw [hsame]
    exact ⟨by simp, by simp, framesOf_report _ (by decide) _⟩
  · rw [hsame]
    exact ⟨by simp, by simp, framesOf_report _ (by decide) _⟩

theorem clock?_progressCooler {name : String} (h : name ≠ temperatureName) :
    (c.progressCooler now).1.device.clock? name = c.device.clock? name := by
  obtain ⟨-, hsame⟩ | ⟨target, -, hsame | hsame⟩ := c.progressCooler_cases now
  · rw [hsame]
  · rw [hsame, clock?_setState_of_ne _ _ h]
    exact clock?_setNumber ..
  · rw [hsame]
    exact clock?_setNumber ..

theorem exposure_tick : (c.tick now).1.exposure =
    ({ c with device := (c.device.expire now).1 }.progressExposure now).1.exposure :=
  (frames_progressCooler _ now).1

theorem frames_tick : (c.tick now).1.frames =
    ({ c with device := (c.device.expire now).1 }.progressExposure now).1.frames :=
  (frames_progressCooler _ now).2.1

theorem framesOf_tick : framesOf (c.tick now).2 =
    framesOf ({ c with device := (c.device.expire now).1 }.progressExposure now).2 := by
  rw [tick_snd, framesOf_append, framesOf_append, framesOf_expire, (frames_progressCooler _ now).2.2,
    List.nil_append, List.append_nil]

theorem clock?_tick {name : String} (h : name ≠ temperatureName) :
    (c.tick now).1.device.clock? name =
      ({ c with device := (c.device.expire now).1 }.progressExposure now).1.device.clock? name :=
  clock?_progressCooler _ now h

theorem state?_tick {name : String} (h : name ≠ temperatureName) :
    (c.tick now).1.device.state? name =
      ({ c with device := (c.device.expire now).1 }.progressExposure now).1.device.state? name := by
  rw [Device.state?_eq_clock?, clock?_tick c now h, Device.state?_eq_clock?]

end

def pending (c : Camera) : Nat := c.exposure.toList.length

theorem pending_le {c d : Camera} (h : d.exposure = c.exposure ∨ d.exposure = none) :
    d.pending ≤ c.pending := by
  obtain h | h := h <;> simp [pending, h]

section

variable {c : Camera} (h : IsFurnished c.device)

include h

theorem pictures_tick (now : Time.Millis) :
    ∃ n, (c.tick now).1.frames = c.frames + n ∧
      (framesOf (c.tick now).2).map (·.elements) =
        (List.range n).map (fun i => pictureElements (c.frames + i + 1)) ∧
      (c.tick now).1.pending + n ≤ c.pending := by
  rw [frames_tick, framesOf_tick, pending, exposure_tick]
  obtain ⟨hsome, hend, hframes, helements⟩ | ⟨hexposure, hframes, helements⟩ :=
    frames_progressExposure (c := { c with device := _ }) (h.expire now) now
  · refine ⟨1, hframes, helements, ?_⟩
    obtain ⟨e, he⟩ := Option.isSome_iff_exists.1 hsome
    have he : c.exposure = some e := he
    rw [hend, pending, he]
    exact Nat.le_refl 1
  · refine ⟨0, hframes, ?_, pending_le (c := c) hexposure⟩
    rw [helements]
    rfl

theorem pictures_step (e : Event) :
    ∃ n, (c.step e).1.frames = c.frames + n ∧
      (framesOf (c.step e).2).map (·.elements) =
        (List.range n).map (fun i => pictureElements (c.frames + i + 1)) ∧
      (c.step e).1.pending + n ≤ c.pending + (c.granted? e).toList.count exposureName := by
  cases e with
  | tick now =>
    obtain ⟨n, hframes, helements, hle⟩ := pictures_tick h now
    exact ⟨n, hframes, helements, Nat.le_add_right_of_le hle⟩
  | message now m =>
    refine ⟨0, c.frames_handle now m, ?_, ?_⟩
    · change (framesOf (c.handle now m).2).map _ = _
      rw [framesOf_handle]
      rfl
    · change (c.handle now m).1.pending ≤ _
      obtain hsame | hnone | hgranted := c.exposure_handle now m
      · exact Nat.le_add_right_of_le (pending_le (.inl hsame))
      · exact Nat.le_add_right_of_le (pending_le (.inr hnone))
      · rw [hgranted]
        have hone : (c.handle now m).1.pending ≤ 1 := by
          unfold pending
          cases (c.handle now m).1.exposure <;> simp
        simp
        omega

theorem pictures_run (events : List Event) :
    ∃ n, (c.after events).frames = c.frames + n ∧
      (framesOf (c.sent events)).map (·.elements) =
        (List.range n).map (fun i => pictureElements (c.frames + i + 1)) ∧
      (c.after events).pending + n ≤ c.pending + (c.granted events).count exposureName := by
  induction events generalizing c with
  | nil => exact ⟨0, rfl, rfl, Nat.le_refl _⟩
  | cons e events ih =>
    obtain ⟨n, hframes, helements, hle⟩ := pictures_step h e
    obtain ⟨n', hframes', helements', hle'⟩ := ih (h.step e)
    refine ⟨n + n', ?_, ?_, ?_⟩
    · rw [after_cons, hframes', hframes, Nat.add_assoc]
    · rw [sent, framesOf_append, List.map_append, helements, helements', List.range_add,
        List.map_append, List.map_map, hframes]
      simp [Function.comp_def, Nat.add_assoc]
    · rw [after_cons, granted, List.count_append]
      omega

end

section

variable (c : Camera) (now : Time.Millis)

def RestsIfOff (c : Camera) : Prop :=
  c.isConnected = false → c.exposure = none ∧ c.setPoint = none

theorem restsIfOff_connect (changed : List String) : (c.connect now changed).1.RestsIfOff := by
  intro hoff
  unfold connect at hoff ⊢
  dsimp only at hoff ⊢
  rw [isConnected_setState] at hoff
  split at hoff
  · rename_i hon
    cases hon.symm.trans hoff
  · rename_i hon
    rw [if_neg hon]
    exact ⟨rfl, rfl⟩

variable {c} (h : c.RestsIfOff)

include h

theorem RestsIfOff.handle (m : Message) : (c.handle now m).1.RestsIfOff := by
  unfold Camera.handle
  split
  · exact h
  · split
    · rename_i r hr
      obtain ⟨-, reason, hchange⟩ | ⟨-, hguard, d, changed, hd, hchange⟩ :=
        c.change_cases now hr
      · rw [hchange]
        intro hoff
        exact h (((isConnected_setState ..).symm).trans hoff)
      · rw [hchange]
        by_cases hname : r.name = connectionName
        · rw [follow, if_pos hname]
          exact restsIfOff_connect { c with device := d } now changed
        · intro hoff
          rw [isConnected_follow _ _ hname, isConnected_of_applyChange hd hname,
            hguard.resolve_left hname] at hoff
          cases hoff
    · exact h
  · exact h

theorem RestsIfOff.tick : (c.tick now).1.RestsIfOff := by
  intro hoff
  rw [isConnected_tick] at hoff
  obtain ⟨hexposure, hsetPoint⟩ := h hoff
  rw [tick_of_none c now hexposure hsetPoint]
  exact ⟨hexposure, hsetPoint⟩

theorem RestsIfOff.step (e : Event) : (c.step e).1.RestsIfOff := by
  cases e with
  | message now m => exact h.handle now m
  | tick now => exact h.tick now

end

theorem messages_of_none {c : Camera} (h : IsFurnished c.device) (now : Time.Millis)
    (hexposure : c.exposure = none) (hsetPoint : c.setPoint = none) :
    framesOf (c.tick now).2 = [] ∧
      ∀ u, .update u ∈ (c.tick now).2 → u.name ≠ temperatureName := by
  rw [tick_of_none c now hexposure hsetPoint]
  refine ⟨c.framesOf_expire now, ?_⟩
  intro u hu hname
  obtain ⟨_, hu, hsame⟩ := List.mem_map.1 hu
  cases hsame
  obtain ⟨p, hp, rfl⟩ := List.mem_map.1 hu
  obtain ⟨hp, hoverdue⟩ := List.mem_filter.1 hp
  have hfound := h.isMadeOf.property?_of_mem nodup_drafts hp
  have hname : p.name = temperatureName := hname
  rw [hname] at hfound
  rw [h.not_isOverdue_temperature hfound now] at hoverdue
  cases hoverdue

/-- Of all that a camera sends, the pictures are as many as it has counted, each the one of its
number, and for each there was a request. Without a connection there is nothing to do, and a tick
sends neither a picture nor a temperature. -/
theorem pictures_of_run (now : Time.Millis) (events : List Event) :
    let c := (start now).after events
    (c.isConnected = false → c.exposure = none ∧ c.setPoint = none ∧
      ∀ later, framesOf (c.tick later).2 = [] ∧
        ∀ u, .update u ∈ (c.tick later).2 → u.name ≠ temperatureName) ∧
    (framesOf ((start now).sent events)).map (·.elements) =
      (List.range c.frames).map (fun k => [⟨frameName, .blob (picture (k + 1))⟩]) ∧
    c.frames ≤ ((start now).granted events).count exposureName := by
  intro c
  have hfurnished : IsFurnished c.device := IsReached.isFurnished ⟨now, events, rfl⟩
  have hrests : c.RestsIfOff :=
    after_induction (P := RestsIfOff) (fun _ => ⟨rfl, rfl⟩) (fun _ e h => h.step e) events
  obtain ⟨n, hframes, helements, hle⟩ := pictures_run (isFurnished_start now) events
  have hframes : c.frames = n := hframes.trans (Nat.zero_add n)
  refine ⟨?_, ?_, ?_⟩
  · intro hoff
    obtain ⟨hexposure, hsetPoint⟩ := hrests hoff
    exact ⟨hexposure, hsetPoint, fun later => messages_of_none hfurnished later hexposure hsetPoint⟩
  · rw [helements, hframes]
    simp [start, pictureElements]
  · have hpending : (start now).pending = 0 := rfl
    omega

theorem picture_before_disconnection :
    let events : List Event :=
      [.message 0 (.change (switchingOn connectionName "CONNECT")),
        .message 0 (.change (asking exposureName exposureElement "0.25")), .tick 300,
        .message 400 (.change (asking exposureName exposureElement "5")),
        .message 500 (.change (switchingOn connectionName "DISCONNECT"))]
    let c := (start 0).after events
    c.isConnected = false ∧ c.frames = 1 ∧ ((start 0).granted events).count exposureName = 2 ∧
      c.exposure = none ∧ framesOf (c.tick 6000).2 = [] ∧
      (framesOf ((start 0).sent events)).map (·.elements) =
        [[⟨frameName, .blob (picture 1)⟩]] := by
  intro events c
  obtain ⟨hrests, hpictures, -⟩ := pictures_of_run 0 events
  have hoff : c.isConnected = false := by decide +kernel
  have hframes : c.frames = 1 := by decide +kernel
  obtain ⟨hexposure, -, hlater⟩ := hrests hoff
  refine ⟨hoff, hframes, by decide +kernel, hexposure, (hlater 6000).1, ?_⟩
  rw [hpictures, hframes]
  rfl

end InstrumentBus.Camera
