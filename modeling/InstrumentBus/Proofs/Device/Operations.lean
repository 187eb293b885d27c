import InstrumentBus.Device
import InstrumentBus.Proofs.Property.Accept

/-!
What the operations of a device come to, and what can be read off it afterwards.
-/

namespace InstrumentBus

namespace Device

def state? (d : Device) (name : String) : Option State := (d.property? name).map (·.state)

def clock? (d : Device) (name : String) : Option (State × UInt32 × Option Time.Millis) :=
  (d.property? name).map fun p => (p.state, p.timeout, p.busySince)

def busySince? (d : Device) (name : String) : Option Time.Millis :=
  (d.property? name).bind (·.busySince)

section

variable {d d' : Device} {now : Time.Millis}

theorem define_eq_ok_iff {p : Property} {m : Definition} :
    d.define p = .ok (d', m) ↔
      p.device = d.name ∧ d.property? p.name = none ∧
        { d with properties := d.properties ++ [p] } = d' ∧ p.toDefinition = m := by
  unfold Device.define
  split
  · simp_all
  · split
    · simp_all [Option.isSome_iff_ne_none]
    · simp_all

theorem remove?_eq_some_iff {name : String} {r : Removal} :
    d.remove? now name = some (d', r) ↔
      (∃ p, d.property? name = some p) ∧
        { d with properties := d.properties.filter (·.name != name) } = d' ∧
          ⟨d.name, some name, some (Property.timestampAt now), none⟩ = r := by
  simp [Device.remove?]

theorem applyChange_eq_ok_iff {r : ChangeRequest} {changed : List String} :
    d.applyChange now r = .ok (d', changed) ↔
      r.device = d.name ∧ ∃ p p', d.property? r.name = some p ∧
        p.applyChange now r = .ok (p', changed) ∧ d.replace p' = d' := by
  unfold Device.applyChange
  split
  · simp_all
  · rename_i hdevice
    cases hp : d.property? r.name with
    | none => simp
    | some p => simp [bind_eq_ok_iff, not_not.1 hdevice]

end

section

variable {d d' : Device} {name : String} {p : Property}

theorem property?_eq_some (h : d.property? name = some p) : p ∈ d.properties ∧ p.name = name :=
  ⟨List.mem_of_find?_eq_some h, by simpa using List.find?_some h⟩

theorem property?_map {f : Property → Property} (hf : ∀ p, (f p).name = p.name) (name : String) :
    property? { d with properties := d.properties.map f } name = (d.property? name).map f := by
  simp only [property?, List.find?_map, Function.comp_def, hf]

theorem property?_replace {q : Property} (hp : d.property? name = some p) (hq : q.name = name)
    (other : String) :
    (d.replace q).property? other = if other = name then some q else d.property? other := by
  refine (property?_map (fun p => ?_) other).trans ?_
  · split
    · rename_i hsame
      exact hsame.symm
    · rfl
  · split
    · rename_i hother
      rw [hother, hp, Option.map_some, if_pos ((property?_eq_some hp).2.trans hq.symm)]
    · rename_i hother
      cases hfound : d.property? other with
      | none => rfl
      | some p' =>
        obtain ⟨-, rfl⟩ := property?_eq_some hfound
        rw [Option.map_some, if_neg fun h => hother (h.trans hq)]

theorem property?_of_applyChange {now : Time.Millis} {r : ChangeRequest} {changed : List String}
    (h : d.applyChange now r = .ok (d', changed)) :
    ∃ p q, d.property? r.name = some p ∧ p.applyChange now r = .ok (q, changed) ∧
      ∀ name, d'.property? name = if name = r.name then some q else d.property? name := by
  obtain ⟨-, p, q, hp, hq, rfl⟩ := applyChange_eq_ok_iff.1 h
  exact ⟨p, q, hp, hq, property?_replace hp (Property.name_of_applyChange hq)⟩

theorem property?_expire (d : Device) (now : Time.Millis) (name : String) :
    (d.expire now).1.property? name =
      (d.property? name).map fun p => if p.isOverdue now then p.setState now .alert else p := by
  refine property?_map (fun p => ?_) name
  split <;> rfl

theorem state?_eq_clock? (d : Device) (name : String) :
    d.state? name = (d.clock? name).map (·.1) := by
  rw [state?, clock?, Option.map_map]
  rfl

theorem busySince?_eq_clock? (d : Device) (name : String) :
    d.busySince? name = (d.clock? name).bind (·.2.2) := by
  rw [busySince?, clock?, Option.bind_map]
  rfl

theorem clock?_of_applyChange {now : Time.Millis} {r : ChangeRequest} {changed : List String}
    (h : d.applyChange now r = .ok (d', changed)) (name : String) : d'.clock? name = d.clock? name := by
  obtain ⟨p, q, hp, hq, hproperty⟩ := property?_of_applyChange h
  rw [clock?, hproperty, clock?]
  split
  · rename_i hname
    obtain ⟨-, -, values, -, -, rfl⟩ := Property.applyChange_eq_ok_iff.1 hq
    rw [hname, hp]
    rfl
  · rfl

theorem state?_of_applyChange {now : Time.Millis} {r : ChangeRequest} {changed : List String}
    (h : d.applyChange now r = .ok (d', changed)) (name : String) : d'.state? name = d.state? name := by
  rw [state?_eq_clock?, clock?_of_applyChange h, state?_eq_clock?]

theorem state?_expire (d : Device) (now : Time.Millis) (name : String) :
    (d.expire now).1.state? name =
      (d.property? name).map fun p => if p.isOverdue now then .alert else p.state := by
  rw [state?, property?_expire, Option.map_map]
  congr 1
  funext p
  rw [Function.comp_apply]
  split <;> rfl

section

variable {timeout : UInt32} {since : Time.Millis}
  (h : d.clock? name = some (.busy, timeout, some since)) {now : Time.Millis}

include h

theorem clock?_expire (hin : now - since < timeout.toNat * 1000) :
    (d.expire now).1.clock? name = some (.busy, timeout, some since) := by
  obtain ⟨p, hp, hclock⟩ := Option.map_eq_some_iff.1 h
  have hsince : p.timeout = timeout ∧ p.busySince = some since := by simp_all
  have hoverdue : p.isOverdue now = false := by
    simp [Property.isOverdue, hsince, Int.not_le.2 hin]
  rw [clock?, property?_expire, hp, Option.map_some, hoverdue]
  exact congrArg some hclock

theorem state?_expire_of_overdue (htimeout : timeout ≠ 0)
    (hlate : timeout.toNat * 1000 ≤ now - since) :
    (d.expire now).1.state? name = some .alert := by
  obtain ⟨p, hp, hclock⟩ := Option.map_eq_some_iff.1 h
  simp only [Prod.mk.injEq] at hclock
  obtain ⟨hstate, rfl, hsince⟩ := hclock
  have hoverdue : p.isOverdue now = true := by
    simp [Property.isOverdue, hstate, htimeout, hsince, hlate]
  rw [state?_expire, hp, Option.map_some, if_pos hoverdue]

end

theorem clock?_expire_congr (h : d'.clock? name = d.clock? name) (now : Time.Millis) :
    (d'.expire now).1.clock? name = (d.expire now).1.clock? name := by
  simp only [clock?, property?_expire, Option.map_map] at h ⊢
  cases hq : d'.property? name with
  | none =>
    rw [hq] at h
    rw [Option.map_eq_none_iff.1 h.symm]
  | some q =>
    rw [hq] at h
    obtain ⟨p, hp, hclock⟩ := Option.map_eq_some_iff.1 h.symm
    simp only [Prod.mk.injEq] at hclock
    obtain ⟨hstate, htimeout, hsince⟩ := hclock
    have hoverdue : q.isOverdue now = p.isOverdue now := by
      simp only [Property.isOverdue, hstate, htimeout, hsince]
    rw [hp, Option.map_some, Option.map_some, Function.comp_apply, Function.comp_apply, hoverdue]
    split
    · simp [Property.setState, htimeout]
    · simp [hstate, htimeout, hsince]

theorem alert_expire {now : Time.Millis} (h : d.state? name = some .alert) :
    (d.expire now).1.state? name = some .alert := by
  obtain ⟨p, hp, hstate⟩ := Option.map_eq_some_iff.1 h
  rw [state?_expire, hp]
  simp [hstate]

theorem busy_of_expire {now : Time.Millis} (h : (d.expire now).1.state? name = some .busy) :
    d.state? name = some .busy := by
  rw [state?_expire] at h
  obtain ⟨p, hp, hstate⟩ := Option.map_eq_some_iff.1 h
  rw [state?, hp]
  split at hstate
  · cases hstate
  · exact congrArg some hstate

end

end Device

end InstrumentBus
