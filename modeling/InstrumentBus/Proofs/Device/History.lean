import InstrumentBus.Proofs.Client.Lockstep
import InstrumentBus.Proofs.Property.Shape

/-!
Devices and what was done to them. The properties of a device stand in the order in which they were
defined, and each that is busy knows since when.
-/

namespace InstrumentBus

namespace Device

open Property (Follows)

def names (d : Device) : List String := d.properties.map (·.name)

theorem property?_filter (d : Device) (other name : String) :
    property? { d with properties := d.properties.filter (·.name != other) } name =
      if name = other then none else d.property? name := by
  rw [property?, List.find?_filter]
  split
  · rename_i hsame
    rw [hsame, List.find?_eq_none]
    simp
  · rename_i hother
    rw [property?]
    congr 1
    funext p
    by_cases hp : p.name = name
    · simp [hp, hother]
    · simp [hp]

theorem property?_eq_none_iff {d : Device} {name : String} :
    d.property? name = none ↔ name ∉ d.names := by
  simp [property?, names, List.find?_eq_none]

/-- The time of a step; a property that is put on a device brings its own. -/
def Step.time? : Step → Option Time.Millis
  | .define p => p.busySince
  | .remove now _ | .removeAll now | .change now _ | .setState now _ _ | .expire now => some now

inductive Effect (d : Device) : Step → Device → Prop
  | refused {s : Step} : Effect d s d
  | defined {p : Property} (hdevice : p.device = d.name) (hnew : p.name ∉ d.names) :
      Effect d (.define p) { d with properties := d.properties ++ [p] }
  | removed (now : Time.Millis) (name : String) :
      Effect d (.remove now name) { d with properties := d.properties.filter (·.name != name) }
  | cleared (now : Time.Millis) : Effect d (.removeAll now) { d with properties := [] }
  | called {s : Step} {p q : Property} {c : Property.Call} (hp : d.property? p.name = some p)
      (htime : s.time? = some c.now) (hq : c.outcome p = .ok q) : Effect d s (d.replace q)
  | expired (now : Time.Millis) : Effect d (.expire now) (d.expire now).1

theorem effect_step (d : Device) (s : Step) : Effect d s (d.step s).1 := by
  cases s with
  | define p =>
    simp only [step]
    split
    · rename_i h
      obtain ⟨hdevice, hnew, rfl, -⟩ := define_eq_ok_iff.1 h
      exact .defined hdevice (property?_eq_none_iff.1 hnew)
    · exact .refused
  | remove now name =>
    simp only [step]
    split
    · rename_i h
      obtain ⟨-, rfl, -⟩ := remove?_eq_some_iff.1 h
      exact .removed now name
    · exact .refused
  | removeAll now => exact .cleared now
  | change now r =>
    simp only [step]
    split
    · rename_i h
      obtain ⟨-, p, q, hp, hq, rfl⟩ := applyChange_eq_ok_iff.1 h
      rw [← (property?_eq_some hp).2] at hp
      exact .called (c := .change now r) hp rfl (map_eq_ok_iff.2 ⟨_, hq, rfl⟩)
    · exact .refused
  | setState now name state =>
    simp only [step]
    split
    · rename_i p hp
      rw [← (property?_eq_some hp).2] at hp
      exact .called (c := .setState now state) hp rfl rfl
    · exact .refused
  | expire now => exact .expired now

theorem names_expire (d : Device) (now : Time.Millis) : (d.expire now).1.names = d.names := by
  rw [names, expire, List.map_map]
  apply List.map_congr_left
  intro p _
  rw [Function.comp_apply]
  split <;> rfl

theorem Effect.name {d d' : Device} {s : Step} (h : Effect d s d') : d'.name = d.name := by
  cases h <;> rfl

theorem Effect.names {d d' : Device} {s : Step} (h : Effect d s d') :
    d'.names.Sublist d.names ∨
      ∃ p, s = .define p ∧ p.name ∉ d.names ∧ d'.names = d.names ++ [p.name] := by
  cases h with
  | refused => exact .inl (List.Sublist.refl _)
  | defined _ hnew => exact .inr ⟨_, rfl, hnew, List.map_append⟩
  | removed => exact .inl (List.filter_sublist.map _)
  | cleared => exact .inl (List.nil_sublist _)
  | called =>
    rw [Device.names, Lockstep.names_replace]
    exact .inl (List.Sublist.refl _)
  | expired now =>
    rw [names_expire]
    exact .inl (List.Sublist.refl _)

structure IsOrderly (d : Device) : Prop where
  names : d.names.Nodup
  device : ∀ p ∈ d.properties, p.device = d.name
  isWellFormed : ∀ p ∈ d.properties, p.IsWellFormed

theorem isOrderly_ofName (name : String) : (ofName name).IsOrderly :=
  ⟨.nil, by simp [ofName], by simp [ofName]⟩

theorem IsOrderly.property?_of_mem {d : Device} (h : d.IsOrderly) {p : Property}
    (hp : p ∈ d.properties) : d.property? p.name = some p :=
  find?_eq_some_of_nodup h.names hp

inductive Turns (device : String) (s : Step) : Option Property → Option Property → Prop
  | gone {before : Option Property} : Turns device s before none
  | defined {p : Property} (hs : s = .define p) (hdevice : p.device = device) :
      Turns device s none (some p)
  | kept {p : Property} : Turns device s (some p) (some p)
  | follows {p q : Property} {now : Time.Millis} (htime : s.time? = some now)
      (h : Follows now p q) : Turns device s (some p) (some q)

namespace IsOrderly

variable {d d' : Device} (hd : d.IsOrderly) {s : Step}
include hd

theorem turns (h : Effect d s d') (name : String) :
    Turns d.name s (d.property? name) (d'.property? name) := by
  have hkept : Turns d.name s (d.property? name) (d.property? name) := by
    cases d.property? name with
    | none => exact .gone
    | some p => exact .kept
  cases h with
  | refused => exact hkept
  | @defined p hdevice hnew =>
    have happend : property? { d with properties := d.properties ++ [p] } name =
        (d.property? name).or (if p.name == name then some p else none) := by
      rw [property?, List.find?_append, List.find?_singleton]
      rfl
    rw [happend]
    cases hfound : d.property? name with
    | some q => exact .kept
    | none =>
      rw [Option.none_or]
      split
      · exact .defined rfl hdevice
      · exact .gone
  | removed now other =>
    rw [property?_filter]
    split
    · exact .gone
    · exact hkept
  | cleared => exact .gone
  | @called _ p q c hp htime hq =>
    have hfollows : Follows c.now p q :=
      (hd.isWellFormed p (property?_eq_some hp).1).follows_of_outcome hq
    have hname : q.name = p.name := congrArg Property.Shape.name hfollows.shape
    rw [property?_replace hp hname]
    split
    · rename_i hsame
      rw [hsame, hp]
      exact .follows htime hfollows
    · exact hkept
  | expired now =>
    rw [property?_expire]
    cases d.property? name with
    | none => exact .gone
    | some p =>
      rw [Option.map_some]
      split
      · exact .follows rfl (Property.follows_setState p now .alert)
      · exact .kept

theorem of_effect (h : Effect d s d') (hs : ∀ p, s = .define p → p.IsReached) : d'.IsOrderly := by
  have hname : d'.name = d.name := h.name
  have hnames : d'.names.Nodup := by
    obtain hsub | ⟨p, -, hnew, heq⟩ := h.names
    · exact hd.names.sublist hsub
    · rw [heq, ← List.concat_eq_append]
      exact hd.names.concat hnew
  have hproperty : ∀ p ∈ d'.properties, p.device = d'.name ∧ p.IsWellFormed := by
    intro p hp
    have hturns := hd.turns h p.name
    have hfound : d'.property? p.name = some p := find?_eq_some_of_nodup hnames hp
    rw [hname]
    rw [hfound] at hturns
    generalize hbefore : d.property? p.name = before at hturns
    cases hturns with
    | defined hdefine hdevice => exact ⟨hdevice, (hs p hdefine).isWellFormed⟩
    | kept =>
      obtain ⟨hmem, -⟩ := property?_eq_some hbefore
      exact ⟨hd.device p hmem, hd.isWellFormed p hmem⟩
    | @follows q _ now htime hfollows =>
      obtain ⟨hmem, -⟩ := property?_eq_some hbefore
      have hdevice : p.device = q.device := congrArg Property.Shape.device hfollows.shape
      exact ⟨hdevice.trans (hd.device q hmem), (hd.isWellFormed q hmem).of_follows hfollows⟩
  exact ⟨hnames, fun p hp => (hproperty p hp).1, fun p hp => (hproperty p hp).2⟩

end IsOrderly

section

variable {d : Device} (steps : List Step) {s : Step}

theorem after_append_singleton (d : Device) (s : Step) :
    d.after (steps ++ [s]) = ((d.after steps).step s).1 :=
  List.foldl_concat ..

theorem effect_after (d : Device) (s : Step) :
    Effect (d.after steps) s (d.after (steps ++ [s])) := by
  rw [after_append_singleton]
  exact effect_step _ s

theorem name_after (d : Device) : (d.after steps).name = d.name := by
  induction steps using List.reverseRecOn with
  | nil => rfl
  | append_singleton steps s ih => rw [(effect_after steps d s).name, ih]

theorem forall_define_append_singleton {P : Property → Prop} :
    (∀ p, .define p ∈ steps ++ [s] → P p) ↔
      (∀ p, .define p ∈ steps → P p) ∧ ∀ p, s = .define p → P p := by
  simp only [List.mem_append, List.mem_singleton, or_imp, forall_and, eq_comm (a := s)]

theorem IsOrderly.after (hd : d.IsOrderly) (hsteps : ∀ p, .define p ∈ steps → p.IsReached) :
    (d.after steps).IsOrderly := by
  induction steps using List.reverseRecOn with
  | nil => exact hd
  | append_singleton steps s ih =>
    obtain ⟨hbefore, hs⟩ := (forall_define_append_singleton steps).1 hsteps
    exact (ih hbefore).of_effect (effect_after steps d s) hs

end

section

variable {device : String} {steps : List Step}

/-- The step at place `i` made `P` true of the device, and it has been true since. -/
structure HoldsFrom (P : Device → Prop) (device : String) (steps : List Step) (i : Nat) : Prop where
  lt : i < steps.length
  before : ¬P ((ofName device).after (steps.take i))
  since : ∀ j, i < j → j ≤ steps.length → P ((ofName device).after (steps.take j))

theorem HoldsFrom.holds {P : Device → Prop} {i : Nat} (h : HoldsFrom P device steps i) :
    P ((ofName device).after steps) := by
  have := h.since steps.length h.lt le_rfl
  rwa [List.take_length] at this

theorem holdsFrom_append_singleton {P : Device → Prop} {s : Step} {i : Nat} :
    HoldsFrom P device (steps ++ [s]) i ↔
      P ((ofName device).after (steps ++ [s])) ∧
        (HoldsFrom P device steps i ∨ i = steps.length ∧ ¬P ((ofName device).after steps)) := by
  have hlength : (steps ++ [s]).length = steps.length + 1 := by simp
  have htake {j : Nat} (hj : j ≤ steps.length) : (steps ++ [s]).take j = steps.take j :=
    List.take_append_of_le_length hj
  constructor
  · intro h
    refine ⟨h.holds, ?_⟩
    obtain hi | rfl : i < steps.length ∨ i = steps.length := by
      have := h.lt
      omega
    · refine .inl ⟨hi, ?_, ?_⟩
      · rw [← htake hi.le]
        exact h.before
      · intro j hij hj
        rw [← htake hj]
        exact h.since j hij (by omega)
    · have := h.before
      rw [htake le_rfl, List.take_length] at this
      exact .inr ⟨rfl, this⟩
  · rintro ⟨hlast, h⟩
    have hsince {i : Nat}
        (h : ∀ j, i < j → j ≤ steps.length → P ((ofName device).after (steps.take j))) :
        ∀ j, i < j → j ≤ (steps ++ [s]).length →
          P ((ofName device).after ((steps ++ [s]).take j)) := by
      intro j hij hj
      obtain hj | rfl : j ≤ steps.length ∨ j = (steps ++ [s]).length := by omega
      · rw [htake hj]
        exact h j hij hj
      · rwa [List.take_length]
    obtain h | ⟨rfl, hbefore⟩ := h
    · refine ⟨by have := h.lt; omega, ?_, hsince h.since⟩
      rw [htake h.lt.le]
      exact h.before
    · refine ⟨by omega, ?_, hsince fun j hij hj => absurd hij (by omega)⟩
      rwa [htake le_rfl, List.take_length]

structure IsDefinedAt (device : String) (steps : List Step) (name : String) (i : Nat) : Prop where
  defined : ∃ p, steps[i]? = some (.define p) ∧ p.name = name
  present : HoldsFrom (name ∈ ·.names) device steps i

theorem IsDefinedAt.append_singleton {name : String} {s : Step} {i : Nat}
    (h : IsDefinedAt device steps name i)
    (hname : name ∈ ((ofName device).after (steps ++ [s])).names) :
    IsDefinedAt device (steps ++ [s]) name i := by
  obtain ⟨p, hp, hpname⟩ := h.defined
  refine ⟨⟨p, ?_, hpname⟩, holdsFrom_append_singleton.2 ⟨hname, .inl h.present⟩⟩
  rwa [List.getElem?_append_left h.present.lt]

theorem isDefinedAt_length {p : Property} (hbefore : p.name ∉ ((ofName device).after steps).names)
    (hname : p.name ∈ ((ofName device).after (steps ++ [.define p])).names) :
    IsDefinedAt device (steps ++ [.define p]) p.name steps.length :=
  ⟨⟨p, List.getElem?_concat_length, rfl⟩, holdsFrom_append_singleton.2 ⟨hname, .inr ⟨rfl, hbefore⟩⟩⟩

def IsDefinedBefore (device : String) (steps : List Step) (name other : String) : Prop :=
  ∃ i j, IsDefinedAt device steps name i ∧ IsDefinedAt device steps other j ∧ i < j

theorem pairwise_names (device : String) (steps : List Step) :
    ((ofName device).after steps).names.Pairwise (IsDefinedBefore device steps) ∧
      ∀ name ∈ ((ofName device).after steps).names, ∃ i, IsDefinedAt device steps name i := by
  induction steps using List.reverseRecOn with
  | nil => exact ⟨.nil, by simp [after, names, ofName]⟩
  | append_singleton steps s ih =>
    obtain ⟨hpairwise, hdefined⟩ := ih
    -- Those that were there before keep their order.
    have hold {ns : List String} (hsub : ns.Sublist ((ofName device).after steps).names)
        (hns : ns ⊆ ((ofName device).after (steps ++ [s])).names) :
        ns.Pairwise (IsDefinedBefore device (steps ++ [s])) ∧
          ∀ name ∈ ns, ∃ i, IsDefinedAt device (steps ++ [s]) name i := by
      constructor
      · refine (hpairwise.sublist hsub).imp_of_mem ?_
        rintro name other hname hother ⟨i, j, hi, hj, hij⟩
        exact ⟨i, j, hi.append_singleton (hns hname), hj.append_singleton (hns hother), hij⟩
      · intro name hname
        obtain ⟨i, hi⟩ := hdefined name (hsub.subset hname)
        exact ⟨i, hi.append_singleton (hns hname)⟩
    obtain hsub | ⟨p, rfl, hnew, hnames⟩ := (effect_after steps (ofName device) s).names
    · exact hold hsub (List.Subset.refl _)
    · have hnewest : IsDefinedAt device (steps ++ [.define p]) p.name steps.length :=
        isDefinedAt_length hnew (by simp [hnames])
      obtain ⟨hpairwise', hdefined'⟩ := hold (List.Sublist.refl _) (by simp [hnames])
      rw [hnames]
      constructor
      · refine List.pairwise_append.2 ⟨hpairwise', List.pairwise_singleton .., ?_⟩
        intro name hname other hother
        obtain rfl := List.mem_singleton.1 hother
        obtain ⟨i, hi⟩ := hdefined name hname
        have hlater : name ∈ ((ofName device).after (steps ++ [.define p])).names := by
          simp [hnames, hname]
        exact ⟨i, steps.length, hi.append_singleton hlater, hnewest, hi.present.lt⟩
      · intro name hname
        obtain hname | hname := List.mem_append.1 hname
        · exact hdefined' name hname
        · rw [List.mem_singleton.1 hname]
          exact ⟨_, hnewest⟩

theorem Turns.busySince {s : Step} {before later : Option Property}
    (h : Turns device s before later) (hs : ∀ p, s = .define p → p.IsReached)
    (hbefore : ∀ p ∈ before, p.IsWellFormed) :
    later.bind (·.busySince) =
      if later.map (·.state) = some .busy then
        (if before.map (·.state) = some .busy then before.bind (·.busySince) else s.time?)
      else none := by
  have hidle {p : Property} (hp : p.IsWellFormed) (hstate : p.state ≠ .busy) :
      p.busySince = none := by
    simpa using mt hp.busy.1 hstate
  cases h with
  | gone => rfl
  | @defined p hdefine _ =>
    have hnone := hidle (hs p hdefine).isWellFormed
    subst hdefine
    by_cases hbusy : p.state = .busy
    · simp [hbusy, Step.time?]
    · simp [hbusy, hnone hbusy]
  | @kept p =>
    have hnone := hidle (hbefore p rfl)
    by_cases hbusy : p.state = .busy
    · simp [hbusy]
    · simp [hbusy, hnone hbusy]
  | @follows p q now htime hfollows => simp [hfollows.busySince, htime]

theorem busySince?_of_effect {d d' : Device} {s : Step} {name : String} (hd : d.IsOrderly)
    (hs : ∀ p, s = .define p → p.IsReached) (h : Effect d s d') :
    d'.busySince? name =
      if d'.state? name = some .busy then
        (if d.state? name = some .busy then d.busySince? name else s.time?)
      else none :=
  (hd.turns h name).busySince hs fun p hp => hd.isWellFormed p (property?_eq_some hp).1

/-- A step, made or brought along at the time `since`, found a property in another state or missing,
and made it busy; and it has been busy since. -/
def IsBusySince (device : String) (steps : List Step) (name : String) (since : Time.Millis) :
    Prop :=
  ∃ (i : Nat) (s : Step), steps[i]? = some s ∧ s.time? = some since ∧
    HoldsFrom (·.state? name = some .busy) device steps i

theorem isBusySince_append_singleton {s : Step} {name : String} {since : Time.Millis} :
    IsBusySince device (steps ++ [s]) name since ↔
      ((ofName device).after (steps ++ [s])).state? name = some .busy ∧
        (IsBusySince device steps name since ∨
          ((ofName device).after steps).state? name ≠ some .busy ∧ s.time? = some since) := by
  unfold IsBusySince
  simp only [holdsFrom_append_singleton]
  constructor
  · rintro ⟨i, t, ht, htime, hbusy, h | ⟨rfl, hbefore⟩⟩
    · rw [List.getElem?_append_left h.lt] at ht
      exact ⟨hbusy, .inl ⟨i, t, ht, htime, h⟩⟩
    · rw [List.getElem?_concat_length] at ht
      cases ht
      exact ⟨hbusy, .inr ⟨hbefore, htime⟩⟩
  · rintro ⟨hbusy, ⟨i, t, ht, htime, h⟩ | ⟨hbefore, htime⟩⟩
    · refine ⟨i, t, ?_, htime, hbusy, .inl h⟩
      rwa [List.getElem?_append_left h.lt]
    · exact ⟨_, s, List.getElem?_concat_length, htime, hbusy, .inr ⟨rfl, hbefore⟩⟩

theorem busySince?_after (hsteps : ∀ p, .define p ∈ steps → p.IsReached) (name : String)
    (since : Time.Millis) :
    ((ofName device).after steps).busySince? name = some since ↔
      IsBusySince device steps name since := by
  induction steps using List.reverseRecOn with
  | nil =>
    refine iff_of_false nofun ?_
    rintro ⟨i, s, hs, -⟩
    cases hs
  | append_singleton steps s ih =>
    obtain ⟨hbefore, hs⟩ := (forall_define_append_singleton steps).1 hsteps
    have hd := (isOrderly_ofName device).after steps hbefore
    rw [isBusySince_append_singleton, ← ih hbefore,
      busySince?_of_effect hd hs (effect_after steps _ s)]
    split
    · rename_i hbusy
      split
      · rename_i hwas
        simp [hbusy, hwas]
      · rename_i hwas
        have hno : ((ofName device).after steps).busySince? name ≠ some since := by
          rw [Ne, ih hbefore]
          rintro ⟨i, t, -, -, h⟩
          exact hwas h.holds
        simp [hbusy, hwas, hno]
    · rename_i hbusy
      simp [hbusy]

end

end Device

end InstrumentBus
