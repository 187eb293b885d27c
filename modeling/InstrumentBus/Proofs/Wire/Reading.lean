import InstrumentBus.Wire.Splitter

/-!
What a splitter reads, byte after byte, without regard to when it is asked for events: `read` gives
the events of some bytes and the splitter after them, and `drain` is `read` on what is at hand.
-/

namespace InstrumentBus.Wire

open Text (Bytes)

def Event.recast (f : Nat → Nat) (g : Bytes → Bytes) : Event → Event
  | .frame start stop bs => .frame (f start) (f stop) (g bs.reverse).reverse
  | .fault e => .fault e

namespace Splitter

variable (s : Splitter) (bs cs : Bytes)

def isCutBy (name : String) : Bool := !s.opened.isEmpty && outermostTags.contains name

theorem openElement_eq (name : String) :
    s.openElement name =
      if s.isCutBy name then
        ({ s with opened := [name], skipping := false, frameStart := some s.tagStart },
          if s.skipping then none
          else s.opened.getLast?.map fun tag => .fault (.malformed tag (.truncated name)))
      else if s.opened.isEmpty && !s.skipping then
        ({ s with opened := [name], frameStart := some s.tagStart }, none)
      else ({ s with opened := name :: s.opened }, none) := by
  unfold openElement isCutBy
  cases hcut : !s.opened.isEmpty && outermostTags.contains name with
  | true =>
    simp only [↓reduceIte, Bool.true_and, List.isEmpty_nil, Bool.not_false]
    cases s.skipping <;> rfl
  | false =>
    simp only [Bool.false_eq_true, ↓reduceIte, Bool.false_and]
    split
    · rename_i hnew
      have : s.opened = [] := by simp_all
      simp only [this]
    · rfl

theorem isCutBy_iff {s : Splitter} {name : String} :
    s.isCutBy name = true ↔ s.opened ≠ [] ∧ name ∈ outermostTags := by
  simp [isCutBy]

theorem openElement_eq_some_iff {s : Splitter} {name : String} {event : Event} :
    (s.openElement name).2 = some event ↔
      name ∈ outermostTags ∧ s.skipping = false ∧ ∃ outer, s.opened.getLast? = some outer ∧
        .fault (.malformed outer (.truncated name)) = event := by
  rw [openElement_eq]
  by_cases hcut : s.isCutBy name = true
  · have hname : name ∈ outermostTags := (isCutBy_iff.1 hcut).2
    cases hskipping : s.skipping <;> simp [hcut, hname]
  · rw [if_neg hcut, apply_ite Prod.snd, ite_self]
    constructor
    · simp
    · rintro ⟨hname, -, outer, houter, -⟩
      have hopened : s.opened ≠ [] := by
        intro hnil
        simp [hnil] at houter
      exact absurd (isCutBy_iff.2 ⟨hopened, hname⟩) hcut

/-- What reading the byte `b` at offset `here` can give. -/
inductive Lexed (s : Splitter) (here : Nat) (b : UInt8) : Splitter × Option Event → Prop
  | goesOn {l : Lex} : (s.lex = .text → l = .text) → Lexed s here b ({ s with lex := l }, none)
  | begins : s.lex = .text →
    Lexed s here b ({ s with lex := .open, tagStart := here, inGarbage := false }, none)
  | strays {fault : FrameFault} : s.opened = [] →
    Lexed s here b ({ s with lex := .text, inGarbage := true }, some (stray fault))
  | opens {name : Bytes} {l : Lex} : s.lex = .startName name → isNameByte b = false →
    (s.openElement (spell name)).2 = none →
    Lexed s here b ({ (s.openElement (spell name)).1 with lex := l }, none)
  | cuts {name : Bytes} {event : Event} : s.lex = .startName name → isNameByte b = false →
    (s.openElement (spell name)).2 = some event →
    Lexed s here b
      ({ (s.openElement (spell name)).1 with lex := .attributes none false, position := here },
        some event)
  | shuts {o : String} {os : List String} : s.opened = o :: os → os ≠ [] →
    Lexed s here b ({ s with lex := .text, opened := os }, none)
  | finishes : Lexed s here b ({ s with lex := .text } : Splitter).finishFrame
  | breaks {fault : FrameFault} :
    Lexed s here b
      ({ s with lex := .text, opened := [], frameStart := none, skipping := false },
        if s.skipping then none else s.opened.getLast?.map fun tag => .fault (.malformed tag fault))
  | closesNone {name : String} {fault : FrameFault} : s.opened = [] →
    Lexed s here b ({ s with lex := .text }, some (.fault (.malformed name fault)))

section

variable {here : Nat} {b : UInt8}

theorem lexed_closeInnermost : Lexed s here b ({ s with lex := .text } : Splitter).closeInnermost := by
  simp only [closeInnermost]
  split
  · rename_i hopened
    exact .shuts hopened (by simp)
  · exact .finishes

theorem lexed_closeElement (name : String) :
    Lexed s here b (({ s with lex := .text } : Splitter).closeElement name) := by
  simp only [closeElement]
  split
  · rename_i hopened
    exact .closesNone hopened
  · split
    · exact s.lexed_closeInnermost
    · exact .breaks

theorem attributeByte_cases (quote : Option UInt8) (slash : Bool) (b : UInt8) :
    (∃ l, s.attributeByte quote slash b = ({ s with lex := l }, none)) ∨
      slash = true ∧
        s.attributeByte quote slash b = ({ s with lex := .text } : Splitter).closeInnermost := by
  cases quote with
  | some q =>
    simp only [attributeByte]
    split
    · exact .inl ⟨_, rfl⟩
    · exact .inl ⟨s.lex, rfl⟩
  | none =>
    simp only [attributeByte]
    repeat' split
    · exact .inl ⟨_, rfl⟩
    · exact .inl ⟨_, rfl⟩
    · rename_i hslash
      exact .inr ⟨hslash, rfl⟩
    · exact .inl ⟨_, rfl⟩
    · exact .inl ⟨_, rfl⟩

theorem lexed_lexByte (here : Nat) (b : UInt8) : Lexed s here b (s.lexByte here b) := by
  have hgoes (l : Lex) (hlex : s.lex ≠ .text) : Lexed s here b ({ s with lex := l }, none) :=
    .goesOn (absurd · hlex)
  cases hl : s.lex with
  | text =>
    simp only [lexByte, hl]
    split
    · exact .begins hl
    · split
      · rename_i hopened
        simp only [Bool.and_eq_true, List.isEmpty_iff] at hopened
        exact .strays hopened.1.1
      · exact .goesOn (l := s.lex) id
  | «open» =>
    have hgoes (l : Lex) := hgoes l (by simp [hl])
    simp only [lexByte, hl]
    repeat' split
    · exact hgoes _
    · exact hgoes _
    · exact hgoes _
    · exact hgoes _
    · rename_i hopened
      exact .strays (List.isEmpty_iff.1 hopened)
    · exact hgoes _
  | startName name =>
    simp only [lexByte, hl]
    split
    · exact hgoes _ (by simp [hl])
    · rename_i hb
      have hb : isNameByte b = false := by simpa using hb
      cases ho : s.openElement (spell name) with
      | mk t told =>
        have ht : (s.openElement (spell name)).1 = t := by rw [ho]
        have htold : (s.openElement (spell name)).2 = told := by rw [ho]
        cases told with
        | some event => exact ht ▸ .cuts hl hb htold
        | none =>
          obtain ⟨l, hattribute⟩ | ⟨hslash, -⟩ := t.attributeByte_cases none false b
          · simp only [hattribute]
            exact ht ▸ .opens hl hb htold
          · cases hslash
  | attributes quote slash =>
    have hgoes (l : Lex) := hgoes l (by simp [hl])
    simp only [lexByte, hl]
    obtain ⟨l, hattribute⟩ | ⟨-, hattribute⟩ := s.attributeByte_cases quote slash b
    · exact hattribute ▸ hgoes l
    · exact hattribute ▸ s.lexed_closeInnermost
  | endName name =>
    have hgoes (l : Lex) := hgoes l (by simp [hl])
    simp only [lexByte, hl]
    repeat' split
    · exact hgoes _
    · exact s.lexed_closeElement (spell name)
    · exact hgoes _
  | endTail name =>
    simp only [lexByte, hl]
    split
    · exact s.lexed_closeElement (spell name)
    · exact .goesOn (l := s.lex) id
  | declaration =>
    simp only [lexByte, hl]
    split
    · exact hgoes _ (by simp [hl])
    · exact .goesOn (l := s.lex) id
  | _ =>
    have hgoes (l : Lex) := hgoes l (by simp [hl])
    simp only [lexByte, hl]
    repeat' split
    all_goals exact hgoes _

end

/-- A splitter with its offsets changed by `f` and what it holds by `g`, and with other bytes
unread. -/
def recast (s : Splitter) (f : Nat → Nat) (g : Bytes → Bytes) (bs : Bytes) : Splitter := { s with
  position := f s.position
  tagStart := f s.tagStart
  frameStart := s.frameStart.map f
  held := g s.held
  unread := bs }

section

variable (f : Nat → Nat) (g : Bytes → Bytes)

def mapRecast (bs : Bytes) (r : Splitter × Option Event) : Splitter × Option Event :=
  (r.1.recast f g bs, r.2.map (·.recast f g))

theorem mapRecast_ite (c : Prop) [Decidable c] (r t : Splitter × Option Event) :
    mapRecast f g bs (if c then r else t) =
      if c then mapRecast f g bs r else mapRecast f g bs t :=
  apply_ite ..

theorem openElement_recast (name : String) :
    (s.recast f g bs).openElement name = mapRecast f g bs (s.openElement name) := by
  have hcut : (s.recast f g bs).isCutBy name = s.isCutBy name := rfl
  simp only [openElement_eq, mapRecast_ite, hcut]
  split
  · simp only [mapRecast, apply_ite (Option.map _), Option.map_none, Option.map_map]
    rfl
  · rfl

theorem finishFrame_recast : (s.recast f g bs).finishFrame = mapRecast f g bs s.finishFrame := by
  simp only [finishFrame, mapRecast, apply_ite (Option.map _), Option.map_none]
  simp only [recast, Option.map_map, Function.comp_def, Event.recast, List.reverse_reverse]
  rfl

theorem closeInnermost_recast :
    (s.recast f g bs).closeInnermost = mapRecast f g bs s.closeInnermost := by
  have hopened : (s.recast f g bs).opened = s.opened := rfl
  simp only [closeInnermost]
  rw [hopened]
  split
  · rfl
  · exact s.finishFrame_recast bs f g

theorem closeElement_recast (name : String) :
    (s.recast f g bs).closeElement name = mapRecast f g bs (s.closeElement name) := by
  have hopened : (s.recast f g bs).opened = s.opened := rfl
  simp only [closeElement, hopened]
  split
  · rfl
  · rw [mapRecast_ite, closeInnermost_recast]
    congr 1
    simp only [mapRecast, apply_ite (Option.map _), Option.map_none, Option.map_map]
    rfl

theorem attributeByte_recast (quote : Option UInt8) (slash : Bool) (b : UInt8) :
    (s.recast f g bs).attributeByte quote slash b =
      mapRecast f g bs (s.attributeByte quote slash b) := by
  cases quote with
  | some q =>
    simp only [attributeByte, mapRecast_ite]
    rfl
  | none =>
    simp only [attributeByte, mapRecast_ite, ← closeInnermost_recast]
    rfl

theorem lexByte_recast (here : Nat) (b : UInt8) :
    (s.recast f g bs).lexByte (f here) b = mapRecast f g bs (s.lexByte here b) := by
  have hlex : (s.recast f g bs).lex = s.lex := rfl
  cases hl : s.lex with
  | startName name =>
    simp only [lexByte, hlex, hl, mapRecast_ite, openElement_recast]
    split
    · rfl
    · cases s.openElement (spell name) with
      | mk t event =>
        cases event with
        | some event => rfl
        | none => exact t.attributeByte_recast bs f g none false b
  | attributes quote slash =>
    simp only [lexByte, hlex, hl, attributeByte_recast]
  | _ =>
    simp only [lexByte, hlex, hl, mapRecast_ite, ← closeElement_recast]
    rfl

end

def withUnread (s : Splitter) (bs : Bytes) : Splitter := { s with unread := bs }

@[simp] theorem withUnread_self : s.withUnread s.unread = s := rfl

@[simp] theorem withUnread_withUnread : (s.withUnread bs).withUnread cs = s.withUnread cs := rfl

@[simp] theorem unread_withUnread : (s.withUnread bs).unread = bs := rfl

@[simp] theorem position_withUnread : (s.withUnread bs).position = s.position := rfl

@[simp] theorem lex_withUnread : (s.withUnread bs).lex = s.lex := rfl

@[simp] theorem frameStart_withUnread : (s.withUnread bs).frameStart = s.frameStart := rfl

@[simp] theorem keepFrom_withUnread : (s.withUnread bs).keepFrom = s.keepFrom := rfl

def mapUnread {α : Type} (bs : Bytes) (r : Splitter × α) : Splitter × α := (r.1.withUnread bs, r.2)

theorem mapUnread_ite {α : Type} (c : Prop) [Decidable c] (r t : Splitter × α) :
    mapUnread bs (if c then r else t) = if c then mapUnread bs r else mapUnread bs t :=
  apply_ite ..

theorem recast_id : s.recast id id bs = s.withUnread bs := by
  simp only [recast, Option.map_id, id_eq]
  rfl

theorem mapRecast_id (r : Splitter × Option Event) : mapRecast id id bs r = mapUnread bs r := by
  have hevent : Event.recast id id = id := by
    funext event
    cases event <;> simp [Event.recast]
  simp only [mapRecast, recast_id, hevent, id_eq, Option.map_id']
  rfl

theorem lexByte_withUnread (here : Nat) (b : UInt8) :
    (s.withUnread bs).lexByte here b = mapUnread bs (s.lexByte here b) := by
  have hall : (s.recast id id bs).lexByte here b = mapRecast id id bs (s.lexByte here b) :=
    lexByte_recast ..
  rwa [recast_id, mapRecast_id] at hall

theorem checkSize_withUnread : (s.withUnread bs).checkSize = mapUnread bs s.checkSize := by
  cases hf : s.frameStart with
  | none => simp only [checkSize, frameStart_withUnread, hf, mapUnread]
  | some start =>
    simp only [checkSize, frameStart_withUnread, hf, mapUnread_ite]
    rfl

theorem trim_withUnread (before : Nat) :
    (s.withUnread bs).trim before = (s.trim before).withUnread bs := by
  simp only [trim, apply_ite (withUnread · bs)]
  rfl

def advance (s : Splitter) (b : UInt8) : Splitter :=
  { s with position := s.position + 1, held := b :: s.held }

theorem advance_eq (b : UInt8) :
    { s with position := s.position + 1, held := b :: s.held } = s.advance b := rfl

@[simp] theorem advance_lex (b : UInt8) : (s.advance b).lex = s.lex := rfl

theorem advance_withUnread (b : UInt8) :
    (s.withUnread bs).advance b = (s.advance b).withUnread bs := rfl

/-- A step up to the check of the size. -/
def lexStep (s : Splitter) (b : UInt8) : Splitter × Option Event :=
  let (next, event) := (s.advance b).lexByte s.position b
  (if next.position = s.position then { next with held := s.held } else next, event)

theorem step_eq (b : UInt8) :
    s.step b =
      match s.lexStep b with
      | (next, some event) => (next.trim s.keepFrom, some event)
      | (next, none) => (next.checkSize.1.trim s.keepFrom, next.checkSize.2) := by
  simp only [step, lexStep, advance_eq]
  cases ((s.advance b).lexByte s.position b).2 with
  | some event => rfl
  | none => rfl

theorem lexStep_position (b : UInt8) :
    (s.lexStep b).1.position = ((s.advance b).lexByte s.position b).1.position := by
  simp only [lexStep]
  split <;> rfl

theorem lexStep_lex (b : UInt8) :
    (s.lexStep b).1.lex = ((s.advance b).lexByte s.position b).1.lex := by
  simp only [lexStep]
  split <;> rfl

theorem lexStep_withUnread (b : UInt8) :
    (s.withUnread bs).lexStep b = mapUnread bs (s.lexStep b) := by
  simp only [lexStep, advance_withUnread, position_withUnread, lexByte_withUnread, mapUnread,
    apply_ite (withUnread · bs)]
  rfl

theorem step_withUnread (b : UInt8) : (s.withUnread bs).step b = mapUnread bs (s.step b) := by
  simp only [step_eq, lexStep_withUnread]
  cases s.lexStep b with
  | mk next event =>
    cases event with
    | some event => simp only [mapUnread, trim_withUnread, keepFrom_withUnread]
    | none => simp only [mapUnread, checkSize_withUnread, trim_withUnread, keepFrom_withUnread]

@[simp] theorem openElement_position (name : String) :
    (s.openElement name).1.position = s.position := by
  rw [openElement_eq]
  split
  · rfl
  · split <;> rfl

@[simp] theorem checkSize_position : s.checkSize.1.position = s.position := by
  unfold checkSize
  split
  · split <;> rfl
  · rfl

@[simp] theorem trim_position (before : Nat) : (s.trim before).position = s.position := by
  unfold trim
  split <;> rfl

@[simp] theorem trim_lex (before : Nat) : (s.trim before).lex = s.lex := by
  unfold trim
  split <;> rfl

/-- Only the byte behind a name may be left to be read again, by a splitter that is then among the
attributes. -/
theorem lexByte_position (here : Nat) (b : UInt8) :
    (s.lexByte here b).1.position = s.position ∨
      (s.lexByte here b).1.position = here ∧ (s.lexByte here b).1.lex = .attributes none false ∧
        (s.lexByte here b).2.isSome ∧ ∃ name, s.lex = .startName name := by
  have h := s.lexed_lexByte here b
  generalize s.lexByte here b = r at h ⊢
  cases h with
  | cuts hlex _ _ => exact .inr ⟨rfl, rfl, rfl, _, hlex⟩
  | opens => exact .inl (s.openElement_position _)
  | _ => exact .inl rfl

theorem lexStep_position_cases (b : UInt8) :
    (s.lexStep b).1.position = s.position + 1 ∨
      (s.lexStep b).1.position = s.position ∧ (s.lexStep b).1.lex = .attributes none false ∧
        (s.lexStep b).2.isSome ∧ ∃ name, s.lex = .startName name := by
  rw [lexStep_position, lexStep_lex]
  exact (s.advance b).lexByte_position s.position b

theorem step_position (b : UInt8) :
    (s.step b).1.position = s.position + 1 ∨
      (s.step b).1.position = s.position ∧ (s.step b).1.lex = .attributes none false ∧
        (s.step b).2.isSome ∧ ∃ name, s.lex = .startName name := by
  have hlex := s.lexStep_position_cases b
  rw [step_eq]
  cases h : s.lexStep b with
  | mk next event =>
    rw [h] at hlex
    cases event with
    | some event => simpa using hlex
    | none =>
      left
      simpa using hlex

/-- Reads one byte, a second time if the first time only told of a tag name. -/
def readByte (s : Splitter) (b : UInt8) : Splitter × List Event :=
  match s.step b with
  | (t, none) => (t, [])
  | (t, some event) =>
    if t.position = s.position then ((t.step b).1, event :: (t.step b).2.toList) else (t, [event])

def read (s : Splitter) : Bytes → Splitter × List Event
  | [] => (s, [])
  | b :: bs => (((s.readByte b).1.read bs).1, (s.readByte b).2 ++ ((s.readByte b).1.read bs).2)

@[simp] theorem read_nil : s.read [] = (s, []) := rfl

theorem read_singleton (b : UInt8) : s.read [b] = s.readByte b := by
  simp only [read, List.append_nil]

theorem read_append :
    s.read (bs ++ cs) =
      (((s.read bs).1.read cs).1, (s.read bs).2 ++ ((s.read bs).1.read cs).2) := by
  induction bs generalizing s with
  | nil => rfl
  | cons b bs ih => simp only [List.cons_append, read, ih, List.append_assoc]

theorem readByte_withUnread (b : UInt8) :
    (s.withUnread bs).readByte b = mapUnread bs (s.readByte b) := by
  unfold readByte
  rw [step_withUnread]
  cases s.step b with
  | mk t event =>
    cases event with
    | none => rfl
    | some event =>
      simp only [mapUnread, step_withUnread, position_withUnread]
      split <;> rfl

theorem read_withUnread : (s.withUnread bs).read cs = mapUnread bs (s.read cs) := by
  induction cs generalizing s with
  | nil => rfl
  | cons b cs ih => simp only [read, readByte_withUnread, mapUnread, ih]

theorem length_readByte_le (b : UInt8) : (s.readByte b).2.length ≤ 2 := by
  unfold readByte
  split
  · exact Nat.zero_le 2
  · split
    · simp only [List.length_cons]
      have := Option.length_toList_le (o := (‹Splitter›.step b).2)
      omega
    · exact Nat.le_succ 1

theorem length_read_le : (s.read bs).2.length ≤ 2 * bs.length := by
  induction bs generalizing s with
  | nil => exact Nat.le_refl 0
  | cons b bs ih =>
    have hb := s.length_readByte_le b
    have hbs := ih (s.readByte b).1
    simp only [read, List.length_append, List.length_cons]
    omega

theorem readByte_of_position {b : UInt8} (h : (s.step b).1.position ≠ s.position) :
    s.readByte b = ((s.step b).1, (s.step b).2.toList) := by
  simp only [readByte]
  cases hs : s.step b with
  | mk t event =>
    rw [hs] at h
    cases event with
    | none => rfl
    | some event => simp only [if_neg h, Option.toList_some]

section

variable {t : Splitter} {b : UInt8} (hposition : t.position = s.position + 1)
include hposition

theorem readByte_of_some {event : Event}
    (h : (s.advance b).lexByte s.position b = (t, some event)) :
    s.readByte b = (t.trim s.keepFrom, [event]) := by
  have hne : t.position ≠ s.position := by omega
  have hstep : s.step b = (t.trim s.keepFrom, some event) := by
    simp only [step_eq, lexStep, h, hne, ↓reduceIte]
  rw [readByte_of_position, hstep]
  · rfl
  · rwa [hstep, trim_position]

theorem readByte_of_none (h : (s.advance b).lexByte s.position b = (t, none)) :
    s.readByte b = (t.checkSize.1.trim s.keepFrom, t.checkSize.2.toList) := by
  have hne : t.position ≠ s.position := by omega
  have hstep : s.step b = (t.checkSize.1.trim s.keepFrom, t.checkSize.2) := by
    simp only [step_eq, lexStep, h, hne, ↓reduceIte]
  rw [readByte_of_position, hstep]
  rwa [hstep, trim_position, checkSize_position]

end

theorem readByte_of_lex (h : ∀ name, s.lex ≠ .startName name) (b : UInt8) :
    s.readByte b = ((s.step b).1, (s.step b).2.toList) := by
  apply readByte_of_position
  obtain hp | ⟨-, -, -, name, hname⟩ := s.step_position b
  · simp [hp]
  · exact absurd hname (h name)

theorem readByte_cases (b : UInt8) :
    (s.readByte b).1 = (s.step b).1 ∧ (s.step b).1.position = s.position + 1 ∨
      (s.readByte b).1 = ((s.step b).1.step b).1 ∧ (s.step b).1.position = s.position ∧
        ((s.step b).1.step b).1.position = s.position + 1 ∧
          (s.step b).1.lex = .attributes none false ∧ ∃ name, s.lex = .startName name := by
  obtain hnext | ⟨hback, hlex, hevent, hname⟩ := s.step_position b
  · left
    rw [s.readByte_of_position (by omega)]
    exact ⟨rfl, hnext⟩
  · right
    refine ⟨?_, hback, ?_, hlex, hname⟩
    · obtain ⟨event, hevent⟩ := Option.isSome_iff_exists.1 hevent
      have hstep : s.step b = ((s.step b).1, some event) := by rw [← hevent]
      rw [readByte, hstep]
      simp only [hback, ↓reduceIte]
    · obtain hnext | ⟨-, -, -, name, hname⟩ := (s.step b).1.step_position b
      · rw [hnext, hback]
      · simp [hlex] at hname

theorem readByte_position (b : UInt8) : (s.readByte b).1.position = s.position + 1 := by
  obtain ⟨hread, hnext⟩ | ⟨hread, -, hnext, -⟩ := s.readByte_cases b
  · rw [hread, hnext]
  · rw [hread, hnext]

def named (s : Splitter) (name : String) : Splitter :=
  ({ (s.openElement name).1 with lex := .attributes none false } : Splitter).trim s.keepFrom

@[simp] theorem named_lex (name : String) : (s.named name).lex = .attributes none false := by
  rw [named, trim_lex]

@[simp] theorem named_position (name : String) : (s.named name).position = s.position := by
  rw [named, trim_position]
  exact s.openElement_position name

theorem openElement_advance (b : UInt8) (name : String) :
    (s.advance b).openElement name =
      ((s.openElement name).1.advance b, (s.openElement name).2) := by
  have hcut : (s.advance b).isCutBy name = s.isCutBy name := rfl
  have hopened : (s.advance b).opened = s.opened := rfl
  have hskipping : (s.advance b).skipping = s.skipping := rfl
  rw [openElement_eq, openElement_eq, hcut, hopened, hskipping]
  split
  · rfl
  · split <;> rfl

@[simp] theorem openElement_held (name : String) : (s.openElement name).1.held = s.held := by
  rw [openElement_eq]
  split
  · rfl
  · split <;> rfl

theorem readByte_name {name : Bytes} {b : UInt8} (hlex : s.lex = .startName name)
    (hb : isNameByte b = false)
    (hkeep : (s.openElement (spell name)).2 = none →
      ({ (s.openElement (spell name)).1 with lex := .attributes none false } : Splitter).keepFrom =
        s.keepFrom) :
    s.readByte b = (((s.named (spell name)).readByte b).1,
      (s.openElement (spell name)).2.toList ++ ((s.named (spell name)).readByte b).2) := by
  have hlexByte : (s.advance b).lexByte s.position b =
      match s.openElement (spell name) with
      | (t, some event) =>
        ({ t.advance b with lex := .attributes none false, position := s.position }, some event)
      | (t, none) => (t.advance b).attributeByte none false b := by
    simp only [lexByte, advance_lex, hlex, hb, openElement_advance, Bool.false_eq_true, ↓reduceIte]
    cases s.openElement (spell name) with
    | mk t event => cases event <;> rfl
  have hposition := s.openElement_position (spell name)
  have hheld := s.openElement_held (spell name)
  have hnamed := s.named_position (spell name)
  have hread := (s.named (spell name)).readByte_of_lex (by simp) b
  cases ho : s.openElement (spell name) with
  | mk t event =>
    rw [ho] at hlexByte hkeep hposition hheld
    have ht : s.named (spell name) =
        ({ t with lex := .attributes none false } : Splitter).trim s.keepFrom := by
      rw [named, ho]
    cases event with
    | some event =>
      have hlexStep : s.lexStep b = ({ t with lex := .attributes none false }, some event) := by
        rw [lexStep, hlexByte, ← hposition, ← hheld]
        simp only [↓reduceIte]
        rfl
      have hstep : s.step b = (s.named (spell name), some event) := by rw [step_eq, hlexStep, ht]
      rw [hread, readByte, hstep]
      simp only [hnamed, ↓reduceIte]
      rfl
    | none =>
      have ht : s.named (spell name) = { t with lex := .attributes none false } := by
        rw [ht, trim, if_pos (hkeep rfl)]
      have hlexStep : s.lexStep b = (s.named (spell name)).lexStep b := by
        rw [ht, lexStep, lexStep, hlexByte, ← hposition, ← hheld]
        rfl
      have hstep : s.step b = (s.named (spell name)).step b := by
        rw [step_eq, step_eq, hlexStep, ht, hkeep rfl]
      simp only [readByte, hstep, hnamed]
      rfl

theorem read_name {name : Bytes} {b : UInt8} (hlex : s.lex = .startName name)
    (hb : isNameByte b = false)
    (hkeep : (s.openElement (spell name)).2 = none →
      ({ (s.openElement (spell name)).1 with lex := .attributes none false } : Splitter).keepFrom =
        s.keepFrom) :
    s.read (b :: bs) = (((s.named (spell name)).read (b :: bs)).1,
      (s.openElement (spell name)).2.toList ++ ((s.named (spell name)).read (b :: bs)).2) := by
  simp only [read, s.readByte_name hlex hb hkeep, List.append_assoc]

/-- What a splitter reads in all of the bytes at hand. -/
def settle (s : Splitter) : Splitter × List Event := mapUnread [] (s.read s.unread)

theorem settle_withUnread : (s.withUnread bs).settle = mapUnread [] (s.read bs) := by
  simp only [settle, unread_withUnread, read_withUnread]
  rfl

def settleAfter : Splitter × Option Event → Splitter × List Event
  | (t, none) => (t, [])
  | (t, some event) => (t.settle.1, event :: t.settle.2)

theorem settleAfter_scanBytes : settleAfter (s.scanBytes bs) = mapUnread [] (s.read bs) := by
  induction bs generalizing s with
  | nil => rfl
  | cons b bs ih =>
    have hagain := s.step_position b
    simp only [scanBytes, read, readByte]
    cases hs : s.step b with
    | mk t event =>
      rw [hs] at hagain
      cases event with
      | none => exact ih t
      | some event =>
        dsimp only at hagain ⊢
        split
        · rename_i hposition
          obtain hp | ⟨-, hlex, -⟩ := hagain
          · simp [hp] at hposition
          · change ((t.withUnread (b :: bs)).settle.1,
              event :: (t.withUnread (b :: bs)).settle.2) = _
            rw [settle_withUnread, read, t.readByte_of_lex (by simp [hlex])]
            rfl
        · change ((t.withUnread bs).settle.1, event :: (t.withUnread bs).settle.2) = _
          rw [settle_withUnread]
          rfl

theorem settleAfter_next? : settleAfter s.next? = s.settle := s.settleAfter_scanBytes s.unread

theorem drainFrom_of_length_lt {fuel : Nat} (h : s.settle.2.length < fuel) :
    drainFrom fuel s = s.settle := by
  induction fuel generalizing s with
  | zero => exact absurd h (Nat.not_lt_zero _)
  | succ fuel ih =>
    rw [← settleAfter_next?] at h ⊢
    simp only [drainFrom]
    cases hn : s.next? with
    | mk t event =>
      rw [hn] at h
      cases event with
      | none => rfl
      | some event =>
        have ht : t.settle.2.length < fuel := Nat.lt_of_succ_lt_succ h
        simp only [ih t ht, settleAfter]

theorem length_settle_lt : s.settle.2.length < s.bound :=
  Nat.lt_succ_of_le (s.length_read_le s.unread)

/-- Asked for events until there are none, a splitter reads all bytes at hand. -/
theorem drain_eq_settle : s.drain = s.settle := s.drainFrom_of_length_lt s.length_settle_lt

end Splitter
end InstrumentBus.Wire
