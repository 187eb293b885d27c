import InstrumentBus.Proofs.Wire.Held
import InstrumentBus.Proofs.Wire.Resync

/-!
The course of a frame: what its bytes do to the tag that is being read and to the open elements, as
long as nothing disturbs it. A splitter keeps to it, and whatever frame it tells of has run its
course.
-/

namespace InstrumentBus.Wire

open Text (Bytes)

def beginsTag (b : UInt8) : Bool := b == 47 || b == 63 || b == 33 || isNameStart b

/-- A place in a frame: what is being read there, and the names of the open elements, innermost
first. -/
structure Place where
  lex : Lex
  opened : List String
deriving DecidableEq

def Lex.behind (quote : Option UInt8) (slash : Bool) (b : UInt8) : Lex :=
  match quote with
  | some q => if b = q then .attributes none false else .attributes (some q) slash
  | none =>
    if b = 34 ∨ b = 39 then .attributes (some b) false
    else if b = 47 then .attributes none true
    else if b = 62 then .text
    else .attributes none false

namespace Place

variable {p : Place} {b : UInt8} {bs cs : Bytes}

def stay (p : Place) (l : Lex) : Option Place := some ⟨l, p.opened⟩

def close? (p : Place) (name : String) : Option Place :=
  if p.opened.head? = some name then some ⟨.text, p.opened.tail⟩ else none

def enter? (p : Place) (b : UInt8) : Option Place :=
  match p.lex with
  | .open => if isNameStart b then p.stay (.startName [b]) else none
  | .startName name =>
    if isNameByte b then p.stay (.startName (b :: name))
    else some ⟨.behind none false b, [Splitter.spell name]⟩
  | _ => none

/-- The place behind one more byte within an element. There is none behind what cuts the frame
short: an end tag of another name, or the name of a tag that can only be outermost. -/
def proceed? (p : Place) (b : UInt8) : Option Place :=
  match p.lex with
  | .text => p.stay (if b = 60 then .open else .text)
  | .open =>
    p.stay
      (if b = 47 then .endName []
      else if b = 63 then .instruction false
      else if b = 33 then .bang []
      else if isNameStart b then .startName [b]
      else .text)
  | .bang seen => p.stay (Splitter.afterBang (seen ++ [b]) b)
  | .comment dashes =>
    p.stay
      (if b = 45 then .comment (min (dashes + 1) 2)
      else if b = 62 ∧ dashes ≥ 2 then .text
      else .comment 0)
  | .data brackets =>
    p.stay
      (if b = 93 then .data (min (brackets + 1) 2)
      else if b = 62 ∧ brackets ≥ 2 then .text
      else .data 0)
  | .declaration => p.stay (if b = 62 then .text else .declaration)
  | .instruction question =>
    p.stay (if b = 62 ∧ question then .text else .instruction (b == 63))
  | .startName name =>
    if isNameByte b then p.stay (.startName (b :: name))
    else if Splitter.spell name ∈ outermostTags then none
    else some ⟨.behind none false b, Splitter.spell name :: p.opened⟩
  | .attributes quote slash =>
    if quote = none ∧ b = 62 ∧ slash then some ⟨.text, p.opened.tail⟩
    else p.stay (.behind quote slash b)
  | .endName name =>
    if isNameByte b then p.stay (.endName (b :: name))
    else if b = 62 then p.close? (Splitter.spell name)
    else p.stay (.endTail name)
  | .endTail name => if b = 62 then p.close? (Splitter.spell name) else p.stay (.endTail name)

def next? (p : Place) (b : UInt8) : Option Place :=
  if p.opened = [] then p.enter? b else p.proceed? b

def walk? (p : Place) (bs : Bytes) : Option Place := bs.foldlM next? p

def entrance : Place := ⟨.open, []⟩

def exit : Place := ⟨.text, []⟩

@[simp] theorem walk?_nil : p.walk? [] = some p := rfl

@[simp] theorem walk?_cons : p.walk? (b :: bs) = (p.next? b).bind (·.walk? bs) := rfl

@[simp] theorem walk?_append : p.walk? (bs ++ cs) = (p.walk? bs).bind (·.walk? cs) :=
  List.foldlM_append

theorem next?_of_opened (h : p.opened ≠ []) : p.next? b = p.proceed? b := if_neg h

@[simp] theorem next?_exit : exit.next? b = none := rfl

end Place

namespace Splitter

variable {s t : Splitter} {p : Place} {b : UInt8}

def place (s : Splitter) : Place := ⟨s.lex, s.opened⟩

/-- What a byte makes of a splitter if it leads to the place `p`: nothing is told before the
outermost element ends. -/
structure Reaches (s : Splitter) (p : Place) (r : Splitter × Option Event) : Prop where
  place : r.1.place = p
  position : r.1.position = s.position
  inside : p.opened ≠ [] →
    r.1.frameStart = s.frameStart ∧ r.1.skipping = s.skipping ∧ r.2 = none
  outside : p.opened = [] →
    p.lex = .text ∧ r.1.frameStart = none ∧ r.2 = s.finishFrame.2

theorem reaches_of_eq {l : Lex} (hopened : s.opened ≠ []) (hlex : t.lex = l)
    (ht : t.opened = s.opened) (hposition : t.position = s.position)
    (hframe : t.frameStart = s.frameStart) (hskipping : t.skipping = s.skipping) :
    Reaches s ⟨l, s.opened⟩ (t, none) where
  place := by rw [Splitter.place, hlex, ht]
  position := hposition
  inside _ := ⟨hframe, hskipping, rfl⟩
  outside hnone := absurd hnone hopened

theorem reaches_closeInnermost (hopened : s.opened ≠ []) :
    Reaches s ⟨.text, s.opened.tail⟩ ({ s with lex := .text } : Splitter).closeInnermost := by
  obtain ⟨o, os, ho⟩ := List.exists_cons_of_ne_nil hopened
  cases os with
  | nil =>
    simp only [closeInnermost, ho]
    exact ⟨rfl, rfl, fun hne => absurd rfl hne, fun _ => ⟨rfl, rfl, rfl⟩⟩
  | cons o' os =>
    simp only [closeInnermost, ho]
    exact ⟨rfl, rfl, fun _ => ⟨rfl, rfl, rfl⟩, fun hnone => by cases hnone⟩

theorem reaches_closeElement {name : String} (h : s.place.close? name = some p) :
    Reaches s p (({ s with lex := .text } : Splitter).closeElement name) := by
  obtain ⟨hhead, hp⟩ := Option.ite_none_right_eq_some.1 h
  cases hp
  obtain ⟨os, ho⟩ := List.head?_eq_some_iff.1 hhead
  have ho : s.opened = name :: os := ho
  have hclose : ({ s with lex := .text } : Splitter).closeElement name =
      ({ s with lex := .text } : Splitter).closeInnermost := by
    simp only [closeElement, ho, ↓reduceIte]
  rw [hclose]
  exact reaches_closeInnermost (by simp [ho])

theorem reaches_attributeByte {quote : Option UInt8} {slash : Bool} (hopened : s.opened ≠ [])
    (hlex : quote ≠ none → s.lex = .attributes quote slash) :
    Reaches s
      (if quote = none ∧ b = 62 ∧ slash then ⟨.text, s.opened.tail⟩
      else ⟨.behind quote slash b, s.opened⟩)
      (s.attributeByte quote slash b) := by
  cases quote with
  | some q =>
    simp only [attributeByte, Lex.behind, reduceCtorEq, false_and, ↓reduceIte]
    split
    · exact reaches_of_eq hopened rfl rfl rfl rfl rfl
    · exact reaches_of_eq hopened (hlex (Option.some_ne_none q)) rfl rfl rfl rfl
  | none =>
    by_cases hclosed : b = 62 ∧ slash = true
    · obtain ⟨rfl, rfl⟩ := hclosed
      exact reaches_closeInnermost hopened
    · simp only [attributeByte, Lex.behind, true_and, hclosed, ↓reduceIte]
      repeat' split
      all_goals first
        | exact reaches_of_eq hopened rfl rfl rfl rfl rfl
        | exact absurd ⟨‹_›, ‹_›⟩ hclosed

theorem openElement_of_inner {name : String} (hopened : s.opened ≠ [])
    (hname : name ∉ outermostTags) :
    s.openElement name = ({ s with opened := name :: s.opened }, none) := by
  rw [openElement_eq]
  simp [isCutBy, hopened, hname]

theorem reaches_of_proceed? (hopened : s.opened ≠ []) (h : s.place.proceed? b = some p)
    (here : Nat) : Reaches s p (s.lexByte here b) := by
  have hempty : s.opened.isEmpty = false := List.isEmpty_eq_false_iff.2 hopened
  cases hl : s.lex with
  | startName name =>
    simp only [place, Place.proceed?, hl, Place.stay] at h
    simp only [lexByte, hl]
    split at h
    · cases h
      split
      · exact reaches_of_eq hopened rfl rfl rfl rfl rfl
      · contradiction
    · split at h
      · cases h
      · cases h
        rename_i hb hname
        rw [if_neg hb, openElement_of_inner hopened hname]
        have hinner : { s with opened := spell name :: s.opened }.opened ≠ [] := List.cons_ne_nil _ _
        have hbehind := @reaches_attributeByte _ b none false hinner fun hne => absurd rfl hne
        simp only [Bool.false_eq_true, and_false, ↓reduceIte] at hbehind
        exact ⟨hbehind.place, hbehind.position, hbehind.inside, fun hnone => by cases hnone⟩
  | attributes quote slash =>
    have hnext : p = if quote = none ∧ b = 62 ∧ slash then ⟨.text, s.opened.tail⟩
        else ⟨.behind quote slash b, s.opened⟩ := by
      simp only [place, Place.proceed?, hl, Place.stay] at h
      split at h <;> cases h <;> simp [*]
    simp only [lexByte, hl]
    exact hnext ▸ reaches_attributeByte hopened fun _ => hl
  | endName name =>
    simp only [place, Place.proceed?, hl, Place.stay] at h
    simp only [lexByte, hl]
    split at h
    · cases h
      split
      · exact reaches_of_eq hopened rfl rfl rfl rfl rfl
      · contradiction
    · rename_i hb
      rw [if_neg hb]
      split at h
      · rename_i hend
        rw [if_pos hend]
        exact reaches_closeElement h
      · rename_i hend
        cases h
        rw [if_neg hend]
        exact reaches_of_eq hopened rfl rfl rfl rfl rfl
  | endTail name =>
    simp only [place, Place.proceed?, hl, Place.stay] at h
    simp only [lexByte, hl]
    split at h
    · rename_i hend
      rw [if_pos hend]
      exact reaches_closeElement h
    · rename_i hend
      cases h
      rw [if_neg hend]
      exact reaches_of_eq hopened hl rfl rfl rfl rfl
  | _ =>
    simp only [place, Place.proceed?, hl, Place.stay, Option.some.injEq] at h
    subst h
    simp only [lexByte, hl, hempty, Bool.false_and, Bool.false_eq_true, ↓reduceIte]
    repeat' split
    all_goals first
      | exact reaches_of_eq hopened rfl rfl rfl rfl rfl
      | exact reaches_of_eq hopened hl rfl rfl rfl rfl

theorem checkSize_eq :
    s.checkSize =
      if s.outgrows 0 then
        ({ s with frameStart := none, skipping := true }, some (.fault (.frameTooLarge s.limit)))
      else (s, none) := by
  cases hf : s.frameStart with
  | none => simp only [checkSize, outgrows, hf, Option.any_none, Bool.false_eq_true, ↓reduceIte]
  | some start =>
    simp only [checkSize, outgrows, hf, Option.any_some, decide_eq_true_eq, Nat.add_zero, gt_iff_lt]

/-- What is read with a byte that leads to the place `p`: within the frame only that it is too
large, and with its last byte the frame, unless it is skipped. -/
structure Passes (s : Splitter) (b : UInt8) (p : Place) (r : Splitter × List Event) : Prop where
  place : r.1.place = p
  frame : p.opened ≠ [] → r.1.frameStart = if s.outgrows 1 then none else s.frameStart
  skipping : p.opened ≠ [] → r.1.skipping = (s.skipping || s.outgrows 1)
  inside : p.opened ≠ [] →
    r.2 = if s.outgrows 1 then [.fault (.frameTooLarge s.limit)] else []
  outside : p.opened = [] → p = .exit ∧ r.2 = (s.advance b).finishFrame.2.toList

@[simp] theorem trim_place (before : Nat) : (s.trim before).place = s.place := by
  simp only [place, trim_lex, trim_opened]

@[simp] theorem trim_skipping (before : Nat) : (s.trim before).skipping = s.skipping := by
  simp only [trim]
  split <;> rfl

section

variable {event : Option Event} (h : Reaches (s.advance b) p (t, event))
  (hlex : (s.advance b).lexByte s.position b = (t, event))
include h hlex

theorem Reaches.passes_outside (hp : p.opened = []) : Passes s b p (s.readByte b) := by
  obtain ⟨htext, hframe, hevent⟩ : p.lex = .text ∧ t.frameStart = none ∧
    event = (s.advance b).finishFrame.2 := h.outside hp
  have hexit : p = .exit := by
    cases p
    cases hp
    cases htext
    rfl
  have hsize : t.checkSize = (t, none) := by
    rw [checkSize_eq, outgrows_of_frameStart hframe]
    rfl
  have hread : s.readByte b = (t.trim s.keepFrom, event.toList) := by
    cases event with
    | none => rw [readByte_of_none s h.position hlex, hsize]
    | some event => exact readByte_of_some s h.position hlex
  rw [hread]
  exact {
    place := t.trim_place _ ▸ h.place
    frame hne := absurd hp hne
    skipping hne := absurd hp hne
    inside hne := absurd hp hne
    outside _ := ⟨hexit, hevent ▸ rfl⟩
  }

theorem Reaches.passes_inside (hp : p.opened ≠ []) : Passes s b p (s.readByte b) := by
  obtain ⟨hframe, hskipping, hevent⟩ : t.frameStart = s.frameStart ∧ t.skipping = s.skipping ∧
    event = none := h.inside hp
  have hplace : t.place = p := h.place
  have hposition : t.position = s.position + 1 := h.position
  have hlimit : t.limit = s.limit := by
    have := (s.advance b).lexByte_limit s.position b
    rwa [hlex] at this
  have hgrown : t.outgrows 0 = s.outgrows 1 := by
    simp only [outgrows, hframe, hposition, hlimit, Nat.add_zero]
  rw [readByte_of_none s hposition (hevent ▸ hlex), checkSize_eq, hgrown]
  cases hlarge : s.outgrows 1 with
  | true =>
    exact {
      place := (trim_place _).trans hplace
      frame _ := by simp [hlarge]
      skipping _ := by simp [hlarge]
      inside _ := by simp [hlarge, hlimit]
      outside hne := absurd hne hp
    }
  | false =>
    exact {
      place := (trim_place _).trans hplace
      frame _ := by simpa [hlarge] using hframe
      skipping _ := by simpa [hlarge] using hskipping
      inside _ := by simp [hlarge]
      outside hne := absurd hne hp
    }

end

theorem passes_of_proceed? (hopened : s.opened ≠ []) (h : s.place.proceed? b = some p) :
    Passes s b p (s.readByte b) := by
  have hreaches : Reaches (s.advance b) p ((s.advance b).lexByte s.position b) :=
    reaches_of_proceed? (s := s.advance b) hopened h s.position
  by_cases hp : p.opened = []
  · exact hreaches.passes_outside rfl hp
  · exact hreaches.passes_inside rfl hp

/-- With the byte `b` the name of a tag ends with which a frame begins. -/
structure Enters (s : Splitter) (b : UInt8) (name : Bytes) : Prop where
  lex : s.lex = .startName name
  ends : isNameByte b = false
  outermost : s.opened = [] ∨ spell name ∈ outermostTags

theorem fault_of_mem_openElement {name : String} {event : Event}
    (h : event ∈ (s.openElement name).2) : ∃ fault, event = .fault fault := by
  obtain ⟨-, -, outer, -, rfl⟩ := openElement_eq_some_iff.1 h
  exact ⟨_, rfl⟩

section

variable {name : Bytes} (h : Enters s b name) (hs : s.IsSound)
include h hs

theorem Enters.openElement_eq : (s.openElement (spell name)).1 = { s with
    opened := [spell name]
    skipping := false
    frameStart := some s.tagStart } := by
  rw [Splitter.openElement_eq]
  by_cases hopened : s.opened = []
  · have hskipping := (hs.balanced.idle hopened).2
    simp [isCutBy, hopened, hskipping]
  · have hname := h.outermost.resolve_left hopened
    simp [isCutBy, hopened, hname]

theorem Enters.frameStart_eq_none (hnone : (s.openElement (spell name)).2 = none) :
    s.frameStart = none := by
  by_cases hopened : s.opened = []
  · exact (hs.balanced.idle hopened).1
  · cases hskipping : s.skipping with
    | true => exact (hs.balanced.busy hopened).2 hskipping
    | false =>
      have hname := h.outermost.resolve_left hopened
      rw [Splitter.openElement_eq] at hnone
      simp [isCutBy, hopened, hname, hskipping] at hnone

theorem Enters.readByte_eq :
    s.readByte b = (((s.named (spell name)).readByte b).1,
      (s.openElement (spell name)).2.toList ++ ((s.named (spell name)).readByte b).2) := by
  apply readByte_name s h.lex h.ends
  intro hnone
  have hframe := h.frameStart_eq_none hs hnone
  have hlex : s.lex ≠ .text := by simp [h.lex]
  rw [h.openElement_eq hs, keepFrom_of_frameStart hframe hlex (Nat.le_of_lt (hs.placed.tag hlex))]
  rfl

theorem Enters.place_named :
    (s.named (spell name)).place = ⟨.attributes none false, [spell name]⟩ ∧
      (s.named (spell name)).frameStart = some s.tagStart := by
  rw [named, trim_place, trim_frameStart, h.openElement_eq hs]
  exact ⟨rfl, rfl⟩

theorem Enters.readByte :
    (s.readByte b).1.place = ⟨.behind none false b, [spell name]⟩ ∧
      (∀ st ∈ (s.readByte b).1.frameStart, st = s.tagStart) ∧
      ∀ event ∈ (s.readByte b).2, ∃ fault, event = .fault fault := by
  obtain ⟨hplace, hframe⟩ := h.place_named hs
  have hopened : (s.named (spell name)).opened = [spell name] := congrArg Place.opened hplace
  have hpasses : Passes (s.named (spell name)) b ⟨.behind none false b, [spell name]⟩
      ((s.named (spell name)).readByte b) := by
    apply passes_of_proceed?
    · simp [hopened]
    · rw [hplace]
      simp [Place.proceed?, Place.stay]
  rw [h.readByte_eq hs]
  refine ⟨hpasses.place, ?_, ?_⟩
  · rw [hpasses.frame (by simp), hframe]
    split <;> simp
  · rw [hpasses.inside (by simp)]
    intro event hevent
    obtain hevent | hevent := List.mem_append.1 hevent
    · exact fault_of_mem_openElement (Option.mem_toList.1 hevent)
    · split at hevent
      · exact ⟨_, List.mem_singleton.1 hevent⟩
      · cases hevent

end

structure Strays (s : Splitter) (r : Splitter × Option Event) : Prop where
  position : r.1.position = s.position
  opened : r.1.opened = []
  fault : ∀ event ∈ r.2, ∃ fault, event = .fault fault

theorem strays_closeInnermost (h : s.opened = []) (hframe : s.frameStart = none) :
    Strays s ({ s with lex := .text } : Splitter).closeInnermost := by
  simp only [closeInnermost, h, finishFrame, hframe]
  exact ⟨rfl, rfl, by simp⟩

theorem strays_closeElement {name : String} (h : s.place.close? name = none) :
    Strays s (({ s with lex := .text } : Splitter).closeElement name) := by
  have hhead : s.opened.head? ≠ some name := by
    intro hhead
    simp [Place.close?, place, hhead] at h
  cases ho : s.opened with
  | nil =>
    simp only [closeElement]
    exact ⟨rfl, rfl, by simp⟩
  | cons o os =>
    have hname : name ≠ o := by
      rintro rfl
      simp [ho] at hhead
    simp only [closeElement, hname, ↓reduceIte]
    refine ⟨rfl, rfl, ?_⟩
    split <;> simp

theorem strays_attributeByte {quote : Option UInt8} {slash : Bool} (hopened : s.opened = [])
    (hframe : s.frameStart = none) : Strays s (s.attributeByte quote slash b) := by
  cases quote with
  | some q =>
    simp only [attributeByte]
    split <;> exact ⟨rfl, hopened, by simp⟩
  | none =>
    simp only [attributeByte]
    repeat' split
    all_goals first
      | exact ⟨rfl, hopened, by simp⟩
      | exact strays_closeInnermost hopened hframe

theorem strays_lexByte (h : s.IsBalanced) (hname : ∀ name, ¬Enters s b name)
    (hnone : s.opened ≠ [] → s.place.proceed? b = none) (here : Nat) :
    Strays s (s.lexByte here b) := by
  have hidle (hp : (s.place.proceed? b).isSome = true) : s.opened = [] := by
    by_contra hopened
    simp [hnone hopened] at hp
  have hclose {tag : String} (hp : s.place.proceed? b = s.place.close? tag) :
      s.place.close? tag = none := by
    by_cases hopened : s.opened = []
    · simp [Place.close?, place, hopened]
    · rw [← hp, hnone hopened]
  cases hl : s.lex with
  | startName name =>
    by_cases hb : isNameByte b = true
    · have hopened := hidle (by simp [place, Place.proceed?, Place.stay, hl, hb])
      simp only [lexByte, hl, hb, ↓reduceIte]
      exact ⟨rfl, hopened, by simp⟩
    · have hends : isNameByte b = false := Bool.not_eq_true _ ▸ hb
      have houter : ¬(s.opened = [] ∨ spell name ∈ outermostTags) := fun houter =>
        hname name ⟨hl, hends, houter⟩
      rw [not_or] at houter
      have := hnone houter.1
      simp [place, Place.proceed?, hl, hends, houter.2] at this
  | attributes quote slash =>
    have hopened := hidle (by simp only [place, Place.proceed?, Place.stay, hl]; split <;> rfl)
    simp only [lexByte, hl]
    exact strays_attributeByte hopened (h.idle hopened).1
  | endName name =>
    simp only [lexByte, hl]
    split
    · rename_i hb
      have hopened := hidle (by simp [place, Place.proceed?, Place.stay, hl, hb])
      exact ⟨rfl, hopened, by simp⟩
    · rename_i hb
      split
      · rename_i hend
        subst hend
        exact strays_closeElement (hclose (by simp [place, Place.proceed?, hl, hb]))
      · rename_i hend
        have hopened := hidle (by simp [place, Place.proceed?, Place.stay, hl, hb, hend])
        exact ⟨rfl, hopened, by simp⟩
  | endTail name =>
    simp only [lexByte, hl]
    split
    · rename_i hend
      exact strays_closeElement (hclose (by simp [place, Place.proceed?, hl, hend]))
    · rename_i hend
      have hopened := hidle (by simp [place, Place.proceed?, Place.stay, hl, hend])
      exact ⟨rfl, hopened, by simp⟩
  | _ =>
    have hopened := hidle (by simp [place, Place.proceed?, Place.stay, hl])
    have hempty : s.opened.isEmpty = true := List.isEmpty_iff.2 hopened
    simp only [lexByte, hl, hempty, Bool.true_and]
    repeat' split
    all_goals exact ⟨rfl, hopened, by simp [stray]⟩

theorem strays_readByte (hs : s.IsSound) (hname : ∀ name, ¬Enters s b name)
    (hnone : s.opened ≠ [] → s.place.proceed? b = none) :
    (s.readByte b).1.opened = [] ∧ ∀ event ∈ (s.readByte b).2, ∃ fault, event = .fault fault := by
  have hadvance : (s.advance b).IsBalanced := hs.balanced.of_eq rfl rfl rfl
  have hstrays : Strays (s.advance b) ((s.advance b).lexByte s.position b) :=
    strays_lexByte hadvance (fun name h => hname name ⟨h.lex, h.ends, h.outermost⟩) hnone s.position
  have hbalanced := hadvance.lexByte s.position b
  cases hr : (s.advance b).lexByte s.position b with
  | mk t event =>
    rw [hr] at hstrays hbalanced
    have hposition : t.position = s.position + 1 := hstrays.position
    cases event with
    | some event =>
      rw [readByte_of_some s hposition hr]
      exact ⟨(trim_opened _).trans hstrays.opened, by simpa using hstrays.fault⟩
    | none =>
      have hframe := (hbalanced.idle hstrays.opened).1
      rw [readByte_of_none s hposition hr, checkSize_eq, outgrows_of_frameStart hframe]
      exact ⟨(trim_opened _).trans hstrays.opened, by simp⟩

/-- A byte ends the name of a frame, or it is one within a frame, or else no frame is open behind
it. -/
theorem readByte_course (hs : s.IsSound) (b : UInt8) :
    (∃ name, Enters s b name) ∨
      (s.opened ≠ [] ∧ ∃ p, s.place.proceed? b = some p ∧ Passes s b p (s.readByte b)) ∨
        (s.readByte b).1.opened = [] ∧ ∀ event ∈ (s.readByte b).2, ∃ fault, event = .fault fault := by
  by_cases hname : ∃ name, Enters s b name
  · exact .inl hname
  · refine .inr ?_
    by_cases hp : s.opened ≠ [] ∧ ∃ p, s.place.proceed? b = some p
    · obtain ⟨hopened, p, hp⟩ := hp
      exact .inl ⟨hopened, p, hp, passes_of_proceed? hopened hp⟩
    · refine .inr (strays_readByte hs (fun name h => hname ⟨name, h⟩) fun hopened => ?_)
      exact Option.eq_none_iff_forall_ne_some.2 fun p h => hp ⟨hopened, p, h⟩

end Splitter
end InstrumentBus.Wire
