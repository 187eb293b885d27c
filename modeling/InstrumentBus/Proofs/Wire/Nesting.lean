import InstrumentBus.Proofs.Wire.Trace

/-!
The tags of a stream. What a byte is part of does not depend on which elements are open, so a stream
has the same tags whatever a splitter makes of it; those of a frame open and close in pairs.
-/

namespace InstrumentBus.Wire

open Text (Bytes)

/-- What a tag does to the elements that are open. The name of a start tag opens one, which the end
of the tag shuts again if it is the end of the element too, and otherwise an end tag closes. -/
inductive Mark
  | opens (name : String) : Mark
  | shuts : Mark
  | closes (name : String) : Mark
deriving DecidableEq

namespace Lex

def follow (l : Lex) (b : UInt8) : Lex :=
  match l with
  | .text => if b = 60 then .open else .text
  | .open =>
    if b = 47 then .endName []
    else if b = 63 then .instruction false
    else if b = 33 then .bang []
    else if isNameStart b then .startName [b]
    else .text
  | .bang seen => Splitter.afterBang (seen ++ [b]) b
  | .comment dashes =>
    if b = 45 then .comment (min (dashes + 1) 2)
    else if b = 62 ∧ dashes ≥ 2 then .text
    else .comment 0
  | .data brackets =>
    if b = 93 then .data (min (brackets + 1) 2)
    else if b = 62 ∧ brackets ≥ 2 then .text
    else .data 0
  | .declaration => if b = 62 then .text else .declaration
  | .instruction question => if b = 62 ∧ question then .text else .instruction (b == 63)
  | .startName name => if isNameByte b then .startName (b :: name) else .behind none false b
  | .attributes quote slash => .behind quote slash b
  | .endName name =>
    if isNameByte b then .endName (b :: name)
    else if b = 62 then .text
    else .endTail name
  | .endTail name => if b = 62 then .text else .endTail name

def mark? (l : Lex) (b : UInt8) : Option Mark :=
  match l with
  | .startName name => if isNameByte b then none else some (.opens (Splitter.spell name))
  | .attributes none true => if b = 62 then some .shuts else none
  | .endName name =>
    if isNameByte b then none
    else if b = 62 then some (.closes (Splitter.spell name))
    else none
  | .endTail name => if b = 62 then some (.closes (Splitter.spell name)) else none
  | _ => none

variable {l : Lex} {b : UInt8} {bs cs : Bytes}

def run (l : Lex) (bs : Bytes) : Lex := bs.foldl follow l

def marks (l : Lex) : Bytes → List Mark
  | [] => []
  | b :: bs => (l.mark? b).toList ++ (l.follow b).marks bs

@[simp] theorem run_nil : l.run [] = l := rfl

@[simp] theorem run_cons : l.run (b :: bs) = (l.follow b).run bs := rfl

@[simp] theorem run_append : l.run (bs ++ cs) = (l.run bs).run cs := List.foldl_append

@[simp] theorem marks_nil : l.marks [] = [] := rfl

@[simp] theorem marks_cons : l.marks (b :: bs) = (l.mark? b).toList ++ (l.follow b).marks bs := rfl

@[simp] theorem marks_append : l.marks (bs ++ cs) = l.marks bs ++ (l.run bs).marks cs := by
  induction bs generalizing l with
  | nil => rfl
  | cons b bs ih => simp only [List.cons_append, marks_cons, ih, run_cons, List.append_assoc]

theorem marks_concat : l.marks (bs ++ [b]) = l.marks bs ++ ((l.run bs).mark? b).toList := by simp

theorem eq_text_of_follow (h : l.follow b = .open) : l = .text := by
  cases l with
  | text => rfl
  | _ =>
    simp only [follow, behind, Splitter.afterBang] at h
    repeat' split at h
    all_goals cases h

def IsStarting : Lex → Prop
  | .attributes _ _ => True
  | _ => False

theorem mark?_attributes (quote : Option UInt8) (slash : Bool) :
    (Lex.attributes quote slash).mark? b =
      if quote = none ∧ b = 62 ∧ slash then some .shuts else none := by
  cases quote <;> cases slash <;> simp [mark?]

theorem isStarting_follow (h : (l.follow b).IsStarting) :
    l.IsStarting ∧ l.mark? b = none ∨ ∃ name, l.mark? b = some (.opens name) := by
  cases l with
  | startName name =>
    simp only [follow] at h
    split at h
    · cases h
    · exact .inr ⟨Splitter.spell name, if_neg ‹_›⟩
  | attributes quote slash =>
    refine .inl ⟨trivial, ?_⟩
    rw [mark?_attributes]
    split
    · rename_i hend
      obtain ⟨rfl, rfl, rfl⟩ := hend
      cases h
    · rfl
  | _ =>
    simp only [follow, Splitter.afterBang] at h
    repeat' split at h
    all_goals cases h

theorem eq_of_mark?_shuts (h : l.mark? b = some .shuts) : l = .attributes none true := by
  simp only [mark?] at h
  repeat' split at h
  all_goals first
    | rfl
    | cases h

theorem of_mark? {m : Mark} (h : l.mark? b = some m) (hm : ∀ name, m ≠ .opens name) :
    b = 62 ∧ l.follow b = .text := by
  have hname : isNameByte 62 = false := rfl
  simp only [mark?] at h
  repeat' split at h
  all_goals first
    | exact ⟨‹_›, by simp [follow, behind, *]⟩
    | cases h
  all_goals exact absurd rfl (hm _)

end Lex

namespace Splitter

variable {s : Splitter} {b : UInt8} {limit : Nat} {log : Bytes}

theorem attributeByte_lex {quote : Option UInt8} {slash : Bool}
    (hlex : quote ≠ none → s.lex = .attributes quote slash) :
    (s.attributeByte quote slash b).1.lex = .behind quote slash b := by
  cases quote with
  | some q =>
    simp only [attributeByte, Lex.behind]
    split
    · rfl
    · exact hlex (Option.some_ne_none q)
  | none =>
    simp only [attributeByte, Lex.behind, apply_ite Prod.fst, apply_ite lex, closeInnermost_lex,
      ite_self]

theorem lexByte_lex (here : Nat) (hname : ∀ name, s.lex = .startName name → isNameByte b = true) :
    (s.lexByte here b).1.lex = s.lex.follow b := by
  cases hl : s.lex with
  | startName name =>
    have hb := hname name hl
    simp only [lexByte, hl, Lex.follow, hb, ↓reduceIte]
  | attributes quote slash =>
    simp only [lexByte, hl]
    exact attributeByte_lex fun _ => hl
  | _ =>
    simp only [lexByte, hl, Lex.follow, apply_ite Prod.fst, apply_ite lex, closeElement_lex, ite_self]

theorem readByte_lex (hs : s.IsSound) : (s.readByte b).1.lex = s.lex.follow b := by
  by_cases hend : ∃ name, s.lex = .startName name ∧ isNameByte b = false
  · obtain ⟨name, hlex, hb⟩ := hend
    have hfollow : s.lex.follow b = .behind none false b := by simp [hlex, Lex.follow, hb]
    rw [hfollow]
    by_cases hname : s.opened = [] ∨ spell name ∈ outermostTags
    · obtain ⟨hplace, -⟩ := Enters.readByte ⟨hlex, hb, hname⟩ hs
      exact congrArg Place.lex hplace
    · obtain ⟨hopened, hname⟩ := not_or.1 hname
      have hnext : s.place.proceed? b = some ⟨.behind none false b, spell name :: s.opened⟩ := by
        simp [place, Place.proceed?, hlex, hb, hname]
      exact congrArg Place.lex (passes_of_proceed? hopened hnext).place
  · have hname : ∀ name, (s.advance b).lex = .startName name → isNameByte b = true := by
      intro name hlex
      exact eq_true_of_ne_false fun hb => hend ⟨name, hlex, hb⟩
    have hstep : (s.step b).1.lex = s.lex.follow b := by
      rw [step_lex]
      exact lexByte_lex s.position hname
    obtain ⟨hread, -⟩ | ⟨-, -, -, hlex, name, hstart⟩ := s.readByte_cases b
    · rw [hread, hstep]
    · simp [hstep, hstart, Lex.follow, hname name hstart] at hlex

theorem after_lex : (after limit log).lex = Lex.text.run log := by
  induction log using List.reverseRecOn with
  | nil => rfl
  | append_singleton log b ih =>
    rw [after_concat, readByte_lex isSound_after, ih, Lex.run_append]
    rfl

end Splitter

/-- Elements one after another, with others in them. -/
inductive Nested : List Mark → Prop
  | nil : Nested []
  | append {ms ns : List Mark} : Nested ms → Nested ns → Nested (ms ++ ns)
  | empty (name : String) : Nested [.opens name, .shuts]
  | pair {ms : List Mark} (name : String) : Nested ms → Nested (.opens name :: ms ++ [.closes name])

/-- Behind `ms` the elements `os` are open, innermost first. -/
inductive Unclosed : List String → List Mark → Prop
  | nil {ms : List Mark} : Nested ms → Unclosed [] ms
  | cons {name : String} {os : List String} {ms ns : List Mark} : Unclosed os ms → Nested ns →
    Unclosed (name :: os) (ms ++ .opens name :: ns)

def Mark.change : Mark → Int
  | .opens _ => 1
  | .shuts => -1
  | .closes _ => -1

def depth : List Mark → Int
  | [] => 0
  | m :: ms => m.change + depth ms

variable {m : Mark} {os : List String} {ms ns : List Mark}

@[simp] theorem depth_nil : depth [] = 0 := rfl

@[simp] theorem depth_cons : depth (m :: ms) = m.change + depth ms := rfl

@[simp] theorem depth_append : depth (ms ++ ns) = depth ms + depth ns := by
  induction ms with
  | nil => simp
  | cons m ms ih => simp [ih, Int.add_assoc]

theorem Nested.depth_eq (h : Nested ms) : depth ms = 0 := by
  induction h with
  | nil => rfl
  | append _ _ ihms ihns => simp [ihms, ihns]
  | empty name => rfl
  | pair name _ ih => simp [ih, Mark.change]

theorem Unclosed.depth_eq (h : Unclosed os ms) : depth ms = os.length := by
  induction h with
  | nil hms => exact hms.depth_eq
  | cons _ hns ih => simp [ih, hns.depth_eq, Mark.change]

theorem Unclosed.append (h : Unclosed os ms) (hns : Nested ns) : Unclosed os (ms ++ ns) := by
  cases h with
  | nil hms => exact .nil (hms.append hns)
  | cons hms hinner =>
    rw [List.append_assoc]
    exact .cons hms (hinner.append hns)

theorem Unclosed.close {name : String} (h : Unclosed (name :: os) ms) :
    Unclosed os (ms ++ [.closes name]) := by
  cases h with
  | cons hms hns =>
    rw [List.append_assoc]
    exact hms.append (.pair name hns)

namespace Place

variable {p p' : Place} {b : UInt8} {bs : Bytes}

inductive Marks : Option Mark → List String → List String → Prop
  | keeps {os : List String} : Marks none os os
  | opens {name : String} {os : List String} : (os ≠ [] → name ∉ outermostTags) →
    Marks (some (.opens name)) os (name :: os)
  | shuts {name : String} {os : List String} : Marks (some .shuts) (name :: os) os
  | closes {name : String} {os : List String} : Marks (some (.closes name)) (name :: os) os

namespace Marks

variable {m : Option Mark} {os os' : List String}

theorem eq_of_none (h : Marks none os os') : os' = os := by
  cases h
  rfl

theorem of_opens {name : String} (h : Marks (some (.opens name)) os os') :
    os' = name :: os ∧ (os ≠ [] → name ∉ outermostTags) := by
  cases h with
  | opens hname => exact ⟨rfl, hname⟩

theorem eq_none_of_nil (h : Marks m [] []) : m = none := by
  cases h
  rfl

theorem exists_end (h : Marks m os []) (hos : os ≠ []) :
    ∃ e, m = some e ∧ ∀ name, e ≠ .opens name := by
  cases h with
  | keeps => exact absurd rfl hos
  | shuts => exact ⟨_, rfl, by simp⟩
  | closes => exact ⟨_, rfl, by simp⟩

theorem unclosed (h : Marks m os os') (hms : Unclosed os ms)
    (hstart : m = some .shuts →
      ∃ name os ms', os' = os ∧ ms = ms' ++ [.opens name] ∧ Unclosed os ms') :
    Unclosed os' (ms ++ m.toList) := by
  cases h with
  | keeps =>
    rw [Option.toList_none, List.append_nil]
    exact hms
  | opens _ => exact .cons hms .nil
  | shuts =>
    obtain ⟨name, os, ms', rfl, rfl, hms'⟩ := hstart rfl
    rw [List.append_assoc]
    exact hms'.append (.empty name)
  | closes => exact hms.close

end Marks

theorem marks_of_enter? (hopened : p.opened = []) (h : p.enter? b = some p') :
    p'.lex = p.lex.follow b ∧ Marks (p.lex.mark? b) p.opened p'.opened := by
  cases hl : p.lex with
  | «open» =>
    simp only [enter?, hl] at h
    obtain ⟨hb, hp⟩ := Option.ite_none_right_eq_some.1 h
    cases hp
    have hne (c : UInt8) (hc : isNameStart c = false) : b ≠ c := by
      rintro rfl
      exact absurd hb (Bool.eq_false_iff.1 hc)
    refine ⟨?_, .keeps⟩
    simp only [Lex.follow, hne 47 rfl, hne 63 rfl, hne 33 rfl, hb, ↓reduceIte]
  | startName name =>
    simp only [enter?, hl] at h
    simp only [Lex.follow, Lex.mark?]
    split at h
    · rename_i hb
      cases h
      rw [if_pos hb, if_pos hb]
      exact ⟨rfl, .keeps⟩
    · rename_i hb
      cases h
      rw [if_neg hb, if_neg hb, hopened]
      exact ⟨rfl, .opens fun hne => absurd rfl hne⟩
  | _ => simp [enter?, hl] at h

theorem marks_of_close? {name : String} (h : p.close? name = some p') :
    p'.lex = .text ∧ Marks (some (.closes name)) p.opened p'.opened := by
  obtain ⟨hhead, hp⟩ := Option.ite_none_right_eq_some.1 h
  cases hp
  obtain ⟨os, ho⟩ := List.head?_eq_some_iff.1 hhead
  rw [ho]
  exact ⟨rfl, .closes⟩

theorem marks_of_proceed? (hopened : p.opened ≠ []) (h : p.proceed? b = some p') :
    p'.lex = p.lex.follow b ∧ Marks (p.lex.mark? b) p.opened p'.opened := by
  cases hl : p.lex with
  | startName name =>
    simp only [proceed?, hl, stay] at h
    simp only [Lex.follow, Lex.mark?]
    split at h
    · rename_i hb
      cases h
      rw [if_pos hb, if_pos hb]
      exact ⟨rfl, .keeps⟩
    · rename_i hb
      obtain ⟨hname, hp⟩ := Option.ite_none_left_eq_some.1 h
      cases hp
      rw [if_neg hb, if_neg hb]
      exact ⟨rfl, .opens fun _ => hname⟩
  | attributes quote slash =>
    simp only [proceed?, hl, stay] at h
    split at h
    · rename_i hend
      obtain ⟨rfl, rfl, rfl⟩ := hend
      cases h
      obtain ⟨name, os, ho⟩ := List.exists_cons_of_ne_nil hopened
      rw [ho]
      exact ⟨rfl, .shuts⟩
    · rename_i hend
      cases h
      rw [Lex.mark?_attributes, if_neg hend]
      exact ⟨rfl, .keeps⟩
  | endName name =>
    simp only [proceed?, hl, stay] at h
    simp only [Lex.follow, Lex.mark?]
    split at h
    · rename_i hb
      cases h
      rw [if_pos hb, if_pos hb]
      exact ⟨rfl, .keeps⟩
    · rename_i hb
      rw [if_neg hb, if_neg hb]
      split at h
      · rename_i hend
        rw [if_pos hend, if_pos hend]
        exact marks_of_close? h
      · rename_i hend
        cases h
        rw [if_neg hend, if_neg hend]
        exact ⟨rfl, .keeps⟩
  | endTail name =>
    simp only [proceed?, hl, stay] at h
    simp only [Lex.follow, Lex.mark?]
    split at h
    · rename_i hend
      rw [if_pos hend, if_pos hend]
      exact marks_of_close? h
    · rename_i hend
      cases h
      rw [if_neg hend, if_neg hend]
      exact ⟨rfl, .keeps⟩
  | _ =>
    simp only [proceed?, hl, stay, Option.some.injEq] at h
    subst h
    exact ⟨rfl, .keeps⟩

theorem marks_of_next? (h : p.next? b = some p') :
    p'.lex = p.lex.follow b ∧ Marks (p.lex.mark? b) p.opened p'.opened := by
  by_cases hopened : p.opened = []
  · rw [next?, if_pos hopened] at h
    exact marks_of_enter? hopened h
  · rw [next?_of_opened hopened] at h
    exact marks_of_proceed? hopened h

structure Nests (p : Place) (ms : List Mark) : Prop where
  unclosed : Unclosed p.opened ms
  starting : p.lex.IsStarting →
    ∃ name os ms', p.opened = name :: os ∧ ms = ms' ++ [.opens name] ∧ Unclosed os ms'
  outside : p.opened = [] → ms = [] ∨ p = exit
  inner : ∀ name, .opens name ∈ ms.tail → name ∉ outermostTags

theorem nests_entrance : Nests entrance [] where
  unclosed := .nil .nil
  starting := False.elim
  outside _ := .inl rfl
  inner := by simp

theorem eq_exit_of_next? (hopened : p.opened ≠ []) (h : p.next? b = some p')
    (hnone : p'.opened = []) : p' = exit ∧ b = 62 := by
  obtain ⟨hlex, hmarks⟩ := marks_of_next? h
  rw [hnone] at hmarks
  obtain ⟨e, he, hend⟩ := hmarks.exists_end hopened
  obtain ⟨hb, htext⟩ := Lex.of_mark? he hend
  rw [htext] at hlex
  exact ⟨congrArg₂ Place.mk hlex hnone, hb⟩

namespace Nests

variable (h : Nests p ms)
include h

theorem eq_nil (hopened : p.opened = []) (hnext : p.next? b = some p') : ms = [] := by
  obtain hms | rfl := h.outside hopened
  · exact hms
  · cases hnext

theorem next? (hnext : p.next? b = some p') : Nests p' (ms ++ (p.lex.mark? b).toList) := by
  obtain ⟨hlex, hmarks⟩ := marks_of_next? hnext
  constructor
  · refine hmarks.unclosed h.unclosed fun hshuts => ?_
    rw [hshuts] at hmarks
    have hstarting : p.lex.IsStarting := Lex.eq_of_mark?_shuts hshuts ▸ trivial
    obtain ⟨name, os, ms', hos, hms, hms'⟩ := h.starting hstarting
    refine ⟨name, os, ms', ?_, hms, hms'⟩
    rw [hos] at hmarks
    generalize p'.opened = os' at hmarks
    cases hmarks
    rfl
  · intro hstarting
    rw [hlex] at hstarting
    obtain ⟨hstarting, hmark⟩ | ⟨name, hmark⟩ := Lex.isStarting_follow hstarting
    · rw [hmark] at hmarks ⊢
      rw [hmarks.eq_of_none, Option.toList_none, List.append_nil]
      exact h.starting hstarting
    · rw [hmark] at hmarks ⊢
      exact ⟨name, p.opened, ms, hmarks.of_opens.1, rfl, h.unclosed⟩
  · intro hnone
    by_cases hopened : p.opened = []
    · rw [hopened, hnone] at hmarks
      exact .inl (by rw [h.eq_nil hopened hnext, hmarks.eq_none_of_nil]; rfl)
    · exact .inr (eq_exit_of_next? hopened hnext hnone).1
  · intro name hname
    by_cases hms : ms = []
    · subst hms
      cases hm : p.lex.mark? b <;> simp [hm] at hname
    · rw [List.tail_append_of_ne_nil hms, List.mem_append, Option.mem_toList] at hname
      obtain hname | hname := hname
      · exact h.inner name hname
      · rw [Option.mem_def.1 hname] at hmarks
        exact hmarks.of_opens.2 fun hopened => hms (h.eq_nil hopened hnext)

end Nests

theorem exists_of_walk?_concat {p' : Place} (h : p.walk? (bs ++ [b]) = some p') :
    ∃ q, p.walk? bs = some q ∧ q.next? b = some p' := by
  rw [walk?_append] at h
  obtain ⟨q, hbs, hb⟩ := Option.bind_eq_some_iff.1 h
  rw [walk?_cons, Option.bind_eq_some_iff] at hb
  obtain ⟨q', hnext, hq⟩ := hb
  cases hq
  exact ⟨q, hbs, hnext⟩

theorem nests_of_walk? (h : entrance.walk? bs = some p) :
    p.lex = Lex.open.run bs ∧ Nests p (Lex.open.marks bs) := by
  induction bs using List.reverseRecOn generalizing p with
  | nil =>
    cases h
    exact ⟨rfl, nests_entrance⟩
  | append_singleton bs b ih =>
    obtain ⟨q, hbs, hnext⟩ := exists_of_walk?_concat h
    obtain ⟨hlex, hnests⟩ := ih hbs
    rw [Lex.run_append, Lex.marks_concat, ← hlex]
    exact ⟨(marks_of_next? hnext).1, hnests.next? hnext⟩

end Place

namespace Place

variable {p : Place} {b : UInt8} {bs r : Bytes}

theorem opened_of_next?_exit (h : p.next? b = some exit) : p.opened ≠ [] := by
  intro hopened
  rw [next?, if_pos hopened] at h
  simp only [enter?] at h
  repeat' split at h
  all_goals simp [stay, exit] at h

theorem isNameStart_of_walk? (h : entrance.walk? (b :: bs) = some p) : isNameStart b = true := by
  obtain ⟨p', hnext, -⟩ := Option.bind_eq_some_iff.1 h
  exact (Option.ite_none_right_eq_some.1 hnext).1

theorem exists_of_walk?_exit (h : entrance.walk? bs = some exit) (hr : r <+: bs) :
    ∃ p, entrance.walk? r = some p ∧ (p = exit ↔ r = bs) := by
  obtain ⟨more, rfl⟩ := hr
  rw [walk?_append] at h
  obtain ⟨p, hp, hmore⟩ := Option.bind_eq_some_iff.1 h
  refine ⟨p, hp, ?_⟩
  constructor
  · rintro rfl
    cases more with
    | nil => rw [List.append_nil]
    | cons c more => cases hmore
  · intro hall
    rw [List.self_eq_append_right.1 hall] at hmore
    exact Option.some.inj hmore

theorem drops_of_walk? (h : entrance.walk? bs = some exit) (hr : r ++ [b] <+: bs) :
    0 < depth (Lex.open.marks r) ∧ depth (Lex.open.marks (r ++ [b])) = 0 ↔ r ++ [b] = bs := by
  obtain ⟨p, hp, hexit⟩ := exists_of_walk?_exit h hr
  obtain ⟨q, hq, hnext⟩ := exists_of_walk?_concat hp
  rw [(nests_of_walk? hq).2.unclosed.depth_eq, (nests_of_walk? hp).2.unclosed.depth_eq, ← hexit,
    Int.natCast_pos, Int.natCast_eq_zero, List.length_pos_iff, List.length_eq_zero_iff]
  constructor
  · intro ⟨hopened, hnone⟩
    exact (eq_exit_of_next? hopened hnext hnone).1
  · rintro rfl
    exact ⟨opened_of_next?_exit hnext, rfl⟩

end Place

/-- The bytes are one element, and no tag in it can only be outermost but the first. -/
structure IsElement (bytes : Bytes) : Prop where
  begins : ∃ b rest, bytes = 60 :: b :: rest ∧ isNameStart b = true
  ends : bytes.getLast? = some 62
  nested : Nested (Lex.text.marks bytes)
  drops : ∀ r b, r ++ [b] <+: bytes →
    (0 < depth (Lex.text.marks r) ∧ depth (Lex.text.marks (r ++ [b])) = 0 ↔ r ++ [b] = bytes)
  inner : ∀ name, .opens name ∈ (Lex.text.marks bytes).tail → name ∉ outermostTags

theorem marks_bracket (bs : Bytes) : Lex.text.marks (60 :: bs) = Lex.open.marks bs := rfl

theorem isElement_of_walk? {bs : Bytes} (h : Place.entrance.walk? bs = some .exit) :
    IsElement (60 :: bs) := by
  obtain ⟨-, hnests⟩ := Place.nests_of_walk? h
  obtain rfl | ⟨body, last, rfl⟩ := List.eq_nil_or_concat' bs
  · cases h
  obtain ⟨p, hbody, hlast⟩ := Place.exists_of_walk?_concat h
  have hopened : p.opened ≠ [] := Place.opened_of_next?_exit hlast
  constructor
  · cases body with
    | nil => exact ⟨last, [], rfl, Place.isNameStart_of_walk? h⟩
    | cons b rest => exact ⟨b, rest ++ [last], rfl, Place.isNameStart_of_walk? h⟩
  · rw [← List.cons_append, List.getLast?_concat, (Place.eq_exit_of_next? hopened hlast rfl).2]
  · rw [marks_bracket]
    cases hnests.unclosed with
    | nil hmarks => exact hmarks
  · intro r b hr
    cases r with
    | nil =>
      obtain ⟨rfl, -⟩ := List.cons_prefix_cons.1 hr
      simp
    | cons c r =>
      obtain ⟨rfl, hinner⟩ := List.cons_prefix_cons.1 hr
      rw [List.cons_append, marks_bracket, marks_bracket, Place.drops_of_walk? h hinner,
        List.cons.injEq, eq_self, true_and]
  · exact hnests.inner

-- Brackets in values and comments are no tags.
example : Lex.text.marks (Text.utf8 "<a b='/>'><!-- <c> --><d/></a >") =
    [.opens "a", .opens "d", .shuts, .closes "a"] := by
  decide +kernel

end InstrumentBus.Wire
