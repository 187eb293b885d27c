import InstrumentBus.Proofs.Wire.Course

/-!
Whatever frame a splitter tells of has run its course: traced from the bracket that it begins with,
its bytes lead out of it with the last one.
-/

namespace InstrumentBus.Wire

open Text (Bytes)

def Lex.IsNaming : Lex → Prop
  | .open => True
  | .startName _ => True
  | _ => False

namespace Splitter

variable {s : Splitter} {b : UInt8}

@[simp] theorem closeInnermost_lex : s.closeInnermost.1.lex = s.lex := by
  simp only [closeInnermost]
  split <;> rfl

@[simp] theorem closeElement_lex (name : String) : (s.closeElement name).1.lex = s.lex := by
  simp only [closeElement]
  split
  · rfl
  · split
    · exact closeInnermost_lex
    · rfl

theorem not_isNaming_attributeByte {quote : Option UInt8} {slash : Bool}
    (hlex : quote ≠ none → ¬s.lex.IsNaming) : ¬(s.attributeByte quote slash b).1.lex.IsNaming := by
  cases quote with
  | some q =>
    simp only [attributeByte]
    split
    · simp [Lex.IsNaming]
    · exact hlex (Option.some_ne_none q)
  | none =>
    simp only [attributeByte]
    repeat' split
    all_goals simp [Lex.IsNaming]

theorem enter?_of_isNaming_lexByte {here : Nat} (h : (s.lexByte here b).1.lex.IsNaming) :
    s.lex = .text ∧ b = 60 ∧ (s.lexByte here b).1.lex = .open ∨
      s.lex.IsNaming ∧ Place.enter? ⟨s.lex, []⟩ b = some ⟨(s.lexByte here b).1.lex, []⟩ := by
  cases hl : s.lex with
  | text =>
    by_cases hb : b = 60
    · exact .inl ⟨rfl, hb, by simp [lexByte, hl, hb]⟩
    · simp only [lexByte, hl, hb, ↓reduceIte] at h
      split at h
      · cases h
      · simp [hl, Lex.IsNaming] at h
  | «open» =>
    right
    simp only [lexByte, hl] at h ⊢
    repeat' split at h
    all_goals first
      | exact False.elim h
      | exact ⟨trivial, by simp [Place.enter?, Place.stay, *]⟩
  | startName name =>
    right
    by_cases hb : isNameByte b = true
    · exact ⟨trivial, by simp [lexByte, hl, hb, Place.enter?, Place.stay]⟩
    · simp only [lexByte, hl, hb, Bool.false_eq_true, ↓reduceIte] at h
      cases ho : s.openElement (spell name) with
      | mk t event =>
        rw [ho] at h
        cases event with
        | some event => simp [Lex.IsNaming] at h
        | none => exact absurd h (not_isNaming_attributeByte fun hne => absurd rfl hne)
  | attributes quote slash =>
    simp only [lexByte, hl] at h
    exact absurd h (not_isNaming_attributeByte fun _ => by simp [hl, Lex.IsNaming])
  | bang seen =>
    simp only [lexByte, hl, afterBang] at h
    repeat' split at h
    all_goals simp [Lex.IsNaming] at h
  | endName name =>
    simp only [lexByte, hl] at h
    repeat' split at h
    all_goals simp [Lex.IsNaming] at h
  | endTail name =>
    simp only [lexByte, hl] at h
    split at h
    all_goals simp [hl, Lex.IsNaming] at h
  | _ =>
    simp only [lexByte, hl] at h
    repeat' split at h
    all_goals simp [hl, Lex.IsNaming] at h

theorem enter?_of_isNaming_readByte (h : (s.readByte b).1.lex.IsNaming) :
    s.lex = .text ∧ b = 60 ∧ (s.readByte b).1.lex = .open ∨
      s.lex.IsNaming ∧ Place.enter? ⟨s.lex, []⟩ b = some ⟨(s.readByte b).1.lex, []⟩ := by
  obtain ⟨hread, -⟩ | ⟨hread, -, -, hlex, -⟩ := s.readByte_cases b
  · rw [hread, step_lex] at h ⊢
    exact enter?_of_isNaming_lexByte (s := s.advance b) h
  · rw [hread, step_lex] at h
    obtain ⟨htext, -⟩ | ⟨hnaming, -⟩ :=
      enter?_of_isNaming_lexByte (s := (s.step b).1.advance b) h
    · simp [hlex] at htext
    · simp [hlex, Lex.IsNaming] at hnaming

variable {limit start stop : Nat} {log before q bs : Bytes} {os os' : List String}

theorem drain_ofLimit (limit : Nat) (stream : Bytes) :
    ((ofLimit limit).extend stream).drain.2 = ((ofLimit limit).read stream).2 := by
  change ((ofLimit limit).withUnread stream).drain.2 = _
  rw [drain_eq_settle, settle_withUnread]
  rfl

/-- Behind each of the bytes that follow a bracket, the splitter is in the middle of what a frame
that begins with that bracket is in the middle of there. -/
def Agrees (limit : Nat) (before q : Bytes) : Prop :=
  ∀ r, r <+: q → ∃ os, Place.entrance.walk? r = some ⟨(after limit (before ++ 60 :: r)).lex, os⟩

/-- What a log has from `start` on is the course of a frame up to where `os` are open. -/
def Runs (limit : Nat) (log : Bytes) (start : Nat) (os : List String) : Prop :=
  ∃ before q, log = before ++ 60 :: q ∧ before.length = start ∧ Agrees limit before q ∧
    Place.entrance.walk? q = some ⟨(after limit log).lex, os⟩

theorem runs_bracket (h : (after limit (log ++ [60])).lex = .open) :
    Runs limit (log ++ [60]) log.length [] := by
  refine ⟨log, [], rfl, rfl, ?_, by rw [h]; rfl⟩
  intro r hr
  rw [List.prefix_nil.1 hr, h]
  exact ⟨[], rfl⟩

theorem Runs.concat (h : Runs limit log start os)
    (hnext : Place.next? ⟨(after limit log).lex, os⟩ b =
      some ⟨(after limit (log ++ [b])).lex, os'⟩) : Runs limit (log ++ [b]) start os' := by
  obtain ⟨before, q, hlog, hlength, hagrees, hwalk⟩ := h
  have hconcat : log ++ [b] = before ++ 60 :: (q ++ [b]) := by rw [hlog, List.append_assoc]; rfl
  have hwalk' : Place.entrance.walk? (q ++ [b]) = some ⟨(after limit (log ++ [b])).lex, os'⟩ := by
    rw [Place.walk?_append, hwalk, Option.bind_some, Place.walk?_cons, hnext]
    rfl
  refine ⟨before, q ++ [b], hconcat, hlength, ?_, hwalk'⟩
  intro r hr
  obtain rfl | hr := List.prefix_concat_iff.1 hr
  · rw [← hconcat]
    exact ⟨os', hwalk'⟩
  · exact hagrees r hr

structure Traced (limit : Nat) (log : Bytes) : Prop where
  tag : (after limit log).lex.IsNaming → Runs limit log (after limit log).tagStart []
  frame : ∀ st ∈ (after limit log).frameStart, Runs limit log st (after limit log).opened

theorem traced_nil : Traced limit [] := ⟨False.elim, by simp [after, ofLimit]⟩

theorem Traced.tag_concat (h : Traced limit log) (b : UInt8)
    (hnaming : (after limit (log ++ [b])).lex.IsNaming) :
    Runs limit (log ++ [b]) (after limit (log ++ [b])).tagStart [] := by
  have hlex : (after limit (log ++ [b])).lex ≠ .text := by
    intro htext
    rw [htext] at hnaming
    exact hnaming
  rw [after_concat] at hlex hnaming ⊢
  have htag := tagStart_readByte hlex
  obtain ⟨htext, rfl, hopen⟩ | ⟨hbefore, henter⟩ := enter?_of_isNaming_readByte hnaming
  · obtain ⟨htag, -⟩ | ⟨-, hne⟩ := htag
    · rw [htag, holds_after.position]
      exact runs_bracket (after_concat ▸ hopen)
    · exact absurd htext hne
  · obtain ⟨-, htext⟩ | ⟨htag, -⟩ := htag
    · rw [htext] at hbefore
      exact hbefore.elim
    · rw [htag]
      exact (h.tag hbefore).concat (after_concat ▸ henter)

theorem Traced.frame_concat (h : Traced limit log) (b : UInt8) {st : Nat}
    (hst : (after limit (log ++ [b])).frameStart = some st) :
    Runs limit (log ++ [b]) st (after limit (log ++ [b])).opened := by
  have hsound : (after limit log).IsSound := isSound_after
  have hopened : (after limit (log ++ [b])).opened ≠ [] := by
    intro hnone
    simp [(isSound_after.balanced.idle hnone).1] at hst
  rw [after_concat] at hst hopened ⊢
  obtain ⟨name, hname⟩ | ⟨hinside, p, hp, hpasses⟩ | ⟨hnone, -⟩ := readByte_course hsound b
  · obtain ⟨hplace, hstart, -⟩ := hname.readByte hsound
    obtain ⟨hlex, hopened⟩ := Place.mk.inj hplace
    rw [hstart st hst, hopened]
    refine (h.tag (by simp [hname.lex, Lex.IsNaming])).concat ?_
    rw [after_concat, hlex, hname.lex]
    simp [Place.next?, Place.enter?, hname.ends]
  · obtain rfl := hpasses.place
    rw [hpasses.frame hopened] at hst
    split at hst
    · cases hst
    · refine (h.frame st hst).concat ?_
      rw [after_concat]
      exact (Place.next?_of_opened hinside).trans hp
  · exact absurd hnone hopened

theorem traced (limit : Nat) (log : Bytes) : Traced limit log := by
  induction log using List.reverseRecOn with
  | nil => exact traced_nil
  | append_singleton log b ih => exact ⟨ih.tag_concat b, fun st hst => ih.frame_concat b hst⟩

theorem of_mem_finishFrame {bytes : Bytes}
    (h : .frame start stop bytes ∈ (s.advance b).finishFrame.2) :
    s.frameStart = some start ∧ stop = s.position + 1 ∧ bytes = s.held.reverse ++ [b] := by
  simp only [finishFrame] at h
  split at h
  · cases h
  · obtain ⟨st, hst, hframe⟩ := Option.map_eq_some_iff.1 h
    cases hframe
    exact ⟨hst, rfl, List.reverse_cons⟩

/-- With the byte `b` the open frame is complete, and this is all that is told. -/
structure Completes (s : Splitter) (b : UInt8) (start stop : Nat) (bytes : Bytes) : Prop where
  frameStart : s.frameStart = some start
  stop_eq : stop = s.position + 1
  bytes_eq : bytes = s.held.reverse ++ [b]
  opened : s.opened ≠ []
  next : s.place.proceed? b = some .exit
  place : (s.readByte b).1.place = .exit
  alone : (s.readByte b).2 = [.frame start stop bytes]

theorem completes_of_mem_readByte {bytes : Bytes} (hs : s.IsSound)
    (h : .frame start stop bytes ∈ (s.readByte b).2) : Completes s b start stop bytes := by
  obtain ⟨name, hname⟩ | ⟨hinside, p, hp, hpasses⟩ | ⟨-, hfault⟩ := readByte_course hs b
  · obtain ⟨-, -, hfault⟩ := hname.readByte hs
    obtain ⟨fault, hfault⟩ := hfault _ h
    cases hfault
  · by_cases hopened : p.opened = []
    · obtain ⟨rfl, hevents⟩ := hpasses.outside hopened
      have hframe : .frame start stop bytes ∈ (s.advance b).finishFrame.2 := by
        rwa [hevents, Option.mem_toList] at h
      obtain ⟨hstart, hstop, hbytes⟩ := of_mem_finishFrame hframe
      exact {
        frameStart := hstart
        stop_eq := hstop
        bytes_eq := hbytes
        opened := hinside
        next := hp
        place := hpasses.place
        alone := by rw [hevents, Option.mem_def.1 hframe, Option.toList_some]
      }
    · rw [hpasses.inside hopened] at h
      split at h
      · cases List.mem_singleton.1 h
      · cases h
  · obtain ⟨fault, hfault⟩ := hfault _ h
    cases hfault

theorem Completes.eq_drop {bytes : Bytes} (h : Completes s b start stop bytes)
    (hlog : s.Holds log) (hs : s.IsPlaced) :
    start < stop ∧ stop = (log ++ [b]).length ∧ bytes = (log ++ [b]).drop start := by
  have hlt := hs.start start h.frameStart
  have hkeep : s.keepFrom = start := by simp only [keepFrom, h.frameStart]
  rw [h.stop_eq, h.bytes_eq, hlog.held, hkeep]
  rw [hlog.position] at hlt ⊢
  refine ⟨Nat.lt_succ_of_lt hlt, by simp, ?_⟩
  rw [List.drop_append_of_le_length (Nat.le_of_lt hlt)]

theorem runs_of_mem_readByte {bytes : Bytes}
    (h : .frame start stop bytes ∈ ((after limit log).readByte b).2) :
    Runs limit (log ++ [b]) start [] ∧ (after limit (log ++ [b])).lex = .text ∧
      bytes = (log ++ [b]).drop start ∧ bytes.length ≤ limit + 1 := by
  have hsound : (after limit log).IsSound := isSound_after
  have hdone := completes_of_mem_readByte hsound h
  obtain ⟨-, -, hbytes⟩ := hdone.eq_drop holds_after hsound.placed
  have hfit := isFit_after start hdone.frameStart
  have hlex : (after limit (log ++ [b])).lex = .text := by
    rw [after_concat]
    exact congrArg Place.lex hdone.place
  have hnext : Place.next? (after limit log).place b =
      some ⟨(after limit (log ++ [b])).lex, []⟩ := by
    rw [Place.next?_of_opened hdone.opened, hlex, hdone.next]
    rfl
  refine ⟨((traced limit log).frame start hdone.frameStart).concat hnext, hlex, hbytes, ?_⟩
  rw [after_limit, holds_after.position] at hfit
  rw [hbytes, List.length_drop, List.length_append, List.length_singleton]
  omega

theorem exists_of_mem_read {bytes : Bytes}
    (h : .frame start stop bytes ∈ ((ofLimit limit).read log).2) :
    ∃ before q, bytes = 60 :: q ∧ before ++ bytes <+: log ∧ before.length = start ∧
      Agrees limit before q ∧ Place.entrance.walk? q = some .exit ∧ bytes.length ≤ limit + 1 := by
  induction log using List.reverseRecOn with
  | nil => cases h
  | append_singleton log b ih =>
    rw [read_append, read_singleton, List.mem_append] at h
    obtain h | h := h
    · obtain ⟨before, q, hbytes, hlog, hrest⟩ := ih h
      exact ⟨before, q, hbytes, hlog.trans (List.prefix_append ..), hrest⟩
    · obtain ⟨⟨before, q, hlog, rfl, hagrees, hwalk⟩, hlex, hbytes, hlength⟩ :=
        runs_of_mem_readByte h
      rw [hlog, List.drop_left] at hbytes
      rw [hlex] at hwalk
      exact ⟨before, q, hbytes, hlog ▸ hbytes ▸ List.prefix_rfl, rfl, hagrees, hwalk, hlength⟩

end Splitter
end InstrumentBus.Wire
