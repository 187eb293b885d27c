import Mathlib.Data.List.Chain
import InstrumentBus.Proofs.Wire.Course
import InstrumentBus.Proofs.Wire.Recovery

/-!
Bytes between frames that begin no tag: each run of them is told of, and they do not keep the next
frame from arriving, unless a bracket is left over that the frame's own one is taken to follow.
-/

namespace InstrumentBus.Wire

open Text (Bytes)

def IsStray (bs : Bytes) : Prop := bs.IsChain fun a b => a = 60 → beginsTag b = false

instance (bs : Bytes) : Decidable (IsStray bs) := inferInstanceAs (Decidable (List.IsChain _ bs))

def endBrackets (bs : Bytes) : Nat := (bs.reverse.takeWhile (· == 60)).length

theorem endBrackets_concat (bs : Bytes) (b : UInt8) :
    endBrackets (bs ++ [b]) = if b = 60 then endBrackets bs + 1 else 0 := by
  rw [endBrackets, List.reverse_append, List.reverse_singleton, List.singleton_append]
  by_cases hb : b = 60
  · simp [hb, endBrackets]
  · simp [hb]

theorem getLast?_of_endBrackets {bs : Bytes} (h : endBrackets bs ≠ 0) : bs.getLast? = some 60 := by
  induction bs using List.reverseRecOn with
  | nil => exact absurd rfl h
  | append_singleton bs b =>
    rw [endBrackets_concat] at h
    split at h
    · rename_i hb
      rw [hb, List.getLast?_concat]
    · exact absurd rfl h

namespace Splitter

variable {s : Splitter} {b : UInt8}

section

variable (hopened : s.opened = [])
  (hlex : s.lex = .text ∨ s.lex = .open ∧ beginsTag b = false)
include hopened hlex

theorem lexByte_lex_of_stray (here : Nat) :
    (s.lexByte here b).1.lex = if s.lex = .text ∧ b = 60 then .open else .text := by
  obtain hlex | ⟨hlex, hb⟩ := hlex
  · by_cases hb : b = 60
    · simp [lexByte, hlex, hb]
    · simp only [lexByte, hlex, hb, and_false, ↓reduceIte]
      split
      · rfl
      · exact hlex
  · simp only [beginsTag, Bool.or_eq_false_iff, beq_eq_false_iff_ne] at hb
    simp [lexByte, hlex, hb, hopened]

theorem readByte_stray (hs : s.IsSound) :
    (s.readByte b).1.opened = [] ∧
      (s.readByte b).1.lex = (if s.lex = .text ∧ b = 60 then .open else .text) ∧
      ∀ event ∈ (s.readByte b).2, ∃ fault, event = .fault fault := by
  have hname : ∀ name, s.lex ≠ .startName name := by
    intro name hname
    obtain hlex | ⟨hlex, -⟩ := hlex <;> simp [hlex] at hname
  obtain ⟨hopened', hfault⟩ := strays_readByte hs (fun name h => hname name h.lex) fun hne =>
    absurd hopened hne
  refine ⟨hopened', ?_, hfault⟩
  rw [readByte_of_lex s hname, step_lex]
  exact lexByte_lex_of_stray (s := s.advance b) hopened hlex s.position

end

/-- Behind stray bytes no element is open; each second one of the brackets that stand at their end
is taken for stray. -/
theorem read_stray (limit : Nat) {bs : Bytes} (h : IsStray bs) :
    ((ofLimit limit).read bs).1.opened = [] ∧
      ((ofLimit limit).read bs).1.lex = (if endBrackets bs % 2 = 0 then .text else .open) ∧
      ∀ event ∈ ((ofLimit limit).read bs).2, ∃ fault, event = .fault fault := by
  induction bs using List.reverseRecOn with
  | nil => exact ⟨rfl, rfl, by simp⟩
  | append_singleton bs b ih =>
    obtain ⟨hbs, -, hlast⟩ := List.isChain_append.1 h
    obtain ⟨hopened, hlex, hfault⟩ := ih hbs
    have hnext : ((ofLimit limit).read bs).1.lex = .text ∨
        ((ofLimit limit).read bs).1.lex = .open ∧ beginsTag b = false := by
      rw [hlex]
      split
      · exact .inl rfl
      · rename_i hodd
        have hbracket : bs.getLast? = some 60 := getLast?_of_endBrackets (by omega)
        exact .inr ⟨rfl, hlast 60 hbracket b rfl rfl⟩
    obtain ⟨hopened', hlex', hfault'⟩ :=
      readByte_stray hopened hnext ((isSound_ofLimit limit).read bs)
    rw [read_append, read_singleton]
    refine ⟨hopened', ?_, ?_⟩
    · rw [hlex', hlex, endBrackets_concat]
      by_cases hb : b = 60
      · by_cases heven : endBrackets bs % 2 = 0
        · have hodd : ¬(endBrackets bs + 1) % 2 = 0 := by omega
          simp [hb, heven, hodd]
        · have heven' : (endBrackets bs + 1) % 2 = 0 := by omega
          simp [hb, heven, heven']
      · simp [hb]
    · intro event hevent
      exact (List.mem_append.1 hevent).elim (hfault event) (hfault' event)

theorem exists_faults {events : List Event}
    (h : ∀ event ∈ events, ∃ fault, event = .fault fault) :
    ∃ faults : List WireError, events.filterMap Event.arrival? = faults.map .error := by
  induction events with
  | nil => exact ⟨[], rfl⟩
  | cons event events ih =>
    obtain ⟨fault, rfl⟩ := h event List.mem_cons_self
    obtain ⟨faults, hfaults⟩ := ih fun e he => h e (List.mem_cons_of_mem _ he)
    have hcons := List.filterMap_cons_some (l := events) (show Event.arrival? (.fault fault) = _ from rfl)
    exact ⟨fault :: faults, by rw [hcons, hfaults]; rfl⟩

end Splitter

namespace Decoder

/-- Bytes that begin no tag are answered by recoverable errors alone, and then the message arrives
that follows them, if no bracket is left over at their end. -/
theorem fed_behind_stray (limit : Nat) (garbage : Bytes) (chunks : List Bytes) (m : Message)
    (hgarbage : IsStray garbage) (heven : endBrackets garbage % 2 = 0)
    (hsize : m.toBytes.length ≤ limit + 1) (hchunks : chunks.flatten = garbage ++ m.toBytes) :
    ∃ (errors : List WireError) (a : Arrival) (d e : Decoder),
      Fed (.ofLimit limit) [garbage] (errors.map .error) d ∧
      (∀ error ∈ errors, error.isRecoverable = true) ∧
      Fed (.ofLimit limit) chunks (errors.map .error ++ [a]) e ∧
      Message.ofFrame? m.toBytes = a.map some ∧
      (m.IsCarriable → a = .ok m.carried) ∧
      e.hasPartialFrame = false := by
  have hsound := Splitter.isSound_ofLimit limit
  have hfit : (Splitter.ofLimit limit).IsFit := Splitter.isFit_of_frameStart rfl
  obtain ⟨hopened, hlex, hfault⟩ := Splitter.read_stray limit hgarbage
  rw [if_pos heven] at hlex
  obtain ⟨errors, herrors⟩ := Splitter.exists_faults hfault
  obtain ⟨a, ha, harrivals, hlex', hopened'⟩ := Splitter.read_message (hsound.read garbage)
    (hfit.read hsound garbage) hlex m (by rwa [Splitter.read_limit])
  rw [Splitter.interruption_of_idle hopened] at harrivals
  have hgarbage' : Fed (.ofLimit limit) [garbage] (errors.map .error)
      ⟨((Splitter.ofLimit limit).read garbage).1.withUnread []⟩ := by
    rw [fed_ofLimit_iff, List.flatten_singleton, herrors]
    exact ⟨rfl, rfl⟩
  have hall : Fed (.ofLimit limit) chunks (errors.map .error ++ [a])
      ⟨(((Splitter.ofLimit limit).read garbage).1.read m.toBytes).1.withUnread []⟩ := by
    rw [fed_ofLimit_iff, hchunks, Splitter.read_append, List.filterMap_append, herrors, harrivals]
    exact ⟨rfl, rfl⟩
  refine ⟨errors, a, _, _, hgarbage', ?_, hall, ha,
    fun h => map_some_injective (ha.symm.trans (m.ofFrame?_of_isCarriable h)),
    hasPartialFrame_of_idle ((hsound.read garbage).read m.toBytes) hlex' hopened'⟩
  intro error herror
  apply isRecoverable_of_settle ((ofLimit limit).feed garbage)
  have hsettle := (fed_iff rfl).1 hgarbage'
  rw [List.flatten_singleton] at hsettle
  rw [hsettle]
  exact List.mem_map_of_mem herror

/-- A bracket that is left over is followed by the frame's own one, which is no name: both are taken
for stray, and the frame for text. -/
theorem frame_behind_bracket_is_lost :
    IsStray (Text.utf8 "<") ∧
      (Message.discover ⟨none, none, none⟩).toBytes.length ≤ 64 + 1 ∧
      ∀ out e,
        Fed (.ofLimit 64) [Text.utf8 "<", (Message.discover ⟨none, none, none⟩).toBytes] out e →
          out = [.error (.malformed "stream" .strayBracket)] := by
  refine ⟨by decide +kernel, by decide +kernel, ?_⟩
  intro out e h
  exact (fed_ofLimit_iff.1 h).2

theorem frame_behind_brackets_arrives :
    ∃ (errors : List WireError) (a : Arrival) (d e : Decoder),
      Fed (.ofLimit 64) [Text.utf8 "1 < 2 <<"] (errors.map .error) d ∧
      (∀ error ∈ errors, error.isRecoverable = true) ∧
      Fed (.ofLimit 64) [Text.utf8 "1 < ", Text.utf8 "2 <<<getProperties/>\n"]
        (errors.map .error ++ [a]) e ∧
      a = .ok (.discover ⟨none, none, none⟩) ∧ e.hasPartialFrame = false := by
  have hchunks : [Text.utf8 "1 < ", Text.utf8 "2 <<<getProperties/>\n"].flatten =
      Text.utf8 "1 < 2 <<" ++ (Message.discover ⟨none, none, none⟩).toBytes := by
    decide +kernel
  obtain ⟨errors, a, d, e, hgarbage, hmild, hall, -, ha, hend⟩ :=
    fed_behind_stray 64 (Text.utf8 "1 < 2 <<") _ _ (by decide +kernel) (by decide +kernel)
      (by decide +kernel) hchunks
  exact ⟨errors, a, d, e, hgarbage, hmild, hall, ha trivial, hend⟩

end Decoder
end InstrumentBus.Wire
