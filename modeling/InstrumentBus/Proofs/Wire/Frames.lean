import InstrumentBus.Proofs.Wire.Nesting
import InstrumentBus.Wire.Window

/-!
The frames of a stream: whatever is asked of a splitter, those that it tells of stand one behind the
other in the stream, and each is one element.
-/

namespace InstrumentBus.Wire

open Text (Bytes)

def Call.bytes : Call → Bytes
  | .extend bs => bs
  | .scan => []

def stream (calls : List Call) : Bytes := calls.flatMap Call.bytes

def Event.span? : Event → Option (Nat × Nat)
  | .frame start stop _ => some (start, stop)
  | .fault _ => none

theorem Event.span?_eq_some_iff {event : Event} {span : Nat × Nat} :
    event.span? = some span ↔ ∃ bytes, event = .frame span.1 span.2 bytes := by
  cases event with
  | fault e => simp [span?]
  | frame start stop bytes => simp [span?, Prod.ext_iff]

namespace Splitter

variable {s : Splitter} {limit start stop : Nat} {log bytes : Bytes} {b : UInt8}

theorem settle_answer (s : Splitter) (call : Call) (bs : Bytes) :
    (s.extend (call.bytes ++ bs)).settle.2 =
      (s.answer call).2.toList ++ ((s.answer call).1.extend bs).settle.2 := by
  cases call with
  | extend cs =>
    have hextend : s.extend (cs ++ bs) = (s.extend cs).extend bs := by
      simp only [extend, List.append_assoc]
    rw [Call.bytes, hextend]
    rfl
  | scan =>
    have hsettle := s.settleAfter_next?
    change (s.extend bs).settle.2 = s.next?.2.toList ++ (s.next?.1.extend bs).settle.2
    rw [settle_extend, ← hsettle]
    cases hn : s.next? with
    | mk t event =>
      cases event with
      | none => rfl
      | some event =>
        rw [settle_extend t bs]
        rfl

theorem settle_answers (s : Splitter) (calls : List Call) :
    (s.extend (stream calls)).settle.2 = (s.answers calls).2 ++ (s.answers calls).1.settle.2 := by
  induction calls generalizing s with
  | nil =>
    have hnil : s.extend (stream []) = s := by simp [extend, stream]
    rw [hnil]
    rfl
  | cons call calls ih =>
    have hstream : stream (call :: calls) = call.bytes ++ stream calls := List.flatMap_cons
    rw [hstream, settle_answer, ih]
    exact (List.append_assoc ..).symm

theorem answers_prefix_read (limit : Nat) (calls : List Call) :
    ((ofLimit limit).answers calls).2 <+: ((ofLimit limit).read (stream calls)).2 := by
  have hall : ((ofLimit limit).extend (stream calls)).settle.2 =
      ((ofLimit limit).read (stream calls)).2 := by
    rw [← drain_ofLimit, drain_eq_settle]
  rw [← hall, settle_answers]
  exact List.prefix_append ..

def spans (limit : Nat) (log : Bytes) : List (Nat × Nat) :=
  ((ofLimit limit).read log).2.filterMap Event.span?

theorem spans_concat : spans limit (log ++ [b]) =
    spans limit log ++ ((after limit log).readByte b).2.filterMap Event.span? := by
  rw [spans, read_append, read_singleton, List.filterMap_append]
  rfl

theorem span?_readByte (hs : s.IsSound) (b : UInt8) :
    (s.readByte b).2.filterMap Event.span? = [] ∨
      ∃ start stop bytes, Completes s b start stop bytes ∧
        (s.readByte b).2.filterMap Event.span? = [(start, stop)] := by
  by_cases hspan : ∃ event ∈ (s.readByte b).2, event.span?.isSome
  · obtain ⟨event, hevent, hspan⟩ := hspan
    obtain ⟨span, hspan⟩ := Option.isSome_iff_exists.1 hspan
    obtain ⟨bytes, rfl⟩ := Event.span?_eq_some_iff.1 hspan
    have hdone := completes_of_mem_readByte hs hevent
    exact .inr ⟨span.1, span.2, bytes, hdone, by rw [hdone.alone]; rfl⟩
  · left
    rw [List.filterMap_eq_nil_iff]
    intro event hevent
    rw [← Option.not_isSome_iff_eq_none]
    exact fun hsome => hspan ⟨event, hevent, hsome⟩

theorem Completes.keepFrom_readByte (h : Completes s b start stop bytes) (hs : s.IsSound) :
    (s.readByte b).1.keepFrom = stop := by
  have hlex : (s.readByte b).1.lex = .text := congrArg Place.lex h.place
  have hopened : (s.readByte b).1.opened = [] := congrArg Place.opened h.place
  have hframe := ((hs.readByte b).balanced.idle hopened).1
  rw [h.stop_eq, ← s.readByte_position b]
  simp only [keepFrom, hframe, hlex, ↓reduceIte]

theorem spans_before (limit : Nat) (log : Bytes) :
    (spans limit log).Pairwise (fun f g => f.2 ≤ g.1) ∧
      ∀ f ∈ spans limit log, f.2 ≤ (after limit log).keepFrom := by
  induction log using List.reverseRecOn with
  | nil => exact ⟨.nil, by simp [spans]⟩
  | append_singleton log b ih =>
    obtain ⟨hapart, hbefore⟩ := ih
    have hsound : (after limit log).IsSound := isSound_after
    have hkeep : (after limit log).keepFrom ≤ (after limit (log ++ [b])).keepFrom :=
      after_concat ▸ holds_after.keepFrom_le_readByte hsound.placed b
    have hbefore' : ∀ f ∈ spans limit log, f.2 ≤ (after limit (log ++ [b])).keepFrom :=
      fun f hf => Nat.le_trans (hbefore f hf) hkeep
    rw [spans_concat]
    obtain hnone | ⟨start, stop, bytes, hdone, hspan⟩ := span?_readByte hsound b
    · rw [hnone, List.append_nil]
      exact ⟨hapart, hbefore'⟩
    · have hstart : (after limit log).keepFrom = start := by simp only [keepFrom, hdone.frameStart]
      have hstop : (after limit (log ++ [b])).keepFrom = stop :=
        after_concat ▸ hdone.keepFrom_readByte hsound
      rw [hspan]
      constructor
      · refine List.pairwise_append.2 ⟨hapart, List.pairwise_singleton .., ?_⟩
        intro f hf g hg
        rw [List.mem_singleton.1 hg, ← hstart]
        exact hbefore f hf
      · intro f hf
        obtain hf | hf := List.mem_append.1 hf
        · exact hbefore' f hf
        · rw [List.mem_singleton.1 hf, hstop]

theorem Agrees.lex {before q : Bytes} (h : Agrees limit before q) : Lex.text.run before = .text := by
  obtain ⟨os, hwalk⟩ := h [] List.nil_prefix
  have hopen : (after limit (before ++ [60])).lex = .open :=
    (congrArg Place.lex (Option.some.inj hwalk)).symm
  rw [after_lex, Lex.run_append] at hopen
  exact Lex.eq_text_of_follow hopen

theorem frame_of_mem_read (h : .frame start stop bytes ∈ ((ofLimit limit).read log).2) :
    start < stop ∧ stop ≤ log.length ∧ bytes = (log.take stop).drop start := by
  induction log using List.reverseRecOn with
  | nil => cases h
  | append_singleton log b ih =>
    rw [read_append, read_singleton, List.mem_append] at h
    obtain h | h := h
    · obtain ⟨hlt, hle, hbytes⟩ := ih h
      rw [List.take_append_of_le_length hle, List.length_append]
      exact ⟨hlt, Nat.le_add_right_of_le hle, hbytes⟩
    · have hsound : (after limit log).IsSound := isSound_after
      obtain ⟨hlt, rfl, hbytes⟩ :=
        (completes_of_mem_readByte hsound h).eq_drop holds_after hsound.placed
      exact ⟨hlt, Nat.le_refl _, by rw [List.take_length, hbytes]⟩

/-- However a stream is cut into chunks, and whenever events are asked for, the frames that are told
stand one behind the other in it. Each begins where no tag is being read, so that it has the tags
that its bytes have by themselves, and it is one element by these. -/
theorem frames_are_disjoint_elements (limit : Nat) (calls : List Call) :
    (((ofLimit limit).answers calls).2.filterMap Event.span?).Pairwise (fun f g => f.2 ≤ g.1) ∧
      ∀ start stop bytes, .frame start stop bytes ∈ ((ofLimit limit).answers calls).2 →
        start < stop ∧ stop ≤ (stream calls).length ∧
          bytes = ((stream calls).take stop).drop start ∧
          (∀ r, (after limit ((stream calls).take start ++ r)).lex = Lex.text.run r) ∧
          IsElement bytes := by
  have hbegins := answers_prefix_read limit calls
  constructor
  · exact (spans_before limit (stream calls)).1.sublist (hbegins.filterMap _).sublist
  · intro start stop bytes hframe
    have hread := hbegins.mem hframe
    obtain ⟨hlt, hle, hbytes⟩ := frame_of_mem_read hread
    obtain ⟨before, q, rfl, hstream, rfl, hagrees, hwalk, -⟩ := exists_of_mem_read hread
    have hbefore : (stream calls).take before.length = before :=
      List.prefix_iff_eq_take.1 ((List.prefix_append ..).trans hstream) |>.symm
    refine ⟨hlt, hle, hbytes, ?_, isElement_of_walk? hwalk⟩
    intro r
    rw [hbefore, after_lex, Lex.run_append, hagrees.lex]

end Splitter
end InstrumentBus.Wire
