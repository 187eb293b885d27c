import Mathlib.Data.List.Induction
import InstrumentBus.Proofs.Wire.Chunks
import InstrumentBus.Proofs.Wire.Invariant

/-!
What a splitter holds back: of an open frame all that was read of it, which is within the limit, and
elsewhere the tag that is being read, which is not.
-/

namespace InstrumentBus.Wire

open Text (Bytes)

namespace Splitter

variable {s t : Splitter} {log : Bytes}

@[simp] theorem lexByte_held (here : Nat) (b : UInt8) : (s.lexByte here b).1.held = s.held := by
  have hlexed := s.lexed_lexByte here b
  generalize s.lexByte here b = r at hlexed ⊢
  cases hlexed with
  | opens | cuts => exact s.openElement_held _
  | _ => rfl

@[simp] theorem checkSize_held : s.checkSize.1.held = s.held := by
  simp only [checkSize]
  split
  · split <;> rfl
  · rfl

@[simp] theorem trim_keepFrom (before : Nat) : (s.trim before).keepFrom = s.keepFrom := by
  simp only [trim]
  split <;> rfl

/-- Of a log of which the splitter has read all, it holds what comes from `keepFrom` on. -/
structure Holds (s : Splitter) (log : Bytes) : Prop where
  position : s.position = log.length
  held : s.held.reverse = log.drop s.keepFrom
  order : s.lex ≠ .text → ∀ st ∈ s.frameStart, st ≤ s.tagStart

theorem holds_ofLimit (limit : Nat) : (ofLimit limit).Holds [] :=
  ⟨rfl, rfl, by simp [ofLimit]⟩

theorem Holds.withUnread (h : s.Holds log) (bs : Bytes) : (s.withUnread bs).Holds log :=
  ⟨h.position, h.held, h.order⟩

theorem Holds.keepFrom_le_tagStart (h : s.Holds log) (hlex : s.lex ≠ .text) :
    s.keepFrom ≤ s.tagStart := by
  cases hf : s.frameStart with
  | none =>
    simp only [Splitter.keepFrom, hf, hlex, ↓reduceIte]
    exact Nat.min_le_left ..
  | some st =>
    simp only [Splitter.keepFrom, hf]
    exact h.order hlex st hf

theorem Holds.keepFrom_le_of_moves (h : s.Holds log) (hs : s.IsPlaced)
    (hmoves : Moves s t s.position) (hposition : s.position ≤ t.position) :
    s.keepFrom ≤ t.keepFrom := by
  have hle := keepFrom_le hs
  cases hf : t.frameStart with
  | some st =>
    have hkeep : t.keepFrom = st := by simp only [Splitter.keepFrom, hf]
    rw [hkeep]
    obtain hst | ⟨rfl, hlex⟩ := hmoves.frame st hf
    · simp only [Splitter.keepFrom, Option.mem_def.1 hst, Nat.le_refl]
    · exact h.keepFrom_le_tagStart hlex
  | none =>
    by_cases hlex : t.lex = .text
    · have hkeep : t.keepFrom = t.position := by simp only [Splitter.keepFrom, hf, hlex, ↓reduceIte]
      exact hkeep ▸ Nat.le_trans hle hposition
    · have hkeep : t.keepFrom = min t.tagStart t.position := by
        simp only [Splitter.keepFrom, hf, hlex, ↓reduceIte]
      refine hkeep ▸ Nat.le_min.2 ⟨?_, Nat.le_trans hle hposition⟩
      obtain ⟨htag, -⟩ | ⟨htag, hs'⟩ := hmoves.tag hlex
      · exact htag ▸ hle
      · exact htag ▸ h.keepFrom_le_tagStart hs'

theorem Holds.keepFrom_le_step (h : s.Holds log) (hs : s.IsPlaced) (b : UInt8) :
    s.keepFrom ≤ (s.step b).1.keepFrom := by
  have hposition := s.step_position b
  exact h.keepFrom_le_of_moves hs (s.moves_step b) (by omega)

theorem Holds.order_of_moves (h : s.Holds log) (hs : s.IsPlaced) (hmoves : Moves s t s.position)
    (hlex : t.lex ≠ .text) : ∀ st ∈ t.frameStart, st ≤ t.tagStart := by
  intro st hst
  obtain ⟨htag, hs'⟩ | ⟨htag, hs'⟩ := hmoves.tag hlex
  · obtain hst | ⟨-, hlex'⟩ := hmoves.frame st hst
    · exact htag ▸ Nat.le_of_lt (hs.start st hst)
    · exact absurd hs' hlex'
  · obtain hst | ⟨rfl, -⟩ := hmoves.frame st hst
    · exact htag ▸ h.order hs' st hst
    · exact Nat.le_of_eq htag.symm

theorem reverse_held_trim {before : Nat} (hheld : s.held.reverse = log.drop before)
    (hposition : s.position = log.length) (hbefore : before ≤ s.keepFrom)
    (hkeep : s.keepFrom ≤ s.position) :
    (s.trim before).held.reverse = log.drop s.keepFrom := by
  simp only [trim]
  split
  · rename_i heq
    rw [heq, hheld]
  · have hlength : s.held.length = log.length - before := by
      rw [← List.length_reverse, hheld, List.length_drop]
    rw [List.reverse_take, hheld, List.drop_drop, hlength, hposition]
    congr 1
    omega

theorem Holds.of_moves {more : Bytes} (h : s.Holds log) (hs : s.IsPlaced)
    (hmoves : Moves s t s.position) (hposition : t.position = (log ++ more).length)
    (hheld : t.held.reverse = s.held.reverse ++ more) (hkeep : t.keepFrom ≤ t.position) :
    (t.trim s.keepFrom).Holds (log ++ more) := by
  have hle := keepFrom_le hs
  have hlater : s.position ≤ t.position := by
    rw [h.position, hposition, List.length_append]
    exact Nat.le_add_right ..
  rw [h.position] at hle
  refine ⟨?_, ?_, ?_⟩
  · rw [trim_position, hposition]
  · rw [trim_keepFrom]
    refine reverse_held_trim ?_ hposition (h.keepFrom_le_of_moves hs hmoves hlater) hkeep
    rw [hheld, h.held, List.drop_append_of_le_length hle]
  · rw [trim_lex, trim_frameStart, trim_tagStart]
    exact h.order_of_moves hs hmoves

theorem lexStep_held (b : UInt8) :
    (s.lexStep b).1.held =
      if (s.lexStep b).1.position = s.position then s.held else b :: s.held := by
  by_cases hback : ((s.advance b).lexByte s.position b).1.position = s.position
  · simp only [lexStep, hback, ↓reduceIte]
  · simp only [lexStep, hback, ↓reduceIte]
    exact lexByte_held ..

theorem exists_trim_step (b : UInt8) :
    ∃ t : Splitter, (s.step b).1 = t.trim s.keepFrom ∧ Moves s t s.position ∧
      t.held = if t.position = s.position then s.held else b :: s.held := by
  have hmoves := s.moves_lexStep b
  have hheld := s.lexStep_held b
  rw [step_eq]
  cases hl : s.lexStep b with
  | mk next event =>
    rw [hl] at hmoves hheld
    cases event with
    | some event => exact ⟨next, rfl, hmoves, hheld⟩
    | none => exact ⟨next.checkSize.1, rfl, hmoves.checkSize, by simpa using hheld⟩

theorem Holds.step (h : s.Holds log) (hs : s.IsPlaced) (b : UInt8) :
    (s.step b).1.position = s.position + 1 ∧ (s.step b).1.Holds (log ++ [b]) ∨
      (s.step b).1.position = s.position ∧ (s.step b).1.Holds log := by
  have hposition := s.step_position b
  have hkeep := keepFrom_le (hs.step b)
  obtain ⟨t, ht, hmoves, hheld⟩ := s.exists_trim_step b
  rw [ht, trim_position] at hposition hkeep
  rw [trim_keepFrom] at hkeep
  rw [ht, trim_position]
  obtain hnext | ⟨hback, -⟩ := hposition
  · refine .inl ⟨hnext, h.of_moves hs hmoves ?_ ?_ hkeep⟩
    · rw [hnext, h.position, List.length_append, List.length_singleton]
    · rw [hheld, if_neg (by omega), List.reverse_cons]
  · refine .inr ⟨hback, ?_⟩
    rw [← List.append_nil log]
    refine h.of_moves hs hmoves ?_ ?_ hkeep
    · rw [hback, h.position, List.append_nil]
    · rw [hheld, if_pos hback, List.append_nil]

theorem Holds.readByte (h : s.Holds log) (hs : s.IsPlaced) (b : UInt8) :
    (s.readByte b).1.Holds (log ++ [b]) := by
  have hstep := h.step hs b
  obtain ⟨hread, hnext⟩ | ⟨hread, hback, hnext, -⟩ := s.readByte_cases b
  · rw [hread]
    obtain ⟨-, hholds⟩ | ⟨hsame, -⟩ := hstep
    · exact hholds
    · omega
  · rw [hread]
    obtain ⟨hadvanced, -⟩ | ⟨-, hholds⟩ := hstep
    · omega
    · obtain ⟨-, hholds⟩ | ⟨hsame, -⟩ := hholds.step (hs.step b) b
      · exact hholds
      · omega

theorem Holds.keepFrom_le_readByte (h : s.Holds log) (hs : s.IsPlaced) (b : UInt8) :
    s.keepFrom ≤ (s.readByte b).1.keepFrom := by
  have hle := h.keepFrom_le_step hs b
  obtain ⟨hread, -⟩ | ⟨hread, hback, -⟩ := s.readByte_cases b
  · exact hread ▸ hle
  · obtain ⟨hadvanced, -⟩ | ⟨-, hholds⟩ := h.step hs b
    · omega
    · exact hread ▸ Nat.le_trans hle (hholds.keepFrom_le_step (hs.step b) b)

theorem Holds.read (h : s.Holds log) (hs : s.IsSound) (bs : Bytes) :
    (s.read bs).1.Holds (log ++ bs) := by
  induction bs generalizing s log with
  | nil => rwa [List.append_nil]
  | cons b bs ih =>
    rw [List.append_cons]
    exact ih (h.readByte hs.placed b) (hs.readByte b)

variable {limit : Nat} {b : UInt8}

def after (limit : Nat) (log : Bytes) : Splitter := ((ofLimit limit).read log).1

theorem after_concat : after limit (log ++ [b]) = ((after limit log).readByte b).1 := by
  rw [after, read_append, read_singleton]
  rfl

theorem isSound_after : (after limit log).IsSound := (isSound_ofLimit limit).read log

theorem isFit_after : (after limit log).IsFit :=
  (isFit_of_frameStart rfl : (ofLimit limit).IsFit).read (isSound_ofLimit limit) log

theorem holds_after : (after limit log).Holds log :=
  (holds_ofLimit limit).read (isSound_ofLimit limit) log

@[simp] theorem after_limit : (after limit log).limit = limit := read_limit log

theorem after_pending : (after limit log).pending = log.drop (after limit log).keepFrom :=
  holds_after.held

theorem tagStart_readByte (h : (s.readByte b).1.lex ≠ .text) :
    (s.readByte b).1.tagStart = s.position ∧ s.lex = .text ∨
      (s.readByte b).1.tagStart = s.tagStart ∧ s.lex ≠ .text := by
  obtain ⟨hread, -⟩ | ⟨hread, -, -, hlex, name, hname⟩ := s.readByte_cases b
  · rw [hread] at h ⊢
    exact (s.moves_step b).tag h
  · rw [hread] at h ⊢
    have hlex : (s.step b).1.lex ≠ .text := by simp [hlex]
    obtain ⟨-, htext⟩ | ⟨htag, -⟩ := ((s.step b).1.moves_step b).tag h
    · exact absurd htext hlex
    · obtain ⟨-, htext⟩ | ⟨htag', hs⟩ := (s.moves_step b).tag hlex
      · simp [hname] at htext
      · exact .inr ⟨htag.trans htag', hs⟩

/-- A tag of which `tag` was read began behind the bytes `before` and goes on. -/
structure IsUnfinished (limit : Nat) (before tag : Bytes) : Prop where
  start : (after limit before).lex = .text
  inside : ∀ seen, seen <+: tag → seen ≠ [] → (after limit (before ++ seen)).lex ≠ .text

theorem exists_isUnfinished (h : (after limit log).lex ≠ .text) :
    ∃ before tag, log = before ++ tag ∧ before.length = (after limit log).tagStart ∧
      IsUnfinished limit before tag := by
  induction log using List.reverseRecOn with
  | nil => exact absurd rfl h
  | append_singleton log b ih =>
    rw [after_concat] at h ⊢
    have hbegun : ∃ before tag, log = before ++ tag ∧
        before.length = ((after limit log).readByte b).1.tagStart ∧
          IsUnfinished limit before tag := by
      obtain ⟨htag, hlex⟩ | ⟨htag, hlex⟩ := tagStart_readByte h
      · exact ⟨log, [], (List.append_nil log).symm, by rw [htag, holds_after.position], hlex,
          fun seen hseen hne => absurd (List.prefix_nil.1 hseen) hne⟩
      · rw [htag]
        exact ih hlex
    obtain ⟨before, tag, rfl, hlength, hunfinished⟩ := hbegun
    refine ⟨before, tag ++ [b], List.append_assoc .., hlength, hunfinished.start, ?_⟩
    intro seen hseen hne
    obtain rfl | hseen := List.prefix_concat_iff.1 hseen
    · rw [← List.append_assoc, after_concat]
      exact h
    · exact hunfinished.inside seen hseen hne

theorem length_pending_le {st : Nat} (h : (after limit log).frameStart = some st) :
    (after limit log).pending.length ≤ limit := by
  have hfit := isFit_after st h
  rw [after_limit, holds_after.position] at hfit
  rwa [after_pending, List.length_drop, keepFrom, h]

theorem exists_isUnfinished_pending (hframe : (after limit log).frameStart = none)
    (hlex : (after limit log).lex ≠ .text) :
    ∃ before, log = before ++ (after limit log).pending ∧
      IsUnfinished limit before (after limit log).pending := by
  have htag : (after limit log).tagStart ≤ (after limit log).position :=
    Nat.le_of_lt (isSound_after.placed.tag hlex)
  obtain ⟨before, tag, hlog, hlength, hunfinished⟩ := exists_isUnfinished hlex
  have hpending : (after limit log).pending = tag := by
    rw [after_pending, keepFrom_of_frameStart hframe hlex htag, ← hlength]
    nth_rewrite 1 [hlog]
    exact List.drop_left
  exact ⟨before, hpending ▸ hlog, hpending ▸ hunfinished⟩

end Splitter

namespace Decoder

/-- What is held back when there are no more arrivals is the end of the stream. It is within the
limit, unless no frame is open, because none has begun or because it is being skipped; then it is
all of the tag that is being read. -/
theorem fed_pending (limit : Nat) (chunks : List Bytes) (out : List Arrival) (d : Decoder)
    (h : Fed (.ofLimit limit) chunks out d) :
    ∃ before, chunks.flatten = before ++ d.splitter.pending ∧
      (d.splitter.pending.length ≤ limit ∨
        d.splitter.frameStart = none ∧
          Splitter.IsUnfinished limit before d.splitter.pending) := by
  obtain ⟨rfl, -⟩ := fed_ofLimit_iff.1 h
  generalize chunks.flatten = log
  change ∃ before, log = before ++ (Splitter.after limit log).pending ∧
    ((Splitter.after limit log).pending.length ≤ limit ∨
      (Splitter.after limit log).frameStart = none ∧
        Splitter.IsUnfinished limit before (Splitter.after limit log).pending)
  have hend : log = log.take (Splitter.after limit log).keepFrom ++
      (Splitter.after limit log).pending := by
    rw [Splitter.after_pending, List.take_append_drop]
  cases hf : (Splitter.after limit log).frameStart with
  | some st => exact ⟨_, hend, .inl (Splitter.length_pending_le hf)⟩
  | none =>
    by_cases hlex : (Splitter.after limit log).lex = .text
    · have hheld := Splitter.isSound_after.placed.held hf hlex
      refine ⟨_, hend, .inl ?_⟩
      rw [Splitter.pending, hheld]
      exact Nat.zero_le limit
    · obtain ⟨before, hlog, hunfinished⟩ := Splitter.exists_isUnfinished_pending hf hlex
      exact ⟨before, hlog, .inr ⟨rfl, hunfinished⟩⟩

/-- Of a frame that is being skipped all is held from the beginning of the tag that is being read,
and of a comment between frames everything. -/
theorem skipped_tag_is_held :
    (∃ d, Fed (.ofLimit 0) [Text.utf8 "<message message='"] [.error (.frameTooLarge 0)] d ∧
      d.splitter.skipping = true ∧ ¬d.splitter.pending.length ≤ 0) ∧
    ∃ d, Fed (.ofLimit 16) [Text.utf8 "<!-- longer than ", Text.utf8 "the limit"] [] d ∧
      ¬d.splitter.pending.length ≤ 16 := by
  refine ⟨⟨_, (fed_iff rfl).2 rfl, ?_, ?_⟩, _, (fed_iff rfl).2 rfl, ?_⟩
  · decide +kernel
  · decide +kernel
  · decide +kernel

theorem frame_behind_comment_is_held :
    ∃ d before, Fed (.ofLimit 16) [Text.utf8 "<!-- longer than the limit --><a", Text.utf8 " b='"] [] d ∧
      Text.utf8 "<!-- longer than the limit --><a b='" = before ++ d.splitter.pending ∧
      (d.splitter.pending.length ≤ 16 ∨
        d.splitter.frameStart = none ∧
          Splitter.IsUnfinished 16 before d.splitter.pending) ∧
      d.splitter.pending = Text.utf8 "<a b='" := by
  have hfed : Fed (.ofLimit 16) [Text.utf8 "<!-- longer than the limit --><a", Text.utf8 " b='"] [] _ :=
    (fed_iff rfl).2 rfl
  obtain ⟨before, hstream, hpending⟩ := fed_pending 16 _ _ _ hfed
  exact ⟨_, before, hfed, hstream, hpending, by decide +kernel⟩

end Decoder
end InstrumentBus.Wire
