import InstrumentBus.Proofs.Wire.Reading

/-!
What holds of a splitter after any bytes: elements are open exactly while a frame is open or
skipped, and bytes are held back only for a frame or a tag.
-/

namespace InstrumentBus.Wire

open Text (Bytes)

namespace Splitter

variable {s : Splitter}

structure IsBalanced (s : Splitter) : Prop where
  idle : s.opened = [] → s.frameStart = none ∧ s.skipping = false
  busy : s.opened ≠ [] → (s.frameStart = none ↔ s.skipping = true)

namespace IsBalanced

variable (h : s.IsBalanced)

theorem of_eq {t : Splitter} (ht : t.IsBalanced) (hopened : s.opened = t.opened)
    (hframe : s.frameStart = t.frameStart) (hskipping : s.skipping = t.skipping) :
    s.IsBalanced := by
  constructor
  · rw [hopened, hframe, hskipping]
    exact ht.idle
  · rw [hopened, hframe, hskipping]
    exact ht.busy

theorem of_clear (hopened : s.opened = []) (hframe : s.frameStart = none)
    (hskipping : s.skipping = false) : s.IsBalanced :=
  ⟨fun _ => ⟨hframe, hskipping⟩, fun hne => absurd hopened hne⟩

include h

theorem openElement (name : String) : (s.openElement name).1.IsBalanced := by
  rw [openElement_eq]
  split
  · exact ⟨by simp, by simp⟩
  · split
    · rename_i hnew
      exact ⟨by simp, by simp_all⟩
    · rename_i hnew
      refine ⟨by simp, fun _ => ?_⟩
      by_cases hs : s.opened = []
      · have := (h.idle hs).2
        simp_all
      · exact h.busy hs

theorem lexByte (here : Nat) (b : UInt8) : (s.lexByte here b).1.IsBalanced := by
  have hlexed := s.lexed_lexByte here b
  generalize s.lexByte here b = r at hlexed ⊢
  cases hlexed with
  | opens | cuts => exact (h.openElement _).of_eq rfl rfl rfl
  | shuts hopened hos => exact ⟨(absurd · hos), fun _ => h.busy (by simp [hopened])⟩
  | finishes | breaks => exact of_clear rfl rfl rfl
  | _ => exact h.of_eq rfl rfl rfl

theorem checkSize : s.checkSize.1.IsBalanced := by
  simp only [Splitter.checkSize]
  split
  · rename_i start hstart
    split
    · refine ⟨fun hopened => ?_, by simp⟩
      have := (h.idle hopened).1
      simp [hstart] at this
    · exact h
  · exact h

theorem trim (before : Nat) : (s.trim before).IsBalanced := by
  simp only [Splitter.trim]
  split
  · exact h
  · exact h.of_eq rfl rfl rfl

theorem step (b : UInt8) : (s.step b).1.IsBalanced := by
  have hlex : (s.lexStep b).1.IsBalanced := by
    have : (s.advance b).IsBalanced := h.of_eq rfl rfl rfl
    simp only [lexStep]
    split
    · exact (this.lexByte s.position b).of_eq rfl rfl rfl
    · exact this.lexByte s.position b
  rw [step_eq]
  cases hs : s.lexStep b with
  | mk next event =>
    rw [hs] at hlex
    cases event with
    | some event => exact hlex.trim _
    | none => exact hlex.checkSize.trim _

end IsBalanced

/-- The frame and the tag that are being read began in what was read, and nothing is held back
where neither is. -/
structure IsPlaced (s : Splitter) : Prop where
  start : ∀ st ∈ s.frameStart, st < s.position
  tag : s.lex ≠ .text → s.tagStart < s.position
  held : s.frameStart = none → s.lex = .text → s.held = []

structure Moves (s t : Splitter) (here : Nat) : Prop where
  frame : ∀ st ∈ t.frameStart, st ∈ s.frameStart ∨ st = s.tagStart ∧ s.lex ≠ .text
  tag : t.lex ≠ .text → t.tagStart = here ∧ s.lex = .text ∨ t.tagStart = s.tagStart ∧ s.lex ≠ .text

@[simp] theorem openElement_tagStart (name : String) :
    (s.openElement name).1.tagStart = s.tagStart := by
  rw [openElement_eq]
  split
  · rfl
  · split <;> rfl

theorem mem_frameStart_openElement {name : String} {st : Nat}
    (h : st ∈ (s.openElement name).1.frameStart) : st ∈ s.frameStart ∨ st = s.tagStart := by
  rw [openElement_eq] at h
  split at h
  · exact .inr (Option.mem_some.1 h).symm
  · split at h
    · exact .inr (Option.mem_some.1 h).symm
    · exact .inl h

theorem moves_lexByte (here : Nat) (b : UInt8) : Moves s (s.lexByte here b).1 here := by
  have hlexed := s.lexed_lexByte here b
  generalize s.lexByte here b = r at hlexed ⊢
  cases hlexed with
  | goesOn hlex => exact ⟨fun _ => .inl, fun ht => .inr ⟨rfl, mt hlex ht⟩⟩
  | begins hlex => exact ⟨fun _ => .inl, fun _ => .inl ⟨rfl, hlex⟩⟩
  | strays _ | shuts _ _ | closesNone _ => exact ⟨fun _ => .inl, absurd rfl⟩
  | opens hlex _ _ | cuts hlex _ _ =>
    have hname : s.lex ≠ .text := by simp [hlex]
    exact ⟨fun st hst => (mem_frameStart_openElement hst).imp_right fun h => ⟨h, hname⟩,
      fun _ => .inr ⟨s.openElement_tagStart _, hname⟩⟩
  | finishes | breaks => exact ⟨fun _ hst => (Option.not_mem_none _ hst).elim, absurd rfl⟩

theorem keepFrom_of_frameStart (hframe : s.frameStart = none) (hlex : s.lex ≠ .text)
    (htag : s.tagStart ≤ s.position) : s.keepFrom = s.tagStart := by
  simp only [keepFrom, hframe, hlex, ↓reduceIte, Nat.min_eq_left htag]

theorem keepFrom_le (h : s.IsPlaced) : s.keepFrom ≤ s.position := by
  simp only [keepFrom]
  split
  · rename_i start heq
    exact Nat.le_of_lt (h.start start heq)
  · split
    · exact Nat.le_refl _
    · exact Nat.min_le_right ..

theorem held_trim {before : Nat} (hframe : s.frameStart = none) (hlex : s.lex = .text)
    (hbefore : before < s.position) : (s.trim before).held = [] := by
  have hkeep : s.keepFrom = s.position := by simp only [keepFrom, hframe, hlex, if_true]
  have hne : s.position ≠ before := Nat.ne_of_gt hbefore
  simp only [trim, hkeep, hne, ↓reduceIte, Nat.sub_self, List.take_zero]

@[simp] theorem trim_frameStart (before : Nat) : (s.trim before).frameStart = s.frameStart := by
  simp only [trim]
  split <;> rfl

@[simp] theorem trim_tagStart (before : Nat) : (s.trim before).tagStart = s.tagStart := by
  simp only [trim]
  split <;> rfl

theorem IsPlaced.of_moves (h : s.IsPlaced) {t : Splitter} (hmoves : Moves s t s.position)
    (hposition : t.position = s.position + 1 ∨
      t.position = s.position ∧ t.lex ≠ .text ∧ s.lex ≠ .text) :
    (t.trim s.keepFrom).IsPlaced := by
  have hle : s.position ≤ t.position := by omega
  refine ⟨?_, ?_, ?_⟩
  · intro st hst
    rw [trim_frameStart] at hst
    rw [trim_position]
    obtain hst | ⟨rfl, hlex⟩ := hmoves.frame st hst
    · exact Nat.lt_of_lt_of_le (h.start st hst) hle
    · exact Nat.lt_of_lt_of_le (h.tag hlex) hle
  · intro hlex
    rw [trim_lex] at hlex
    rw [trim_tagStart, trim_position]
    obtain ⟨ht, hs⟩ | ⟨ht, hs⟩ := hmoves.tag hlex
    · obtain hposition | ⟨-, -, hs'⟩ := hposition
      · rw [ht, hposition]
        exact Nat.lt_succ_self _
      · exact absurd hs hs'
    · exact ht ▸ Nat.lt_of_lt_of_le (h.tag hs) hle
  · intro hframe hlex
    rw [trim_frameStart] at hframe
    rw [trim_lex] at hlex
    have := keepFrom_le h
    apply held_trim hframe hlex
    obtain hposition | ⟨-, ht, -⟩ := hposition
    · omega
    · exact absurd hlex ht

theorem Moves.checkSize {t : Splitter} {here : Nat} (h : Moves s t here) :
    Moves s t.checkSize.1 here := by
  simp only [Splitter.checkSize]
  split
  · split
    · exact ⟨by simp, h.tag⟩
    · exact h
  · exact h

@[simp] theorem checkSize_lex : s.checkSize.1.lex = s.lex := by
  simp only [checkSize]
  split
  · split <;> rfl
  · rfl

theorem step_lex (b : UInt8) : (s.step b).1.lex = ((s.advance b).lexByte s.position b).1.lex := by
  rw [step_eq, ← lexStep_lex]
  cases s.lexStep b with
  | mk next event =>
    cases event with
    | some event => exact trim_lex ..
    | none => exact (trim_lex ..).trans checkSize_lex

theorem moves_lexStep (b : UInt8) : Moves s (s.lexStep b).1 s.position := by
  have := moves_lexByte (s := s.advance b) s.position b
  simp only [lexStep]
  split
  · exact ⟨this.frame, this.tag⟩
  · exact ⟨this.frame, this.tag⟩

theorem Moves.trim {t : Splitter} {here : Nat} (h : Moves s t here) (before : Nat) :
    Moves s (t.trim before) here := by
  constructor
  · rw [trim_frameStart]
    exact h.frame
  · rw [trim_lex, trim_tagStart]
    exact h.tag

theorem moves_step (b : UInt8) : Moves s (s.step b).1 s.position := by
  have hmoves := s.moves_lexStep b
  rw [step_eq]
  cases hs : s.lexStep b with
  | mk next event =>
    rw [hs] at hmoves
    cases event with
    | some event => exact hmoves.trim _
    | none => exact hmoves.checkSize.trim _

theorem IsPlaced.step (h : s.IsPlaced) (b : UInt8) : (s.step b).1.IsPlaced := by
  have hmoves := s.moves_lexStep b
  have hposition := s.step_position b
  rw [step_eq] at hposition ⊢
  cases hs : s.lexStep b with
  | mk next event =>
    rw [hs] at hmoves hposition
    cases event with
    | some event =>
      apply h.of_moves hmoves
      simp only [trim_position, trim_lex] at hposition
      refine hposition.imp_right fun hback => ?_
      obtain ⟨hp, hlex, -, name, hname⟩ := hback
      exact ⟨hp, by simp [hlex], by simp [hname]⟩
    | none =>
      apply h.of_moves hmoves.checkSize
      simp only [trim_position, trim_lex, checkSize_position, checkSize_lex] at hposition
      rw [checkSize_position, checkSize_lex]
      refine hposition.imp_right fun hback => ?_
      obtain ⟨hp, hlex, -, name, hname⟩ := hback
      exact ⟨hp, by simp [hlex], by simp [hname]⟩

@[simp] theorem openElement_limit (name : String) : (s.openElement name).1.limit = s.limit := by
  rw [openElement_eq]
  split
  · rfl
  · split <;> rfl

@[simp] theorem lexByte_limit (here : Nat) (b : UInt8) : (s.lexByte here b).1.limit = s.limit := by
  have hlexed := s.lexed_lexByte here b
  generalize s.lexByte here b = r at hlexed ⊢
  cases hlexed with
  | opens | cuts => exact s.openElement_limit _
  | _ => rfl

@[simp] theorem step_limit (b : UInt8) : (s.step b).1.limit = s.limit := by
  have hlex : (s.lexStep b).1.limit = s.limit := by
    simp only [lexStep, apply_ite limit, lexByte_limit, ite_self]
    rfl
  have htrim (t : Splitter) (before : Nat) : (t.trim before).limit = t.limit := by
    simp only [trim, apply_ite limit, ite_self]
  have hsize (t : Splitter) : t.checkSize.1.limit = t.limit := by
    simp only [checkSize]
    split
    · split <;> rfl
    · rfl
  rw [step_eq]
  cases hs : s.lexStep b with
  | mk next event =>
    rw [hs] at hlex
    cases event with
    | some event => exact (htrim ..).trans hlex
    | none => exact ((htrim ..).trans (hsize next)).trans hlex

@[simp] theorem readByte_limit (b : UInt8) : (s.readByte b).1.limit = s.limit := by
  obtain ⟨hread, -⟩ | ⟨hread, -⟩ := s.readByte_cases b
  · rw [hread, step_limit]
  · rw [hread, step_limit, step_limit]

@[simp] theorem read_limit (bs : Bytes) : (s.read bs).1.limit = s.limit := by
  induction bs generalizing s with
  | nil => rfl
  | cons b bs ih => exact ih.trans (s.readByte_limit b)

structure IsSound (s : Splitter) : Prop where
  balanced : s.IsBalanced
  placed : s.IsPlaced

theorem isSound_ofLimit (limit : Nat) : (ofLimit limit).IsSound :=
  ⟨.of_clear rfl rfl rfl, ⟨by simp [ofLimit], by simp [ofLimit], by simp [ofLimit]⟩⟩

theorem IsSound.step (h : s.IsSound) (b : UInt8) : (s.step b).1.IsSound :=
  ⟨h.balanced.step b, h.placed.step b⟩

theorem IsBalanced.readByte (h : s.IsBalanced) (b : UInt8) : (s.readByte b).1.IsBalanced := by
  obtain ⟨hread, -⟩ | ⟨hread, -⟩ := s.readByte_cases b
  · exact hread ▸ h.step b
  · exact hread ▸ (h.step b).step b

theorem IsSound.readByte (h : s.IsSound) (b : UInt8) : (s.readByte b).1.IsSound := by
  obtain ⟨hread, -⟩ | ⟨hread, -⟩ := s.readByte_cases b
  · exact hread ▸ h.step b
  · exact hread ▸ (h.step b).step b

theorem IsSound.read (h : s.IsSound) (bs : Bytes) : (s.read bs).1.IsSound := by
  induction bs generalizing s with
  | nil => exact h
  | cons b bs ih => exact ih (h.readByte b)

theorem IsSound.withUnread (h : s.IsSound) (bs : Bytes) : (s.withUnread bs).IsSound :=
  ⟨h.balanced.of_eq rfl rfl rfl, h.placed.start, h.placed.tag, h.placed.held⟩

def IsFit (s : Splitter) : Prop := ∀ st ∈ s.frameStart, s.position - st ≤ s.limit

theorem isFit_of_frameStart (h : s.frameStart = none) : s.IsFit := by
  simp [IsFit, h]

theorem isFit_checkSize : s.checkSize.1.IsFit := by
  simp only [checkSize]
  split
  · rename_i st hst
    split
    · exact isFit_of_frameStart rfl
    · rename_i h
      intro st' hst'
      cases Option.mem_unique hst hst'
      exact Nat.le_of_not_gt h
  · exact isFit_of_frameStart ‹_›

theorem IsFit.trim (h : s.IsFit) (before : Nat) : (s.trim before).IsFit := by
  simp only [Splitter.trim]
  split
  · exact h
  · exact h

def Leaves (r : Splitter × Option Event) : Prop := r.2 = none ∨ r.1.frameStart = none

theorem leaves_lexByte_or (h : s.IsBalanced) (here : Nat) (b : UInt8) :
    Leaves (s.lexByte here b) ∨ (s.lexByte here b).1.position = here ∧
      (s.lexByte here b).1.lex = .attributes none false := by
  have hlexed := s.lexed_lexByte here b
  generalize s.lexByte here b = r at hlexed ⊢
  cases hlexed with
  | strays hopened | closesNone hopened => exact .inl (.inr (h.idle hopened).1)
  | cuts => exact .inr ⟨rfl, rfl⟩
  | finishes | breaks => exact .inl (.inr rfl)
  | _ => exact .inl (.inl rfl)

theorem isFit_step (h : s.IsBalanced) (b : UInt8) :
    (s.step b).1.IsFit ∨ (s.step b).2.isSome ∧
      (s.step b).1.position = s.position ∧ (s.step b).1.lex = .attributes none false := by
  have hadvance : (s.advance b).IsBalanced := h.of_eq rfl rfl rfl
  have hlex : Leaves (s.lexStep b) ∨ (s.lexStep b).1.position = s.position ∧
      (s.lexStep b).1.lex = .attributes none false := by
    have := leaves_lexByte_or hadvance s.position b
    simp only [lexStep, Leaves] at this ⊢
    split <;> exact this
  rw [step_eq]
  cases hs : s.lexStep b with
  | mk next event =>
    rw [hs] at hlex
    cases event with
    | none => exact .inl (isFit_checkSize.trim _)
    | some event =>
      obtain (h | h) | ⟨hposition, hlex⟩ := hlex
      · cases h
      · exact .inl ((isFit_of_frameStart h).trim _)
      · exact .inr ⟨rfl, by rw [trim_position, hposition], by rw [trim_lex, hlex]⟩

theorem isFit_readByte (h : s.IsBalanced) (b : UInt8) : (s.readByte b).1.IsFit := by
  have hstep := isFit_step h b
  have hbalanced := h.step b
  have hlex := s.step_position b
  simp only [Splitter.readByte]
  cases hs : s.step b with
  | mk t event =>
    rw [hs] at hstep hbalanced hlex
    cases event with
    | none =>
      obtain hfit | ⟨hevent, -⟩ := hstep
      · exact hfit
      · cases hevent
    | some event =>
      dsimp only at hstep hbalanced hlex ⊢
      split
      · rename_i hposition
        have hlex : t.lex = .attributes none false := by
          obtain hnext | ⟨-, hlex, -⟩ := hlex
          · simp [hposition] at hnext
          · exact hlex
        obtain hfit | ⟨-, hagain, -⟩ := isFit_step hbalanced b
        · exact hfit
        · obtain hnext | ⟨-, -, -, name, hname⟩ := t.step_position b
          · simp [hagain] at hnext
          · simp [hlex] at hname
      · rename_i hposition
        obtain hfit | ⟨-, hsame, -⟩ := hstep
        · exact hfit
        · exact absurd hsame hposition

theorem IsFit.read (hfit : s.IsFit) (h : s.IsSound) (bs : Bytes) : (s.read bs).1.IsFit := by
  induction bs generalizing s with
  | nil => exact hfit
  | cons b bs ih => exact ih (isFit_readByte h.balanced b) (h.readByte b)

end Splitter
end InstrumentBus.Wire
