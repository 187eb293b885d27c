import InstrumentBus.Proofs.Wire.Within

/-!
The first frame behind any bytes: a tag that can only be outermost ends whatever was open.
-/

namespace InstrumentBus.Wire

open Markup (isLetter isWord)
open Text (Bytes encode)

namespace Splitter

variable {s t : Splitter} {seen : Bytes} {l : Lex}

def outgrows (s : Splitter) (n : Nat) : Bool :=
  s.frameStart.any fun start => decide (s.limit < s.position + n - start)

theorem outgrows_mono {m n : Nat} (hmn : m ≤ n) (h : s.outgrows m = true) :
    s.outgrows n = true := by
  simp only [outgrows, Option.any_eq_true, decide_eq_true_eq] at h ⊢
  obtain ⟨start, hstart, hlt⟩ := h
  exact ⟨start, hstart, by omega⟩

theorem outgrows_of_frameStart (h : s.frameStart = none) (n : Nat) : s.outgrows n = false := by
  simp only [outgrows, h, Option.any_none]

theorem IsFit.outgrows_zero (h : s.IsFit) : s.outgrows 0 = false := by
  simp only [outgrows, Option.any_eq_false, decide_eq_false_iff_not]
  intro start hstart
  exact Nat.not_lt.2 (h start hstart)

/-- What tells of an open frame that is beyond the limit after `n` more bytes, but not after the
first `m` of them. -/
def overflow (s : Splitter) (m n : Nat) : List Event :=
  if !s.outgrows m && s.outgrows n then [.fault (.frameTooLarge s.limit)] else []

theorem overflow_of_eq {m n : Nat} (h : s.outgrows n = s.outgrows m) : s.overflow m n = [] := by
  simp [overflow, h]

theorem overflow_append {k m n : Nat} (hkm : k ≤ m) (hmn : m ≤ n) :
    s.overflow k m ++ s.overflow m n = s.overflow k n := by
  have hk := outgrows_mono (s := s) hkm
  have hm := outgrows_mono (s := s) hmn
  simp only [overflow]
  cases hkv : s.outgrows k <;> cases hmv : s.outgrows m <;> cases hnv : s.outgrows n <;>
    simp_all

structure Opening (s t : Splitter) (seen : Bytes) (l : Lex) : Prop where
  limit : t.limit = s.limit
  position : t.position = s.position + seen.length
  opened : t.opened = s.opened
  lex : t.lex = l
  tagStart : l ≠ .text → t.tagStart = s.position
  keepFrom : t.frameStart = none → t.keepFrom = s.position
  held : t.held.take seen.length = seen.reverse
  alone : t.frameStart = none → t.held = seen.reverse
  frame : t.frameStart = if s.outgrows seen.length then none else s.frameStart
  skipping : t.skipping = (s.skipping || s.outgrows seen.length)

theorem Opening.start (hs : s.IsSound) (hfit : s.IsFit) (hlex : s.lex = .text) :
    Opening s s [] .text where
  limit := rfl
  position := rfl
  opened := rfl
  lex := hlex
  tagStart h := absurd rfl h
  keepFrom h := by simp only [Splitter.keepFrom, h, hlex, ↓reduceIte]
  held := rfl
  alone h := hs.placed.held h hlex
  frame := by simp [hfit.outgrows_zero]
  skipping := by simp [hfit.outgrows_zero]

theorem Opening.frameStart_eq_none (h : Opening s t seen l) (ht : t.frameStart = none) :
    s.outgrows seen.length = true ∨ s.frameStart = none := by
  have := h.frame
  rw [ht] at this
  split at this
  · exact .inl ‹_›
  · exact .inr this.symm

theorem Opening.frameStart_eq_some (h : Opening s t seen l) {start : Nat}
    (ht : t.frameStart = some start) :
    s.outgrows seen.length = false ∧ s.frameStart = some start := by
  have := h.frame
  rw [ht] at this
  split at this
  · cases this
  · exact ⟨eq_false_of_ne_true ‹_›, this.symm⟩

structure Next (s t u : Splitter) (b : UInt8) (l : Lex) : Prop where
  limit : u.limit = t.limit
  position : u.position = t.position + 1
  opened : u.opened = t.opened
  lex : u.lex = l
  tagStart : u.tagStart = s.position
  held : u.held = b :: t.held
  frame : u.frameStart = t.frameStart
  skipping : u.skipping = t.skipping

section

variable {u : Splitter} {b : UInt8} {l' : Lex} (hu : Next s t u b l') (h : Opening s t seen l)
  (hl' : l' ≠ .text)
include hu h

theorem Next.position_eq : u.position = s.position + (seen ++ [b]).length := by
  rw [hu.position, h.position, List.length_append, ← Nat.add_assoc]
  rfl

theorem Next.take_held : u.held.take (seen ++ [b]).length = (seen ++ [b]).reverse := by
  simp [hu.held, h.held]

include hl'

theorem Next.keepFrom (hframe : u.frameStart = none) : u.keepFrom = s.position := by
  have hle : u.tagStart ≤ u.position := by
    rw [hu.tagStart, hu.position_eq h]
    exact Nat.le_add_right ..
  rw [keepFrom_of_frameStart hframe (hu.lex ▸ hl') hle, hu.tagStart]

theorem Opening.next (hsame : s.outgrows (seen ++ [b]).length = s.outgrows seen.length) :
    Opening s u (seen ++ [b]) l' where
  limit := hu.limit.trans h.limit
  position := hu.position_eq h
  opened := hu.opened.trans h.opened
  lex := hu.lex
  tagStart _ := hu.tagStart
  keepFrom := hu.keepFrom h hl'
  held := hu.take_held h
  alone hframe := by
    rw [hu.held, h.alone (hu.frame ▸ hframe), List.reverse_append]
    rfl
  frame := by rw [hu.frame, hsame, h.frame]
  skipping := by rw [hu.skipping, hsame, h.skipping]

theorem Opening.next_of_outgrows {start : Nat} (hlt : start < s.position) (hgrown : s.outgrows (seen ++ [b]).length = true) :
    Opening s (({ u with frameStart := none, skipping := true } : Splitter).trim start)
      (seen ++ [b]) l' := by
  have hle : u.tagStart ≤ u.position := by
    rw [hu.tagStart, hu.position_eq h]
    exact Nat.le_add_right ..
  have hkeep : ({ u with frameStart := none, skipping := true } : Splitter).keepFrom =
      s.position :=
    (keepFrom_of_frameStart (s := { u with frameStart := none, skipping := true }) rfl
      (hu.lex ▸ hl') hle).trans hu.tagStart
  have hlength : u.position - s.position = (seen ++ [b]).length := by
    rw [hu.position_eq h, Nat.add_sub_cancel_left]
  have htrim : ({ u with frameStart := none, skipping := true } : Splitter).trim start =
      { u with frameStart := none, skipping := true, held := (seen ++ [b]).reverse } := by
    rw [trim, hkeep, if_neg (Nat.ne_of_gt hlt), hlength, hu.take_held h]
  rw [htrim]
  exact {
    limit := hu.limit.trans h.limit
    position := hu.position_eq h
    opened := hu.opened.trans h.opened
    lex := hu.lex
    tagStart _ := hu.tagStart
    keepFrom _ := hkeep
    held := by rw [List.take_of_length_le (Nat.le_of_eq List.length_reverse)]
    alone _ := rfl
    frame := by rw [hgrown]; rfl
    skipping := by rw [hgrown, Bool.or_true]
  }

theorem Opening.checkSize (hs : s.IsSound) :
    Opening s (u.checkSize.1.trim t.keepFrom) (seen ++ [b]) l' ∧
      u.checkSize.2.toList = s.overflow seen.length (seen ++ [b]).length := by
  cases hf : t.frameStart with
  | none =>
    have hframe : u.frameStart = none := hu.frame.trans hf
    have hsize : u.checkSize = (u, none) := by simp only [Splitter.checkSize, hframe]
    have htrim : u.trim t.keepFrom = u := by rw [trim, h.keepFrom hf, if_pos (hu.keepFrom h hl' hframe)]
    have hsame : s.outgrows (seen ++ [b]).length = s.outgrows seen.length := by
      obtain hgrown | hnone := h.frameStart_eq_none hf
      · rw [hgrown, outgrows_mono (List.length_append ▸ Nat.le_add_right ..) hgrown]
      · rw [outgrows_of_frameStart hnone, outgrows_of_frameStart hnone]
    rw [hsize, htrim]
    exact ⟨h.next hu hl' hsame, (overflow_of_eq hsame).symm⟩
  | some start =>
    obtain ⟨hfits, hstart⟩ := h.frameStart_eq_some hf
    have hframe : u.frameStart = some start := hu.frame.trans hf
    have hkeep : t.keepFrom = start := by simp only [Splitter.keepFrom, hf]
    have hgrown : s.outgrows (seen ++ [b]).length = decide (u.position - start > u.limit) := by
      simp only [outgrows, hstart, Option.any_some, hu.position_eq h, hu.limit, h.limit, gt_iff_lt]
    by_cases hlarge : u.position - start > u.limit
    · have hsize : u.checkSize = ({ u with frameStart := none, skipping := true },
          some (.fault (.frameTooLarge u.limit))) := by
        simp only [Splitter.checkSize, hframe, hlarge, ↓reduceIte]
      have hgrown := hgrown.trans (decide_eq_true hlarge)
      rw [hsize, hkeep]
      refine ⟨h.next_of_outgrows hu hl' (hs.placed.start start hstart) hgrown, ?_⟩
      simp only [overflow, hfits, hgrown, hu.limit, h.limit]
      rfl
    · have hsize : u.checkSize = (u, none) := by
        simp only [Splitter.checkSize, hframe, hlarge, ↓reduceIte]
      have htrim : u.trim t.keepFrom = u := by
        rw [trim, if_pos]
        simp only [Splitter.keepFrom, hf, hframe]
      have hsame := hgrown.trans ((decide_eq_false hlarge).trans hfits.symm)
      rw [hsize, htrim]
      exact ⟨h.next hu hl' hsame, (overflow_of_eq hsame).symm⟩

end

theorem Opening.readByte {u : Splitter} {b : UInt8} {l' : Lex} (h : Opening s t seen l)
    (hs : s.IsSound) (hl' : l' ≠ .text)
    (hlexByte : (t.advance b).lexByte t.position b = (u, none)) (hu : Next s t u b l') :
    Opening s (t.readByte b).1 (seen ++ [b]) l' ∧
      (t.readByte b).2 = s.overflow seen.length (seen ++ [b]).length := by
  rw [readByte_of_none t hu.position hlexByte]
  exact h.checkSize hu hl' hs

theorem Opening.bracket (hs : s.IsSound) (hfit : s.IsFit) (hlex : s.lex = .text) :
    Opening s (s.readByte 60).1 [60] .open ∧ (s.readByte 60).2 = s.overflow 0 1 := by
  have hlexByte : (s.advance 60).lexByte s.position 60 =
      ({ s.advance 60 with lex := .open, tagStart := s.position, inGarbage := false }, none) := by
    simp only [lexByte, advance_lex, hlex, ↓reduceIte]
  have hopen : Lex.open ≠ .text := by simp
  exact (Opening.start hs hfit hlex).readByte hs hopen hlexByte
    ⟨rfl, rfl, rfl, rfl, rfl, rfl, rfl, rfl⟩

theorem Opening.firstLetter {b : UInt8} (hb : isLetter b = true) (hs : s.IsSound)
    (h : Opening s t seen .open) :
    Opening s (t.readByte b).1 (seen ++ [b]) (.startName [b]) ∧
      (t.readByte b).2 = s.overflow seen.length (seen ++ [b]).length := by
  have hlexByte := lexByte_of_open (s := t.advance b) hb h.lex t.position
  have hname : Lex.startName [b] ≠ .text := by simp
  exact h.readByte hs hname hlexByte
    ⟨rfl, rfl, rfl, rfl, h.tagStart (by simp), rfl, rfl, rfl⟩

theorem Opening.letter {b : UInt8} (hb : isLetter b = true) (hs : s.IsSound) {name : Bytes}
    (h : Opening s t seen (.startName name)) :
    Opening s (t.readByte b).1 (seen ++ [b]) (.startName (b :: name)) ∧
      (t.readByte b).2 = s.overflow seen.length (seen ++ [b]).length := by
  have hlexByte := lexByte_of_startName (s := t.advance b) hb h.lex t.position
  have hname : Lex.startName (b :: name) ≠ .text := by simp
  exact h.readByte hs hname hlexByte
    ⟨rfl, rfl, rfl, rfl, h.tagStart (by simp), rfl, rfl, rfl⟩

theorem Opening.letters {bs : Bytes} (hbs : ∀ b ∈ bs, isLetter b = true) (hs : s.IsSound)
    {name : Bytes} (h : Opening s t seen (.startName name)) :
    Opening s (t.read bs).1 (seen ++ bs) (.startName (bs.reverse ++ name)) ∧
      (t.read bs).2 = s.overflow seen.length (seen ++ bs).length := by
  induction bs generalizing t seen name with
  | nil =>
    rw [List.append_nil]
    exact ⟨h, (overflow_of_eq rfl).symm⟩
  | cons b bs ih =>
    obtain ⟨hb, hevents⟩ := h.letter (hbs b List.mem_cons_self) hs
    obtain ⟨hbs, hevents'⟩ := ih (fun c hc => hbs c (List.mem_cons_of_mem b hc)) hb
    rw [← List.append_cons] at hbs hevents'
    refine ⟨by simpa [read] using hbs, ?_⟩
    rw [read, hevents, hevents', overflow_append (by simp) (by simp)]

theorem Opening.tag {tag : String} (htag : isWord tag = true) (hs : s.IsSound) (hfit : s.IsFit)
    (hlex : s.lex = .text) :
    Opening s (s.read (60 :: encode tag.toList)).1 (60 :: encode tag.toList)
        (.startName (encode tag.toList).reverse) ∧
      (s.read (60 :: encode tag.toList)).2 = s.overflow 0 (tag.length + 1) := by
  obtain ⟨b, bs, hb⟩ := Markup.encode_eq_cons_of_isWord htag
  have hletter : ∀ c ∈ b :: bs, isLetter c = true := fun c hc =>
    Markup.isLetter_of_mem_encode htag (hb ▸ hc)
  have hlength : tag.length + 1 = (60 :: b :: bs).length := by
    rw [← hb, List.length_cons, Markup.length_encode_of_isWord htag]
  obtain ⟨hbracket, hevents⟩ := Opening.bracket hs hfit hlex
  obtain ⟨hfirst, hevents'⟩ := hbracket.firstLetter (hletter b List.mem_cons_self) hs
  obtain ⟨hrest, hevents''⟩ :=
    hfirst.letters (fun c hc => hletter c (List.mem_cons_of_mem b hc)) hs
  rw [hb, hlength]
  refine ⟨by simpa [read] using hrest, ?_⟩
  simp only [read]
  rw [hevents, hevents', hevents'', overflow_append (by simp) (by simp)]
  exact overflow_append (Nat.zero_le 1) (by simp)

/-- What is told when a tag that can only be outermost comes while a frame is open: that the frame
is too large, if it becomes so with the name of the tag, or that the tag cuts it short. -/
def interruption (s : Splitter) (tag : String) : Option WireError :=
  if s.skipping then none
  else
    s.opened.getLast?.map fun outermost =>
      if s.outgrows (tag.length + 1) then .frameTooLarge s.limit
      else .malformed outermost (.truncated tag)

theorem interruption_of_idle (h : s.opened = []) (tag : String) : s.interruption tag = none := by
  simp [interruption, h]

variable {tag : String}

section

variable (hs : s.IsSound) (ht : t.IsSound) (htag : tag ∈ outermostTags) (h : Opening s t seen l)
  (hl : l ≠ .text)
include ht htag

theorem openElement_of_outermost :
    t.openElement tag =
      ({ t with opened := [tag], skipping := false, frameStart := some t.tagStart },
        if t.skipping then none
        else t.opened.getLast?.map fun outermost => .fault (.malformed outermost (.truncated tag))) := by
  rw [openElement_eq]
  by_cases hopened : t.opened = []
  · obtain ⟨-, hskipping⟩ := ht.balanced.idle hopened
    have hcut : t.isCutBy tag = false := by simp [isCutBy, hopened]
    have hnew : (t.opened.isEmpty && !t.skipping) = true := by simp [hopened, hskipping]
    rw [hcut, hnew]
    simp [hopened, hskipping]
  · have hcut : t.isCutBy tag = true := by simp [isCutBy, hopened, htag]
    rw [hcut]
    rfl

theorem named_of_outermost :
    t.named tag = { t with
      lex := .attributes none false
      frameStart := some t.tagStart
      opened := [tag]
      skipping := false
      held :=
        if t.tagStart = t.keepFrom then t.held else t.held.take (t.position - t.tagStart) } := by
  rw [named, openElement_of_outermost ht htag]
  generalize t.keepFrom = before
  by_cases h : t.tagStart = before <;> simp only [trim, keepFrom, h, ↓reduceIte]

theorem frameStart_of_openElement (hnone : (t.openElement tag).2 = none) : t.frameStart = none := by
  rw [openElement_of_outermost ht htag] at hnone
  by_cases hopened : t.opened = []
  · exact (ht.balanced.idle hopened).1
  · cases hskipping : t.skipping with
    | true => exact (ht.balanced.busy hopened).2 hskipping
    | false => simp [hskipping, hopened] at hnone

include h hl

theorem Opening.keepFrom_openElement (hnone : (t.openElement tag).2 = none) :
    ({ (t.openElement tag).1 with lex := .attributes none false } : Splitter).keepFrom =
      t.keepFrom := by
  rw [h.keepFrom (frameStart_of_openElement ht htag hnone), openElement_of_outermost ht htag]
  exact h.tagStart hl

include hs

theorem Opening.within : Within (t.named tag) s.position seen [tag] (.attributes none false) := by
  have hstart := h.tagStart hl
  have hheld : (if t.tagStart = t.keepFrom then t.held else t.held.take (t.position - t.tagStart)) =
      seen.reverse := by
    cases hf : t.frameStart with
    | none => rw [hstart, h.keepFrom hf, if_pos rfl, h.alone hf]
    | some start =>
      have hlt := hs.placed.start start (h.frameStart_eq_some hf).2
      have hkeep : t.keepFrom = start := by simp only [Splitter.keepFrom, hf]
      rw [hstart, hkeep, if_neg (Nat.ne_of_gt hlt), h.position, Nat.add_sub_cancel_left, h.held]
  rw [named_of_outermost ht htag, hheld]
  exact ⟨congrArg some hstart, h.position, rfl, rfl, rfl, rfl⟩

omit hl in
theorem Opening.events (hfit : s.IsFit) (hlength : seen.length = tag.length + 1) :
    s.overflow 0 (tag.length + 1) ++ (t.openElement tag).2.toList =
      (s.interruption tag).toList.map .fault := by
  have hskipping := h.skipping
  rw [hlength] at hskipping
  rw [openElement_of_outermost ht htag, h.opened, hskipping, overflow, hfit.outgrows_zero,
    interruption]
  by_cases hopened : s.opened = []
  · have hgrown := outgrows_of_frameStart (hs.balanced.idle hopened).1 (tag.length + 1)
    simp [hopened, hgrown]
  · cases hs' : s.skipping with
    | true =>
      have hgrown := outgrows_of_frameStart ((hs.balanced.busy hopened).2 hs') (tag.length + 1)
      simp [hgrown]
    | false =>
      rw [List.getLast?_eq_some_getLast hopened]
      cases s.outgrows (tag.length + 1) <;> rfl

end

@[simp] theorem named_limit (name : String) : (s.named name).limit = s.limit := by
  rw [named, trim]
  split <;> exact s.openElement_limit name

theorem isWord_tag {f : Frame} (h : f.IsProper) : isWord f.tag = true := by
  cases f with
  | leaf l => exact h.tag
  | vector tag as items => exact h.1

def entered (s : Splitter) (tag : String) : Splitter :=
  (s.read (60 :: encode tag.toList)).1.named tag

section

variable (hs : s.IsSound) (hfit : s.IsFit) (hlex : s.lex = .text)
include hs hfit hlex

theorem within_entered (hword : isWord tag = true) (htag : tag ∈ outermostTags) :
    Within (s.entered tag) s.position (60 :: encode tag.toList) [tag] (.attributes none false) :=
  (Opening.tag hword hs hfit hlex).1.within hs (hs.read _) htag (by simp)

theorem read_entered (hword : isWord tag = true) (htag : tag ∈ outermostTags) {b : UInt8}
    (hb : isNameByte b = false) (bs : Bytes) :
    s.read (60 :: encode tag.toList ++ b :: bs) =
      (((s.entered tag).read (b :: bs)).1,
        (s.interruption tag).toList.map .fault ++ ((s.entered tag).read (b :: bs)).2) := by
  have hlength : (60 :: encode tag.toList).length = tag.length + 1 := by
    rw [List.length_cons, Markup.length_encode_of_isWord hword]
  obtain ⟨hopening, hevents⟩ := Opening.tag hword hs hfit hlex
  have hsound := hs.read (60 :: encode tag.toList)
  have hkeep := hopening.keepFrom_openElement hsound htag (by simp)
  have hread := read_name (s.read (60 :: encode tag.toList)).1 bs hopening.lex hb
  rw [spell_encode hword] at hread
  rw [read_append, hread hkeep, hevents, ← List.append_assoc,
    hopening.events hs hsound htag hfit hlength]
  rfl

/-- Between tags, a frame is told of whole, behind no more than what it interrupts. Its last byte may
be beyond the limit. -/
theorem read_frame {f : Frame} (h : f.IsProper) (hflat : IsFlat f) (htag : f.tag ∈ outermostTags)
    (hsize : (encode f.body).length ≤ s.limit + 1) :
    (s.read (encode f.body)).2 = (s.interruption f.tag).toList.map .fault ++
        [.frame s.position (s.position + (encode f.body).length) (encode f.body)] ∧
      (s.read (encode f.body)).1.lex = .text ∧ (s.read (encode f.body)).1.opened = [] := by
  obtain ⟨b, bs, l, hbody, hb, hquiet, hclosing⟩ := exists_quiet h hflat
  have hword := isWord_tag h
  have hlimit : (s.entered f.tag).limit = s.limit := by rw [entered, named_limit, read_limit]
  have hwithin := within_entered hs hfit hlex hword htag
  have hfirst : (60 :: encode f.tag.toList ++ b :: bs).length ≤ s.limit := by
    rw [hbody] at hsize
    simp only [List.length_append, List.length_cons] at hsize ⊢
    omega
  obtain ⟨hnothing, hbehind⟩ := hquiet _ _ _ hwithin (hlimit ▸ hfirst)
  obtain ⟨hframe, hend⟩ := hbehind.finish hclosing
  have hlayout : encode f.body = 60 :: encode f.tag.toList ++ b :: bs ++ [62] := by
    rw [hbody]
    simp
  have hlast : (s.entered f.tag).read (b :: (bs ++ [62])) =
      ((((s.entered f.tag).read (b :: bs)).1.readByte 62).1,
        [.frame s.position (s.position + (encode f.body).length) (encode f.body)]) := by
    rw [← List.cons_append, read_append, hnothing, read_singleton, hframe, hlayout]
    rfl
  have hall := read_entered hs hfit hlex hword htag hb (bs ++ [62])
  rw [hlast] at hall
  have hread : s.read (encode f.body) = _ := (congrArg s.read hbody).trans hall
  rw [hread]
  exact ⟨rfl, hend⟩

end

end Splitter
end InstrumentBus.Wire
