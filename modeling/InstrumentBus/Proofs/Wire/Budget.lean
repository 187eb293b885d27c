import InstrumentBus.Proofs.Wire.Frames

/-!
What a stream can tell is bounded by its length. A byte tells of one thing at most, but for the byte
behind the name of a tag that cuts a frame short: it is read twice, and may tell of the cut and then
of the size of the frame that begins with the tag. The bracket before the name told nothing, and pays
for the second of these.
-/

namespace InstrumentBus.Wire

open Text (Bytes)

namespace Splitter

variable {s t u : Splitter} {b : UInt8} {outer : String} {name : Bytes}

/-- With the byte `b` the name of a tag ends that cuts short the frame of the element `outer`. -/
structure Cuts (s : Splitter) (b : UInt8) (outer : String) (name : Bytes) : Prop where
  lex : s.lex = .startName name
  ends : isNameByte b = false
  outermost : spell name ∈ outermostTags
  frame : s.opened.getLast? = some outer
  unskipped : s.skipping = false

def cut (outer : String) (name : Bytes) : Event :=
  .fault (.malformed outer (.truncated (spell name)))

/-- Only a cut leaves its byte to be read again. -/
theorem exists_cuts_of_lexByte {here : Nat} (h : (s.lexByte here b).1.position ≠ s.position) :
    ∃ outer name, s.Cuts b outer name := by
  have hlexed := s.lexed_lexByte here b
  generalize s.lexByte here b = r at hlexed h
  cases hlexed with
  | @cuts name _ hlex hends htold =>
    obtain ⟨hname, hskipping, outer, houter, -⟩ := openElement_eq_some_iff.1 htold
    exact ⟨outer, name, hlex, hends, hname, houter, hskipping⟩
  | opens => exact absurd (s.openElement_position _) h
  | _ => exact absurd rfl h

theorem exists_cuts_of_lexStep (h : (s.lexStep b).1.position = s.position) :
    ∃ outer name, s.Cuts b outer name := by
  have hback : ((s.advance b).lexByte s.position b).1.position ≠ (s.advance b).position := by
    rw [← lexStep_position, h]
    exact Nat.ne_of_lt (Nat.lt_succ_self _)
  obtain ⟨outer, name, hcuts⟩ := exists_cuts_of_lexByte hback
  exact ⟨outer, name, hcuts.lex, hcuts.ends, hcuts.outermost, hcuts.frame, hcuts.unskipped⟩

theorem exists_cuts_of_step (h : (s.step b).1.position = s.position) :
    ∃ outer name, s.Cuts b outer name := by
  apply exists_cuts_of_lexStep
  rw [step_eq] at h
  cases hs : s.lexStep b with
  | mk next event =>
    rw [hs] at h
    cases event with
    | none => simpa using h
    | some event => simpa using h

namespace Cuts

theorem lexByte (h : s.Cuts b outer name) (here : Nat) :
    s.lexByte here b = ({ (s.openElement (spell name)).1 with
      lex := .attributes none false
      position := here }, some (cut outer name)) := by
  have htold := openElement_eq_some_iff.2 ⟨h.outermost, h.unskipped, outer, h.frame, rfl⟩
  simp only [Splitter.lexByte, h.lex, h.ends, Bool.false_eq_true, ↓reduceIte]
  cases ho : s.openElement (spell name) with
  | mk t told =>
    rw [ho] at htold
    cases htold
    rfl

theorem step (h : s.Cuts b outer name) :
    (s.step b).1.position = s.position ∧ (s.step b).1.lex = .attributes none false ∧
      (s.step b).2 = some (cut outer name) := by
  have hadvance : (s.advance b).Cuts b outer name :=
    ⟨h.lex, h.ends, h.outermost, h.frame, h.unskipped⟩
  have hlexStep : s.lexStep b = ((s.lexStep b).1, some (cut outer name)) := by
    simp only [lexStep, hadvance.lexByte]
  rw [step_eq, hlexStep]
  simp only [trim_position, trim_lex, lexStep_position, lexStep_lex, hadvance.lexByte, and_self]

end Cuts

/-- The bracket before a name told nothing, which is put by for the byte behind the name. Nothing is
cut short while a frame is skipped. -/
def reserve (s : Splitter) : Nat :=
  if s.skipping then 0
  else
    match s.lex with
    | .open => 1
    | .startName _ => 1
    | _ => 0

@[simp] theorem reserve_trim (before : Nat) : (s.trim before).reserve = s.reserve := by
  simp only [trim]
  split <;> rfl

theorem reserve_le_one : s.reserve ≤ 1 := by
  simp only [reserve]
  repeat' split
  all_goals decide

theorem reserve_of_not_isNaming (h : ¬s.lex.IsNaming) : s.reserve = 0 := by
  simp only [reserve]
  split
  · rfl
  · split
    · simp [*, Lex.IsNaming] at h
    · simp [*, Lex.IsNaming] at h
    · rfl

theorem Cuts.reserve (h : s.Cuts b outer name) : s.reserve = 1 := by
  simp [Splitter.reserve, h.unskipped, h.lex]

theorem lexByte_mute_or (here : Nat) :
    (s.lexByte here b).2 = none ∨ ¬(s.lexByte here b).1.lex.IsNaming := by
  have hlexed := s.lexed_lexByte here b
  generalize s.lexByte here b = r at hlexed ⊢
  cases hlexed with
  | goesOn | begins | opens | shuts => exact .inl rfl
  | _ => exact .inr id

theorem checkSize_paid : s.checkSize.2.toList.length + s.checkSize.1.reserve ≤ 1 := by
  have hreserve : s.reserve ≤ 1 := reserve_le_one
  simp only [checkSize]
  split
  · split
    · simp [reserve]
    · simpa
  · simpa

theorem step_paid :
    (s.step b).2.toList.length + (s.step b).1.reserve + s.position ≤
      s.reserve + (s.step b).1.position := by
  have hposition := s.lexStep_position_cases b
  have hmute := (s.advance b).lexByte_mute_or (b := b) s.position
  change (s.lexStep b).2 = none ∨ _ at hmute
  rw [← lexStep_lex] at hmute
  rw [step_eq]
  cases hs : s.lexStep b with
  | mk next event =>
    rw [hs] at hposition hmute
    cases event with
    | none =>
      have hnext : next.position = s.position + 1 := by simpa using hposition
      have hpaid : next.checkSize.2.toList.length + next.checkSize.1.reserve ≤ 1 := checkSize_paid
      simp only [reserve_trim, trim_position, checkSize_position]
      omega
    | some event =>
      have hnaming : next.reserve = 0 := reserve_of_not_isNaming (hmute.resolve_left (by simp))
      simp only [Option.toList_some, List.length_singleton, reserve_trim, trim_position, hnaming]
      obtain hnext | ⟨hback, -⟩ := hposition
      · dsimp only at hnext
        omega
      -- The byte is still to be read, so that only what was put by can pay.
      · obtain ⟨outer, name, hcuts⟩ := exists_cuts_of_lexStep (hs ▸ hback)
        rw [hcuts.reserve]
        dsimp only at hback
        omega

/-- From `s` to `t`, with `fed` more bytes to read, `told` events are paid for by the bytes read. -/
structure Affords (s t : Splitter) (fed told : Nat) : Prop where
  events : told + t.reserve + s.position ≤ s.reserve + t.position
  bytes : t.position + t.unread.length = s.position + s.unread.length + fed

namespace Affords

variable {limit fed fed' told told' : Nat}

theorem refl (s : Splitter) : Affords s s 0 0 := ⟨by omega, rfl⟩

theorem trans (h : Affords s t fed told) (h' : Affords t u fed' told') :
    Affords s u (fed + fed') (told + told') := by
  obtain ⟨hevents, hbytes⟩ := h
  obtain ⟨hevents', hbytes'⟩ := h'
  exact ⟨by omega, by omega⟩

theorem mono (h : Affords s t fed told) (hle : told' ≤ told) : Affords s t fed told' :=
  ⟨Nat.le_trans (by omega) h.events, h.bytes⟩

theorem extend (s : Splitter) (bs : Bytes) : Affords s (s.extend bs) bs.length 0 := by
  constructor
  · change 0 + s.reserve + s.position ≤ s.reserve + s.position
    omega
  · simp only [Splitter.extend, List.length_append, Nat.add_assoc]

theorem step (s : Splitter) (b : UInt8) (bs : Bytes) :
    Affords (s.withUnread (b :: bs))
      ((s.step b).1.withUnread (if (s.step b).1.position = s.position then b :: bs else bs))
      0 (s.step b).2.toList.length := by
  have hposition := s.step_position b
  refine ⟨step_paid, ?_⟩
  simp only [position_withUnread, unread_withUnread]
  split
  · omega
  · rw [List.length_cons]
    omega

theorem scanBytes (s : Splitter) (bs : Bytes) :
    Affords (s.withUnread bs) (s.scanBytes bs).1 0 (s.scanBytes bs).2.toList.length := by
  induction bs generalizing s with
  | nil => exact refl _
  | cons b bs ih =>
    have hstep := step s b bs
    have hposition := s.step_position b
    simp only [Splitter.scanBytes]
    cases hs : s.step b with
    | mk next event =>
      rw [hs] at hstep hposition
      cases event with
      | none =>
        have hne : next.position ≠ s.position := by simp_all
        rw [if_neg hne] at hstep
        simpa using hstep.trans (ih next)
      | some event => exact hstep

theorem next? (s : Splitter) : Affords s s.next?.1 0 s.next?.2.toList.length :=
  scanBytes s s.unread

theorem answer (s : Splitter) (call : Call) :
    Affords s (s.answer call).1 call.bytes.length (s.answer call).2.toList.length := by
  cases call with
  | extend bs => exact extend s bs
  | scan => exact next? s

theorem answers (s : Splitter) (calls : List Call) :
    Affords s (s.answers calls).1 (stream calls).length (s.answers calls).2.length := by
  induction calls generalizing s with
  | nil => exact refl s
  | cons call calls ih =>
    have hall := (answer s call).trans (ih (s.answer call).1)
    rw [← List.length_append, ← List.length_append] at hall
    exact hall

theorem of_ofLimit (h : Affords (ofLimit limit) t fed told) :
    told ≤ t.position ∧ t.position ≤ fed := by
  have hevents : told + t.reserve + 0 ≤ 0 + t.position := h.events
  have hbytes : t.position + t.unread.length = 0 + 0 + fed := h.bytes
  omega

end Affords

/-- A request is answered by an event, but no byte more counts as read. -/
def StandsStill (s : Splitter) (event : Event) : Prop :=
  s.next?.2 = some event ∧ s.next?.1.position = s.position

theorem position_le_scanBytes (bs : Bytes) : s.position ≤ (s.scanBytes bs).1.position := by
  induction bs generalizing s with
  | nil => exact Nat.le_refl _
  | cons b bs ih =>
    have hposition := s.step_position b
    simp only [scanBytes]
    cases hs : s.step b with
    | mk next event =>
      rw [hs] at hposition
      have hle : s.position ≤ next.position := by
        dsimp only at hposition
        omega
      cases event with
      | none => exact Nat.le_trans hle ih
      | some event => exact hle

theorem position_lt_scanBytes (bs : Bytes) (h : ¬∃ outer name, s.Cuts b outer name) :
    s.position < (s.scanBytes (b :: bs)).1.position := by
  have hposition := s.step_position b
  have hne : (s.step b).1.position ≠ s.position := fun hback => h (exists_cuts_of_step hback)
  simp only [scanBytes]
  cases hs : s.step b with
  | mk next event =>
    rw [hs] at hposition hne
    have hlt : s.position < next.position := by
      dsimp only at hposition hne
      omega
    cases event with
    | none => exact Nat.lt_of_lt_of_le hlt (position_le_scanBytes bs)
    | some event => exact hlt

theorem Cuts.scanBytes (h : s.Cuts b outer name) (bs : Bytes) :
    s.scanBytes (b :: bs) = ((s.step b).1.withUnread (b :: bs), some (cut outer name)) := by
  obtain ⟨hback, -, htold⟩ := h.step
  simp only [Splitter.scanBytes]
  cases hs : s.step b with
  | mk next event =>
    rw [hs] at hback htold
    cases htold
    dsimp only at hback ⊢
    rw [if_pos hback]
    rfl

theorem standsStill_iff {event : Event} :
    s.StandsStill event ↔
      ∃ b outer name, s.unread.head? = some b ∧ s.Cuts b outer name ∧ cut outer name = event := by
  constructor
  · intro ⟨htold, hback⟩
    simp only [next?] at htold hback
    cases hunread : s.unread with
    | nil => simp [hunread, scanBytes] at htold
    | cons b bs =>
      rw [hunread] at htold hback
      obtain ⟨outer, name, hcuts⟩ : ∃ outer name, s.Cuts b outer name := by
        by_contra hnone
        exact absurd hback (Nat.ne_of_gt (position_lt_scanBytes bs hnone))
      rw [hcuts.scanBytes] at htold
      exact ⟨b, outer, name, rfl, hcuts, Option.some.inj htold⟩
  · rintro ⟨b, outer, name, hhead, hcuts, rfl⟩
    obtain ⟨bs, hunread⟩ := List.head?_eq_some_iff.1 hhead
    rw [StandsStill, next?, hunread, hcuts.scanBytes]
    exact ⟨rfl, hcuts.step.1⟩

theorem StandsStill.position_lt {event : Event} (h : s.StandsStill event) :
    s.position < s.next?.1.next?.1.position := by
  obtain ⟨b, outer, name, hhead, hcuts, -⟩ := standsStill_iff.1 h
  obtain ⟨bs, hunread⟩ := List.head?_eq_some_iff.1 hhead
  obtain ⟨hback, hlex, -⟩ := hcuts.step
  have hnext : s.next?.1 = (s.step b).1.withUnread (b :: bs) := by
    rw [next?, hunread, hcuts.scanBytes]
  have hdone : ¬∃ outer name, s.next?.1.Cuts b outer name := by
    intro ⟨_, _, hagain⟩
    have := hagain.lex
    simp [hnext, hlex] at this
  have hlt := position_lt_scanBytes bs hdone
  rw [hnext] at hlt ⊢
  exact hback ▸ hlt

/-- This takes an element, a tag in it that cuts it short, and the byte behind the name of that tag
in a chunk of its own. -/
theorem exists_standsStill {limit : Nat} (h : 11 ≤ limit) :
    ∃ calls event, ((ofLimit limit).answers calls).1.StandsStill event := by
  have hroom (size : Nat) (hsize : size ≤ 11) : ¬limit < size := by omega
  have hbytes : Text.utf8 "<a><message" = [60, 97, 62, 60, 109, 101, 115, 115, 97, 103, 101] := by
    decide +kernel
  obtain ⟨calls, hcalls⟩ : ∃ calls, ((ofLimit limit).answers calls).1 = { ofLimit limit with
      position := 11
      lex := .startName (Text.utf8 "egassem")
      tagStart := 3
      frameStart := some 0
      opened := ["a"]
      held := Text.utf8 "egassem<>a<"
      unread := Text.utf8 "/>" } := by
    refine ⟨[.extend (Text.utf8 "<a><message"), .scan, .extend (Text.utf8 "/>")], ?_⟩
    rw [hbytes]
    simp [answers, answer, extend, next?, scanBytes, step, lexByte, ofLimit, isNameStart, isNameByte,
      openElement, attributeByte, checkSize, trim, keepFrom, hroom]
    decide +kernel
  refine ⟨calls, cut "a" (Text.utf8 "egassem"),
    standsStill_iff.2 ⟨47, "a", Text.utf8 "egassem", ?_, ?_, rfl⟩⟩
  · rw [hcalls]
    rfl
  · rw [hcalls]
    exact ⟨rfl, rfl, by decide +kernel, rfl, rfl⟩

end Splitter

namespace Decoder

open Splitter (Affords)

variable {d e : Decoder} {out : List Arrival} {chunks : List Bytes}

theorem affords_nextFrom (fuel : Nat) (s : Splitter) :
    Affords s (nextFrom fuel s).1 0 (nextFrom fuel s).2.toList.length := by
  induction fuel generalizing s with
  | zero => exact .refl s
  | succ fuel ih =>
    have hnext := Affords.next? s
    simp only [nextFrom]
    cases hn : s.next? with
    | mk t event =>
      rw [hn] at hnext
      cases event with
      | none => exact hnext
      | some event =>
        cases ha : event.arrival? with
        | some arrival =>
          simp only [ha]
          exact hnext
        | none =>
          simp only [ha]
          exact (hnext.trans (ih t)).mono (Nat.le_add_left ..)

theorem affords_next? (d : Decoder) :
    Affords d.splitter d.next?.1.splitter 0 d.next?.2.toList.length :=
  affords_nextFrom d.splitter.bound d.splitter

theorem Drained.affords (h : Drained d out e) : Affords d.splitter e.splitter 0 out.length := by
  induction h with
  | @done d e hnone =>
    have hnext := d.affords_next?
    rwa [hnone] at hnext
  | @more d e f a out hsome _ ih =>
    have hnext := d.affords_next?
    rw [hsome] at hnext
    rw [List.length_cons, Nat.add_comm]
    exact hnext.trans ih

theorem Fed.affords (h : Fed d chunks out e) :
    Affords d.splitter e.splitter chunks.flatten.length out.length := by
  induction h with
  | nil => exact .refl _
  | @cons d e f chunk chunks out more hdrained _ ih =>
    have hall := ((Affords.extend d.splitter chunk).trans hdrained.affords).trans ih
    simpa using hall

/-- However a stream is cut into chunks and whatever the limit, a decoder that is drained after each
comes to an end, with no more arrivals than there are bytes. Whenever events are asked for, no more
of them have been told than bytes have been read. A request never goes back, and it gets no further
only where the byte at hand ends the name of a tag that cuts a frame short; the next one gets
further then. -/
theorem each_arrival_takes_a_byte (limit : Nat) :
    (∀ chunks, ∃ out d, (∀ out' d', Fed (.ofLimit limit) chunks out' d' ↔ out' = out ∧ d' = d) ∧
      out.length ≤ chunks.flatten.length) ∧
    (∀ calls, ∃ s told, (Splitter.ofLimit limit).answers calls = (s, told) ∧
      told.length ≤ s.position ∧ s.position ≤ (stream calls).length ∧
      s.position ≤ s.next?.1.position ∧
      ∀ event,
        (s.StandsStill event ↔ ∃ b outer name,
          s.unread.head? = some b ∧ s.Cuts b outer name ∧ Splitter.cut outer name = event) ∧
        (s.StandsStill event → s.position < s.next?.1.next?.1.position)) ∧
    (11 ≤ limit → ∃ calls event,
      ((Splitter.ofLimit limit).answers calls).1.StandsStill event) := by
  refine ⟨fun chunks => ?_, fun calls => ?_, Splitter.exists_standsStill⟩
  · obtain ⟨out, d, hiff⟩ : ∃ out d, ∀ out' d',
        Fed (.ofLimit limit) chunks out' d' ↔ out' = out ∧ d' = d :=
      ⟨_, _, fun _ _ => fed_ofLimit_iff.trans and_comm⟩
    obtain ⟨hevents, hbytes⟩ := ((hiff out d).2 ⟨rfl, rfl⟩).affords.of_ofLimit
    exact ⟨out, d, hiff, Nat.le_trans hevents hbytes⟩
  · obtain ⟨hevents, hbytes⟩ := (Affords.answers (.ofLimit limit) calls).of_ofLimit
    refine ⟨_, _, rfl, hevents, hbytes, Splitter.position_le_scanBytes _, fun event => ?_⟩
    exact ⟨Splitter.standsStill_iff, Splitter.StandsStill.position_lt⟩

theorem cut_and_message_arrive :
    (∃ out d, Fed (.ofLimit 16) [Text.utf8 "<a><message", Text.utf8 "/>"] out d ∧
      out.length = 2 ∧ out.length ≤ [Text.utf8 "<a><message", Text.utf8 "/>"].flatten.length) ∧
    11 ≤ 16 ∧ ∃ calls event, ((Splitter.ofLimit 16).answers calls).1.StandsStill event := by
  obtain ⟨hfed, -, hstill⟩ := each_arrival_takes_a_byte 16
  obtain ⟨out, d, hiff, hle⟩ := hfed [Text.utf8 "<a><message", Text.utf8 "/>"]
  have hout : Fed (.ofLimit 16) [Text.utf8 "<a><message", Text.utf8 "/>"] _ _ := (fed_iff rfl).2 rfl
  obtain ⟨hout, -⟩ := (hiff _ _).1 hout
  refine ⟨⟨out, d, (hiff _ _).2 ⟨rfl, rfl⟩, ?_, hle⟩, by decide, hstill (by decide)⟩
  rw [← hout]
  decide +kernel

end Decoder
end InstrumentBus.Wire
