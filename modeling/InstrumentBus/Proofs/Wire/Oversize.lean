import InstrumentBus.Proofs.Wire.Recovery
import InstrumentBus.Proofs.Wire.Trace

/-!
A frame that is too large is told of once and skipped up to its end, wherever in it that is noticed;
the frames behind it arrive.
-/

namespace InstrumentBus.Wire

open Markup (isLetter isWord)
open Text (Bytes encode)

namespace Place

variable {p : Place} {b : UInt8} {bs name : Bytes} {os : List String}

theorem eq_nil_of_walk?_exit (h : exit.walk? bs = some p) : bs = [] := by
  cases bs with
  | nil => rfl
  | cons b bs => cases h

theorem walk?_letters (h : ∀ b ∈ bs, isLetter b = true) :
    walk? ⟨.startName name, []⟩ bs = some ⟨.startName (bs.reverse ++ name), []⟩ := by
  induction bs generalizing name with
  | nil => rfl
  | cons b bs ih =>
    have hb : next? ⟨.startName name, []⟩ b = some ⟨.startName (b :: name), []⟩ := by
      have := Splitter.isNameByte_of_isLetter (h b List.mem_cons_self)
      simp [next?, enter?, stay, this]
    rw [walk?_cons, hb, Option.bind_some, ih fun c hc => h c (List.mem_cons_of_mem b hc)]
    simp

theorem walk?_tag {tag : String} (h : isWord tag = true) :
    entrance.walk? (encode tag.toList) = some ⟨.startName (encode tag.toList).reverse, []⟩ := by
  obtain ⟨b, bs, hb⟩ := Markup.encode_eq_cons_of_isWord h
  have hletter : ∀ c ∈ b :: bs, isLetter c = true := fun c hc =>
    Markup.isLetter_of_mem_encode h (hb ▸ hc)
  have hfirst : next? entrance b = some ⟨.startName [b], []⟩ := by
    have hstart : isNameStart b = true := by
      have := hletter b List.mem_cons_self
      simp_all [isNameStart, isLetter]
    simp [next?, enter?, entrance, stay, hstart]
  rw [hb, walk?_cons, hfirst, Option.bind_some,
    walk?_letters fun c hc => hletter c (List.mem_cons_of_mem b hc), List.reverse_cons]

theorem walk?_behindName {tag : String} (h : isWord tag = true) (hb : isNameByte b = false) :
    entrance.walk? (encode tag.toList ++ b :: bs) = walk? ⟨.attributes none false, [tag]⟩ (b :: bs) := by
  rw [walk?_append, walk?_tag h, Option.bind_some, walk?_cons, walk?_cons]
  simp [next?, enter?, proceed?, stay, hb, Splitter.spell_encode h]

end Place

namespace Splitter

variable {s : Splitter} {st : Nat} {bs : Bytes}

theorem walk?_frame {f : Frame} (h : f.IsProper) (hflat : IsFlat f) (htag : f.tag ∈ outermostTags) :
    ∃ q, encode f.body = 60 :: q ∧ Place.entrance.walk? q = some .exit := by
  have hsound := isSound_ofLimit (encode f.body).length
  have hfit : (ofLimit (encode f.body).length).IsFit := isFit_of_frameStart rfl
  have hread := (read_frame hsound hfit rfl h hflat htag (Nat.le_succ _)).1
  have hframe : .frame 0 (0 + (encode f.body).length) (encode f.body) ∈
      ((ofLimit (encode f.body).length).read (encode f.body)).2 := by
    rw [hread]
    exact List.mem_append_right _ List.mem_cons_self
  obtain ⟨-, q, hbody, -, -, -, hwalk, -⟩ := exists_of_mem_read hframe
  exact ⟨q, hbody, hwalk⟩

theorem read_skipped (hs : s.IsBalanced) (hopened : s.opened ≠ []) (hskipping : s.skipping = true)
    (hwalk : s.place.walk? bs = some .exit) :
    (s.read bs).2 = [] ∧ (s.read bs).1.place = .exit := by
  induction bs generalizing s with
  | nil => exact absurd (congrArg Place.opened (Option.some.inj hwalk)) hopened
  | cons b bs ih =>
    obtain ⟨p, hp, hbs⟩ := Option.bind_eq_some_iff.1 hwalk
    rw [Place.next?_of_opened hopened] at hp
    have hpasses := passes_of_proceed? hopened hp
    simp only [read]
    by_cases hinner : p.opened = []
    · obtain ⟨rfl, hevents⟩ := hpasses.outside hinner
      obtain rfl := Place.eq_nil_of_walk?_exit hbs
      have hskipped : (s.advance b).skipping = true := hskipping
      rw [hevents, finishFrame, hskipped]
      exact ⟨rfl, hpasses.place⟩
    · obtain rfl := hpasses.place
      have hfits := outgrows_of_frameStart ((hs.busy hopened).2 hskipping) 1
      have hskipping' := hpasses.skipping hinner
      rw [hpasses.inside hinner, hfits]
      exact ih (hs.readByte b) hinner (by rw [hskipping', hskipping]; rfl) hbs

theorem read_outgrown (hs : s.IsBalanced) (hopened : s.opened ≠ []) (hframe : s.frameStart = some st)
    (hwalk : s.place.walk? bs = some .exit) (hlarge : s.limit + 1 < s.position + bs.length - st)
    (hfit : s.IsFit ∨ ∀ b, bs ≠ [b]) :
    (s.read bs).2 = [.fault (.frameTooLarge s.limit)] ∧ (s.read bs).1.place = .exit := by
  induction bs generalizing s with
  | nil => exact absurd (congrArg Place.opened (Option.some.inj hwalk)) hopened
  | cons b bs ih =>
    obtain ⟨p, hp, hbs⟩ := Option.bind_eq_some_iff.1 hwalk
    rw [Place.next?_of_opened hopened] at hp
    have hpasses := passes_of_proceed? hopened hp
    simp only [read]
    by_cases hinner : p.opened = []
    · -- No frame that is still open is so large that this byte can be its last one.
      obtain ⟨rfl, -⟩ := hpasses.outside hinner
      obtain rfl := Place.eq_nil_of_walk?_exit hbs
      obtain hfit | hmore := hfit
      · have := hfit st hframe
        rw [List.length_singleton] at hlarge
        omega
      · exact absurd rfl (hmore b)
    · obtain rfl := hpasses.place
      have hframe' := hpasses.frame hinner
      have hskipping' := hpasses.skipping hinner
      rw [hpasses.inside hinner]
      cases hgrown : s.outgrows 1 with
      | true =>
        rw [hgrown, Bool.or_true] at hskipping'
        obtain ⟨hnothing, hplace⟩ := read_skipped (hs.readByte b) hinner hskipping' hbs
        exact ⟨by rw [hnothing]; rfl, hplace⟩
      | false =>
        rw [hgrown] at hframe'
        have hmore : s.limit + 1 < (s.readByte b).1.position + bs.length - st := by
          rw [List.length_cons] at hlarge
          rw [readByte_position]
          omega
        rw [← readByte_limit b] at hmore
        obtain ⟨hevents, hplace⟩ := ih (hs.readByte b) hinner (hframe'.trans hframe) hbs hmore
          (.inl (isFit_readByte hs b))
        exact ⟨by rw [hevents, readByte_limit]; rfl, hplace⟩

section

variable {limit : Nat} (h : IsIdle limit s)
include h

theorem IsIdle.read_large_frame {f : Frame} (hproper : f.IsProper) (hflat : IsFlat f)
    (htag : f.tag ∈ outermostTags) (hsize : limit + 1 < (encode f.body).length) :
    (s.read (encode f.body)).2 = [.fault (.frameTooLarge limit)] ∧
      (s.read (encode f.body)).1.place = .exit := by
  obtain rfl := h.limit
  obtain ⟨b, bs, -, hbody, hb, -, -⟩ := exists_quiet hproper hflat
  obtain ⟨q, hq, hwalk⟩ := walk?_frame hproper hflat htag
  have hword := isWord_tag hproper
  have hwithin := within_entered h.sound h.fit h.lex hword htag
  have hread := read_entered h.sound h.fit h.lex hword htag hb (bs ++ [62])
  have hlimit : (s.entered f.tag).limit = s.limit := by rw [entered, named_limit, read_limit]
  have hlayout : encode f.body = 60 :: encode f.tag.toList ++ b :: (bs ++ [62]) := by
    rw [hbody]
    simp
  obtain rfl : encode f.tag.toList ++ b :: (bs ++ [62]) = q := by
    rw [hlayout] at hq
    exact (List.cons.inj hq).2
  rw [Place.walk?_behindName hword hb] at hwalk
  have hplace : (s.entered f.tag).place = ⟨.attributes none false, [f.tag]⟩ := by
    rw [place, hwithin.lex, hwithin.opened]
  have hbalanced : (s.entered f.tag).IsBalanced :=
    ⟨fun hnone => by simp [hwithin.opened] at hnone,
      fun _ => by simp [hwithin.frame, hwithin.skipping]⟩
  have hlarge : (s.entered f.tag).limit + 1 <
      (s.entered f.tag).position + (b :: (bs ++ [62])).length - s.position := by
    rw [hlimit, hwithin.position, Nat.add_assoc, Nat.add_sub_cancel_left, ← List.length_append,
      ← hlayout]
    exact hsize
  obtain ⟨hevents, hexit⟩ := read_outgrown hbalanced (by simp [hwithin.opened]) hwithin.frame
    (hplace ▸ hwalk) hlarge (.inr fun c => by simp)
  rw [hlayout, hread, interruption_of_idle h.opened, hevents, hlimit]
  exact ⟨rfl, hexit⟩

theorem IsIdle.read_message (m : Message) :
    ∃ a : Arrival, a.map some = (if m.toBytes.length ≤ limit + 2 then Message.ofFrame? m.toBytes
        else .error (.frameTooLarge limit)) ∧
      (s.read m.toBytes).2.filterMap Event.arrival? = [a] ∧
      (s.read m.toBytes).1.lex = .text ∧ (s.read m.toBytes).1.opened = [] := by
  obtain rfl := h.limit
  by_cases hsize : m.toBytes.length ≤ s.limit + 2
  · obtain ⟨a, ha, harrivals, hend⟩ := read_message_of_length h.sound h.fit h.lex m hsize
    rw [interruption_of_idle h.opened] at harrivals
    exact ⟨a, by rw [if_pos hsize, ha], harrivals, hend⟩
  · have hlarge : s.limit + 1 < (encode m.frame.body).length := by
      rw [length_toBytes] at hsize
      omega
    obtain ⟨hevents, hplace⟩ :=
      h.read_large_frame m.isProper_frame m.isFlat_frame m.tag_frame_mem hlarge
    obtain ⟨hlex, hopened⟩ := Place.mk.inj hplace
    obtain ⟨hnothing, hend⟩ := read_lineFeed (h.sound.read _) hlex hopened
    refine ⟨.error (.frameTooLarge s.limit), by rw [if_neg hsize]; rfl, ?_, ?_⟩
    · rw [m.toBytes_eq, read_append, hevents, hnothing]
      rfl
    · rw [m.toBytes_eq, read_append]
      exact hend

end

end Splitter

namespace Decoder

/-- Of a stream of messages each arrives in its place, or, if its frame is longer than the limit and
one byte, one error that it is too large; and no frame that long is ever told, whatever the stream. -/
theorem fed_oversized (limit : Nat) :
    (∀ (messages : List Message) (chunks : List Bytes),
      chunks.flatten = messages.flatMap (·.toBytes) →
        ∃ found e,
          Fed (.ofLimit limit) chunks found e ∧
          found.map (·.map some) = messages.map (fun m =>
            if m.toBytes.length ≤ limit + 2 then Message.ofFrame? m.toBytes
            else .error (.frameTooLarge limit)) ∧
          ((∀ m ∈ messages, m.IsCarriable) → found = messages.map (fun m =>
            if m.toBytes.length ≤ limit + 2 then .ok m.carried
            else .error (.frameTooLarge limit))) ∧
          e.hasPartialFrame = false) ∧
    ∀ (stream : Bytes) (start stop : Nat) (bytes : Bytes),
      .frame start stop bytes ∈ ((Splitter.ofLimit limit).extend stream).drain.2 →
        bytes.length ≤ limit + 1 := by
  have hsound := Splitter.isSound_ofLimit limit
  constructor
  · intro messages chunks hchunks
    obtain ⟨found, hfound, harrivals, hlex, hopened⟩ :=
      Splitter.read_each (fun m _ _ h => h.read_message m) (Splitter.isIdle_ofLimit limit)
    refine ⟨found, _, fed_ofLimit_iff.2 ⟨rfl, ?_⟩, hfound, ?_, ?_⟩
    · rw [hchunks, harrivals]
    · intro hcarriable
      apply List.map_injective_iff.2 map_some_injective
      rw [hfound, List.map_map]
      refine List.map_congr_left fun m hm => ?_
      rw [m.ofFrame?_of_isCarriable (hcarriable m hm), Function.comp, apply_ite (Except.map some)]
      rfl
    · rw [hchunks]
      exact hasPartialFrame_of_idle (hsound.read _) hlex hopened
  · intro stream start stop bytes hframe
    rw [Splitter.drain_ofLimit] at hframe
    obtain ⟨-, -, -, -, -, -, -, hlength⟩ := Splitter.exists_of_mem_read hframe
    exact hlength

/-- The last byte of a frame is not counted: a frame that is longer than the limit by that byte
arrives. -/
theorem frame_beyond_limit_arrives :
    (Message.notify ⟨none, none, "x"⟩).toBytes = Text.utf8 "<message message=\"x\"/>\n" ∧
      21 < (Text.utf8 "<message message=\"x\"/>").length ∧
      ∀ out e,
        Fed (.ofLimit 21) [Text.utf8 "<message message=\"x\"/>\n<getProperties/>\n"] out e →
          out = [.ok (.notify ⟨none, none, "x"⟩), .ok (.discover ⟨none, none, none⟩)] := by
  refine ⟨by decide +kernel, by decide +kernel, ?_⟩
  intro out e h
  exact (fed_ofLimit_iff.1 h).2

theorem notice_is_too_large :
    (∃ found e,
      Fed (.ofLimit 20) [Text.utf8 "<message mess", Text.utf8 "age=\"x\"/>\n<getProperties/>\n"] found e ∧
      found = [.error (.frameTooLarge 20), .ok (.discover ⟨none, none, none⟩)] ∧
      e.hasPartialFrame = false) ∧
    .frame 0 24 (Text.utf8 "<getProperties name=\"\"/>") ∈
      ((Splitter.ofLimit 23).extend (Text.utf8 "<getProperties name=\"\"/>")).drain.2 ∧
    (Text.utf8 "<getProperties name=\"\"/>").length ≤ 23 + 1 := by
  have hchunks : [Text.utf8 "<message mess", Text.utf8 "age=\"x\"/>\n<getProperties/>\n"].flatten =
      [.notify ⟨none, none, "x"⟩, .discover ⟨none, none, none⟩].flatMap Message.toBytes := by
    decide +kernel
  obtain ⟨hmessages, -⟩ := fed_oversized 20
  obtain ⟨found, e, hfed, -, hfound, hpartial⟩ := hmessages _ _ hchunks
  have hcarriable : ∀ m ∈ [Message.notify ⟨none, none, "x"⟩, .discover ⟨none, none, none⟩],
      m.IsCarriable := by simp [Message.IsCarriable]
  have hframe : .frame 0 24 (Text.utf8 "<getProperties name=\"\"/>") ∈
      ((Splitter.ofLimit 23).extend (Text.utf8 "<getProperties name=\"\"/>")).drain.2 := by
    decide +kernel
  have hlarge : ¬(Message.notify ⟨none, none, "x"⟩).toBytes.length ≤ 20 + 2 := by decide +kernel
  have hfits : (Message.discover ⟨none, none, none⟩).toBytes.length ≤ 20 + 2 := by decide +kernel
  have hfound := hfound hcarriable
  rw [List.map_cons, List.map_cons, if_neg hlarge, if_pos hfits] at hfound
  exact ⟨⟨found, e, hfed, hfound, hpartial⟩, hframe, (fed_oversized 23).2 _ _ _ _ hframe⟩

end Decoder
end InstrumentBus.Wire
