import InstrumentBus.Proofs.Message.RoundTrip
import InstrumentBus.Proofs.Wire.Chunks
import InstrumentBus.Proofs.Wire.Resync

/-!
A decoder that is between tags reads every message that comes next, whatever came before.
-/

namespace InstrumentBus

open Markup (Node)
open Text (Bytes encode)

namespace Message

theorem tag_frame_mem (m : Message) : m.frame.tag ∈ Wire.outermostTags := by
  cases m with
  | define m => cases hk : m.kind <;> simp only [frame, Frame.tag, hk] <;> decide
  | update m => cases hk : m.kind <;> simp only [frame, Frame.tag, hk] <;> decide
  | change m => cases hk : m.kind <;> simp only [frame, Frame.tag, hk] <;> decide
  | _ =>
    simp only [frame, Frame.tag]
    decide

theorem elementTag_not_mem (v : Verb) (k : Kind) : elementTag v k ∉ Wire.outermostTags := by
  cases v <;> cases k <;> decide

theorem isFlat_frame (m : Message) : Wire.Splitter.IsFlat m.frame := by
  cases m with
  | define m =>
    intro l hl
    obtain ⟨e, -, rfl⟩ := List.mem_map.1 hl
    exact elementTag_not_mem .define m.kind
  | update m =>
    intro l hl
    obtain ⟨e, -, rfl⟩ := List.mem_map.1 hl
    exact elementTag_not_mem .update m.kind
  | change m =>
    intro l hl
    obtain ⟨e, -, rfl⟩ := List.mem_map.1 hl
    exact elementTag_not_mem .update m.kind
  | _ => trivial

theorem exists_map_some {α β : Type} (x : Except WireError α) (f : α → β) :
    ∃ found : Except WireError β, x.map (fun a => some (f a)) = found.map some :=
  ⟨x.map f, by cases x <;> rfl⟩

theorem exists_message? (m : Message) :
    ∃ found : Except WireError Message, m.frame.node.message? = found.map some := by
  cases m with
  | define m =>
    rw [message?_define (k := m.kind) rfl]
    exact exists_map_some _ _
  | update m =>
    rw [message?_update (k := m.kind) rfl]
    exact exists_map_some _ _
  | change m =>
    rw [message?_change (k := m.kind) rfl]
    exact exists_map_some _ _
  | _ => exact ⟨.ok _, message?_frame trivial⟩

theorem ofFrame?_of_isCarriable (m : Message) (h : m.IsCarriable) :
    ofFrame? m.toBytes = (Except.ok m.carried : Except WireError Message).map some := by
  rw [toBytes_eq, ofFrame?_body, message?_frame h]
  rfl

theorem exists_ofFrame? (m : Message) :
    ∃ found : Except WireError Message, ofFrame? m.toBytes = found.map some ∧
      ∀ start stop, Wire.Event.arrival? (.frame start stop (encode m.frame.body)) = some found := by
  obtain ⟨found, hfound⟩ := m.exists_message?
  have hbody := m.ofFrame?_body []
  rw [List.append_nil, hfound] at hbody
  refine ⟨found, ?_, ?_⟩
  · rw [toBytes_eq, ofFrame?_body, hfound]
  · intro start stop
    simp only [Wire.Event.arrival?, hbody]
    cases found <;> rfl

end Message

namespace Wire

theorem map_some_injective : Function.Injective fun a : Arrival => a.map some := by
  intro a b h
  cases a <;> cases b <;> cases h <;> rfl

namespace Splitter

variable {s : Splitter}

theorem filterMap_fault (fault : Option WireError) :
    (fault.toList.map .fault).filterMap Event.arrival? = fault.toList.map .error := by
  cases fault <;> rfl

theorem length_toBytes (m : Message) : m.toBytes.length = (encode m.frame.body).length + 1 := by
  rw [Message.toBytes_eq, List.length_append]
  rfl

theorem read_lineFeed (hs : s.IsSound) (hlex : s.lex = .text) (hopened : s.opened = []) :
    (s.read [10]).2 = [] ∧ (s.read [10]).1.lex = .text ∧ (s.read [10]).1.opened = [] := by
  have hlexByte : (s.advance 10).lexByte s.position 10 = (s.advance 10, none) := by
    simp [lexByte, hlex, isGap]
  have hframe : (s.advance 10).frameStart = none := (hs.balanced.idle hopened).1
  have hsize : (s.advance 10).checkSize = (s.advance 10, none) := by simp only [checkSize, hframe]
  rw [read_singleton, readByte_of_none s rfl hlexByte, hsize]
  exact ⟨rfl, by rw [trim_lex]; exact hlex, by rw [trim_opened]; exact hopened⟩

/-- Between tags, a message arrives behind no more than what it interrupts. Its line feed and the
last byte of its frame may be beyond the limit. -/
theorem read_message_of_length (hs : s.IsSound) (hfit : s.IsFit) (hlex : s.lex = .text) (m : Message)
    (hsize : m.toBytes.length ≤ s.limit + 2) :
    ∃ a : Arrival, Message.ofFrame? m.toBytes = a.map some ∧
      (s.read m.toBytes).2.filterMap Event.arrival? =
        (s.interruption m.frame.tag).toList.map .error ++ [a] ∧
      (s.read m.toBytes).1.lex = .text ∧ (s.read m.toBytes).1.opened = [] := by
  rw [length_toBytes, Nat.add_le_add_iff_right] at hsize
  obtain ⟨hevents, hlex', hopened⟩ :=
    read_frame hs hfit hlex m.isProper_frame m.isFlat_frame m.tag_frame_mem hsize
  obtain ⟨a, ha, hframe⟩ := m.exists_ofFrame?
  obtain ⟨hnothing, hend⟩ := read_lineFeed (hs.read _) hlex' hopened
  refine ⟨a, ha, ?_, ?_⟩
  · rw [m.toBytes_eq, read_append, hevents, hnothing]
    rw [List.append_nil, List.filterMap_append, filterMap_fault, List.filterMap_cons_some (hframe ..)]
    rfl
  · rw [m.toBytes_eq, read_append]
    exact hend

theorem read_message (hs : s.IsSound) (hfit : s.IsFit) (hlex : s.lex = .text) (m : Message)
    (hsize : m.toBytes.length ≤ s.limit + 1) :
    ∃ a : Arrival, Message.ofFrame? m.toBytes = a.map some ∧
      (s.read m.toBytes).2.filterMap Event.arrival? =
        (s.interruption m.frame.tag).toList.map .error ++ [a] ∧
      (s.read m.toBytes).1.lex = .text ∧ (s.read m.toBytes).1.opened = [] :=
  read_message_of_length hs hfit hlex m (Nat.le_succ_of_le hsize)

structure IsIdle (limit : Nat) (s : Splitter) : Prop where
  sound : s.IsSound
  fit : s.IsFit
  lex : s.lex = .text
  opened : s.opened = []
  limit : s.limit = limit

theorem isIdle_ofLimit (limit : Nat) : IsIdle limit (ofLimit limit) :=
  ⟨isSound_ofLimit limit, isFit_of_frameStart rfl, rfl, rfl, rfl⟩

/-- Where each of some messages is answered by one arrival and leaves the splitter between frames,
all of them are, each in its place. -/
theorem read_each {limit : Nat} {answer : Message → Except WireError (Option Message)}
    {messages : List Message}
    (hanswer : ∀ m ∈ messages, ∀ s, IsIdle limit s →
      ∃ a : Arrival, a.map some = answer m ∧
        (s.read m.toBytes).2.filterMap Event.arrival? = [a] ∧
        (s.read m.toBytes).1.lex = .text ∧ (s.read m.toBytes).1.opened = [])
    (h : IsIdle limit s) :
    ∃ found : List Arrival,
      found.map (·.map some) = messages.map answer ∧
      (s.read (messages.flatMap (·.toBytes))).2.filterMap Event.arrival? = found ∧
      (s.read (messages.flatMap (·.toBytes))).1.lex = .text ∧
      (s.read (messages.flatMap (·.toBytes))).1.opened = [] := by
  induction messages generalizing s with
  | nil => exact ⟨[], rfl, rfl, h.lex, h.opened⟩
  | cons m messages ih =>
    obtain ⟨a, ha, harrivals, hlex, hopened⟩ := hanswer m List.mem_cons_self s h
    have hidle : IsIdle limit (s.read m.toBytes).1 :=
      ⟨h.sound.read _, h.fit.read h.sound _, hlex, hopened, (s.read_limit _).trans h.limit⟩
    obtain ⟨found, hfound, harrivals', hend⟩ :=
      ih (fun n hn => hanswer n (List.mem_cons_of_mem m hn)) hidle
    refine ⟨a :: found, ?_, ?_, ?_⟩
    · rw [List.map_cons, List.map_cons, hfound, ha]
    · rw [List.flatMap_cons, read_append, List.filterMap_append, harrivals, harrivals']
      rfl
    · rw [List.flatMap_cons, read_append]
      exact hend

theorem read_messages (hs : s.IsSound) (hfit : s.IsFit) (hlex : s.lex = .text)
    (hopened : s.opened = []) {messages : List Message}
    (hsize : ∀ m ∈ messages, m.toBytes.length ≤ s.limit + 1) :
    ∃ found : List Arrival,
      found.map (·.map some) = messages.map (Message.ofFrame? ·.toBytes) ∧
      (s.read (messages.flatMap (·.toBytes))).2.filterMap Event.arrival? = found ∧
      (s.read (messages.flatMap (·.toBytes))).1.lex = .text ∧
      (s.read (messages.flatMap (·.toBytes))).1.opened = [] := by
  refine read_each (fun m hm s h => ?_) ⟨hs, hfit, hlex, hopened, rfl⟩
  obtain ⟨a, ha, harrivals, hend⟩ :=
    read_message h.sound h.fit h.lex m (h.limit.symm ▸ hsize m hm)
  rw [interruption_of_idle h.opened] at harrivals
  exact ⟨a, ha.symm, harrivals, hend⟩

end Splitter

namespace Decoder

theorem of_settle_ofLimit {limit : Nat} {bs : Bytes} {d : Decoder} {out : List Arrival}
    (h : ((Decoder.ofLimit limit).feed bs).settle = (d, out)) :
    d.splitter.unread = [] ∧ d.splitter.IsSound ∧ d.splitter.IsFit ∧ d.splitter.limit = limit := by
  rw [feed_settle_withUnread _ _ rfl, Prod.mk.injEq] at h
  obtain ⟨rfl, -⟩ := h
  have hsound := Splitter.isSound_ofLimit limit
  have hfit : (Splitter.ofLimit limit).IsFit := Splitter.isFit_of_frameStart rfl
  exact ⟨rfl, (hsound.read bs).withUnread [], hfit.read hsound bs, Splitter.read_limit bs⟩

theorem hasPartialFrame_of_idle {s : Splitter} (hs : s.IsSound) (hlex : s.lex = .text)
    (hopened : s.opened = []) : hasPartialFrame ⟨s.withUnread []⟩ = false := by
  have hheld := hs.placed.held (hs.balanced.idle hopened).1 hlex
  have hpending : (s.withUnread []).pending = s.held.reverse := rfl
  rw [hasPartialFrame, hpending, hheld]
  rfl

/-- After any bytes that end between tags, whatever they leave open, all messages that are fed next
arrive, each in its place. Of an open frame that is not being skipped already there is one error
before them: that it is cut short, or, if its bytes and those up to the name of the first tag are
more than the limit, that it is too large. -/
theorem fed_messages (limit : Nat) (garbage chunks : List Bytes) (out : List Arrival) (d : Decoder)
    (first : Message) (others : List Message)
    (hgarbage : Fed (.ofLimit limit) garbage out d) (hlex : d.splitter.lex = .text)
    (hsize : ∀ m ∈ first :: others, m.toBytes.length ≤ limit + 1)
    (hchunks : chunks.flatten = garbage.flatten ++ (first :: others).flatMap (·.toBytes)) :
    ∃ found e,
      Fed (.ofLimit limit) chunks
        (out ++ (d.splitter.interruption first.frame.tag).toList.map .error ++ found) e ∧
      found.map (·.map some) = (first :: others).map (Message.ofFrame? ·.toBytes) ∧
      e.hasPartialFrame = false := by
  have hstart : (Decoder.ofLimit limit).settle = (.ofLimit limit, []) := rfl
  rw [fed_iff hstart] at hgarbage
  obtain ⟨hunread, hsound, hfit, hlimit⟩ := of_settle_ofLimit hgarbage
  rw [← hlimit] at hsize
  obtain ⟨a, ha, harrivals, hlex', hopened⟩ :=
    Splitter.read_message hsound hfit hlex first (hsize first List.mem_cons_self)
  obtain ⟨found, hfound, harrivals', hend⟩ :=
    Splitter.read_messages (hsound.read first.toBytes) (hfit.read hsound first.toBytes) hlex' hopened
      fun m hm => by rw [Splitter.read_limit]; exact hsize m (List.mem_cons_of_mem first hm)
  have hread : (d.feed ((first :: others).flatMap (·.toBytes))).settle =
      (⟨(d.splitter.read ((first :: others).flatMap (·.toBytes))).1.withUnread []⟩,
        (d.splitter.interruption first.frame.tag).toList.map .error ++ a :: found) := by
    rw [feed_settle_withUnread d _ hunread, List.flatMap_cons, Splitter.read_append,
      List.filterMap_append, harrivals, harrivals', List.append_assoc]
    rfl
  refine ⟨a :: found,
    ⟨(d.splitter.read ((first :: others).flatMap (·.toBytes))).1.withUnread []⟩, ?_, ?_, ?_⟩
  · rw [fed_iff hstart, hchunks, ← feed_feed, settle_feed, hgarbage, hread, List.append_assoc]
  · rw [List.map_cons, List.map_cons, hfound, ha]
  · apply hasPartialFrame_of_idle (hsound.read _)
    · rw [List.flatMap_cons, Splitter.read_append]
      exact hend.1
    · rw [List.flatMap_cons, Splitter.read_append]
      exact hend.2

theorem fed_message_behind_open_elements :
    ∃ d found e,
      Fed (.ofLimit 64) [Text.utf8 "</c>", Text.utf8 "<a><b>"] [.error (.malformed "c" .notOpen)] d ∧
      d.splitter.interruption "getProperties" = some (.malformed "a" (.truncated "getProperties")) ∧
      Fed (.ofLimit 64)
        [Text.utf8 "</c><a", Text.utf8 "><b>" ++ (Message.discover ⟨some "1.7", none, none⟩).toBytes]
        ([.error (.malformed "c" .notOpen), .error (.malformed "a" (.truncated "getProperties"))] ++
          found) e ∧
      found.map (·.map some) =
        [Message.ofFrame? (Message.discover ⟨some "1.7", none, none⟩).toBytes] ∧
      e.hasPartialFrame = false := by
  have hgarbage : ((Decoder.ofLimit 64).feed [Text.utf8 "</c>", Text.utf8 "<a><b>"].flatten).settle =
      (((Decoder.ofLimit 64).feed (Text.utf8 "</c><a><b>")).settle.1,
        [.error (.malformed "c" .notOpen)]) := by rfl
  have hfed := (fed_iff rfl).2 hgarbage
  have hlex : ((Decoder.ofLimit 64).feed (Text.utf8 "</c><a><b>")).settle.1.splitter.lex = .text := by
    decide +kernel
  have hinterruption : ((Decoder.ofLimit 64).feed
      (Text.utf8 "</c><a><b>")).settle.1.splitter.interruption "getProperties" =
        some (.malformed "a" (.truncated "getProperties")) := by
    decide +kernel
  have hsize : ∀ m ∈ [Message.discover ⟨some "1.7", none, none⟩], m.toBytes.length ≤ 64 + 1 := by
    decide +kernel
  obtain ⟨found, e, hfed', hfound, hpartial⟩ := fed_messages 64 _
    [Text.utf8 "</c><a", Text.utf8 "><b>" ++ (Message.discover ⟨some "1.7", none, none⟩).toBytes]
    _ _ (.discover ⟨some "1.7", none, none⟩) [] hfed hlex hsize (by decide +kernel)
  refine ⟨_, found, e, hfed, hinterruption, ?_, hfound, hpartial⟩
  have htag : (Message.discover ⟨some "1.7", none, none⟩).frame.tag = "getProperties" := rfl
  rw [htag, hinterruption] at hfed'
  exact hfed'

/-- Where the tag that comes next makes the open frame too large, this is told in place of its being
cut short. -/
theorem fed_frameTooLarge :
    (∃ d, Fed (.ofLimit 20) [Text.utf8 "<a>xxxxxxxxxxxxxxxxx"] [] d ∧ d.splitter.lex = .text ∧
      d.splitter.opened = ["a"] ∧ d.splitter.skipping = false) ∧
    (Message.discover ⟨none, none, none⟩).toBytes.length ≤ 20 + 1 ∧
    ∀ out e,
      Fed (.ofLimit 20)
          [Text.utf8 "<a>xxxxxxxxxxxxxxxxx", (Message.discover ⟨none, none, none⟩).toBytes] out e →
        out = [.error (.frameTooLarge 20), .ok (.discover ⟨none, none, none⟩)] := by
  refine ⟨⟨_, (fed_iff rfl).2 rfl, ?_, ?_, ?_⟩, by decide +kernel, ?_⟩
  · decide +kernel
  · decide +kernel
  · decide +kernel
  · intro out e h
    have hout := congrArg Prod.snd ((fed_iff rfl).1 h)
    exact hout.symm

end Decoder
end Wire
end InstrumentBus
