import InstrumentBus.Control.Frame
import InstrumentBus.Proofs.Control.Record

/-!
A control message is decoded from its encoding, whatever follows, and from nothing shorter.
-/

namespace InstrumentBus.Control

open Text (Bytes)

theorem readLength_writeLength {n : Nat} (h : n ≤ maxLength) : readLength (writeLength n) = n := by
  simp only [maxLength] at h
  simp only [writeLength, readLength, List.foldl_cons, List.foldl_nil, Nat.toUInt8,
    UInt8.toNat_ofNat']
  omega

theorem checkLength_of_le {n : Nat} (hpos : 0 < n) (h : n ≤ maxSize) : checkLength n = .ok n := by
  rw [checkLength, if_neg (Nat.not_lt.2 h), if_neg (Nat.ne_of_gt hpos)]

section

variable {α : Type} [Payload α] {bs text : Bytes} {n : Nat}

theorem decode_of_length_lt (h : bs.length < 4) :
    decode (α := α) bs = .error (.incomplete 4 bs.length) := by
  rw [decode, if_pos h]

theorem decode_of_checkLength_error (h : 4 ≤ bs.length) {err : WireError}
    (hcheck : checkLength (readLength (bs.take 4)) = .error err) :
    decode (α := α) bs = .error err := by
  rw [decode, if_neg (Nat.not_lt.2 h), hcheck]
  rfl

theorem decode_of_checkLength_ok (h : 4 ≤ bs.length)
    (hcheck : checkLength (readLength (bs.take 4)) = .ok n) :
    decode (α := α) bs =
      if (bs.drop 4).length < n then .error (.incomplete (4 + n) bs.length)
      else readText ((bs.drop 4).take n) := by
  rw [decode, if_neg (Nat.not_lt.2 h), hcheck]
  rfl

theorem exists_readText_of_decode {e : Envelope α} (h : decode bs = .ok e) :
    ∃ n, readText ((bs.drop 4).take n) = .ok e := by
  by_cases hshort : bs.length < 4
  · rw [decode_of_length_lt hshort] at h
    cases h
  · have hlong := Nat.le_of_not_lt hshort
    cases hcheck : checkLength (readLength (bs.take 4)) with
    | error err =>
      rw [decode_of_checkLength_error hlong hcheck] at h
      cases h
    | ok n =>
      rw [decode_of_checkLength_ok hlong hcheck] at h
      split at h
      · cases h
      · exact ⟨n, h⟩

theorem decode_writeLength_append (hpos : 0 < n) (h : n ≤ maxSize) (bs : Bytes) :
    decode (α := α) (writeLength n ++ bs) =
      if bs.length < n then .error (.incomplete (4 + n) (writeLength n ++ bs).length)
      else readText (bs.take n) := by
  have hread := readLength_writeLength (Nat.le_trans h (by decide : maxSize ≤ maxLength))
  have hcheck : checkLength (readLength ((writeLength n ++ bs).take 4)) = .ok n :=
    (congrArg checkLength hread).trans (checkLength_of_le hpos h)
  exact decode_of_checkLength_ok (by simp [writeLength]) hcheck

theorem decode_message (hpos : 0 < text.length) (h : text.length ≤ maxSize) (rest : Bytes) :
    decode (α := α) (writeLength text.length ++ text ++ rest) = readText text := by
  have hlength : ¬(text ++ rest).length < text.length := by
    rw [List.length_append]
    omega
  rw [List.append_assoc, decode_writeLength_append hpos h, if_neg hlength, List.take_left']
  rfl

theorem decode_of_prefix (hpos : 0 < text.length) (h : text.length ≤ maxSize) {front : Bytes}
    (hfront : front <+: writeLength text.length ++ text)
    (hne : front ≠ writeLength text.length ++ text) :
    ∃ needed, decode (α := α) front = .error (.incomplete needed front.length) := by
  by_cases hshort : front.length < 4
  · exact ⟨4, decode_of_length_lt hshort⟩
  · obtain ⟨part, rfl⟩ : writeLength text.length <+: front :=
      List.prefix_of_prefix_length_le (List.prefix_append _ _) hfront (Nat.le_of_not_lt hshort)
    have hpart : part <+: text := (List.prefix_append_right_inj _).1 hfront
    have hlength : part.length < text.length := by
      refine Nat.lt_of_le_of_ne hpart.length_le fun heq => hne ?_
      rw [hpart.eq_of_length heq]
    refine ⟨4 + text.length, ?_⟩
    rw [decode_writeLength_append hpos h, if_pos hlength]

end

/-- The JSON value of a payload says all that is in it. -/
structure Payload.Told {α : Type} [Payload α] (a : α) : Prop where
  kept : (Payload.toJson a).Kept Envelope.maxLevels
  ofJson? : Payload.ofJson? (Payload.toJson a) = some a

theorem Request.told (r : Request) : Payload.Told r := ⟨r.kept_toJson, r.ofJson?_toJson⟩

theorem Response.told {r : Response} (h : r.IsProper) : Payload.Told r :=
  ⟨r.kept_toJson, ofJson?_toJson h⟩

namespace Envelope

variable {α : Type} [Payload α] {e : Envelope α}

def text (e : Envelope α) : Bytes := Text.utf8 e.toJson.write

theorem length_text_pos (e : Envelope α) : 0 < e.text.length := by
  obtain ⟨b, tail, hcons, -⟩ := Json.encode_writeChars_eq_cons e.toJson
  rw [text, Json.write, Text.utf8_ofList, hcons]
  exact Nat.succ_pos _

theorem ofJson?_toJson (h : Payload.Told e.payload) : ofJson? e.toJson = some e := by
  have hrecord : e.toJson.record? ["protocol_version", "request_id", "payload"] =
      some [some (.string e.version), some (.string e.requestId), some (Payload.toJson e.payload)] :=
    Json.record?_object
      [("protocol_version", .string e.version), ("request_id", .string e.requestId),
        ("payload", Payload.toJson e.payload)]
      [] (show ["protocol_version", "request_id", "payload"].Nodup by decide)
  simp [ofJson?, hrecord, h.kept.fits, h.ofJson?]

theorem readText_text (h : Payload.Told e.payload) : readText e.text = .ok e := by
  have hkept : e.toJson.Kept (maxLevels + 1) := by
    refine .object ?_
    simp [Json.Kept.string, h.kept]
  rw [readText, text, hkept.read?_write, Option.bind_some, ofJson?_toJson h]

theorem encode_eq (e : Envelope α) :
    encode e =
      if min e.text.length maxLength ≤ maxSize then
        .ok (writeLength (min e.text.length maxLength) ++ e.text)
      else .error (.messageTooLarge (min e.text.length maxLength) maxSize) := rfl

theorem encode_of_le (h : e.text.length ≤ maxSize) :
    encode e = .ok (writeLength e.text.length ++ e.text) := by
  have hmin : min e.text.length maxLength = e.text.length :=
    Nat.min_eq_left (Nat.le_trans h (by decide : maxSize ≤ maxLength))
  rw [encode_eq, hmin, if_pos h]

theorem encode_of_lt (h : maxSize < e.text.length) :
    encode e = .error (.messageTooLarge (min e.text.length maxLength) maxSize) := by
  rw [encode_eq, if_neg (Nat.not_le.2 (Nat.lt_min.2 ⟨h, by decide⟩))]

end Envelope

/-- What sender and receiver can rely on for a message: in front of anything it is decoded from its
bytes, but not from a part of them that lacks the end, and it is sent unless its text is too long. -/
structure Framed {α : Type} [Payload α] (e : Envelope α) : Prop where
  sent : e.text.length ≤ maxSize → ∃ bs, encode e = .ok bs ∧ (∀ rest, decode (bs ++ rest) = .ok e) ∧
    ∀ front, front <+: bs → front ≠ bs →
      ∃ needed, decode (α := α) front = .error (.incomplete needed front.length)
  refused : maxSize < e.text.length →
    encode e = .error (.messageTooLarge (min e.text.length maxLength) maxSize)

theorem Payload.Told.framed {α : Type} [Payload α] {e : Envelope α} (h : Payload.Told e.payload) :
    Framed e where
  sent hsize := by
    refine ⟨_, Envelope.encode_of_le hsize, fun rest => ?_, fun front => ?_⟩
    · rw [decode_message e.length_text_pos hsize, Envelope.readText_text h]
    · exact decode_of_prefix e.length_text_pos hsize
  refused := Envelope.encode_of_lt

/-- Every request, and every response that can be told, reaches a receiver that waits for all of its
bytes. -/
theorem framed_of_isProper :
    (∀ e : Envelope Request, Framed e) ∧ ∀ e : Envelope Response, e.payload.IsProper → Framed e :=
  ⟨fun e => e.payload.told.framed, fun _ h => (Response.told h).framed⟩

theorem framed_at_leap_second :
    let answer : Envelope Response :=
      .ofPayload "status-1" (.status ⟨5, ⟨1483228799, 1500000000⟩, 7624, 1, 2, 2⟩)
    answer.payload.IsProper ∧ Framed answer := by
  intro answer
  have hproper : answer.payload.IsProper := by
    rintro info ⟨⟩
    exact ⟨by decide, .inr ⟨by decide, by decide⟩⟩
  exact ⟨hproper, framed_of_isProper.2 answer hproper⟩

theorem exists_ofJson?_of_readText {α : Type} [Payload α] {text : Bytes} {e : Envelope α}
    (h : readText text = .ok e) : ∃ j, Payload.ofJson? j = some e.payload := by
  unfold readText at h
  split at h
  · rename_i heq
    cases h
    obtain ⟨j, -, hj⟩ := Option.bind_eq_some_iff.1 heq
    simp only [Envelope.ofJson?, Option.bind_eq_bind, Option.bind_eq_some_iff] at hj
    obtain ⟨members, -, hmembers⟩ := hj
    split at hmembers
    · split at hmembers
      · obtain ⟨_, -, _, -, payload, hpayload, ⟨⟩⟩ := by
          simpa only [Option.bind_eq_some_iff] using hmembers
        exact ⟨_, hpayload⟩
      · cases hmembers
    · cases hmembers
  · cases h

theorem Response.isProper_of_decode {bs : Bytes} {e : Envelope Response} (h : decode bs = .ok e) :
    e.payload.IsProper := by
  obtain ⟨n, htext⟩ := exists_readText_of_decode h
  obtain ⟨j, hj⟩ := exists_ofJson?_of_readText htext
  exact Response.isProper_of_ofJson? hj

theorem Response.isProper_of_framed {e : Envelope Response} (h : Framed e)
    (hsize : e.text.length ≤ maxSize) : e.payload.IsProper := by
  obtain ⟨bs, -, hdecode, -⟩ := h.sent hsize
  exact isProper_of_decode (hdecode [])

end InstrumentBus.Control
