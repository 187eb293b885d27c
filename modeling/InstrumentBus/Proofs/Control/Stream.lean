import InstrumentBus.Proofs.Control.Frame

/-!
Reading control messages from a connection gives what decoding its bytes gives, however they are cut
into chunks.
-/

namespace InstrumentBus.Wire

open Text (Bytes)

theorem takeExactly?_of_le {n : Nat} {chunks : List Bytes} (h : n ≤ chunks.flatten.length) :
    ∃ rest, takeExactly? n chunks = some (chunks.flatten.take n, rest) ∧
      rest.flatten = chunks.flatten.drop n := by
  induction chunks generalizing n with
  | nil =>
    obtain rfl : n = 0 := Nat.le_zero.1 h
    exact ⟨[], rfl, rfl⟩
  | cons chunk chunks ih =>
    rw [List.flatten_cons, List.length_append] at h
    rw [List.flatten_cons, List.take_append, List.drop_append, takeExactly?]
    split
    · rename_i hle
      exact ⟨chunk.drop n :: chunks, by simp [Nat.sub_eq_zero_of_le hle],
        by simp [Nat.sub_eq_zero_of_le hle]⟩
    · rename_i hlt
      obtain ⟨rest, htake, hrest⟩ := ih (n := n - chunk.length) (by omega)
      have hchunk : chunk.length ≤ n := by omega
      exact ⟨rest, by simp [htake, List.take_of_length_le hchunk],
        by simp [hrest, List.drop_of_length_le hchunk]⟩

theorem takeExactly?_of_lt {n : Nat} {chunks : List Bytes} (h : chunks.flatten.length < n) :
    takeExactly? n chunks = none := by
  induction chunks generalizing n with
  | nil => exact if_neg (Nat.ne_of_gt h)
  | cons chunk chunks ih =>
    rw [List.flatten_cons, List.length_append] at h
    rw [takeExactly?, if_neg (by omega), ih (by omega)]
    rfl

end InstrumentBus.Wire

namespace InstrumentBus.Control

open Text (Bytes)

variable {α : Type} [Payload α]

section

variable {chunks : List Bytes} {n : Nat}

theorem read_of_length_lt (h : chunks.flatten.length < 4) :
    read (α := α) ⟨chunks, .closed⟩ = .ok none := by
  rw [read, Wire.takeExactly?_of_lt h]

theorem read_of_checkLength_error (h : 4 ≤ chunks.flatten.length) {err : WireError}
    (hcheck : checkLength (readLength (chunks.flatten.take 4)) = .error err) :
    read (α := α) ⟨chunks, .closed⟩ = .error err := by
  obtain ⟨rest, htake, -⟩ := Wire.takeExactly?_of_le h
  simp only [read, htake, hcheck]
  rfl

theorem read_of_lt (h : 4 ≤ chunks.flatten.length)
    (hcheck : checkLength (readLength (chunks.flatten.take 4)) = .ok n)
    (hlt : (chunks.flatten.drop 4).length < n) :
    read (α := α) ⟨chunks, .closed⟩ = .error (.connection "unexpected end of stream") := by
  obtain ⟨rest, htake, hrest⟩ := Wire.takeExactly?_of_le h
  have htext : Wire.takeExactly? n rest = none := Wire.takeExactly?_of_lt (hrest ▸ hlt)
  simp only [read, htake, hcheck, bind, Except.bind, htext]
  rfl

theorem read_of_le (h : 4 ≤ chunks.flatten.length)
    (hcheck : checkLength (readLength (chunks.flatten.take 4)) = .ok n)
    (hle : n ≤ (chunks.flatten.drop 4).length) :
    ∃ rest, rest.flatten = chunks.flatten.drop (4 + n) ∧
      read (α := α) ⟨chunks, .closed⟩ =
        (readText ((chunks.flatten.drop 4).take n)).map fun e => some (e, ⟨rest, .closed⟩) := by
  obtain ⟨chunks', htake, hrest⟩ := Wire.takeExactly?_of_le h
  rw [← hrest] at hle
  obtain ⟨rest, htext, hrest'⟩ := Wire.takeExactly?_of_le hle
  refine ⟨rest, by rw [hrest', hrest, List.drop_drop], ?_⟩
  rw [hrest] at htext
  simp only [read, htake, hcheck, bind, Except.bind, htext]
  cases readText (α := α) ((chunks.flatten.drop 4).take n) <;> rfl

end

/-- Decoding again and again what is not consumed yet: the messages, and how that ends. A message
that is incomplete ends it, as the end of the stream if not even its length is complete. -/
inductive Decodes : Bytes → List (Envelope α) → Except WireError Unit → Prop
  | message {bs : Bytes} {e : Envelope α} {es : List (Envelope α)} {last : Except WireError Unit}
    (h : decode bs = .ok e) (rest : Decodes (bs.drop (4 + readLength (bs.take 4))) es last) :
    Decodes bs (e :: es) last
  | fault {bs : Bytes} {err : WireError} (h : decode (α := α) bs = .error err)
    (whole : ∀ needed received, err ≠ .incomplete needed received) : Decodes bs [] (.error err)
  | cutLength {bs : Bytes} {needed received : Nat}
    (h : decode (α := α) bs = .error (.incomplete needed received)) (short : bs.length < 4) :
    Decodes bs [] (.ok ())
  | cutText {bs : Bytes} {needed received : Nat}
    (h : decode (α := α) bs = .error (.incomplete needed received)) (long : 4 ≤ bs.length) :
    Decodes bs [] (.error (.connection "unexpected end of stream"))

theorem Decodes.unique {bs : Bytes} {es es' : List (Envelope α)} {last last' : Except WireError Unit}
    (h : Decodes bs es last) (h' : Decodes bs es' last') : es = es' ∧ last = last' := by
  induction h generalizing es' last' with
  | message h _ ih =>
    cases h' with
    | message h' rest' =>
      obtain rfl := Except.ok.inj (h.symm.trans h')
      obtain ⟨rfl, rfl⟩ := ih rest'
      exact ⟨rfl, rfl⟩
    | fault h' => cases h.symm.trans h'
    | cutLength h' => cases h.symm.trans h'
    | cutText h' => cases h.symm.trans h'
  | fault h whole =>
    cases h' with
    | message h' => cases h.symm.trans h'
    | fault h' =>
      obtain rfl := Except.error.inj (h.symm.trans h')
      exact ⟨rfl, rfl⟩
    | cutLength h' => exact absurd (Except.error.inj (h.symm.trans h')) (whole _ _)
    | cutText h' => exact absurd (Except.error.inj (h.symm.trans h')) (whole _ _)
  | cutLength h short =>
    cases h' with
    | message h' => cases h.symm.trans h'
    | fault h' whole' => exact absurd (Except.error.inj (h'.symm.trans h)) (whole' _ _)
    | cutLength => exact ⟨rfl, rfl⟩
    | cutText _ long' => omega
  | cutText h long =>
    cases h' with
    | message h' => cases h.symm.trans h'
    | fault h' whole' => exact absurd (Except.error.inj (h'.symm.trans h)) (whole' _ _)
    | cutLength _ short' => omega
    | cutText => exact ⟨rfl, rfl⟩

theorem eq_of_checkLength {m n : Nat} (h : checkLength m = .ok n) : n = m := by
  unfold checkLength at h
  split at h
  · cases h
  · split at h <;> cases h
    rfl

theorem ne_incomplete_of_checkLength {n : Nat} {err : WireError} (h : checkLength n = .error err) :
    ∀ needed received, err ≠ .incomplete needed received := by
  rintro needed received rfl
  unfold checkLength at h
  split at h
  · cases h
  · split at h <;> cases h

theorem ne_incomplete_of_readText {text : Bytes} {err : WireError}
    (h : readText (α := α) text = .error err) :
    ∀ needed received, err ≠ .incomplete needed received := by
  rintro needed received rfl
  unfold readText at h
  split at h <;> cases h

theorem decodes_readAllOf {fuel : Nat} {chunks : List Bytes} (h : chunks.flatten.length < fuel) :
    Decodes (α := α) chunks.flatten (readAllOf fuel ⟨chunks, .closed⟩).1
      (readAllOf (α := α) fuel ⟨chunks, .closed⟩).2 := by
  induction fuel generalizing chunks with
  | zero => exact absurd h (Nat.not_lt_zero _)
  | succ fuel ih =>
    rw [readAllOf]
    by_cases hshort : chunks.flatten.length < 4
    · rw [read_of_length_lt hshort]
      exact .cutLength (decode_of_length_lt hshort) hshort
    have hlong := Nat.le_of_not_lt hshort
    cases hcheck : checkLength (readLength (chunks.flatten.take 4)) with
    | error err =>
      rw [read_of_checkLength_error hlong hcheck]
      exact .fault (decode_of_checkLength_error hlong hcheck) (ne_incomplete_of_checkLength hcheck)
    | ok n =>
      have hdecode := decode_of_checkLength_ok (α := α) hlong hcheck
      by_cases hlt : (chunks.flatten.drop 4).length < n
      · rw [read_of_lt hlong hcheck hlt]
        rw [if_pos hlt] at hdecode
        exact .cutText hdecode hlong
      rw [if_neg hlt] at hdecode
      obtain ⟨rest, hrest, hread⟩ := read_of_le (α := α) hlong hcheck (Nat.le_of_not_lt hlt)
      rw [hread]
      cases htext : readText (α := α) ((chunks.flatten.drop 4).take n) with
      | error err => exact .fault (hdecode.trans htext) (ne_incomplete_of_readText htext)
      | ok e =>
        refine .message (hdecode.trans htext) ?_
        rw [← eq_of_checkLength hcheck, ← hrest]
        -- a message has at least the bytes of its length
        refine ih ?_
        rw [hrest, List.length_drop]
        omega

/-- The calls that read messages from a connection up to its end or the first error give, for each
cut of the bytes into chunks, what decoding the bytes gives. -/
theorem readAll_eq_iff (chunks : List Bytes) (es : List (Envelope α)) (last : Except WireError Unit) :
    readAll ⟨chunks, .closed⟩ = (es, last) ↔ Decodes chunks.flatten es last := by
  have hdecodes := decodes_readAllOf (α := α) (Nat.lt_succ_self chunks.flatten.length)
  constructor
  · intro h
    rw [readAll] at h
    rwa [h] at hdecodes
  · intro h
    obtain ⟨hes, hlast⟩ := hdecodes.unique h
    exact Prod.ext hes hlast

end InstrumentBus.Control
