import InstrumentBus.Proofs.Message.Fault
import InstrumentBus.Proofs.Wire.Reading
import InstrumentBus.Wire.Stream

/-!
The arrivals of a stream do not depend on how it is cut into chunks, nor on whether a decoder is
fed by hand or by a reader.
-/

namespace InstrumentBus.Wire

open Text (Bytes)

namespace Splitter

variable (s : Splitter) (bs : Bytes)

theorem settle_of_unread_nil (h : s.unread = []) : s.settle = (s, []) := by
  cases s
  cases h
  rfl

theorem settle_extend :
    (s.extend bs).settle =
      ((s.settle.1.extend bs).settle.1, s.settle.2 ++ (s.settle.1.extend bs).settle.2) := by
  change (s.withUnread (s.unread ++ bs)).settle =
    (((s.read s.unread).1.withUnread bs).settle.1,
      (s.read s.unread).2 ++ ((s.read s.unread).1.withUnread bs).settle.2)
  rw [settle_withUnread, settle_withUnread, read_append]
  rfl

end Splitter

namespace Decoder

variable (d : Decoder) (bs : Bytes)

def settle (d : Decoder) : Decoder × List Arrival :=
  (⟨d.splitter.settle.1⟩, d.splitter.settle.2.filterMap Event.arrival?)

theorem settle_feed :
    (d.feed bs).settle =
      ((d.settle.1.feed bs).settle.1, d.settle.2 ++ (d.settle.1.feed bs).settle.2) := by
  simp only [settle, feed]
  rw [Splitter.settle_extend, List.filterMap_append]

theorem settle_settle : d.settle.1.settle = (d.settle.1, []) := by
  simp only [settle, Splitter.settle_of_unread_nil d.splitter.settle.1 rfl, List.filterMap_nil]

theorem drain_eq_settle : d.drain = d.settle := by
  simp only [drain, Splitter.drain_eq_settle]
  rfl

theorem feed_settle_withUnread (h : d.splitter.unread = []) :
    (d.feed bs).settle = (⟨(d.splitter.read bs).1.withUnread []⟩,
      (d.splitter.read bs).2.filterMap Event.arrival?) := by
  have hextend : d.splitter.extend bs = d.splitter.withUnread bs := by
    simp only [Splitter.extend, h]
    rfl
  simp only [settle, feed, hextend, Splitter.settle_withUnread]
  rfl

def settleAfter : Decoder × Option Arrival → Decoder × List Arrival
  | (d, none) => (d, [])
  | (d, some a) => (d.settle.1, a :: d.settle.2)

theorem settleAfter_nextFrom {s : Splitter} {fuel : Nat} (h : s.settle.2.length < fuel) :
    settleAfter (⟨(nextFrom fuel s).1⟩, (nextFrom fuel s).2) = settle ⟨s⟩ := by
  induction fuel generalizing s with
  | zero => exact absurd h (Nat.not_lt_zero _)
  | succ fuel ih =>
    simp only [settle]
    rw [← s.settleAfter_next?] at h ⊢
    simp only [nextFrom]
    cases hn : s.next? with
    | mk t event =>
      rw [hn] at h
      cases event with
      | none => rfl
      | some event =>
        have ht : t.settle.2.length < fuel := Nat.lt_of_succ_lt_succ h
        cases ha : event.arrival? with
        | none => simp only [ha, ih ht, Splitter.settleAfter, List.filterMap_cons_none, settle]
        | some a =>
          simp only [ha, Splitter.settleAfter, List.filterMap_cons_some ha, settleAfter, settle]

theorem settleAfter_next? : settleAfter d.next? = d.settle :=
  settleAfter_nextFrom d.splitter.length_settle_lt

/-- Asked for arrivals until there are none, a decoder gives these. -/
inductive Drained : Decoder → List Arrival → Decoder → Prop
  | done {d e : Decoder} : d.next? = (e, none) → Drained d [] e
  | more {d e f : Decoder} {a : Arrival} {out : List Arrival} : d.next? = (e, some a) →
    Drained e out f → Drained d (a :: out) f

theorem drained_iff {out : List Arrival} {e : Decoder} : Drained d out e ↔ d.settle = (e, out) := by
  induction out generalizing d with
  | nil =>
    rw [← d.settleAfter_next?]
    constructor
    · intro
      | .done h => rw [h, settleAfter]
    · intro h
      cases hn : d.next? with
      | mk f found =>
        rw [hn] at h
        cases found with
        | none =>
          cases h
          exact .done hn
        | some a => cases h
  | cons a out ih =>
    rw [← d.settleAfter_next?]
    constructor
    · intro
      | .more h hout => rw [h, settleAfter, (ih _).1 hout]
    · intro h
      cases hn : d.next? with
      | mk f found =>
        rw [hn] at h
        cases found with
        | none => cases h
        | some b =>
          cases h
          exact .more hn ((ih f).2 rfl)

/-- Chunks are fed one after another, and the decoder is drained after each. -/
inductive Fed : Decoder → List Bytes → List Arrival → Decoder → Prop
  | nil {d : Decoder} : Fed d [] [] d
  | cons {d e f : Decoder} {chunk : Bytes} {chunks : List Bytes} {out more : List Arrival} :
    Drained (d.feed chunk) out e → Fed e chunks more f → Fed d (chunk :: chunks) (out ++ more) f

@[simp] theorem feed_nil : d.feed [] = d := by
  simp only [feed, Splitter.extend, List.append_nil]

@[simp] theorem feed_feed (cs : Bytes) : (d.feed bs).feed cs = d.feed (bs ++ cs) := by
  simp only [feed, Splitter.extend, List.append_assoc]

theorem fed_iff {d : Decoder} (hd : d.settle = (d, [])) {chunks : List Bytes}
    {out : List Arrival} {e : Decoder} :
    Fed d chunks out e ↔ (d.feed chunks.flatten).settle = (e, out) := by
  induction chunks generalizing d out with
  | nil =>
    simp only [List.flatten_nil, feed_nil, hd, Prod.mk.injEq]
    constructor
    · intro
      | .nil => exact ⟨rfl, rfl⟩
    · intro ⟨he, hout⟩
      cases he
      cases hout
      exact .nil
  | cons chunk chunks ih =>
    have hrest := (d.feed chunk).settle_feed chunks.flatten
    rw [feed_feed] at hrest
    rw [List.flatten_cons, hrest]
    have hsettled := (d.feed chunk).settle_settle
    constructor
    · intro
      | .cons hchunk hchunks =>
        rw [drained_iff] at hchunk
        rw [hchunk] at hsettled ⊢
        rw [(ih hsettled).1 hchunks]
    · intro h
      cases h
      exact .cons ((drained_iff _).2 rfl) ((ih hsettled).2 rfl)

theorem fed_ofLimit_iff {limit : Nat} {chunks : List Bytes} {out : List Arrival} {e : Decoder} :
    Fed (.ofLimit limit) chunks out e ↔
      e = ⟨((Splitter.ofLimit limit).read chunks.flatten).1.withUnread []⟩ ∧
        out = ((Splitter.ofLimit limit).read chunks.flatten).2.filterMap Event.arrival? := by
  rw [fed_iff rfl, feed_settle_withUnread _ _ rfl, Prod.mk.injEq, eq_comm, @eq_comm _ _ out]
  rfl

end Decoder

namespace Reader

def arrivals (r : Reader) : List Arrival := (r.decoder.feed r.source.chunks.flatten).settle.2

def ending (r : Reader) : Reading := if r.source.ending = .closed then .finished else .failed

inductive Gives : Reader → List Arrival → Reading → Prop
  | last {r t : Reader} {reading : Reading} : r.next = (t, reading) →
    (∀ a, reading ≠ .arrival a) → Gives r [] reading
  | more {r t : Reader} {a : Arrival} {out : List Arrival} {reading : Reading} :
    r.next = (t, .arrival a) → Gives t out reading → Gives r (a :: out) reading

theorem nextOf_cases (ending : Ending) (chunks : List Bytes) (d : Decoder) :
    (∃ t a, nextOf ending chunks d = (t, .arrival a) ∧ t.source.ending = ending ∧
      (d.feed chunks.flatten).settle.2 = a :: t.arrivals) ∨
    (∃ t, nextOf ending chunks d = (t, t.ending) ∧ t.source.ending = ending ∧
      (d.feed chunks.flatten).settle.2 = []) := by
  induction chunks generalizing d with
  | nil =>
    rw [nextOf]
    have hd := d.settleAfter_next?
    cases hn : d.next? with
    | mk e found =>
      rw [hn] at hd
      rw [List.flatten_nil, Decoder.feed_nil, ← hd]
      cases found with
      | none => exact .inr ⟨_, rfl, rfl, rfl⟩
      | some a =>
        refine .inl ⟨_, a, rfl, rfl, ?_⟩
        simp [Decoder.settleAfter, arrivals]
  | cons chunk chunks ih =>
    rw [nextOf]
    have hd := d.settleAfter_next?
    cases hn : d.next? with
    | mk e found =>
      rw [hn] at hd
      cases found with
      | none =>
        have he : e.settle = (e, []) := by
          have := d.settle_settle
          rwa [← hd] at this
        have := ih (e.feed chunk)
        rw [Decoder.feed_feed, ← List.flatten_cons] at this
        rw [d.settle_feed, ← hd]
        exact this
      | some a =>
        refine .inl ⟨_, a, rfl, rfl, ?_⟩
        rw [d.settle_feed, ← hd, arrivals, e.settle_feed]
        rfl

theorem ending_ne_arrival (r : Reader) (a : Arrival) : r.ending ≠ .arrival a := by
  simp only [Reader.ending]
  split <;> simp

theorem gives_iff {r : Reader} {out : List Arrival} {reading : Reading} :
    r.Gives out reading ↔ r.arrivals = out ∧ reading = r.ending := by
  induction out generalizing r with
  | nil =>
    obtain ⟨t, a, hn, -, ha⟩ | ⟨t, hn, ht, ha⟩ := nextOf_cases r.source.ending r.source.chunks r.decoder
    · have hmore : r.arrivals = a :: t.arrivals := ha
      rw [hmore]
      constructor
      · intro
        | .last h hlast =>
          cases hn.symm.trans h
          exact absurd rfl (hlast a)
      · intro h
        cases h.1
    · have hnone : r.arrivals = [] := ha
      have hending : t.ending = r.ending := by simp only [ending, ht]
      rw [hnone, ← hending]
      constructor
      · intro
        | .last h hlast =>
          cases hn.symm.trans h
          exact ⟨rfl, rfl⟩
      · intro h
        cases h.2
        exact .last hn t.ending_ne_arrival
  | cons a out ih =>
    obtain ⟨t, b, hn, ht, hb⟩ | ⟨t, hn, -, hnone⟩ :=
      nextOf_cases r.source.ending r.source.chunks r.decoder
    · have hmore : r.arrivals = b :: t.arrivals := hb
      have hending : t.ending = r.ending := by simp only [ending, ht]
      rw [hmore, ← hending]
      constructor
      · intro
        | .more h hout =>
          cases hn.symm.trans h
          obtain ⟨ha, hr⟩ := ih.1 hout
          exact ⟨by rw [ha], hr⟩
      · intro ⟨h, hr⟩
        cases h
        exact .more hn (ih.2 ⟨rfl, hr⟩)
    · have hnone : r.arrivals = [] := hnone
      rw [hnone]
      constructor
      · intro
        | .more h _ =>
          have := (Prod.mk.inj (hn.symm.trans h)).2
          exact absurd this (t.ending_ne_arrival a)
      · intro h
        cases h.1

end Reader

def Event.IsMild : Event → Prop
  | .frame .. => True
  | .fault e => e.isRecoverable = true

theorem Event.isRecoverable_of_arrival? {event : Event} (h : event.IsMild) {e : WireError}
    (he : event.arrival? = some (.error e)) : e.isRecoverable = true := by
  cases event with
  | fault f =>
    cases he
    exact h
  | frame start stop bs =>
    simp only [Event.arrival?] at he
    cases hm : Message.ofFrame? bs with
    | ok m =>
      rw [hm] at he
      cases m <;> cases he
    | error f =>
      rw [hm] at he
      cases he
      obtain ⟨tag, fault, hf⟩ := Message.faulty_ofFrame? bs _ hm
      rw [hf]
      rfl

namespace Splitter

variable (s : Splitter)

theorem mild_openElement (name : String) : ∀ e ∈ (s.openElement name).2, e.IsMild := by
  intro e he
  obtain ⟨-, -, outer, -, rfl⟩ := openElement_eq_some_iff.1 he
  rfl

theorem mild_lexByte (here : Nat) (b : UInt8) : ∀ e ∈ (s.lexByte here b).2, e.IsMild := by
  have hlexed := s.lexed_lexByte here b
  generalize s.lexByte here b = r at hlexed ⊢
  cases hlexed with
  | strays | closesNone => simp [stray, Event.IsMild, WireError.isRecoverable]
  | cuts _ _ htold => exact htold ▸ s.mild_openElement _
  | finishes =>
    simp only [finishFrame]
    split <;> simp [Event.IsMild]
  | breaks =>
    split <;> simp [Event.IsMild, WireError.isRecoverable]
  | _ => simp

theorem mild_checkSize : ∀ e ∈ s.checkSize.2, e.IsMild := by
  simp only [checkSize]
  split
  · split <;> simp [Event.IsMild, WireError.isRecoverable]
  · simp

theorem mild_step (b : UInt8) : ∀ e ∈ (s.step b).2, e.IsMild := by
  have hlex : ∀ e ∈ (s.lexStep b).2, e.IsMild := (s.advance b).mild_lexByte s.position b
  rw [step_eq]
  cases h : s.lexStep b with
  | mk next event =>
    rw [h] at hlex
    cases event with
    | some event => exact hlex
    | none => exact next.mild_checkSize

theorem mild_readByte (b : UInt8) : ∀ e ∈ (s.readByte b).2, e.IsMild := by
  have hstep := s.mild_step b
  simp only [readByte]
  cases hs : s.step b with
  | mk t event =>
    rw [hs] at hstep
    cases event with
    | none => simp
    | some event =>
      have hevent : event.IsMild := hstep event rfl
      dsimp only
      split
      · simpa [hevent] using t.mild_step b
      · simpa using hevent

theorem mild_read (bs : Bytes) : ∀ e ∈ (s.read bs).2, e.IsMild := by
  induction bs generalizing s with
  | nil => simp
  | cons b bs ih =>
    intro e he
    simp only [read, List.mem_append] at he
    cases he with
    | inl he => exact s.mild_readByte b e he
    | inr he => exact ih _ e he

end Splitter

theorem Decoder.isRecoverable_of_settle (d : Decoder) {e : WireError}
    (h : .error e ∈ d.settle.2) : e.isRecoverable = true := by
  obtain ⟨event, hevent, he⟩ := List.mem_filterMap.1 h
  exact Event.isRecoverable_of_arrival? (d.splitter.mild_read _ event hevent) he

/-- However a stream is cut into chunks, a decoder gives the same arrivals as for all of it at once
and ends in the same state, and so does a reader, which then finds the end of the stream. No error
ends a stream. -/
theorem arrivals_of_chunks (limit : Nat) (chunks : List Bytes) :
    ∃ arrivals d,
      (∀ out e, Decoder.Fed (.ofLimit limit) chunks out e ↔ out = arrivals ∧ e = d) ∧
      (∀ out e, Decoder.Fed (.ofLimit limit) [chunks.flatten] out e ↔ out = arrivals ∧ e = d) ∧
      (∀ out reading, Reader.Gives ⟨⟨chunks, .closed⟩, .ofLimit limit⟩ out reading ↔
        out = arrivals ∧ reading = .finished) ∧
      ∀ e, .error e ∈ arrivals → e.isRecoverable = true := by
  have hstart : (Decoder.ofLimit limit).settle = (.ofLimit limit, []) := rfl
  refine ⟨((Decoder.ofLimit limit).feed chunks.flatten).settle.2,
    ((Decoder.ofLimit limit).feed chunks.flatten).settle.1, ?_, ?_, ?_, ?_⟩
  · intro out e
    rw [Decoder.fed_iff hstart, Prod.ext_iff, and_comm]
    simp only [eq_comm]
  · intro out e
    rw [Decoder.fed_iff hstart, List.flatten_singleton, Prod.ext_iff, and_comm]
    simp only [eq_comm]
  · intro out reading
    rw [Reader.gives_iff, eq_comm]
    rfl
  · intro e he
    exact Decoder.isRecoverable_of_settle _ he

end InstrumentBus.Wire
