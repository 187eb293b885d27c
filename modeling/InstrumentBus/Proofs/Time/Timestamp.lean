import InstrumentBus.Proofs.Text.Blank
import InstrumentBus.Proofs.Time.Zoned

/-!
Timestamps tell instants to the millisecond. What was written is read as the instant it tells, and
what was read tells the same instant once it is written.
-/

namespace InstrumentBus.Time

namespace Instant

def floorMillis (t : Instant) : Instant :=
  { t with nanos := t.nanos / 1000000 * 1000000 }

theorem floorMillis_eq_self_iff {t : Instant} : t.floorMillis = t ↔ t.nanos % 1000000 = 0 := by
  cases t
  simp only [floorMillis, mk.injEq, true_and]
  omega

theorem clock_floorMillis (t : Instant) :
    t.floorMillis.clock = { t.clock with nanos := t.clock.nanos / 1000000 * 1000000 } := by
  simp only [clock, floorMillis, nanosPerSecond, Clock.mk.injEq, true_and]
  omega

theorem IsProper.floorMillis {t : Instant} (h : t.IsProper) : t.floorMillis.IsProper := by
  obtain ⟨hrange, hnanos⟩ := h
  refine ⟨hrange, ?_⟩
  simp only [Instant.floorMillis, nanosPerSecond] at hnanos ⊢
  omega

end Instant

theorem forall_mem_writeTimestamp {p : Char → Prop} (hdigit : ∀ c, c.isDigit = true → p c)
    (hmark : p '-' ∧ p '+' ∧ p ':' ∧ p '.' ∧ p 'T') (t : Instant) :
    ∀ c ∈ (writeTimestamp t).toList, p c := by
  have hpadded (width n : Nat) : ∀ c ∈ padded width n, p c :=
    fun c hc => hdigit c (isDigit_of_mem_padded hc)
  have hyear : ∀ c ∈ writeYear t.date.year, p c := by
    unfold writeYear
    split
    · exact hpadded 4 _
    · refine List.forall_mem_cons.2 ⟨?_, hpadded 4 _⟩
      split
      · exact hmark.1
      · exact hmark.2.1
  simp only [writeTimestamp, writeDate, writeClock, String.toList_ofList, List.forall_mem_append,
    List.forall_mem_cons]
  simp only [hmark, true_and]
  exact ⟨⟨⟨⟨hyear, hpadded 2 _⟩, hpadded 2 _⟩, ⟨hpadded 2 _, hpadded 2 _⟩, hpadded 2 _⟩,
    hpadded 3 _⟩

theorem trimmed_writeTimestamp (t : Instant) {before after : List Char}
    (hbefore : ∀ c ∈ before, Text.isBlank c = true) (hafter : ∀ c ∈ after, Text.isBlank c = true)
    (n : Nat) :
    Text.dropTail (· == 'Z') (Text.trimChars
      (before ++ ((writeTimestamp t).toList ++ List.replicate n 'Z') ++ after)) =
        (writeTimestamp t).toList := by
  have hblank : ∀ c ∈ (writeTimestamp t).toList, Text.isBlank c = false :=
    forall_mem_writeTimestamp (fun c => Text.isBlank_of_isDigit) (by decide) t
  have hzulu : ∀ c ∈ (writeTimestamp t).toList, (c == 'Z') = false :=
    forall_mem_writeTimestamp (fun c hc => Decimal.beq_of_isDigit hc rfl) (by decide) t
  have hmiddle :
      ∀ c ∈ (writeTimestamp t).toList ++ List.replicate n 'Z', Text.isBlank c = false := by
    refine List.forall_mem_append.2 ⟨hblank, ?_⟩
    rintro c hc
    rw [List.eq_of_mem_replicate hc]
    rfl
  rw [Text.trimChars_between hbefore hmiddle hafter, Text.dropTail_append_of_forall (by simp),
    Text.dropTail_of_forall hzulu]

theorem readTimestamp?_between {t : Instant} (h : t.IsProper) {before after : String}
    (hbefore : ∀ c ∈ before.toList, Text.isBlank c = true)
    (hafter : ∀ c ∈ after.toList, Text.isBlank c = true) (n : Nat) :
    readTimestamp? (before ++ writeTimestamp t ++ String.ofList (List.replicate n 'Z') ++ after) =
      some t.floorMillis := by
  have hdate (cs : List Char) : takeDate? takeChar? (writeDate t.date ++ cs) = some (t.date, cs) :=
    takeDate?_writeDate (fun _ => rfl) (Date.isValid_ofDayNumber _) cs
  have hfraction : takeFraction? ('.' :: padded 3 (t.clock.nanos / 1000000)) =
      some (t.clock.nanos / 1000000 * 1000000, []) := by
    have hnanos := h.isValid_clock.2.2.2
    simp only [nanosPerSecond] at hnanos
    have htake := takeFraction?_padded 3 (t.clock.nanos / 1000000)
      (rfl : Decimal.spanDigits [] = ([], []))
    rwa [List.append_nil, ofFraction_padded (by decide) (by decide) (by omega)] at htake
  have htime : takeClock? takeChar?
      (writeClock t.clock ++ '.' :: padded 3 (t.clock.nanos / 1000000)) =
        some (t.floorMillis.clock, []) := by
    rw [t.clock_floorMillis]
    exact takeClock?_writeClock (fun _ => rfl) h.isValid_clock hfraction
  have htext : (writeTimestamp t).toList = writeDate t.date ++
      'T' :: (writeClock t.clock ++ '.' :: padded 3 (t.clock.nanos / 1000000)) := by
    rw [writeTimestamp, String.toList_ofList]
    simp only [List.append_assoc, List.cons_append]
  have hmark (cs : List Char) : takeChar? 'T' ('T' :: cs) = some cs := rfl
  have hparts : Instant.ofParts? t.date t.floorMillis.clock = some t.floorMillis :=
    h.floorMillis.ofParts?
  have htrimmed := trimmed_writeTimestamp t hbefore hafter n
  simp only [List.append_assoc] at htrimmed
  simp only [readTimestamp?, String.toList_append, String.toList_ofList, List.append_assoc,
    htrimmed]
  simp only [htext, hdate, hmark, htime, hparts, Option.bind_eq_bind, Option.bind_some,
    List.isEmpty_nil, ↓reduceIte]

theorem date_of_ofParts? {date : Date} {clock : Clock} {t : Instant}
    (h : Instant.ofParts? date clock = some t) : t.date = date := by
  unfold Instant.ofParts? at h
  split at h
  · rename_i hvalid
    obtain ⟨hdate, -, hhour, hminute, hsecond, -⟩ := hvalid
    cases h
    have hday : (date.dayNumber * 86400 + clock.hour * 3600 + clock.minute * 60 +
        (clock.second - clock.second / 60 : Nat)) / 86400 = date.dayNumber := by omega
    rw [Instant.date, hday, Date.ofDayNumber_dayNumber hdate]
  · cases h

theorem isProper_of_ofParts? {date : Date} {clock : Clock} {t : Instant}
    (h : Instant.ofParts? date clock = some t) : t.IsProper := by
  refine ⟨?_, nanos_of_ofParts? h⟩
  rw [date_of_ofParts? h]
  exact (Option.ite_none_right_eq_some.1 h).1.2.1

theorem isProper_of_readTimestamp? {s : String} {t : Instant} (h : readTimestamp? s = some t) :
    t.IsProper := by
  simp only [readTimestamp?, Option.bind_eq_bind, Option.bind_eq_some_iff] at h
  obtain ⟨⟨date, cs⟩, -, cs', -, ⟨clock, rest⟩, -, h⟩ := h
  exact isProper_of_ofParts? (Option.ite_none_right_eq_some.1 h).2

/-- The proper instants at the begin of a millisecond, in any year, and no others are read as they
were written, with any blanks around and any number of `Z` behind. An instant that was read from
whatever text is read again from what is written of it, up to the millisecond. -/
theorem timestamps_tell_instants :
    (∀ t : Instant, (t.IsProper ∧ t.nanos % 1000000 = 0) ↔
      ∀ (before after : String) (n : Nat), (∀ c ∈ before.toList, Text.isBlank c = true) →
        (∀ c ∈ after.toList, Text.isBlank c = true) →
          readTimestamp?
              (before ++ writeTimestamp t ++ String.ofList (List.replicate n 'Z') ++ after) =
            some t) ∧
    ∀ (s : String) (t : Instant), readTimestamp? s = some t →
      readTimestamp? (writeTimestamp t) = some t.floorMillis := by
  have hplain {t : Instant} (h : t.IsProper) :
      readTimestamp? (writeTimestamp t) = some t.floorMillis := by
    have hread :
        readTimestamp? ("" ++ writeTimestamp t ++ String.ofList (List.replicate 0 'Z') ++ "") =
          some t.floorMillis := readTimestamp?_between h (by simp) (by simp) 0
    simpa using hread
  constructor
  · intro t
    constructor
    · rintro ⟨hproper, hmillis⟩ before after n hbefore hafter
      rw [readTimestamp?_between hproper hbefore hafter, Instant.floorMillis_eq_self_iff.2 hmillis]
    · intro h
      have hread : readTimestamp? (writeTimestamp t) = some t := by
        simpa using h "" "" 0 (by simp) (by simp)
      have hproper := isProper_of_readTimestamp? hread
      have hsame : some t.floorMillis = some t := (hplain hproper).symm.trans hread
      exact ⟨hproper, Instant.floorMillis_eq_self_iff.1 (Option.some.inj hsame)⟩
  · intro s t h
    exact hplain (isProper_of_readTimestamp? h)

theorem leap_seconds_are_told :
    let t : Instant := ⟨1483228799, 1999000000⟩
    let u : Instant := ⟨327434918399, 1123900000⟩
    (t.IsProper ∧ t.nanos % 1000000 = 0) ∧
      readTimestamp? ("\t" ++ writeTimestamp t ++ "ZZ" ++ " \n") = some t ∧
        readTimestamp? "+12345-12-31T23:59:60.1239" = some u ∧
          readTimestamp? (writeTimestamp u) = some ⟨327434918399, 1123000000⟩ := by
  intro t u
  have ht : t.IsProper ∧ t.nanos % 1000000 = 0 := ⟨⟨by decide, .inr (by decide)⟩, by decide⟩
  have hu : readTimestamp? "+12345-12-31T23:59:60.1239" = some u := by decide +kernel
  have hfront : ∀ c ∈ "\t".toList, Text.isBlank c = true := by simp; decide
  have hback : ∀ c ∈ " \n".toList, Text.isBlank c = true := by simp; decide
  exact ⟨ht, (timestamps_tell_instants.1 t).1 ht "\t" " \n" 2 hfront hback, hu,
    (timestamps_tell_instants.2 _ u hu).trans (by decide)⟩

end InstrumentBus.Time
