import InstrumentBus.Proofs.Decimal.RoundTrip
import InstrumentBus.Proofs.Time.Calendar
import InstrumentBus.Time.Zoned

/-!
An instant that is written with its fraction of a second is read as itself.
-/

namespace InstrumentBus.Time

open Decimal (ofDigits spanDigits)

section

variable {width n : Nat}

theorem isDigit_of_mem_padded {c : Char} (h : c ∈ padded width n) : c.isDigit = true :=
  (List.mem_append.1 h).elim Decimal.isDigit_of_mem_zeros Decimal.isDigit_of_mem_toDigits

@[simp] theorem ofDigits_padded : ofDigits (padded width n) = n := by
  rw [padded, Decimal.ofDigits_zeros_append, Decimal.ofDigits_toDigits]

theorem padded_ne_nil : padded width n ≠ [] :=
  List.append_ne_nil_of_right_ne_nil _ Nat.toDigits_ne_nil

theorem length_padded (hwidth : 0 < width) (h : n < 10 ^ width) : (padded width n).length = width := by
  have hlength := (Nat.length_toDigits_le_iff (by decide) hwidth).2 h
  rw [padded, List.length_append, List.length_replicate, Nat.sub_add_cancel hlength]

theorem dropWhile_isBlank_padded (rest : List Char) :
    (padded width n ++ rest).dropWhile Text.isBlank = padded width n ++ rest := by
  cases hpad : padded width n with
  | nil => exact absurd hpad padded_ne_nil
  | cons d ds =>
    have hd : d.isDigit = true := isDigit_of_mem_padded (hpad ▸ List.mem_cons_self)
    rw [List.cons_append, List.dropWhile_cons, Text.isBlank_of_isDigit hd, if_neg Bool.false_ne_true]

theorem takeNumber?_padded (hwidth : 0 < width) (h : n < 10 ^ width) (rest : List Char) :
    takeNumber? width (padded width n ++ rest) = some (n, rest) := by
  have hlength := length_padded hwidth h
  have htake : ((padded width n ++ rest).take width).takeWhile Char.isDigit = padded width n := by
    rw [List.take_left' hlength]
    exact List.takeWhile_eq_self_iff.2 fun _ => isDigit_of_mem_padded
  simp only [takeNumber?, dropWhile_isBlank_padded, htake]
  split
  · rename_i hnil
    exact absurd hnil padded_ne_nil
  · rw [ofDigits_padded, List.drop_left]

theorem spanDigits_padded {rest : List Char} (hrest : spanDigits rest = ([], rest)) :
    spanDigits (padded width n ++ rest) = (padded width n, rest) :=
  Decimal.spanDigits_append (fun _ => isDigit_of_mem_padded) hrest

end

theorem takeSigned_padded (n : Nat) (sign : Int) (cs : List Char) :
    takeYear?.takeSigned (padded 4 n ++ '-' :: cs) sign = some (sign * n, '-' :: cs) := by
  have hspan : spanDigits (padded 4 n ++ '-' :: cs) = (padded 4 n, '-' :: cs) := spanDigits_padded rfl
  simp only [takeYear?.takeSigned, hspan]
  split
  · rename_i hnil
    exact absurd (Prod.mk.inj hnil).1 padded_ne_nil
  · rename_i heq
    cases heq
    rw [ofDigits_padded]

theorem takeYear?_writeYear (year : Int) (cs : List Char) :
    takeYear? (writeYear year ++ '-' :: cs) = some (year, '-' :: cs) := by
  simp only [writeYear]
  split
  · rename_i hyear
    have hnumber : takeNumber? 4 (padded 4 year.toNat ++ '-' :: cs) =
        some (year.toNat, '-' :: cs) := takeNumber?_padded (by decide) (by omega) _
    have hyear : (year.toNat : Int) = year := Int.toNat_of_nonneg hyear.1
    have hdigit {c : Char} {ds : List Char} (hpad : padded 4 year.toNat ++ '-' :: cs = c :: ds) :
        c.isDigit = true := by
      obtain ⟨d, es, hd⟩ := List.exists_cons_of_ne_nil (@padded_ne_nil 4 year.toNat)
      rw [hd] at hpad
      cases hpad
      exact isDigit_of_mem_padded (hd ▸ List.mem_cons_self)
    simp only [takeYear?, dropWhile_isBlank_padded]
    split
    · rename_i hminus
      cases hdigit hminus
    · rename_i hplus
      cases hdigit hplus
    · rw [hnumber, Option.map_some, hyear]
  · rename_i hyear
    by_cases hneg : year < 0
    · have hvalue : -1 * (year.natAbs : Int) = year := by omega
      rw [if_pos hneg, List.cons_append]
      exact (takeSigned_padded year.natAbs (-1) cs).trans (by rw [hvalue])
    · have hvalue : 1 * (year.natAbs : Int) = year := by omega
      rw [if_neg hneg, List.cons_append]
      exact (takeSigned_padded year.natAbs 1 cs).trans (by rw [hvalue])

section

variable {takeMark? : Char → List Char → Option (List Char)}

theorem takeDate?_writeDate (hmark : ∀ cs, takeMark? '-' ('-' :: cs) = some cs) {d : Date}
    (h : d.IsValid) (cs : List Char) : takeDate? takeMark? (writeDate d ++ cs) = some (d, cs) := by
  obtain ⟨-, hmonth, -, hday⟩ := h
  have hdays : daysInMonth d.year d.month ≤ 31 := by
    unfold daysInMonth
    split
    · split <;> decide
    all_goals decide
  have hmonth : takeNumber? 2 (padded 2 d.month ++ '-' :: (padded 2 d.day ++ cs)) =
      some (d.month, '-' :: (padded 2 d.day ++ cs)) := takeNumber?_padded (by decide) (by omega) _
  have hday : takeNumber? 2 (padded 2 d.day ++ cs) = some (d.day, cs) :=
    takeNumber?_padded (by decide) (by omega) _
  simp only [takeDate?, writeDate, List.append_assoc, List.cons_append, takeYear?_writeYear,
    Option.bind_eq_bind, Option.bind_some, hmark, hmonth, hday]

theorem takeClock?_writeClock (hmark : ∀ cs, takeMark? ':' (':' :: cs) = some cs) {c : Clock}
    (h : c.IsValid) {nanos : Nat} {cs rest : List Char} (hcs : takeFraction? cs = some (nanos, rest)) :
    takeClock? takeMark? (writeClock c ++ cs) = some ({ c with nanos := nanos }, rest) := by
  obtain ⟨hhour, hminute, hsecond, -⟩ := h
  have hhour (cs : List Char) : takeNumber? 2 (padded 2 c.hour ++ cs) = some (c.hour, cs) :=
    takeNumber?_padded (by decide) (by omega) _
  have hminute (cs : List Char) : takeNumber? 2 (padded 2 c.minute ++ cs) = some (c.minute, cs) :=
    takeNumber?_padded (by decide) (by omega) _
  have hsecond (cs : List Char) : takeNumber? 2 (padded 2 c.second ++ cs) = some (c.second, cs) :=
    takeNumber?_padded (by decide) (by omega) _
  simp only [takeClock?, writeClock, List.append_assoc, List.cons_append, Option.bind_eq_bind,
    Option.bind_some, hmark, hhour, hminute, hsecond, hcs]

end

theorem takeFraction?_padded (width n : Nat) {rest : List Char}
    (hrest : spanDigits rest = ([], rest)) :
    takeFraction? ('.' :: padded width n ++ rest) = some (ofFraction (padded width n), rest) := by
  simp only [takeFraction?, List.cons_append, spanDigits_padded hrest]
  split
  · rename_i hnil
    exact absurd (Prod.mk.inj hnil).1 padded_ne_nil
  · rename_i heq
    cases heq
    rfl

theorem ofFraction_padded {width n : Nat} (hwidth : 0 < width) (hwidth' : width ≤ 9)
    (h : n < 10 ^ width) : ofFraction (padded width n) = n * 10 ^ (9 - width) := by
  have hlength := length_padded hwidth h
  have htake : (padded width n).take 9 = padded width n :=
    List.take_of_length_le (Nat.le_trans (Nat.le_of_eq hlength) hwidth')
  rw [ofFraction, htake, ofDigits_padded, hlength]
  rfl

theorem takeFraction?_writeFraction {nanos : Nat} (h : nanos < nanosPerSecond) (cs : List Char) :
    takeFraction? (writeFraction nanos ++ 'Z' :: cs) = some (nanos, 'Z' :: cs) := by
  have hspan : spanDigits ('Z' :: cs) = ([], 'Z' :: cs) := rfl
  simp only [nanosPerSecond] at h
  simp only [writeFraction]
  split
  · rename_i hzero
    rw [hzero]
    rfl
  · split
    · rw [takeFraction?_padded 3 _ hspan, ofFraction_padded (by decide) (by decide) (by omega)]
      congr 2
      omega
    · split
      · rw [takeFraction?_padded 6 _ hspan, ofFraction_padded (by decide) (by decide) (by omega)]
        congr 2
        omega
      · rw [takeFraction?_padded 9 _ hspan, ofFraction_padded (by decide) (by decide) (by omega)]
        congr 2
        omega

theorem readZoned?_writeZoned {t : Instant} (h : t.IsProper) : readZoned? (writeZoned t) = some t := by
  have hclock := h.isValid_clock
  have hdate (cs : List Char) : takeDate? takeSpacedChar? (writeDate t.date ++ cs) =
      some (t.date, cs) := takeDate?_writeDate (fun _ => rfl) (Date.isValid_ofDayNumber _) cs
  have htime : takeClock? takeSpacedChar?
      (writeClock t.clock ++ (writeFraction t.clock.nanos ++ ['Z'])) = some (t.clock, ['Z']) :=
    takeClock?_writeClock (fun _ => rfl) hclock (takeFraction?_writeFraction hclock.2.2.2 [])
  have hseparator (cs : List Char) : takeSeparator? ('T' :: cs) = some cs := rfl
  have hoffset : takeOffset? (['Z'].dropWhile Text.isBlank) = some (0, []) := rfl
  have hbefore : t.before 0 = t := by simp [Instant.before]
  have htext : (writeZoned t).toList =
      writeDate t.date ++ 'T' :: (writeClock t.clock ++ (writeFraction t.clock.nanos ++ ['Z'])) := by
    rw [writeZoned, String.toList_ofList]
    simp only [List.append_assoc, List.cons_append]
  simp only [readZoned?, htext, hdate, hseparator, htime, hoffset, h.ofParts?, hbefore, h.inRange,
    Option.bind_eq_bind, Option.bind_some, Option.map_some]
  rfl

theorem dvd_of_takeHours? {cs rest : List Char} {offset : Int}
    (h : takeHours? cs = some (offset, rest)) : 60 ∣ offset := by
  simp only [takeHours?, Option.bind_eq_bind, Option.bind_eq_some_iff] at h
  obtain ⟨⟨hours, cs⟩, -, ⟨minutes, cs⟩, -, hoffset⟩ := h
  split at hoffset
  · cases hoffset
    omega
  · cases hoffset

theorem dvd_of_takeOffset? {cs rest : List Char} {offset : Int}
    (h : takeOffset? cs = some (offset, rest)) : 60 ∣ offset := by
  have hneg {cs : List Char} (h : (takeHours? cs).map (fun p => (-p.1, p.2)) = some (offset, rest)) :
      60 ∣ offset := by
    obtain ⟨⟨east, cs⟩, heast, heq⟩ := Option.map_eq_some_iff.1 h
    cases heq
    exact Int.dvd_neg.2 (dvd_of_takeHours? heast)
  unfold takeOffset? at h
  split at h
  · cases h
    exact Int.dvd_zero 60
  · cases h
    exact Int.dvd_zero 60
  · exact dvd_of_takeHours? h
  · exact hneg h
  · split at h
    · exact hneg h
    · split at h
      · cases h
        exact Int.dvd_zero 60
      · cases h
  · cases h

theorem nanos_of_ofParts? {date : Date} {clock : Clock} {t : Instant}
    (h : Instant.ofParts? date clock = some t) :
    t.nanos < nanosPerSecond ∨ t.nanos < 2 * nanosPerSecond ∧ t.seconds % 60 = 59 := by
  unfold Instant.ofParts? at h
  split at h
  · rename_i hvalid
    obtain ⟨-, -, -, -, hsecond, hnanos⟩ := hvalid
    cases h
    simp only [nanosPerSecond] at hnanos ⊢
    by_cases hleap : clock.second = 60
    · simp only [hleap]
      omega
    · have hsmall : clock.second / 60 = 0 := by omega
      rw [hsmall]
      omega
  · cases h

theorem isProper_of_readZoned? {s : String} {t : Instant} (h : readZoned? s = some t) :
    t.IsProper := by
  simp only [readZoned?, Option.bind_eq_bind, Option.bind_eq_some_iff] at h
  obtain ⟨⟨date, cs⟩, -, cs', -, ⟨clock, cs''⟩, -, ⟨offset, cs'''⟩, hoffset, t', ht', h⟩ := h
  obtain ⟨t₀, hparts, rfl⟩ := Option.map_eq_some_iff.1 ht'
  split at h
  · rename_i hrange
    cases h
    have hnanos := nanos_of_ofParts? hparts
    have hminutes := dvd_of_takeOffset? hoffset
    refine ⟨hrange.2.2, ?_⟩
    simp only [Instant.before]
    omega
  · cases h

theorem readZoned?_writeZoned_iff {t : Instant} : readZoned? (writeZoned t) = some t ↔ t.IsProper :=
  ⟨isProper_of_readZoned?, readZoned?_writeZoned⟩

end InstrumentBus.Time
