import InstrumentBus.Time.Date
import Mathlib.Data.Int.Init
import Mathlib.Tactic.SplitIfs

/-!
Dates of the calendar and day numbers stand for each other, one to one, and every instant is the one
that its date and time of day stand for.
-/

namespace InstrumentBus.Time

theorem isLeap_iff {year : Int} :
    isLeap year = true ↔ year % 4 = 0 ∧ (year % 100 ≠ 0 ∨ year % 400 = 0) := by
  simp [isLeap]

/-- The date so many days after 1 March of a year. -/
def Date.ofMarch (year day : Int) : Date :=
  let month := (5 * day + 2) / 153
  let dayOfMonth := (day - (153 * month + 2) / 5 + 1).toNat
  if month < 10 then ⟨year, (month + 3).toNat, dayOfMonth⟩
  else ⟨year + 1, (month - 9).toNat, dayOfMonth⟩

theorem daysInMonth_ofMarch {year month : Int} (hlow : 0 ≤ month) (hhigh : month ≤ 10) :
    (daysInMonth (if month < 10 then year else year + 1)
      (if month < 10 then (month + 3).toNat else (month - 9).toNat) : Int) =
        (153 * (month + 1) + 2) / 5 - (153 * month + 2) / 5 := by
  have hcases : month = 0 ∨ month = 1 ∨ month = 2 ∨ month = 3 ∨ month = 4 ∨ month = 5 ∨ month = 6 ∨
      month = 7 ∨ month = 8 ∨ month = 9 ∨ month = 10 := by omega
  rcases hcases with rfl | rfl | rfl | rfl | rfl | rfl | rfl | rfl | rfl | rfl | rfl <;> rfl

section

variable {year day : Int} (h0 : 0 ≤ day) (h : day ≤ 365)

include h0 h

theorem Date.dayNumber_ofMarch : (Date.ofMarch year day).dayNumber =
    365 * year + year / 4 - year / 100 + year / 400 + day - epochShift := by
  simp only [Date.ofMarch]
  split
  · have hmonth : ¬((5 * day + 2) / 153 + 3).toNat ≤ 2 := by omega
    simp only [Date.dayNumber, hmonth, ↓reduceIte]
    omega
  · have hmonth : ((5 * day + 2) / 153 - 9).toNat ≤ 2 := by omega
    simp only [Date.dayNumber, hmonth, ↓reduceIte]
    omega

theorem Date.isValid_ofMarch (hleap : day = 365 → isLeap (year + 1) = true) :
    (Date.ofMarch year day).IsValid := by
  by_cases hfebruary : (5 * day + 2) / 153 = 11
  · have hday : (day - (153 * 11 + 2) / 5 + 1).toNat ≤ daysInMonth (year + 1) 2 := by
      simp only [daysInMonth]
      by_cases hlast : day = 365
      · rw [if_pos (hleap hlast)]
        omega
      · split <;> omega
    have hofMarch : Date.ofMarch year day =
        ⟨year + 1, 2, (day - (153 * 11 + 2) / 5 + 1).toNat⟩ := by
      simp only [Date.ofMarch, hfebruary]
      rfl
    rw [hofMarch]
    refine ⟨?_, ?_, ?_, hday⟩ <;> dsimp only <;> omega
  · have hdays := @daysInMonth_ofMarch year ((5 * day + 2) / 153) (by omega) (by omega)
    simp only [Date.ofMarch]
    split
    · rename_i hmonth
      simp only [hmonth, ↓reduceIte] at hdays
      refine ⟨?_, ?_, ?_, ?_⟩ <;> dsimp only <;> omega
    · rename_i hmonth
      simp only [hmonth, ↓reduceIte] at hdays
      refine ⟨?_, ?_, ?_, ?_⟩ <;> dsimp only <;> omega

end

theorem year_of_cycle {day year : Int} (h0 : 0 ≤ day) (h : day < 146097)
    (hyear : (day - day / 1460 + day / 36524 - day / 146096) / 365 = year) :
    0 ≤ year ∧ year ≤ 399 ∧ 0 ≤ day - (365 * year + year / 4 - year / 100) ∧
      day - (365 * year + year / 4 - year / 100) ≤ 365 ∧
      (day - (365 * year + year / 4 - year / 100) = 365 → isLeap (year + 1) = true) := by
  have hlow : year / 4 ≤ day / 1460 := by omega
  have hhigh : day / 1460 ≤ year / 4 + 1 := by omega
  have hcentury : year / 100 = day / 36524 - day / 146096 := by
    have hcases : day / 36524 = 0 ∨ day / 36524 = 1 ∨ day / 36524 = 2 ∨ day / 36524 = 3 ∨
        day / 36524 = 4 := by omega
    obtain hc | hc | hc | hc | hc := hcases <;> omega
  refine ⟨by omega, by omega, by omega, by omega, ?_⟩
  intro hlast
  have hquarter : day / 1460 = year / 4 + 1 := by omega
  have hfourth : year % 4 = 3 := by omega
  rw [isLeap_iff]
  omega

theorem isLeap_add_cycles (year cycles : Int) : isLeap (year + 400 * cycles) = isLeap year := by
  rw [Bool.eq_iff_iff, isLeap_iff, isLeap_iff]
  omega

theorem Date.exists_ofMarch (n : Int) : ∃ year day : Int,
    Date.ofDayNumber n = Date.ofMarch year day ∧ 0 ≤ day ∧ day ≤ 365 ∧
    (day = 365 → isLeap (year + 1) = true) ∧
    365 * year + year / 4 - year / 100 + year / 400 + day - epochShift = n := by
  generalize hd : (n + epochShift) % 146097 = d
  generalize hy : (d - d / 1460 + d / 36524 - d / 146096) / 365 = y
  have hcycle : 0 ≤ d ∧ d < 146097 := by omega
  obtain ⟨hy0, hy1, h0, h1, hleap⟩ := year_of_cycle hcycle.1 hcycle.2 hy
  refine ⟨y + 400 * ((n + epochShift) / 146097), d - (365 * y + y / 4 - y / 100), ?_, h0, h1, ?_, ?_⟩
  · simp only [Date.ofDayNumber, hd, hy, Date.ofMarch]
  · intro hlast
    rw [Int.add_right_comm, isLeap_add_cycles]
    exact hleap hlast
  · generalize hc : (n + epochShift) / 146097 = c
    have h4 : (y + 400 * c) / 4 = y / 4 + 100 * c := by omega
    have h100 : (y + 400 * c) / 100 = y / 100 + 4 * c := by omega
    have h400 : (y + 400 * c) / 400 = c := by omega
    omega

theorem Date.isValid_ofDayNumber (n : Int) : (Date.ofDayNumber n).IsValid := by
  obtain ⟨year, day, hdate, h0, h, hleap, -⟩ := Date.exists_ofMarch n
  rw [hdate]
  exact Date.isValid_ofMarch h0 h hleap

@[simp] theorem Date.dayNumber_ofDayNumber (n : Int) : (Date.ofDayNumber n).dayNumber = n := by
  obtain ⟨year, day, hdate, h0, h, -, hn⟩ := Date.exists_ofMarch n
  rw [hdate, Date.dayNumber_ofMarch h0 h, hn]

def leapDays (year : Int) : Int := year / 4 - year / 100 + year / 400

theorem leapDays_succ (year : Int) :
    leapDays (year + 1) = leapDays year + if isLeap (year + 1) then 1 else 0 := by
  have h4 : (year + 1) / 4 = year / 4 + if (year + 1) % 4 = 0 then 1 else 0 := by split <;> omega
  have h100 : (year + 1) / 100 = year / 100 + if (year + 1) % 100 = 0 then 1 else 0 := by
    split <;> omega
  have h400 : (year + 1) / 400 = year / 400 + if (year + 1) % 400 = 0 then 1 else 0 := by
    split <;> omega
  simp only [leapDays, h4, h100, h400, isLeap_iff]
  split_ifs <;> omega

theorem leapDays_mono {year year' : Int} (h : year ≤ year') : leapDays year ≤ leapDays year' := by
  induction year', h using Int.leInduction with
  | base => exact Int.le_refl _
  | succ year' _ ih =>
    rw [leapDays_succ]
    split <;> omega

theorem lt_firstOfMarch {year year' day : Int} (h : day ≤ 365)
    (hleap : day = 365 → isLeap (year + 1) = true) (hlt : year < year') :
    365 * year + leapDays year + day < 365 * year' + leapDays year' := by
  have hmono : leapDays (year + 1) ≤ leapDays year' := leapDays_mono hlt
  rw [leapDays_succ] at hmono
  by_cases hlast : day = 365
  · rw [if_pos (hleap hlast)] at hmono
    omega
  · split at hmono <;> omega

/-- The months from March to February, counted from 0. -/
theorem Date.IsValid.exists_march {d : Date} (h : d.IsValid) : ∃ year month : Int,
    0 ≤ month ∧ month ≤ 11 ∧ d.year = (if month < 10 then year else year + 1) ∧
      d.month = (if month < 10 then (month + 3).toNat else (month - 9).toNat) := by
  obtain ⟨hlow, hhigh, -, -⟩ := h
  by_cases hearly : d.month ≤ 2
  · refine ⟨d.year - 1, d.month + 9, ?_⟩
    rw [if_neg (by omega), if_neg (by omega)]
    omega
  · refine ⟨d.year, d.month - 3, ?_⟩
    rw [if_pos (by omega), if_pos (by omega)]
    omega

theorem Date.IsValid.exists_ofMarch {d : Date} (h : d.IsValid) : ∃ year day : Int,
    Date.ofMarch year day = d ∧ 0 ≤ day ∧ day ≤ 365 ∧
      (day = 365 → isLeap (year + 1) = true) := by
  obtain ⟨year, month, hlow, hhigh, hyear, hmonth⟩ := h.exists_march
  obtain ⟨-, -, hday, hdays⟩ := h
  rw [hyear, hmonth] at hdays
  have hfebruary (hlast : month = 11) :
      (d.day : Int) ≤ 28 + if isLeap (year + 1) then 1 else 0 := by
    subst hlast
    have hdays : d.day ≤ daysInMonth (year + 1) 2 := hdays
    rw [daysInMonth] at hdays
    split_ifs at hdays ⊢ <;> omega
  have hnext : (d.day : Int) ≤ (153 * (month + 1) + 2) / 5 - (153 * month + 2) / 5 := by
    by_cases hlast : month = 11
    · have := hfebruary hlast
      split at this <;> omega
    · have := @daysInMonth_ofMarch year month hlow (by omega)
      omega
  refine ⟨year, (153 * month + 2) / 5 + d.day - 1, ?_, by omega, ?_, ?_⟩
  · have hindex : (5 * ((153 * month + 2) / 5 + d.day - 1) + 2) / 153 = month := by omega
    have hoffset :
        ((153 * month + 2) / 5 + d.day - 1 - (153 * month + 2) / 5 + 1).toNat = d.day := by omega
    obtain ⟨y, m, day⟩ := d
    simp only [Date.ofMarch, hindex, hoffset] at hyear hmonth ⊢
    rw [hyear, hmonth]
    split <;> rfl
  · by_cases hlast : month = 11
    · have := hfebruary hlast
      split at this <;> omega
    · omega
  · intro h365
    have hlong := hfebruary (by omega)
    split at hlong
    · assumption
    · omega

theorem Date.ofDayNumber_dayNumber {d : Date} (h : d.IsValid) :
    Date.ofDayNumber d.dayNumber = d := by
  obtain ⟨year, day, rfl, h0, h, hleap⟩ := h.exists_ofMarch
  obtain ⟨year', day', hdate, h0', h', hleap', hn⟩ :=
    Date.exists_ofMarch (Date.ofMarch year day).dayNumber
  rw [Date.dayNumber_ofMarch h0 h] at hn
  have hyear : year' = year := by
    obtain hlt | heq | hlt := Int.lt_trichotomy year' year
    · have := lt_firstOfMarch h' hleap' hlt
      simp only [leapDays] at this
      omega
    · exact heq
    · have := lt_firstOfMarch h hleap hlt
      simp only [leapDays] at this
      omega
  subst hyear
  rw [hdate]
  congr 1
  omega

/-- The instants that can be told: in the years that are read, and with a leap second only at the
end of a minute. -/
structure Instant.IsProper (t : Instant) : Prop where
  inRange : t.date.inRange = true
  nanos : t.nanos < nanosPerSecond ∨ t.nanos < 2 * nanosPerSecond ∧ t.seconds % 60 = 59

namespace Instant

variable {t : Instant} (h : t.IsProper)

include h

theorem IsProper.isValid_clock : t.clock.IsValid := by
  obtain ⟨-, hnanos⟩ := h
  refine ⟨?_, ?_, ?_, ?_⟩ <;> simp only [clock, nanosPerSecond] at hnanos ⊢ <;> omega

theorem IsProper.ofParts? : Instant.ofParts? t.date t.clock = some t := by
  have hvalid : t.date.IsValid ∧ t.date.inRange = true ∧ t.clock.IsValid :=
    ⟨Date.isValid_ofDayNumber _, h.inRange, h.isValid_clock⟩
  obtain ⟨-, hnanos⟩ := h
  rw [Instant.ofParts?, if_pos hvalid]
  simp only [date, Date.dayNumber_ofDayNumber, Option.some.injEq]
  cases t with
  | mk seconds nanos =>
    simp only [clock, nanosPerSecond, mk.injEq] at hnanos ⊢
    omega

end Instant

end InstrumentBus.Time
