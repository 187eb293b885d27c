import InstrumentBus.Number.Sexagesimal
import InstrumentBus.Proofs.Decimal.Truncation
import InstrumentBus.Proofs.Time.Zoned

/-!
Sexagesimal numbers as they are written: right-aligned, with minutes and seconds of two digits below
sixty, and telling the count of smallest parts that the value was rounded to.
-/

namespace InstrumentBus.Number

open Decimal (ofDigits spanDigits value)
open Time (padded)

/-- The rational that a field tells, with decimals if a point follows its digits. -/
def fieldValue (cs : List Char) : ℚ :=
  match spanDigits cs with
  | (whole, '.' :: decimals) => ofDigits whole + ofDigits decimals / 10 ^ decimals.length
  | (whole, _) => ofDigits whole

/-- The rational that fields tell, where one of a field makes sixty of the field behind it. -/
def fieldsValue : List (List Char) → ℚ
  | [] => 0
  | field :: fields => fieldValue field + fieldsValue fields / 60

structure IsSixtieths (cs : List Char) : Prop where
  length : cs.length = 2
  digits : ∀ c ∈ cs, c.isDigit = true
  lt : ofDigits cs < 60

/-- Minutes, or minutes and seconds, of two digits below sixty; only the last field has decimals. -/
inductive AreMinors : List (List Char) → Prop
  | last {cs : List Char} (h : IsSixtieths cs) : AreMinors [cs]
  | decimals {cs ds : List Char} (h : IsSixtieths cs) (hne : ds ≠ [])
      (hds : ∀ d ∈ ds, d.isDigit = true) : AreMinors [cs ++ '.' :: ds]
  | cons {cs : List Char} {fields : List (List Char)} (h : IsSixtieths cs)
      (hrest : AreMinors fields) : AreMinors (cs :: fields)

theorem AreMinors.ne_separator {fields : List (List Char)} (h : AreMinors fields) :
    ∀ field ∈ fields, ∀ c ∈ field, (c == ':') = false := by
  have hdigit {cs : List Char} (hcs : ∀ c ∈ cs, c.isDigit = true) :
      ∀ c ∈ cs, (c == ':') = false :=
    fun c hc => Decimal.beq_of_isDigit (hcs c hc) rfl
  induction h with
  | last h => simpa using hdigit h.digits
  | decimals h _ hds =>
    have hds := hdigit hds
    have hcs := hdigit h.digits
    simp only [List.forall_mem_singleton, List.forall_mem_append, List.forall_mem_cons]
    exact ⟨hcs, rfl, hds⟩
  | cons h _ ih => exact List.forall_mem_cons.2 ⟨hdigit h.digits, ih⟩

theorem fieldValue_of_forall {ds : List Char} (hds : ∀ d ∈ ds, d.isDigit = true) :
    fieldValue ds = ofDigits ds := by
  rw [fieldValue, Decimal.spanDigits_of_forall hds]

theorem fieldValue_decimals {ds : List Char} (hds : ∀ d ∈ ds, d.isDigit = true)
    (decimals : List Char) :
    fieldValue (ds ++ '.' :: decimals) =
      ofDigits ds + ofDigits decimals / 10 ^ decimals.length := by
  rw [fieldValue, Decimal.spanDigits_append hds (Decimal.spanDigits_point decimals)]
  rfl

def lastField (decimals n : Nat) : List Char :=
  padded 2 (n / 10 ^ decimals) ++
    if decimals = 0 then [] else '.' :: padded decimals (n % 10 ^ decimals)

theorem cast_eq_div_add_mod (n d : Nat) : (n : ℚ) = d * (n / d : Nat) + (n % d : Nat) := by
  exact_mod_cast (Nat.div_add_mod n d).symm

theorem isSixtieths_padded {n : Nat} (h : n < 60) : IsSixtieths (padded 2 n) :=
  ⟨Time.length_padded (by decide) (by omega), fun _ => Time.isDigit_of_mem_padded,
    by rwa [Time.ofDigits_padded]⟩

theorem fieldValue_padded (width n : Nat) : fieldValue (padded width n) = n := by
  rw [fieldValue_of_forall fun _ => Time.isDigit_of_mem_padded, Time.ofDigits_padded]

section

variable {decimals n : Nat}

theorem fieldValue_lastField : fieldValue (lastField decimals n) = n / 10 ^ decimals := by
  unfold lastField
  split
  · rename_i h
    rw [h, List.append_nil, fieldValue_padded]
    simp
  · rename_i h
    have hlength : (padded decimals (n % 10 ^ decimals)).length = decimals :=
      Time.length_padded (Nat.pos_of_ne_zero h) (Nat.mod_lt n (by positivity))
    have hsplit := cast_eq_div_add_mod n (10 ^ decimals)
    rw [Nat.cast_pow, Nat.cast_ofNat] at hsplit
    rw [fieldValue_decimals fun _ => Time.isDigit_of_mem_padded, hlength, Time.ofDigits_padded,
      Time.ofDigits_padded, eq_div_iff (by positivity), add_mul, div_mul_cancel₀ _ (by positivity),
      mul_comm, ← hsplit]

variable (h : n < 60 * 10 ^ decimals)
include h

theorem areMinors_lastField : AreMinors [lastField decimals n] := by
  have hwhole := isSixtieths_padded (Nat.div_lt_of_lt_mul (by rwa [Nat.mul_comm]))
  unfold lastField
  split
  · rw [List.append_nil]
    exact .last hwhole
  · exact .decimals hwhole Time.padded_ne_nil fun _ => Time.isDigit_of_mem_padded

theorem length_lastField :
    (lastField decimals n).length = 2 + if decimals = 0 then 0 else decimals + 1 := by
  have hwhole := isSixtieths_padded (Nat.div_lt_of_lt_mul (by rwa [Nat.mul_comm]))
  rw [lastField, List.length_append, hwhole.length]
  split
  · rfl
  · rename_i hpos
    rw [List.length_cons,
      Time.length_padded (Nat.pos_of_ne_zero hpos) (Nat.mod_lt n (by positivity))]

end

namespace Resolution

def decimals : Resolution → Nat
  | .minutes | .seconds => 0
  | .tenthMinutes | .tenthSeconds => 1
  | .hundredthSeconds => 2

def hasSeconds : Resolution → Bool
  | .minutes | .tenthMinutes => false
  | .seconds | .tenthSeconds | .hundredthSeconds => true

def width (r : Resolution) : Nat :=
  (if r.hasSeconds then 6 else 3) + if r.decimals = 0 then 0 else r.decimals + 1

def fields (r : Resolution) (rest : Nat) : List (List Char) :=
  let unit := 60 * 10 ^ r.decimals
  if r.hasSeconds then [padded 2 (rest / unit), lastField r.decimals (rest % unit)]
  else [lastField r.decimals rest]

@[simp] theorem ofWidth_width (r : Resolution) : ofWidth r.width = r := by
  cases r <;> rfl

theorem parts_eq (r : Resolution) :
    r.parts = (if r.hasSeconds then 60 else 1) * (60 * 10 ^ r.decimals) := by
  cases r <;> rfl

theorem parts_pos (r : Resolution) : 0 < r.parts := by
  cases r <;> decide

theorem padded_one (n : Nat) : padded 1 n = Nat.toDigits 10 n := by
  have hpos : 0 < (Nat.toDigits 10 n).length := Nat.length_toDigits_pos
  rw [padded, Nat.sub_eq_zero_of_le hpos, List.replicate_zero, List.nil_append]

theorem tail_eq (r : Resolution) (rest : Nat) :
    r.tail rest = (r.fields rest).flatMap (':' :: ·) := by
  have htwo (n : Nat) : twoDigits n = padded 2 n := rfl
  have htenth : rest % 600 % 10 = rest % 10 := Nat.mod_mod_of_dvd rest (by decide)
  have hhundredth : rest % 6000 % 100 = rest % 100 := Nat.mod_mod_of_dvd rest (by decide)
  cases r <;>
    simp [tail, fields, hasSeconds, decimals, lastField, htwo, padded_one, htenth, hhundredth]

section

variable (r : Resolution) {rest : Nat} (h : rest < r.parts)
include h

theorem areMinors_fields : AreMinors (r.fields rest) := by
  rw [parts_eq] at h
  unfold fields
  split
  · rename_i hseconds
    rw [if_pos hseconds, Nat.mul_comm] at h
    exact .cons (isSixtieths_padded (Nat.div_lt_of_lt_mul h))
      (areMinors_lastField (Nat.mod_lt rest (by positivity)))
  · rename_i hseconds
    rw [if_neg hseconds, Nat.one_mul] at h
    exact areMinors_lastField h

theorem length_tail : (r.tail rest).length = r.width := by
  rw [parts_eq] at h
  rw [tail_eq, fields, width]
  split
  · rename_i hseconds
    rw [if_pos hseconds, Nat.mul_comm] at h
    have hminutes := (isSixtieths_padded (Nat.div_lt_of_lt_mul h)).length
    have hlast := length_lastField (n := rest % (60 * 10 ^ r.decimals))
      (Nat.mod_lt rest (by positivity))
    simp only [List.flatMap_cons, List.flatMap_nil, List.length_append, List.length_cons,
      List.length_nil, hminutes, hlast]
    omega
  · rename_i hseconds
    rw [if_neg hseconds, Nat.one_mul] at h
    simp only [List.flatMap_cons, List.flatMap_nil, List.length_append, List.length_cons,
      List.length_nil, length_lastField h]
    omega

end

theorem exists_of_mem_layouts {f base : Nat}
    (h : (f, base) ∈ [(3, 60), (5, 600), (6, 3600), (8, 36000), (9, 360000)]) :
    ∃ r : Resolution, f = r.width ∧ base = r.parts := by
  simp only [List.mem_cons, Prod.mk.injEq, List.not_mem_nil, or_false] at h
  obtain ⟨rfl, rfl⟩ | ⟨rfl, rfl⟩ | ⟨rfl, rfl⟩ | ⟨rfl, rfl⟩ | ⟨rfl, rfl⟩ := h
  · exact ⟨.minutes, rfl, rfl⟩
  · exact ⟨.tenthMinutes, rfl, rfl⟩
  · exact ⟨.seconds, rfl, rfl⟩
  · exact ⟨.tenthSeconds, rfl, rfl⟩
  · exact ⟨.hundredthSeconds, rfl, rfl⟩

theorem length_fields (r : Resolution) (rest : Nat) :
    (r.fields rest).length = if r.hasSeconds then 2 else 1 := by
  unfold fields
  split <;> rfl

theorem fieldsValue_fields (r : Resolution) (rest : Nat) :
    fieldsValue (r.fields rest) = rest * 60 / r.parts := by
  rw [parts_eq]
  unfold fields
  split
  · simp only [fieldsValue, fieldValue_padded, fieldValue_lastField]
    conv_rhs => rw [cast_eq_div_add_mod rest (60 * 10 ^ r.decimals)]
    push_cast
    field_simp
    ring
  · simp only [fieldsValue, fieldValue_lastField]
    push_cast
    field_simp
    ring

end Resolution

theorem fieldsValue_whole (r : Resolution) (count : Nat) :
    fieldsValue (Nat.toDigits 10 (count / r.parts) :: r.fields (count % r.parts)) =
      (count : ℚ) / r.parts := by
  have hpos : (0 : ℚ) < r.parts := by exact_mod_cast r.parts_pos
  rw [fieldsValue, fieldValue_of_forall fun _ => Decimal.isDigit_of_mem_toDigits,
    Decimal.ofDigits_toDigits, r.fieldsValue_fields]
  conv_rhs => rw [cast_eq_div_add_mod count r.parts]
  field_simp

theorem isUnsigned_sum {x : Float} (hx : x.isFinite = true) (r : Resolution) :
    Decimal.IsUnsigned (x.abs * r.parts.toFloat + 0.5).toModel.unpack := by
  have hparts : Decimal.IsUnsigned r.parts.toFloat.toModel.unpack ∧
      r.parts.toFloat.isFinite = true := by
    cases r <;> exact ⟨rfl, by decide +kernel⟩
  have hproduct := Decimal.isUnsigned_mul (Decimal.isUnsigned_abs hx) hparts.1
    (Decimal.value_abs hx).1 hparts.2
  exact Decimal.isUnsigned_add hproduct rfl

theorem writeSexagesimal?_eq_none_iff {x : Float} {width fraction : Nat} :
    writeSexagesimal? x width fraction = none ↔ maxPadding < width - fraction := by
  rw [← Option.not_isSome_iff_eq_none, isSome_writeSexagesimal?_iff, Nat.not_le]

theorem writeSexagesimal?_of_le {x : Float} {r : Resolution} {width count : Nat} {head : List Char}
    (h : width - r.width ≤ maxPadding)
    (hcount : (x.abs * r.parts.toFloat + 0.5).toUInt64.toNat = count)
    (hhead : (if x < 0 then ['-'] else []) ++ Nat.toDigits 10 (count / r.parts) = head) :
    writeSexagesimal? x width r.width = some (String.ofList
      (List.replicate (width - r.width - head.length) ' ' ++ head ++ r.tail (count % r.parts))) := by
  simp only [writeSexagesimal?, writeParts?, alignRight?, Resolution.ofWidth_width, hcount,
    decide_eq_true_eq, hhead, if_pos h, Option.map_some]

/-- Of a finite value, the `base`-th parts of it are counted by cutting the float
`x.abs * base + 0.5`. What is written is blanks up to the width, a minus sign for what is below
zero, the whole part, and `f` characters of minutes and seconds; read as exact rationals, these
fields tell that count. Nothing is written if the part before the minutes is to be wider than a text
can be padded to. -/
theorem sexagesimal_tells_count {x : Float} (hx : x.isFinite = true) {f base : Nat}
    (hf : (f, base) ∈ [(3, 60), (5, 600), (6, 3600), (8, 36000), (9, 360000)])
    (hlt : x.abs * base.toFloat + 0.5 < 18446744073709551616) (width : Nat) :
    (x.abs * base.toFloat + 0.5).isFinite = true ∧
    (writeSexagesimal? x width f = none ↔ maxPadding < width - f) ∧
    (width - f ≤ maxPadding →
      let scaled := ⌊value (x.abs * base.toFloat + 0.5)⌋₊
      let sign := if x < 0 then ['-'] else []
      let whole := Nat.toDigits 10 (scaled / base)
      ∃ (text : String) (blanks : Nat) (fields : List (List Char)),
        let tail := fields.flatMap (':' :: ·)
        writeSexagesimal? x width f = some text ∧
        text.toList = List.replicate blanks ' ' ++ sign ++ whole ++ tail ∧
        text.length = max width ((sign ++ whole).length + f) ∧
        tail.length = f ∧
        AreMinors fields ∧ fields.length = (if f < 6 then 1 else 2) ∧
        Text.splitAt (· == ':') (whole ++ tail) = whole :: fields ∧
        fieldsValue (whole :: fields) = scaled / base) := by
  obtain ⟨r, rfl, rfl⟩ := Resolution.exists_of_mem_layouts hf
  obtain ⟨hfinite, -, hcut⟩ := Decimal.toNat_toUInt64_of_lt (isUnsigned_sum hx r) hlt
  refine ⟨hfinite, writeSexagesimal?_eq_none_iff, fun hwidth => ?_⟩
  intro scaled sign whole
  let blanks := width - r.width - (sign ++ whole).length
  let fields := r.fields (scaled % r.parts)
  have hsome : writeSexagesimal? x width r.width = some (String.ofList
      (List.replicate blanks ' ' ++ (sign ++ whole) ++ fields.flatMap (':' :: ·))) := by
    rw [← r.tail_eq]
    exact writeSexagesimal?_of_le hwidth hcut rfl
  have hrest : scaled % r.parts < r.parts := Nat.mod_lt scaled r.parts_pos
  have hminors : AreMinors fields := r.areMinors_fields hrest
  have hlength : (fields.flatMap (':' :: ·)).length = r.width := by
    rw [← r.tail_eq]
    exact r.length_tail hrest
  refine ⟨_, blanks, fields, hsome, ?_, ?_, hlength, hminors, ?_, ?_, fieldsValue_whole r scaled⟩
  · rw [String.toList_ofList, ← List.append_assoc]
  · rw [String.length_ofList]
    simp only [blanks, List.length_append, List.length_replicate, hlength]
    omega
  · rw [r.length_fields]
    cases r <;> rfl
  · have hdigits : ∀ c ∈ whole, (c == ':') = false :=
      fun c hc => Decimal.beq_of_isDigit (Decimal.isDigit_of_mem_toDigits hc) rfl
    exact Text.splitAt_append_flatMap rfl hdigits hminors.ne_separator

theorem minus_half_tells_thirty_minutes :
    let x : Float := -0.5
    x.isFinite = true ∧ x < 0 ∧ x.abs * (3600 : Nat).toFloat + 0.5 < 18446744073709551616 ∧
      9 - 6 ≤ maxPadding ∧ writeSexagesimal? x 9 6 = some " -0:30:00" ∧
      ∃ fields, AreMinors fields ∧
        Text.splitAt (· == ':') ('0' :: fields.flatMap (':' :: ·)) = ['0'] :: fields ∧
        fieldsValue (['0'] :: fields) = 1800 / 3600 := by
  intro x
  have hfinite : x.isFinite = true := by decide +kernel
  have hlt : x.abs * (3600 : Nat).toFloat + 0.5 < 18446744073709551616 := by decide +kernel
  have hwidth : 9 - 6 ≤ maxPadding := by decide
  have hcut := (Decimal.toNat_toUInt64_of_lt (isUnsigned_sum hfinite .seconds) hlt).2.2
  have hscaled : ⌊value (x.abs * (3600 : Nat).toFloat + 0.5)⌋₊ = 1800 :=
    hcut.symm.trans (by decide +kernel)
  obtain ⟨-, -, htext⟩ := sexagesimal_tells_count hfinite
    (by decide : (6, 3600) ∈ [(3, 60), (5, 600), (6, 3600), (8, 36000), (9, 360000)]) hlt 9
  obtain ⟨-, -, fields, -, -, -, -, hminors, -, hsplit, hvalue⟩ := htext hwidth
  rw [hscaled] at hsplit hvalue
  exact ⟨hfinite, by decide +kernel, hlt, hwidth, by decide +kernel, fields, hminors, hsplit,
    by exact_mod_cast hvalue⟩

/-- The hour would have to stand behind more blanks than a text can be padded with. -/
theorem no_text_of_width_seventy_thousand :
    (1 : Float).isFinite = true ∧
      (6, 3600) ∈ [(3, 60), (5, 600), (6, 3600), (8, 36000), (9, 360000)] ∧
      (1 : Float).abs * (3600 : Nat).toFloat + 0.5 < 18446744073709551616 ∧
      writeSexagesimal? 1 70000 6 = none := by
  decide +kernel

end InstrumentBus.Number
