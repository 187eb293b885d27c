import InstrumentBus.Proofs.Decimal.Arithmetic

/-!
Floats cut to whole numbers. Sums and products of floats without a sign have no sign, and what is
below 2⁶⁴ of them is cut to the whole number just below it.
-/

namespace InstrumentBus.Decimal

open Float.Model (Format UnpackedFloat)
open Float.Model.UnpackedFloat

def IsUnsigned : UnpackedFloat → Prop
  | .notANumber => False
  | .infinity s => s = .positive
  | .zero s => s = .positive
  | .finite s _ _ _ => s = .positive

theorem isUnsigned_unpack_pack {u : UnpackedFloat} (h : IsUnsigned u) :
    IsUnsigned (Float.Model.pack u).unpack := by
  cases u with
  | notANumber => exact h.elim
  | infinity s => rwa [unpack_pack_infinity]
  | zero s => rwa [unpack_pack_zero]
  | finite s m e hm =>
    exact of_unpack_pack_finite s h (fun _ _ _ => h) h m e hm

theorem isUnsigned_roundWithAccuracy (spec : Format) (q : Nat) (E : Int) (a : Accuracy) :
    IsUnsigned (roundWithAccuracy spec .positive q E a) := by
  simp only [roundWithAccuracy]
  split <;> exact rfl

theorem isUnsigned_abs {x : Float} (hx : x.isFinite = true) : IsUnsigned x.abs.toModel.unpack := by
  have habs : x.abs = .ofModel (.pack x.toModel.unpack.abs) := rfl
  rw [habs]
  apply isUnsigned_unpack_pack
  obtain ⟨s, hu, -⟩ | ⟨s, m, e, hm, hu, -⟩ := eq_of_isFinite hx
  · rw [hu]
    rfl
  · rw [hu]
    rfl

section

variable {x y : Float} (hx : IsUnsigned x.toModel.unpack) (hy : IsUnsigned y.toModel.unpack)
include hx hy

theorem isUnsigned_mul (hx' : x.isFinite = true) (hy' : y.isFinite = true) :
    IsUnsigned (x * y).toModel.unpack := by
  have hmul : x * y = .ofModel (.pack (mul Format.binary64 x.toModel.unpack y.toModel.unpack)) :=
    rfl
  rw [hmul]
  apply isUnsigned_unpack_pack
  obtain ⟨s, hu, -⟩ | ⟨s, m, e, hm, hu, -⟩ := eq_of_isFinite hx'
  · obtain ⟨t, hv, -⟩ | ⟨t, n, f, hn, hv, -⟩ := eq_of_isFinite hy'
    all_goals
      rw [hu] at hx
      rw [hv] at hy
      rw [hu, hv, show s = .positive from hx, show t = .positive from hy]
      rfl
  · obtain ⟨t, hv, -⟩ | ⟨t, n, f, hn, hv, -⟩ := eq_of_isFinite hy'
    all_goals
      rw [hu] at hx
      rw [hv] at hy
      rw [hu, hv, show s = .positive from hx, show t = .positive from hy]
    · rfl
    · exact isUnsigned_roundWithAccuracy ..

theorem isUnsigned_add : IsUnsigned (x + y).toModel.unpack := by
  have hadd : x + y = .ofModel (.pack (add Format.binary64 x.toModel.unpack y.toModel.unpack)) :=
    rfl
  rw [hadd]
  apply isUnsigned_unpack_pack
  generalize x.toModel.unpack = u at hx
  generalize y.toModel.unpack = v at hy
  cases u with
  | notANumber => exact hx.elim
  | infinity s =>
    obtain rfl : s = .positive := hx
    cases v with
    | notANumber => exact hy.elim
    | infinity t =>
      obtain rfl : t = .positive := hy
      rfl
    | _ => rfl
  | zero s =>
    obtain rfl : s = .positive := hx
    cases v with
    | notANumber => exact hy.elim
    | zero t =>
      obtain rfl : t = .positive := hy
      rfl
    | _ => exact hy
  | finite s m e hm =>
    obtain rfl : s = .positive := hx
    cases v with
    | notANumber => exact hy.elim
    | infinity t => exact hy
    | zero t => rfl
    | finite t n f hn =>
      obtain rfl : t = .positive := hy
      simp only [add, decreaseExponent, Nat.shiftLeft_eq]
      have hpos : 0 < Sign.positive.apply (m * 2 ^ (e - min e f).toNat : Nat) +
          Sign.positive.apply (n * 2 ^ (f - min e f).toNat : Nat) := by
        have := Nat.mul_pos hm (Nat.two_pow_pos (e - min e f).toNat)
        simp only [Sign.apply]
        omega
      rw [UnpackedFloat.normalize, Int.compare_eq_gt.2 hpos]
      exact isUnsigned_roundWithAccuracy ..

end

theorem nonneg_of_isUnsigned {x : Float} (h : IsUnsigned x.toModel.unpack) : 0 ≤ x := by
  rw [le_iff, zero_eq]
  change ∃ o, UnpackedFloat.compare (Float.Model.pack (.zero .positive)).unpack _ = some o ∧ _
  rw [unpack_pack_zero]
  cases hu : x.toModel.unpack with
  | notANumber =>
    rw [hu] at h
    exact h.elim
  | zero s => exact ⟨.eq, rfl, rfl⟩
  | infinity s =>
    rw [hu] at h
    obtain rfl : s = .positive := h
    exact ⟨.lt, rfl, rfl⟩
  | finite s m e hm =>
    rw [hu] at h
    obtain rfl : s = .positive := h
    exact ⟨.lt, rfl, rfl⟩

theorem floor_dyadic (m : Nat) (e : Int) :
    ⌊(m * 2 ^ e : ℚ)⌋₊ = m * 2 ^ e.toNat / 2 ^ (-e).toNat := by
  have hpow : ((2 : Nat) : ℚ) ^ e = _ := zpow_eq_div (by decide) e
  rw [Nat.cast_ofNat] at hpow
  rw [hpow, ← mul_div_assoc, ← Nat.cast_mul, Nat.floor_div_eq_div]

theorem roundToInt_positive (m : Nat) (e : Int) :
    roundToInt .positive m e = ⌊(m * 2 ^ e : ℚ)⌋₊ := by
  have hshift : (0 - (e - (e.toNat : Int))).toNat = (-e).toNat := by omega
  have hmantissa :=
    ((isQuotient_exact (m * 2 ^ e.toNat)).shiftRight Nat.one_pos (-e).toNat).mantissa
  rw [Nat.one_mul] at hmantissa
  simp only [roundToInt, decreaseExponent, shiftToExponent, Int.sub_zero, Nat.shiftLeft_eq, hshift,
    Sign.apply, hmantissa, floor_dyadic]

theorem toNat_toUInt64 {x : Float} (hx : x.isFinite = true) (hpos : 0 ≤ value x)
    (hlt : value x < 2 ^ 64) : x.toUInt64.toNat = ⌊value x⌋₊ := by
  have hfloor : ⌊value x⌋₊ < 2 ^ 64 := (Nat.floor_lt hpos).2 (by exact_mod_cast hlt)
  have hcut : x.toUInt64 =
      .ofNatClamp (toInt 0 ((UInt64.size : Int) - 1) x.toModel.unpack).toNat := rfl
  suffices h : toInt 0 ((UInt64.size : Int) - 1) x.toModel.unpack = ⌊value x⌋₊ by
    rw [hcut, h, Int.toNat_natCast, UInt64.toNat_ofNatClamp_of_lt hfloor]
  obtain ⟨s, hu, rfl⟩ | ⟨s, m, e, hm, hu, rfl⟩ := eq_of_isFinite hx
  · rw [hu, value_zero, Nat.floor_zero]
    rfl
  · rw [value_ofKept] at hpos ⊢
    cases s with
    | negative =>
      have := mul_pos (Nat.cast_pos.2 hm.pos) (two_zpow_pos e)
      simp only [Sign.apply, Int.cast_neg, Int.cast_natCast, neg_mul] at hpos
      linarith
    | positive =>
      rw [hu]
      exact roundToInt_positive m e

theorem value_two_pow : value 18446744073709551616 = 2 ^ 64 := by
  have hu : (18446744073709551616 : Float).toModel.unpack =
      .finite .positive (2 ^ 52) 12 (by decide) := rfl
  rw [value, hu]
  norm_num [exact, Sign.apply]

/-- What has no sign and is below 2⁶⁴ is finite, and is cut to the whole number just below it. -/
theorem toNat_toUInt64_of_lt {x : Float} (hx : IsUnsigned x.toModel.unpack)
    (hlt : x < 18446744073709551616) :
    x.isFinite = true ∧ 0 ≤ value x ∧ x.toUInt64.toNat = ⌊value x⌋₊ := by
  have hzero : (0 : Float).isFinite = true := by decide +kernel
  have hbound : (18446744073709551616 : Float).isFinite = true := by decide +kernel
  have hle := nonneg_of_isUnsigned hx
  have hfinite := isFinite_of_le_of_le hzero hbound hle (le_iff.2 ⟨.lt, lt_iff.1 hlt, rfl⟩)
  rw [le_iff_value hzero hfinite, zero_eq, value_zero] at hle
  rw [lt_iff_value hfinite hbound, value_two_pow] at hlt
  exact ⟨hfinite, hle, toNat_toUInt64 hfinite hle hlt⟩

end InstrumentBus.Decimal
