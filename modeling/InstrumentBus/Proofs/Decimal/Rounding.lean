import InstrumentBus.Decimal.Exact
import Mathlib

/-!
Which rationals are rounded to a given binary float.
-/

namespace InstrumentBus.Decimal

open Float.Model (Format totalExponent)
open Float.Model.UnpackedFloat

theorem div_of_near {num den m : Nat} (hden : 0 < den) (hlow : 2 * (den * m) ≤ 2 * num + den)
    (hhigh : 2 * num ≤ 2 * (den * m) + den) : num / den = m ∨ num / den + 1 = m := by
  have hsplit := Nat.div_add_mod num den
  have hmod := Nat.mod_lt num hden
  generalize num / den = q at hsplit ⊢
  have hle : q < m + 1 := by
    by_contra hlt
    have := Nat.mul_le_mul_left den (Nat.le_of_not_lt hlt)
    rw [Nat.mul_add] at this
    omega
  have hge : m < q + 2 := by
    by_contra hlt
    have := Nat.mul_le_mul_left den (Nat.le_of_not_lt hlt)
    rw [Nat.mul_add] at this
    omega
  omega

theorem roundDiv_toEven {num den m : Nat} (hden : 0 < den) (hlow : 2 * (den * m) ≤ 2 * num + den)
    (hhigh : 2 * num ≤ 2 * (den * m) + den)
    (hodd : m % 2 = 1 → 2 * (den * m) < 2 * num + den ∧ 2 * num < 2 * (den * m) + den) :
    roundDiv .toEven num den = m := by
  have hsplit := Nat.div_add_mod num den
  have hmod := Nat.mod_lt num hden
  have hqm := div_of_near hden hlow hhigh
  generalize hq : num / den = q at hsplit hqm
  generalize hr : num % den = r at hsplit hmod
  simp only [roundDiv, hq, hr]
  obtain rfl | rfl := hqm
  · cases hc : compare (2 * r) den with
    | lt => rfl
    | eq =>
      rw [Nat.compare_eq_eq] at hc
      have heven : q % 2 = 0 := by
        by_contra hne
        have := hodd (by omega)
        omega
      simp only [heven, Nat.add_zero]
    | gt =>
      rw [Nat.compare_eq_gt] at hc
      omega
  · rw [Nat.mul_add] at hlow hhigh hodd
    cases hc : compare (2 * r) den with
    | lt =>
      rw [Nat.compare_eq_lt] at hc
      omega
    | eq =>
      rw [Nat.compare_eq_eq] at hc
      have heven : (q + 1) % 2 = 0 := by
        by_contra hne
        have := hodd (by omega)
        omega
      dsimp only
      omega
    | gt => rfl

theorem roundDiv_up_mul {den : Nat} (hden : 0 < den) (n : Nat) : roundDiv .up (n * den) den = n := by
  have : compare (2 * 0) den = .lt := Nat.compare_eq_lt.2 hden
  simp only [roundDiv, Nat.mul_mod_left, Nat.mul_div_cancel n hden, this]

/-- A mantissa and its residual bits that stand for `num / den`. -/
structure IsQuotient (em : ExtendedMantissa) (num den : Nat) : Prop where
  mantissa : em.mantissa = num / den
  round : em.roundBit = decide (den ≤ 2 * (num % den))
  sticky : em.stickyBit = decide (2 * (num % den) ≠ 0 ∧ 2 * (num % den) ≠ den)

theorem isQuotient_ofFraction {num den : Nat} (hden : 0 < den) :
    IsQuotient (.ofMantissaAndAccuracy (num / den) (accuracyOfFraction (num % den) den)) num den := by
  simp only [accuracyOfFraction]
  split
  · rename_i hr
    have hround : ¬den ≤ 2 * (num % den) := by omega
    exact ⟨rfl, (decide_eq_false hround).symm, by simp [hr, ExtendedMantissa.ofMantissaAndAccuracy]⟩
  · cases hc : compare (2 * (num % den)) den with
    | lt =>
      rw [Nat.compare_eq_lt] at hc
      exact ⟨rfl, (decide_eq_false (by omega)).symm, (decide_eq_true (by omega)).symm⟩
    | eq =>
      rw [Nat.compare_eq_eq] at hc
      exact ⟨rfl, (decide_eq_true (by omega)).symm, (decide_eq_false (by omega)).symm⟩
    | gt =>
      rw [Nat.compare_eq_gt] at hc
      exact ⟨rfl, (decide_eq_true (by omega)).symm, (decide_eq_true (by omega)).symm⟩

theorem isQuotient_exact (q : Nat) : IsQuotient (.ofMantissaAndAccuracy q .exact) q 1 := by
  have h := @isQuotient_ofFraction q 1 Nat.one_pos
  rwa [Nat.div_one, Nat.mod_one] at h

namespace IsQuotient

variable {em : ExtendedMantissa} {num den : Nat} (h : IsQuotient em num den)
include h

theorem shiftRightOne (hden : 0 < den) : IsQuotient em.shiftRightOne num (den * 2) := by
  have hmod : num % (den * 2) = num % den + den * (num / den % 2) := Nat.mod_mul
  have hlt := Nat.mod_lt num hden
  have hbit : num / den % 2 = 0 ∨ num / den % 2 = 1 := by omega
  refine ⟨?_, ?_, ?_⟩
  · simp only [ExtendedMantissa.shiftRightOne, h.mantissa, Nat.div_div_eq_div_mul]
  · simp only [ExtendedMantissa.shiftRightOne, h.mantissa, hmod]
    obtain hbit | hbit := hbit
    · simp [hbit]
      omega
    · simp [hbit]
      omega
  · simp only [ExtendedMantissa.shiftRightOne, h.round, h.sticky, hmod]
    rw [← Bool.decide_or, decide_eq_decide]
    obtain hbit | hbit := hbit
    · rw [hbit]
      omega
    · rw [hbit]
      omega

theorem shiftRight (hden : 0 < den) (k : Nat) : IsQuotient (em >>> k) num (den * 2 ^ k) := by
  induction k with
  | zero =>
    rw [Nat.pow_zero, Nat.mul_one]
    exact h
  | succ k ih =>
    rw [Nat.pow_succ, ← Nat.mul_assoc]
    exact ih.shiftRightOne (Nat.mul_pos hden (Nat.two_pow_pos k))

theorem roundedMantissa : em.roundedMantissa = roundDiv .toEven num den := by
  cases em with
  | mk mantissa roundBit stickyBit =>
    obtain ⟨rfl, rfl, rfl⟩ := h
    simp only [ExtendedMantissa.roundedMantissa, roundDiv]
    cases hc : compare (2 * (num % den)) den with
    | lt =>
      rw [Nat.compare_eq_lt] at hc
      rw [decide_eq_false (p := den ≤ _) (by omega)]
      cases decide (2 * (num % den) ≠ 0 ∧ 2 * (num % den) ≠ den) <;> rfl
    | eq =>
      rw [Nat.compare_eq_eq] at hc
      rw [decide_eq_true (p := den ≤ _) (by omega), decide_eq_false (by omega)]
      rfl
    | gt =>
      rw [Nat.compare_eq_gt] at hc
      rw [decide_eq_true (p := den ≤ _) (by omega), decide_eq_true (by omega)]
      rfl

end IsQuotient

/-- A magnitude `m * 2 ^ e` as floats keep it, with as many bits as there is room for. -/
structure IsKept (m : Nat) (e : Int) : Prop where
  lt : m < 2 ^ 53
  min_le : -1074 ≤ e
  le_max : e ≤ 971
  full : 2 ^ 52 ≤ m ∨ e = -1074
  pos : 0 < m

/-- The rationals that are rounded to `m * 2 ^ e`: those at most one half of `2 ^ e` away, if `m` is
odd, less than that. Below a power of two floats lie twice as close. -/
structure Rounds (v : ℚ) (m : Nat) (e : Int) : Prop where
  low : ((m : ℚ) - if m = 2 ^ 52 then 1 / 4 else 1 / 2) * 2 ^ e ≤ v
  high : v ≤ ((m : ℚ) + 1 / 2) * 2 ^ e
  odd : m % 2 = 1 → ((m : ℚ) - 1 / 2) * 2 ^ e < v ∧ v < ((m : ℚ) + 1 / 2) * 2 ^ e

theorem two_zpow_pos (e : Int) : (0 : ℚ) < 2 ^ e := zpow_pos (by norm_num) e

theorem Rounds.self (m : Nat) (e : Int) : Rounds (m * 2 ^ e) m e := by
  have := two_zpow_pos e
  refine ⟨?_, ?_, fun _ => ⟨?_, ?_⟩⟩
  · split <;> nlinarith
  · nlinarith
  · nlinarith
  · nlinarith

theorem targetExponent_eq (m : Nat) (e : Int) :
    Format.binary64.targetExponent (totalExponent m e) = max (m.log2 + e - 52) (-1074) := by
  simp only [Format.targetExponent, totalExponent, Format.mantissaBits, Format.minExponent]
  norm_num
  omega

theorem shiftToTargetExponent_eq {m : Nat} {e t : Int} (a : Accuracy)
    (ht : max (m.log2 + e - 52) (-1074) = t) (he : e ≤ t) :
    shiftToTargetExponent Format.binary64 m e a =
      (ExtendedMantissa.ofMantissaAndAccuracy m a >>> (t - e).toNat, t) := by
  have hexp : e + ((t - e).toNat : Int) = t := by omega
  simp only [shiftToTargetExponent, shiftToExponent, targetExponent_eq, ht, hexp]

theorem roundWithAccuracy_of_first {s : Sign} {q m r : Nat} {a : Accuracy} {em : ExtendedMantissa}
    {e t E : Int} (hpos : 0 < m) (hlt : m < 2 ^ 53) (hmin : -1074 ≤ e)
    (hfull : 2 ^ 52 ≤ m ∨ e = -1074)
    (hfirst : shiftToTargetExponent Format.binary64 q E a = (em, t))
    (hr : em.roundedMantissa = r) (h : r = m ∧ t = e ∨ r = 2 ^ 53 ∧ m = 2 ^ 52 ∧ t = e - 1) :
    roundWithAccuracy Format.binary64 s q E a = .finite s m e hpos := by
  have hne : m ≠ 0 := Nat.ne_of_gt hpos
  have hsecond : shiftToTargetExponent Format.binary64 r t .exact = (⟨m, false, false⟩, e) := by
    obtain ⟨rfl, rfl⟩ | ⟨rfl, rfl, rfl⟩ := h
    · have hlog : r.log2 ≤ 52 := by
        have := (Nat.log2_lt hne).2 hlt
        omega
      have hfull : 52 ≤ r.log2 ∨ t = -1074 := hfull.imp_left (Nat.le_log2 hne).2
      rw [shiftToTargetExponent_eq .exact (t := t) (by omega) (by omega), Int.sub_self]
      rfl
    · have hshift : (e - (e - 1)).toNat = 1 := by omega
      rw [shiftToTargetExponent_eq .exact (t := e) (by rw [Nat.log2_two_pow]; omega) (by omega),
        hshift]
      rfl
  simp only [roundWithAccuracy, hfirst, hr, hsecond, hne, ↓reduceDIte]

namespace Rounds

variable {v : ℚ} {m : Nat} {e : Int} (hr : Rounds v m e)
include hr

theorem half_le : ((m : ℚ) - 1 / 2) * 2 ^ e ≤ v := by
  refine le_trans (mul_le_mul_of_nonneg_right ?_ (le_of_lt (two_zpow_pos e))) hr.low
  split <;> linarith

variable (hm : IsKept m e)
include hm

theorem lt : v < 2 ^ (53 + e) := by
  have hlt : (m : ℚ) + 1 ≤ 2 ^ (53 : Int) := by exact_mod_cast hm.lt
  rw [zpow_add₀ (by norm_num)]
  have := two_zpow_pos e
  nlinarith [hr.high]

theorem le : 2 ^ (e - 1) ≤ v := by
  have hpos : (1 : ℚ) ≤ m := by exact_mod_cast hm.pos
  have := two_zpow_pos e
  rw [zpow_sub₀ (by norm_num)]
  nlinarith [hr.half_le]

theorem eq_of_lt (hlt : v < 2 ^ (52 + e)) (he : e ≠ -1074) :
    m = 2 ^ 52 ∧ ((2 ^ 53 : ℚ) - 1 / 2) * 2 ^ (e - 1) ≤ v := by
  have hle := hm.full.resolve_right he
  have hpow := two_zpow_pos e
  have hm52 : m = 2 ^ 52 := by
    by_contra hne
    have hcast : (2 : ℚ) ^ (52 : Int) + 1 ≤ m := by
      exact_mod_cast (by omega : 2 ^ 52 + 1 ≤ m)
    rw [zpow_add₀ (by norm_num)] at hlt
    have := lt_of_mul_lt_mul_right (lt_of_le_of_lt hr.half_le hlt) (le_of_lt hpow)
    linarith
  refine ⟨hm52, ?_⟩
  have hlow := hr.low
  rw [if_pos hm52, hm52] at hlow
  rw [zpow_sub₀ (by norm_num)]
  push_cast at hlow
  linarith

end Rounds

section

variable {num den m : Nat} {v : ℚ} {e E t : Int} (hden : 0 < den) (hv : v = num / den * 2 ^ E)
include hden hv

theorem roundDiv_of_bounds {r : Nat} (hEt : E ≤ t) (hlow : ((r : ℚ) - 1 / 2) * 2 ^ t ≤ v)
    (hhigh : v ≤ ((r : ℚ) + 1 / 2) * 2 ^ t)
    (hodd : r % 2 = 1 → ((r : ℚ) - 1 / 2) * 2 ^ t < v ∧ v < ((r : ℚ) + 1 / 2) * 2 ^ t) :
    roundDiv .toEven num (den * 2 ^ (t - E).toNat) = r := by
  have hexp : t = ((t - E).toNat : Int) + E := by omega
  generalize (t - E).toNat = k at hexp ⊢
  have hscale : (2 : ℚ) ^ t = 2 ^ k * 2 ^ E := by
    rw [hexp, zpow_add₀ (by norm_num), zpow_natCast]
  have hd : (0 : ℚ) < den := by exact_mod_cast hden
  have hquot (x : ℚ) : x * 2 ^ t = x * (2 ^ k * den) / den * 2 ^ E := by
    rw [hscale]
    field_simp
  have hle (x : ℚ) : x * 2 ^ t ≤ v ↔ x * (2 ^ k * den) ≤ num := by
    rw [hquot, hv, mul_le_mul_iff_of_pos_right (two_zpow_pos E), div_le_div_iff_of_pos_right hd]
  have hge (x : ℚ) : v ≤ x * 2 ^ t ↔ num ≤ x * (2 ^ k * den) := by
    rw [hquot, hv, mul_le_mul_iff_of_pos_right (two_zpow_pos E), div_le_div_iff_of_pos_right hd]
  rw [hle] at hlow
  rw [hge] at hhigh
  simp only [← not_le, hle, hge] at hodd
  have hcast : ((den * 2 ^ k : Nat) : ℚ) = 2 ^ k * den := by
    push_cast
    ring
  rw [← hcast] at hlow hhigh hodd
  apply roundDiv_toEven (Nat.mul_pos hden (Nat.two_pow_pos k))
  · have : 2 * (((den * 2 ^ k : Nat) : ℚ) * r) ≤ 2 * num + (den * 2 ^ k : Nat) := by linarith
    exact_mod_cast this
  · have : 2 * (num : ℚ) ≤ 2 * (((den * 2 ^ k : Nat) : ℚ) * r) + (den * 2 ^ k : Nat) := by linarith
    exact_mod_cast this
  · intro hr
    obtain ⟨hlow, hhigh⟩ := hodd hr
    have hlow : 2 * (((den * 2 ^ k : Nat) : ℚ) * r) < 2 * num + (den * 2 ^ k : Nat) := by linarith
    have hhigh : 2 * (num : ℚ) < 2 * (((den * 2 ^ k : Nat) : ℚ) * r) + (den * 2 ^ k : Nat) := by
      linarith
    exact ⟨by exact_mod_cast hlow, by exact_mod_cast hhigh⟩

theorem log2_lt_of_lt {j : Int} (hj : v < 2 ^ j) (hne : num / den ≠ 0) :
    ((num / den).log2 : Int) + E < j := by
  have hlog : (2 : ℚ) ^ ((num / den).log2 : Int) ≤ num / den := by
    rw [zpow_natCast, le_div_iff₀ (by exact_mod_cast hden)]
    exact_mod_cast (Nat.le_div_iff_mul_le hden).1 (Nat.log2_self_le hne)
  have hle : (2 : ℚ) ^ ((num / den).log2 + E) ≤ v := by
    rw [zpow_add₀ (by norm_num), hv]
    exact mul_le_mul_of_nonneg_right hlog (le_of_lt (two_zpow_pos E))
  exact (zpow_lt_zpow_iff_right₀ (by norm_num : (1 : ℚ) < 2)).1 (lt_of_le_of_lt hle hj)

theorem le_log2_of_le {j : Int} (hj : 2 ^ j ≤ v) (hEj : E ≤ j) :
    j ≤ ((num / den).log2 : Int) + E := by
  have hexp : j = ((j - E).toNat : Int) + E := by omega
  rw [hv, hexp, zpow_add₀ (by norm_num), zpow_natCast] at hj
  have hpow := le_of_mul_le_mul_right hj (two_zpow_pos E)
  rw [le_div_iff₀ (by exact_mod_cast hden)] at hpow
  have hle : 2 ^ (j - E).toNat ≤ num / den :=
    (Nat.le_div_iff_mul_le hden).2 (by exact_mod_cast hpow)
  have hne : num / den ≠ 0 := Nat.ne_of_gt (lt_of_lt_of_le (Nat.two_pow_pos _) hle)
  have := (Nat.le_log2 hne).2 hle
  omega

theorem target_le (hE : 2 ^ 52 ≤ num / den ∨ E ≤ -1074) {j : Int} (hj : v < 2 ^ (53 + j))
    (hmin : -1074 ≤ j) : max ((num / den).log2 + E - 52) (-1074) ≤ j := by
  by_cases hne : num / den = 0
  · rw [hne] at hE ⊢
    have := hE.resolve_left (by decide)
    have hlog : Nat.log2 0 = 0 := rfl
    omega
  · have := log2_lt_of_lt hden hv hj hne
    omega

omit hden hv in
theorem le_target (hE : 2 ^ 52 ≤ num / den ∨ E ≤ -1074) :
    E ≤ max ((num / den).log2 + E - 52) (-1074) := by
  obtain hE | hE := hE
  · have hne : num / den ≠ 0 := Nat.ne_of_gt (Nat.lt_of_lt_of_le (Nat.two_pow_pos 52) hE)
    have := (Nat.le_log2 hne).2 hE
    omega
  · omega

omit hv in
theorem roundWithAccuracy_of_roundDiv {r : Nat} (hm : IsKept m e) (s : Sign)
    (ht : max ((num / den).log2 + E - 52) (-1074) = t) (hEt : E ≤ t)
    (hdiv : roundDiv .toEven num (den * 2 ^ (t - E).toNat) = r)
    (h : r = m ∧ t = e ∨ r = 2 ^ 53 ∧ m = 2 ^ 52 ∧ t = e - 1) :
    roundWithAccuracy Format.binary64 s (num / den) E (accuracyOfFraction (num % den) den) =
      .finite s m e hm.pos :=
  roundWithAccuracy_of_first hm.pos hm.lt hm.min_le hm.full (shiftToTargetExponent_eq _ ht hEt)
    (((isQuotient_ofFraction hden).shiftRight hden _).roundedMantissa.trans hdiv) h

/-- Just below a power of two rounding cuts one bit less, and then carries into a new one. -/
theorem roundWithAccuracy_of_lt (hE : 2 ^ 52 ≤ num / den ∨ E ≤ -1074) (hm : IsKept m e)
    (hr : Rounds v m e) (hlt : v < 2 ^ (52 + e)) (hne : e ≠ -1074) (s : Sign) :
    roundWithAccuracy Format.binary64 s (num / den) E (accuracyOfFraction (num % den) den) =
      .finite s m e hm.pos := by
  have hmin := hm.min_le
  have hpos := two_zpow_pos (e - 1)
  have hEt := le_target hE
  obtain ⟨hm52, hlow⟩ := hr.eq_of_lt hm hlt hne
  have hhigh : v < 2 ^ (53 + (e - 1)) := by
    rwa [show 53 + (e - 1) = 52 + e by ring]
  have hupper := target_le hden hv hE hhigh (by omega)
  have hpow : (2 : ℚ) ^ (51 + e) ≤ v := by
    refine le_trans ?_ hlow
    rw [show 51 + e = 52 + (e - 1) by ring, zpow_add₀ (by norm_num)]
    nlinarith
  have hlower := le_log2_of_le hden hv hpow (by omega)
  have hround : v ≤ (((2 ^ 53 : Nat) : ℚ) + 1 / 2) * 2 ^ (e - 1) := by
    rw [zpow_add₀ (by norm_num)] at hhigh
    push_cast
    norm_num at hhigh ⊢
    nlinarith
  have hdiv := roundDiv_of_bounds hden hv (r := 2 ^ 53) (t := e - 1) (by omega)
    (by push_cast; exact hlow) hround fun h => absurd h (by decide)
  exact roundWithAccuracy_of_roundDiv hden hm s (by omega) (by omega) hdiv (.inr ⟨rfl, hm52, rfl⟩)

theorem roundWithAccuracy_of_rounds (hE : 2 ^ 52 ≤ num / den ∨ E ≤ -1074) (hm : IsKept m e)
    (hr : Rounds v m e) (s : Sign) :
    roundWithAccuracy Format.binary64 s (num / den) E (accuracyOfFraction (num % den) den) =
      .finite s m e hm.pos := by
  by_cases hsmall : v < 2 ^ (52 + e) ∧ e ≠ -1074
  · exact roundWithAccuracy_of_lt hden hv hE hm hr hsmall.1 hsmall.2 s
  · have hEt := le_target hE
    have hupper := target_le hden hv hE (hr.lt hm) hm.min_le
    have ht : max ((num / den).log2 + E - 52) (-1074) = e := by
      by_cases hne : e = -1074
      · omega
      · have hge : (2 : ℚ) ^ (52 + e) ≤ v := not_lt.1 fun h => hsmall ⟨h, hne⟩
        have := le_log2_of_le hden hv hge (by omega)
        omega
    have hEe := Int.le_trans hEt hupper
    have hdiv := roundDiv_of_bounds hden hv hEe hr.half_le hr.high hr.odd
    exact roundWithAccuracy_of_roundDiv hden hm s ht hEe hdiv (.inl ⟨rfl, rfl⟩)

end

end InstrumentBus.Decimal
