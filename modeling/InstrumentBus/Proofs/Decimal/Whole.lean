import InstrumentBus.Decimal.Exact
import InstrumentBus.Proofs.Decimal.Shortest

/-!
Whole numbers as floats: the nearest integer of one is the number itself, and none of up to 1023 bits
is too large.
-/

namespace InstrumentBus.Decimal

open Float.Model (UnpackedFloat)

theorem nearest?_ofKept {m n : Nat} {e : Int} (hm : IsKept m e) (h : (m * 2 ^ e : ℚ) = n) :
    nearest? (ofKept hm .positive) = some (n : Int) := by
  have hden : 0 < 2 ^ (-e).toNat := Nat.two_pow_pos _
  have hnum : m * 2 ^ e.toNat = n * 2 ^ (-e).toNat := by
    have hne : ((2 ^ (-e).toNat : Nat) : ℚ) ≠ 0 := by positivity
    have hpow : ((2 : Nat) : ℚ) ^ e = _ := zpow_eq_div (by decide) e
    rw [Nat.cast_ofNat] at hpow
    rw [hpow, ← mul_div_assoc, div_eq_iff hne] at h
    exact_mod_cast h
  have hdyadic : dyadic m e = (n * 2 ^ (-e).toNat, 2 ^ (-e).toNat) := by
    rw [dyadic]
    exact congrArg (·, _) hnum
  simp only [nearest?, Reading.ofFloat, unpack_ofKept, hdyadic, roundDiv_up_mul hden]
  rfl

theorem nearest?_toFloat {n : Nat} (h : n < 2 ^ 53) : nearest? n.toFloat = some (n : Int) := by
  obtain rfl | hpos := Nat.eq_zero_or_pos n
  · decide +kernel
  · obtain ⟨m, e, hm, -, hvalue, -⟩ := exists_natural hpos h
    have hr : Rounds (n * 10 ^ (0 : Int)) m e := by
      rw [zpow_zero, mul_one, ← hvalue]
      exact Rounds.self m e
    have hfloat : toFloat n 0 = ofKept hm .positive := toFloat_of_rounds hm hr
    change nearest? (toFloat n 0) = _
    rw [hfloat, nearest?_ofKept hm hvalue]

theorem beq_self_of_isFinite {x : Float} (h : x.isFinite = true) : (x == x) = true := by
  change (x.toModel.unpack.compare x.toModel.unpack == some .eq) = true
  obtain ⟨s, hu, -⟩ | ⟨s, m, e, hm, hu, -⟩ := eq_of_isFinite h
  · rw [hu]
    rfl
  · rw [hu]
    cases s <;> simp [UnpackedFloat.compare]

theorem exists_rounds_long {n : Nat} (hlow : 2 ^ 52 ≤ n) (h : n.log2 < 1023) :
    ∃ (m : Nat) (e : Int), IsKept m e ∧ Rounds n m e := by
  have hne : n ≠ 0 := by omega
  obtain ⟨k, hk⟩ : ∃ k, n.log2 = 52 + k := Nat.exists_eq_add_of_le ((Nat.le_log2 hne).2 hlow)
  generalize hden : 2 ^ k = den
  have hpos : 0 < den := hden ▸ Nat.two_pow_pos k
  have hsplit := Nat.div_add_mod n den
  have hmod := Nat.mod_lt n hpos
  have hq : 2 ^ 52 ≤ n / den ∧ n / den < 2 ^ 53 := by
    have hself := Nat.log2_self_le hne
    have hlt := Nat.lt_log2_self (n := n)
    rw [hk, Nat.pow_add, hden] at hself
    rw [hk, Nat.add_right_comm, Nat.pow_add, hden] at hlt
    exact ⟨(Nat.le_div_iff_mul_le hpos).2 hself, (Nat.div_lt_iff_lt_mul hpos).2 hlt⟩
  generalize n / den = q at hsplit hq
  generalize n % den = r at hsplit hmod
  have hvalue : (n : ℚ) = den * q + r := by exact_mod_cast hsplit.symm
  have hpow : (2 : ℚ) ^ (k : Int) = den := by rw [zpow_natCast, ← hden, Nat.cast_pow, Nat.cast_ofNat]
  have hden0 : (0 : ℚ) < den := by exact_mod_cast hpos
  have hr0 : (0 : ℚ) ≤ r := Nat.cast_nonneg r
  by_cases hdown : 2 * r < den ∨ 2 * r = den ∧ q % 2 = 0
  · refine ⟨q, k, ⟨hq.2, by omega, by omega, .inl hq.1, by omega⟩, ?_, ?_, ?_⟩
    · rw [hpow, hvalue]
      split <;> linarith
    · have hle : 2 * (r : ℚ) ≤ den := by exact_mod_cast (by omega : 2 * r ≤ den)
      rw [hpow, hvalue]
      linarith
    · intro hodd
      have hlt : 2 * (r : ℚ) < den := by exact_mod_cast (by omega : 2 * r < den)
      rw [hpow, hvalue]
      constructor <;> linarith
  · have hle : (den : ℚ) ≤ 2 * r := by exact_mod_cast (by omega : den ≤ 2 * r)
    have hlt : (r : ℚ) < den := by exact_mod_cast hmod
    by_cases hfull : q + 1 = 2 ^ 53
    · have hq : (q : ℚ) = 2 ^ 53 - 1 := by
        rw [eq_sub_iff_add_eq]
        exact_mod_cast hfull
      have hpow : (2 : ℚ) ^ ((k : Int) + 1) = den * 2 := by rw [zpow_add_one₀ (by norm_num), hpow]
      refine ⟨2 ^ 52, k + 1, ⟨by decide, by omega, by omega, .inl (Nat.le_refl _), by decide⟩, ?_, ?_, ?_⟩
      · rw [hpow, hvalue, hq]
        push_cast
        norm_num
        linarith
      · rw [hpow, hvalue, hq]
        push_cast
        norm_num
        linarith
      · intro hodd
        exact absurd hodd (by decide)
    · have hne : q + 1 ≠ 2 ^ 52 := by omega
      refine ⟨q + 1, k, ⟨by omega, by omega, by omega, .inl (by omega), by omega⟩, ?_, ?_, ?_⟩
      · rw [if_neg hne, hpow, hvalue]
        push_cast
        linarith
      · rw [hpow, hvalue]
        push_cast
        linarith
      · intro hodd
        have hlt' : (den : ℚ) < 2 * r := by exact_mod_cast (by omega : den < 2 * r)
        rw [hpow, hvalue]
        push_cast
        constructor <;> linarith

theorem isInf_toFloat {n : Nat} (h : n.log2 < 1023) : (toFloat n 0).isInf = false := by
  obtain rfl | hpos := Nat.eq_zero_or_pos n
  · decide +kernel
  · obtain ⟨m, e, hm, hr⟩ : ∃ (m : Nat) (e : Int), IsKept m e ∧ Rounds n m e := by
      by_cases hshort : n < 2 ^ 53
      · obtain ⟨m, e, hm, -, hvalue, -⟩ := exists_natural hpos hshort
        exact ⟨m, e, hm, hvalue ▸ Rounds.self m e⟩
      · exact exists_rounds_long (by omega) h
    have hr : Rounds (n * 10 ^ (0 : Int)) m e := by rwa [zpow_zero, mul_one]
    rw [toFloat_of_rounds hm hr]
    change (ofKept hm .positive).toModel.unpack.isInf = false
    rw [unpack_ofKept]
    rfl

end InstrumentBus.Decimal
