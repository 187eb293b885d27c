import InstrumentBus.Decimal.Read
import InstrumentBus.Proofs.Decimal.Packing

/-!
Decimals are read as the float that they round to.
-/

namespace InstrumentBus.Decimal

open Float.Model (Format UnpackedFloat totalExponent)
open Float.Model.UnpackedFloat

variable {v : ℚ} {m : Nat} {e : Int}

theorem roundWithAccuracy_exact {q : Nat} {E : Int} (hv : v = q * 2 ^ E)
    (hE : 2 ^ 52 ≤ q ∨ E ≤ -1074) (hm : IsKept m e) (hr : Rounds v m e) (s : Sign) :
    roundWithAccuracy Format.binary64 s q E .exact = .finite s m e hm.pos := by
  have hv : v = (q : ℚ) / (1 : Nat) * 2 ^ E := by rw [hv, Nat.cast_one, div_one]
  have hE : 2 ^ 52 ≤ q / 1 ∨ E ≤ -1074 := by rwa [Nat.div_one]
  have := roundWithAccuracy_of_rounds Nat.one_pos hv hE hm hr s
  rwa [Nat.div_one, Nat.mod_one] at this

section

variable {m₁ m₂ : Nat} {e₁ e₂ : Int} (h₁ : 0 < m₁) (h₂ : 0 < m₂) (hm : IsKept m e)

theorem mul_of_rounds (hfull : 2 ^ 52 ≤ m₁ * m₂)
    (hr : Rounds (m₁ * 2 ^ e₁ * (m₂ * 2 ^ e₂)) m e) :
    mul Format.binary64 (.finite .positive m₁ e₁ h₁) (.finite .positive m₂ e₂ h₂) =
      .finite .positive m e hm.pos := by
  refine roundWithAccuracy_exact ?_ (.inl hfull) hm hr .positive
  rw [zpow_add₀ (by norm_num), Nat.cast_mul]
  ring

theorem div_of_rounds (hr : Rounds (m₁ * 2 ^ e₁ / (m₂ * 2 ^ e₂)) m e) :
    div Format.binary64 (.finite .positive m₁ e₁ h₁) (.finite .positive m₂ e₂ h₂) =
      .finite .positive m e hm.pos := by
  have htotal : totalExponent m₁ e₁ - totalExponent m₂ e₂ =
      totalExponent m₁ (e₁ - totalExponent m₂ e₂) := by
    simp only [totalExponent]
    omega
  simp only [div, divCore, htotal, targetExponent_eq]
  generalize hT : min (e₁ - e₂) (max (m₁.log2 + (e₁ - totalExponent m₂ e₂) - 52) (-1074)) = T
  have hk : e₁ - e₂ = ((e₁ - e₂ - T).toNat : Int) + T := by omega
  have hlong : m₂.log2 + 53 ≤ m₁.log2 + (e₁ - e₂ - T).toNat ∨ T ≤ -1074 := by
    simp only [totalExponent] at hT
    omega
  generalize (e₁ - e₂ - T).toNat = k at hk hlong
  refine roundWithAccuracy_of_rounds h₂ ?_ ?_ hm hr .positive
  · have hne : (m₂ : ℚ) ≠ 0 := by exact_mod_cast Nat.ne_of_gt h₂
    have hexp : e₁ = e₂ + (k + T) := by omega
    rw [Nat.shiftLeft_eq, hexp, zpow_add₀ (by norm_num), zpow_add₀ (by norm_num), zpow_natCast]
    have := two_zpow_pos e₂
    push_cast
    field_simp
  · refine hlong.imp_left fun hlong => ?_
    rw [Nat.le_div_iff_mul_le h₂, Nat.shiftLeft_eq]
    have hlow := Nat.log2_self_le (Nat.ne_of_gt h₁)
    have hhigh := Nat.lt_log2_self (n := m₂)
    calc 2 ^ 52 * m₂ ≤ 2 ^ 52 * 2 ^ (m₂.log2 + 1) := Nat.mul_le_mul_left _ (Nat.le_of_lt hhigh)
      _ = 2 ^ (m₂.log2 + 53) := by rw [← Nat.pow_add, Nat.add_comm 52]
      _ ≤ 2 ^ (m₁.log2 + k) := Nat.pow_le_pow_right (by decide) hlong
      _ = 2 ^ m₁.log2 * 2 ^ k := Nat.pow_add _ _ _
      _ ≤ m₁ * 2 ^ k := Nat.mul_le_mul_right _ hlow

end

theorem exists_round {n : Nat} {k : Int} (hpos : 0 < n) (hlt : n < 2 ^ 53) (hk : 0 ≤ k)
    (hk' : k ≤ 971) :
    ∃ (m : Nat) (e : Int) (hm : IsKept m e), 2 ^ 52 ≤ m ∧ (m * 2 ^ e : ℚ) = n * 2 ^ k ∧
      round Format.binary64 .positive n k = .finite .positive m e hm.pos := by
  have hne := Nat.ne_of_gt hpos
  have hlog : n.log2 ≤ 52 := Nat.le_of_lt_succ ((Nat.log2_lt hne).2 hlt)
  have htarget : k - max (n.log2 + k - 52) (-1074) = (52 - n.log2 : Nat) := by omega
  have hround : round Format.binary64 .positive n k = roundWithAccuracy Format.binary64 .positive
      (n * 2 ^ (52 - n.log2)) (k - (52 - n.log2 : Nat)) .exact := by
    simp only [UnpackedFloat.round, targetExponent_eq, decreaseExponent, htarget, Int.toNat_natCast,
      Nat.shiftLeft_eq]
  have hfull : 2 ^ 52 ≤ n * 2 ^ (52 - n.log2) := by
    calc 2 ^ 52 = 2 ^ n.log2 * 2 ^ (52 - n.log2) := by rw [← Nat.pow_add, Nat.add_sub_cancel' hlog]
      _ ≤ n * 2 ^ (52 - n.log2) := Nat.mul_le_mul_right _ (Nat.log2_self_le hne)
  have hshort : n * 2 ^ (52 - n.log2) < 2 ^ 53 := by
    calc n * 2 ^ (52 - n.log2) < 2 ^ (n.log2 + 1) * 2 ^ (52 - n.log2) :=
          Nat.mul_lt_mul_of_pos_right Nat.lt_log2_self (Nat.two_pow_pos _)
      _ = 2 ^ 53 := by rw [← Nat.pow_add]; congr 1; omega
  have hm : IsKept (n * 2 ^ (52 - n.log2)) (k - (52 - n.log2 : Nat)) :=
    ⟨hshort, by omega, by omega, .inl hfull, Nat.lt_of_lt_of_le (Nat.two_pow_pos 52) hfull⟩
  refine ⟨_, _, hm, hfull, ?_, ?_⟩
  · rw [zpow_sub₀ (by norm_num), zpow_natCast]
    push_cast
    field_simp
  · rw [hround, roundWithAccuracy_exact rfl (.inl hfull) hm (Rounds.self _ _)]

theorem exists_natural {n : Nat} (hpos : 0 < n) (hlt : n < 2 ^ 53) :
    ∃ (m : Nat) (e : Int) (hm : IsKept m e), 2 ^ 52 ≤ m ∧ (m * 2 ^ e : ℚ) = n ∧
      n.toUInt64.toFloat = ofKept hm .positive := by
  have hn : n.toUInt64.toNat = n := UInt64.toNat_ofNat_of_lt (Nat.lt_trans hlt (by decide))
  have hcompare : compare (n : Int) 0 = .gt := Int.compare_eq_gt.2 (by omega)
  obtain ⟨m, e, hm, hfull, hvalue, hround⟩ := exists_round hpos hlt (Int.le_refl 0) (by decide)
  refine ⟨m, e, hm, hfull, by rw [hvalue, zpow_zero, mul_one], ?_⟩
  rw [ofKept, ← hround]
  change Float.ofModel (.pack (normalize Format.binary64 n.toUInt64.toNat 0 .positive)) = _
  rw [hn, UnpackedFloat.normalize, hcompare]
  rfl

theorem table_eq (n : Fin Float.exactlyRepresentablePowersOfTen.size) :
    Float.exactlyRepresentablePowersOfTen[n] =
      .ofModel (.pack (round Format.binary64 .positive (5 ^ n.val) n.val)) := by
  revert n
  decide +kernel

theorem exists_powerOfTen {n : Nat} (h : n < Float.exactlyRepresentablePowersOfTen.size) :
    ∃ (m : Nat) (e : Int) (hm : IsKept m e), (m * 2 ^ e : ℚ) = 10 ^ n ∧
      Float.exactlyRepresentablePowersOfTen[n] = ofKept hm .positive := by
  have hn : n < 23 := h
  -- The table goes as far as the powers of five fit into a mantissa.
  have hlt : 5 ^ n < 2 ^ 53 :=
    Nat.lt_of_le_of_lt (Nat.pow_le_pow_right (by decide) (Nat.le_of_lt_succ hn)) (by decide)
  obtain ⟨m, e, hm, -, hvalue, hround⟩ :=
    exists_round (k := n) (Nat.pow_pos (by decide)) hlt (by omega) (by omega)
  refine ⟨m, e, hm, ?_, ?_⟩
  · rw [hvalue, zpow_natCast, Nat.cast_pow, ← mul_pow]
    norm_num
  · rw [ofKept, ← hround]
    exact table_eq ⟨n, h⟩

section

variable {digits : Nat} {exp : Int} (hm : IsKept m e) (hr : Rounds (digits * 10 ^ exp) m e)
include hm hr

theorem digits_pos : 0 < digits := by
  have hle := lt_of_lt_of_le (two_zpow_pos (e - 1)) (hr.le hm)
  by_contra h
  rw [Nat.eq_zero_of_not_pos h, Nat.cast_zero, zero_mul] at hle
  exact lt_irrefl _ hle

theorem exp_le : exp ≤ 2 ^ 11 := by
  have hmax := hm.le_max
  have hdigits : (1 : ℚ) ≤ digits := by exact_mod_cast digits_pos hm hr
  by_contra h
  have hle : (2 : ℚ) ^ exp ≤ digits * 10 ^ exp :=
    calc (2 : ℚ) ^ exp ≤ 10 ^ exp := zpow_le_zpow_left₀ (by omega) (by norm_num) (by norm_num)
      _ ≤ digits * 10 ^ exp := le_mul_of_one_le_left (by positivity) hdigits
  have := (zpow_lt_zpow_iff_right₀ (by norm_num : (1 : ℚ) < 2)).1 (lt_of_le_of_lt hle (hr.lt hm))
  omega

theorem le_exp : -(2 ^ 11 + digits.log2) ≤ exp := by
  have hmin := hm.min_le
  have hdigits : (digits : ℚ) < 2 ^ ((digits.log2 : Int) + 1) := by
    exact_mod_cast Nat.lt_log2_self (n := digits)
  by_contra h
  -- The exponent is negative here, so a power of two is the larger one.
  have hpow : (10 : ℚ) ^ exp ≤ 2 ^ exp := by
    have : (2 : ℚ) ^ (-exp) ≤ 10 ^ (-exp) :=
      zpow_le_zpow_left₀ (by omega) (by norm_num) (by norm_num)
    rwa [zpow_neg, zpow_neg, inv_le_inv₀ (by positivity) (by positivity)] at this
  have hlt : digits * (10 : ℚ) ^ exp < 2 ^ ((digits.log2 : Int) + 1 + exp) :=
    calc digits * (10 : ℚ) ^ exp ≤ digits * 2 ^ exp := by gcongr
      _ < 2 ^ ((digits.log2 : Int) + 1) * 2 ^ exp := mul_lt_mul_of_pos_right hdigits (two_zpow_pos _)
      _ = 2 ^ ((digits.log2 : Int) + 1 + exp) := (zpow_add₀ (by norm_num) _ _).symm
  have := (zpow_lt_zpow_iff_right₀ (by norm_num : (1 : ℚ) < 2)).1 (lt_of_le_of_lt (hr.le hm) hlt)
  omega

theorem ofScientific_of_rounds :
    UnpackedFloat.ofScientific Format.binary64 digits exp = .finite .positive m e hm.pos := by
  have hpos := digits_pos hm hr
  have hupper : ¬exp > 2 ^ Format.binary64.exponentBits := not_lt.2 (exp_le hm hr)
  have hlower : ¬exp < -(2 ^ Format.binary64.exponentBits + digits.log2) := not_lt.2 (le_exp hm hr)
  simp only [UnpackedFloat.ofScientific, Nat.ne_of_gt hpos, hupper, hlower, ↓reduceDIte,
    ↓reduceIte]
  split
  · rename_i hexp
    obtain ⟨n, rfl⟩ := Int.eq_ofNat_of_zero_le hexp
    have hshift : digits <<< Format.binary64.mantissaBits = digits * 2 ^ 53 := Nat.shiftLeft_eq _ _
    have hlong : 2 ^ 52 ≤ digits <<< Format.binary64.mantissaBits * 10 ^ n := by
      have := Nat.mul_le_mul hpos (Nat.one_le_pow n 10 (by decide))
      rw [hshift, Nat.mul_right_comm]
      omega
    refine mul_of_rounds _ _ hm hlong ?_
    have hvalue : ((digits * 2 ^ 53 : Nat) * 2 ^ (-53 : Int) * ((10 ^ n : Nat) * 2 ^ (0 : Int)) : ℚ) =
        digits * 10 ^ (n : Int) := by
      rw [zpow_natCast]
      push_cast
      norm_num
      ring
    rw [hshift]
    exact hvalue ▸ hr
  · rename_i hexp
    obtain ⟨n, rfl⟩ := Int.eq_negSucc_of_lt_zero (not_le.1 hexp)
    refine div_of_rounds _ _ hm ?_
    have hvalue : (digits * 2 ^ (0 : Int) / ((10 ^ (n + 1) : Nat) * 2 ^ (0 : Int)) : ℚ) =
        digits * 10 ^ Int.negSucc n := by
      rw [zpow_negSucc, div_eq_mul_inv]
      push_cast
      norm_num
    exact hvalue ▸ hr

end

section

variable {m₁ m₂ : Nat} {e₁ e₂ : Int} (h₁ : IsKept m₁ e₁) (h₂ : IsKept m₂ e₂) (hm : IsKept m e)

theorem ofKept_mul (hfull : 2 ^ 52 ≤ m₁) (hr : Rounds (m₁ * 2 ^ e₁ * (m₂ * 2 ^ e₂)) m e) :
    ofKept h₁ .positive * ofKept h₂ .positive = ofKept hm .positive := by
  change Float.ofModel (.pack (mul Format.binary64 (ofKept h₁ .positive).toModel.unpack
    (ofKept h₂ .positive).toModel.unpack)) = _
  have hlong := Nat.le_trans hfull (Nat.le_mul_of_pos_right m₁ h₂.pos)
  rw [unpack_ofKept, unpack_ofKept, mul_of_rounds h₁.pos h₂.pos hm hlong hr]
  rfl

theorem ofKept_div (hr : Rounds (m₁ * 2 ^ e₁ / (m₂ * 2 ^ e₂)) m e) :
    ofKept h₁ .positive / ofKept h₂ .positive = ofKept hm .positive := by
  change Float.ofModel (.pack (div Format.binary64 (ofKept h₁ .positive).toModel.unpack
    (ofKept h₂ .positive).toModel.unpack)) = _
  rw [unpack_ofKept, unpack_ofKept, div_of_rounds h₁.pos h₂.pos hm hr]
  rfl

end

/-- Reading is correct to the last bit, on the table of exact powers of ten and beyond it. -/
theorem toFloat_of_rounds {digits : Nat} {exp : Int} (hm : IsKept m e)
    (hr : Rounds (digits * 10 ^ exp) m e) : toFloat digits exp = ofKept hm .positive := by
  have hpos := digits_pos hm hr
  have hslow := congrArg (fun x => Float.ofModel (.pack x)) (ofScientific_of_rounds hm hr)
  cases exp with
  | ofNat n =>
    simp only [toFloat, Float.ofScientific]
    split
    · rename_i hfast
      obtain ⟨m₁, e₁, h₁, hfull, hvalue₁, hdigits⟩ := exists_natural hpos hfast.1
      obtain ⟨m₂, e₂, h₂, hvalue₂, hpower⟩ := exists_powerOfTen (Nat.lt_succ_of_le hfast.2)
      rw [if_neg (by decide), hdigits]
      refine (congrArg _ hpower).trans (ofKept_mul h₁ h₂ hm hfull ?_)
      rw [hvalue₁, hvalue₂]
      exact hr
    · exact hslow
  | negSucc n =>
    simp only [toFloat, Float.ofScientific]
    split
    · rename_i hfast
      obtain ⟨m₁, e₁, h₁, -, hvalue₁, hdigits⟩ := exists_natural hpos hfast.1
      obtain ⟨m₂, e₂, h₂, hvalue₂, hpower⟩ := exists_powerOfTen (Nat.lt_succ_of_le hfast.2)
      rw [if_pos trivial, hdigits]
      refine (congrArg _ hpower).trans (ofKept_div h₁ h₂ hm ?_)
      rw [hvalue₁, hvalue₂, div_eq_mul_inv]
      exact hr
    · exact hslow

end InstrumentBus.Decimal
