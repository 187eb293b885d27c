import InstrumentBus.Decimal.Shortest
import InstrumentBus.Proofs.Decimal.Reading

/-!
The shortest decimal is rounded to the float that it is written for.
-/

namespace InstrumentBus.Decimal

theorem zpow_eq_div {a : Nat} (ha : 0 < a) (e : Int) :
    (a : ℚ) ^ e = (a ^ e.toNat : Nat) / (a ^ (-e).toNat : Nat) := by
  have hne : (a : ℚ) ≠ 0 := by exact_mod_cast Nat.ne_of_gt ha
  have hexp : e = (e.toNat : Int) - ((-e).toNat : Int) := by omega
  push_cast
  rw [← zpow_natCast, ← zpow_natCast, ← zpow_sub₀ hne, ← hexp]

namespace Interval

section

variable {i : Interval} {e : Int}

theorem onGrid?_eq_some {d : Scaled} (h : i.onGrid? e = some d) :
    d.exp = e ∧ i.holds (d.digits * 10 ^ e.toNat) (10 ^ (-e).toNat) = true := by
  simp only [onGrid?] at h
  split at h
  · rename_i hnear
    cases h
    exact ⟨rfl, (Bool.and_eq_true_iff.1 hnear).2⟩
  · rw [Option.ite_none_right_eq_some] at h
    obtain ⟨hfar, h⟩ := h
    cases h
    exact ⟨rfl, (Bool.and_eq_true_iff.1 hfar).2⟩

theorem holds_of_eq (hlow : i.low < i.value) (hhigh : i.value < i.high) {num den : Nat}
    (hden : 0 < den) (h : num * i.den = i.value * den) : i.holds num den = true := by
  have hlow := Nat.mul_lt_mul_of_pos_right hlow hden
  have hhigh := Nat.mul_lt_mul_of_pos_right hhigh hden
  simp only [holds, h]
  split
  · simp only [Bool.and_eq_true, decide_eq_true_eq]
    omega
  · simp only [Bool.and_eq_true, decide_eq_true_eq]
    omega

theorem isSome_onGrid? (hlow : i.low < i.value) (hhigh : i.value < i.high) (hden : 0 < i.den)
    {n : Nat} (h : i.value * 10 ^ (-e).toNat = n * (i.den * 10 ^ e.toNat)) :
    (i.onGrid? e).isSome = true := by
  have hunit : 0 < 10 ^ (-e).toNat := Nat.pow_pos (by decide)
  have hstep : 0 < i.den * 10 ^ e.toNat := Nat.mul_pos hden (Nat.pow_pos (by decide))
  have hn : n ≠ 0 := by
    intro hn
    have hpos := Nat.mul_pos (Nat.lt_of_le_of_lt (Nat.zero_le _) hlow) hunit
    rw [h, hn, Nat.zero_mul] at hpos
    exact Nat.lt_irrefl 0 hpos
  have hnear : roundDiv .up (i.value * 10 ^ (-e).toNat) (i.den * 10 ^ e.toNat) = n := by
    rw [h, roundDiv_up_mul hstep]
  have hholds : i.holds (n * 10 ^ e.toNat) (10 ^ (-e).toNat) = true := by
    apply holds_of_eq hlow hhigh hunit
    rw [h, Nat.mul_assoc, Nat.mul_comm (10 ^ e.toNat)]
  simp only [onGrid?, inUnits, Nat.pow_eq, hnear]
  rw [if_pos]
  · rfl
  · rw [Bool.and_eq_true, decide_eq_true_eq]
    exact ⟨hn, hholds⟩

theorem coarsest_onGrid {fuel : Nat} (h : ∃ k < fuel, (i.onGrid? (e - (k : Nat))).isSome = true) :
    ∃ e', i.onGrid? e' = some (i.coarsest fuel e) := by
  induction fuel generalizing e with
  | zero =>
    obtain ⟨k, hk, -⟩ := h
    exact absurd hk (Nat.not_lt_zero k)
  | succ fuel ih =>
    rw [coarsest]
    cases hgrid : i.onGrid? e with
    | some d => exact ⟨e, hgrid⟩
    | none =>
      obtain ⟨k, hk, hsome⟩ := h
      cases k with
      | zero =>
        rw [Int.natCast_zero, Int.sub_zero, hgrid] at hsome
        cases hsome
      | succ k =>
        apply ih
        refine ⟨k, Nat.lt_of_succ_lt_succ hk, ?_⟩
        rwa [Int.sub_sub, Int.add_comm 1, ← Int.natCast_succ]

end

section

variable {m : Nat} {e : Int}

theorem ofDyadic_low_lt (hpos : 0 < m) : (ofDyadic m e).low < (ofDyadic m e).value := by
  apply Nat.mul_lt_mul_of_pos_right
  · split <;> omega
  · exact Nat.mul_pos Nat.one_pos (Nat.two_pow_pos _)

theorem ofDyadic_lt_high : (ofDyadic m e).value < (ofDyadic m e).high := by
  apply Nat.mul_lt_mul_of_pos_right
  · omega
  · exact Nat.mul_pos Nat.one_pos (Nat.two_pow_pos _)

theorem quarter_eq (e : Int) (x : ℚ) :
    x / 4 * 2 ^ e = x * (2 ^ (e - 2).toNat : Nat) / (2 ^ (-(e - 2)).toNat : Nat) := by
  rw [mul_div_assoc, ← zpow_eq_div (by decide), zpow_sub₀ (by norm_num)]
  push_cast
  ring

section

variable {num den : Nat} (hden : 0 < den) (e : Int) (x : Nat)
include hden

theorem scaled_le_iff : x * 2 ^ (e - 2).toNat * den ≤ num * 2 ^ (-(e - 2)).toNat ↔
    (x / 4 : ℚ) * 2 ^ e ≤ num / den := by
  have hd : (0 : ℚ) < den := by exact_mod_cast hden
  have hscale : (0 : ℚ) < (2 ^ (-(e - 2)).toNat : Nat) := by positivity
  rw [quarter_eq, div_le_div_iff₀ hscale hd]
  exact_mod_cast Iff.rfl

theorem le_scaled_iff : num * 2 ^ (-(e - 2)).toNat ≤ x * 2 ^ (e - 2).toNat * den ↔
    (num / den : ℚ) ≤ x / 4 * 2 ^ e := by
  have hd : (0 : ℚ) < den := by exact_mod_cast hden
  have hscale : (0 : ℚ) < (2 ^ (-(e - 2)).toNat : Nat) := by positivity
  rw [quarter_eq, div_le_div_iff₀ hd hscale]
  exact_mod_cast Iff.rfl

end

theorem quarters_low (hpos : 0 < m) : ((4 * m - (if m = 2 ^ 52 then 1 else 2) : Nat) / 4 : ℚ) =
    m - if m = 2 ^ 52 then 1 / 4 else 1 / 2 := by
  rw [Nat.cast_sub (by split <;> omega)]
  split
  · push_cast
    ring
  · push_cast
    ring

theorem quarters_high : ((4 * m + 2 : Nat) / 4 : ℚ) = m + 1 / 2 := by
  push_cast
  ring

theorem rounds_of_holds (hpos : 0 < m) {num den : Nat} (hden : 0 < den)
    (h : (ofDyadic m e).holds num den = true) : Rounds (num / den) m e := by
  simp only [ofDyadic, dyadic, holds, Nat.pow_eq, Nat.one_mul] at h
  split at h
  · rename_i heven
    simp only [Bool.and_eq_true, decide_eq_true_eq, scaled_le_iff hden, le_scaled_iff hden,
      quarters_low hpos, quarters_high] at h
    refine ⟨h.1, h.2, fun hodd => ?_⟩
    rw [beq_iff_eq, hodd] at heven
    cases heven
  · rename_i hodd
    have hne : m ≠ 2 ^ 52 := by
      intro hm
      rw [hm] at hodd
      exact hodd rfl
    simp only [Bool.and_eq_true, decide_eq_true_eq, ← not_le, scaled_le_iff hden,
      le_scaled_iff hden, quarters_low hpos, quarters_high] at h
    simp only [not_le] at h
    refine ⟨le_of_lt h.1, le_of_lt h.2, fun _ => ?_⟩
    rw [if_neg hne] at h
    exact h

end

end Interval

variable {m : Nat} {e : Int}

theorem exists_onGrid (hm : IsKept m e) : ∃ k < 800, ((Interval.ofDyadic m e).onGrid?
    (decimalBound (m.log2 + e + 2) - (k : Nat))).isSome = true := by
  have hlog : m.log2 ≤ 52 := Nat.le_of_lt_succ ((Nat.log2_lt (Nat.ne_of_gt hm.pos)).2 hm.lt)
  have hmin := hm.min_le
  have hmax := hm.le_max
  generalize hi : Interval.ofDyadic m e = i
  generalize hp : (-(e - 2)).toNat = p
  have hden : i.den = 2 ^ p := by rw [← hi, ← hp]; rfl
  -- In steps of `10 ^ (-p)` the value is whole, and the search comes there in time.
  obtain ⟨k, hk, hfine⟩ : ∃ k < 800, decimalBound (m.log2 + e + 2) - (k : Nat) = -(p : Int) := by
    refine ⟨(decimalBound (m.log2 + e + 2) + p).toNat, ?_, ?_⟩
    · simp only [decimalBound]
      split <;> omega
    · simp only [decimalBound]
      split <;> omega
  have hlow : i.low < i.value := hi ▸ Interval.ofDyadic_low_lt hm.pos
  have hhigh : i.value < i.high := hi ▸ Interval.ofDyadic_lt_high
  refine ⟨k, hk, ?_⟩
  rw [hfine]
  apply Interval.isSome_onGrid? hlow hhigh (hden ▸ Nat.two_pow_pos p) (n := i.value * 5 ^ p)
  have hcoarse : (-(p : Int)).toNat = 0 := by omega
  rw [Int.neg_neg, Int.toNat_natCast, hcoarse, hden, Nat.pow_zero, Nat.mul_one, Nat.mul_assoc,
    ← Nat.mul_pow]

theorem rounds_shortest (hm : IsKept m e) :
    Rounds ((shortest m e).digits * 10 ^ (shortest m e).exp) m e := by
  obtain ⟨e', hgrid⟩ := Interval.coarsest_onGrid (exists_onGrid hm)
  obtain ⟨hexp, hholds⟩ := Interval.onGrid?_eq_some hgrid
  have hr := Interval.rounds_of_holds hm.pos (Nat.pow_pos (by decide)) hholds
  have hten : (10 : ℚ) ^ e' = (10 ^ e'.toNat : Nat) / (10 ^ (-e').toNat : Nat) :=
    zpow_eq_div (by decide) e'
  rwa [Nat.cast_mul, mul_div_assoc, ← hten, ← hexp] at hr

end InstrumentBus.Decimal
