import InstrumentBus.Proofs.Decimal.Whole

/-!
The order of floats. A difference of two floats has the sign that their order gives it: rounding
loses no difference, however small.
-/

namespace InstrumentBus.Decimal

open Float.Model (Format UnpackedFloat totalExponent)
open Float.Model.UnpackedFloat

section

variable {x y : Float}

theorem lt_iff : x < y ↔ x.toModel.unpack.compare y.toModel.unpack = some .lt :=
  decide_eq_true_iff.trans beq_iff_eq

theorem le_iff :
    x ≤ y ↔ ∃ o, x.toModel.unpack.compare y.toModel.unpack = some o ∧ o.isLE = true := by
  refine decide_eq_true_iff.trans ?_
  change (x.toModel.unpack.compare y.toModel.unpack).any (·.isLE) = true ↔ _
  simp [Option.any_eq_true]

theorem beq_iff : (x == y) = true ↔ x.toModel.unpack.compare y.toModel.unpack = some .eq := by
  change (x.toModel.unpack.compare y.toModel.unpack == some .eq) = true ↔ _
  exact beq_iff_eq

theorem compare_swap (a b : UnpackedFloat) : b.compare a = (a.compare b).map Ordering.swap := by
  cases a with
  | notANumber => cases b <;> rfl
  | infinity s =>
    cases b with
    | infinity t => cases s <;> cases t <;> rfl
    | _ => cases s <;> rfl
  | zero s =>
    cases b with
    | notANumber => rfl
    | zero t => rfl
    | infinity t => cases t <;> rfl
    | finite t => cases t <;> rfl
  | finite s m e =>
    cases b with
    | notANumber => cases s <;> rfl
    | zero t => cases s <;> rfl
    | infinity t => cases s <;> cases t <;> rfl
    | finite t n f =>
      cases s <;> cases t <;>
        simp [UnpackedFloat.compare, Ordering.swap_then, Int.compare_swap, Nat.compare_swap]

theorem compare_eq_none {a b : UnpackedFloat} (h : a.compare b = none) :
    a.isNaN = true ∨ b.isNaN = true := by
  cases a with
  | notANumber => exact .inl rfl
  | infinity s =>
    cases b with
    | notANumber => exact .inr rfl
    | infinity t => cases h
    | _ => cases s <;> cases h
  | zero s =>
    cases b with
    | notANumber => exact .inr rfl
    | zero t => cases h
    | infinity t => cases t <;> cases h
    | finite t => cases t <;> cases h
  | finite s m e =>
    cases b with
    | notANumber => exact .inr rfl
    | zero t => cases s <;> cases h
    | infinity t => cases s <;> cases t <;> cases h
    | finite t n f => cases s <;> cases t <;> cases h

theorem beq_self (hx : x.isNaN = false) : (x == x) = true := by
  have hswap := compare_swap x.toModel.unpack x.toModel.unpack
  rw [beq_iff]
  cases h : x.toModel.unpack.compare x.toModel.unpack with
  | none => cases hx.symm.trans ((compare_eq_none h).elim id id)
  | some o =>
    rw [h] at hswap
    cases o with
    | eq => rfl
    | lt => cases hswap
    | gt => cases hswap

theorem not_le_iff (hx : x.isNaN = false) (hy : y.isNaN = false) : ¬x ≤ y ↔ y < x := by
  rw [le_iff, lt_iff, compare_swap x.toModel.unpack]
  cases h : x.toModel.unpack.compare y.toModel.unpack with
  | none =>
    obtain hnan | hnan := compare_eq_none h
    · cases hx.symm.trans hnan
    · cases hy.symm.trans hnan
  | some o => cases o <;> simp

theorem not_lt_iff (hx : x.isNaN = false) (hy : y.isNaN = false) : ¬x < y ↔ y ≤ x := by
  rw [← not_le_iff hy hx, not_not]

theorem isNaN_of_le (h : x ≤ y) : x.isNaN = false := by
  obtain ⟨o, hcompare, -⟩ := le_iff.1 h
  change x.toModel.unpack.isNaN = false
  cases hx : x.toModel.unpack with
  | notANumber =>
    rw [hx] at hcompare
    cases hcompare
  | _ => rfl

theorem isNaN_of_isFinite (h : x.isFinite = true) : x.isNaN = false := by
  change x.toModel.unpack.isFinite = true at h
  change x.toModel.unpack.isNaN = false
  cases hx : x.toModel.unpack with
  | notANumber =>
    rw [hx] at h
    cases h
  | _ => rfl

theorem isFinite_of_beq (hy : y.isFinite = true) (h : (x == y) = true) : x.isFinite = true := by
  rw [beq_iff] at h
  change x.toModel.unpack.isFinite = true
  have hy : y.toModel.unpack.isFinite = true := hy
  cases hx : x.toModel.unpack with
  | zero s => rfl
  | finite s m e hm => rfl
  | notANumber =>
    rw [hx] at h
    cases h
  | infinity s =>
    rw [hx] at h
    cases hv : y.toModel.unpack with
    | infinity t =>
      rw [hv] at hy
      cases hy
    | _ =>
      rw [hv] at h
      cases s <;> cases h

theorem eq_or_zero_of_beq (hy : y.isFinite = true) (h : (x == y) = true) :
    x = y ∨ (x == 0) = true ∧ (y == 0) = true := by
  have hx := isFinite_of_beq hy h
  rw [beq_iff] at h
  obtain ⟨s, hu, rfl⟩ | ⟨s, m, e, hm, hu, rfl⟩ := eq_of_isFinite hx
  · obtain ⟨t, hv, rfl⟩ | ⟨t, n, f, hn, hv, rfl⟩ := eq_of_isFinite hy
    · right
      constructor
      · cases s <;> decide +kernel
      · cases t <;> decide +kernel
    · rw [hu, hv] at h
      cases t <;> cases h
  · obtain ⟨t, hv, rfl⟩ | ⟨t, n, f, hn, hv, rfl⟩ := eq_of_isFinite hy
    · rw [hu, hv] at h
      cases s <;> cases h
    · left
      rw [hu, hv] at h
      have hsame : s = t ∧ e = f ∧ m = n := by
        cases s <;> cases t <;> simp_all [UnpackedFloat.compare, Ordering.then_eq_eq]
      obtain ⟨rfl, rfl, rfl⟩ := hsame
      rfl

theorem zero_eq : (0 : Float) = .ofModel (.pack (.zero .positive)) := by decide +kernel

theorem eq_zero_of_beq (h : (x == 0) = true) : x = 0 ∨ x = -0 := by
  have hfinite := isFinite_of_beq (by decide +kernel) h
  obtain ⟨s, -, rfl⟩ | ⟨s, m, e, hm, hu, -⟩ := eq_of_isFinite hfinite
  · cases s with
    | positive => exact .inl (by decide +kernel)
    | negative => exact .inr (by decide +kernel)
  · rw [beq_iff, hu, zero_eq] at h
    cases s <;> cases h

end

section

variable {m n : Nat} {e f : Int}

theorem compare_of_lt (hm : IsKept m e) (hn : IsKept n f) (h : e < f) :
    compare m (n * 2 ^ (f - e).toNat) = .lt := by
  have hfull : 2 ^ 52 ≤ n := hn.full.resolve_right (by have := hm.min_le; omega)
  obtain ⟨k, hk⟩ : ∃ k, (f - e).toNat = k + 1 := ⟨(f - e).toNat - 1, by omega⟩
  rw [Nat.compare_eq_lt, hk]
  calc m < 2 ^ 52 * 2 ^ 1 := hm.lt
    _ ≤ n * 2 ^ (k + 1) := Nat.mul_le_mul hfull (Nat.pow_le_pow_right (by decide) (by omega))

theorem compare_scaled (hm : IsKept m e) (hn : IsKept n f) :
    (compare e f).then (compare m n) =
      compare (m * 2 ^ (e - min e f).toNat) (n * 2 ^ (f - min e f).toNat) := by
  obtain h | rfl | h := lt_trichotomy e f
  · rw [Int.compare_eq_lt.2 h, min_eq_left (Int.le_of_lt h), Int.sub_self, Int.toNat_zero,
      Nat.pow_zero, Nat.mul_one, compare_of_lt hm hn h]
    rfl
  · simp
  · rw [Int.compare_eq_gt.2 h, min_eq_right (Int.le_of_lt h), Int.sub_self, Int.toNat_zero,
      Nat.pow_zero, Nat.mul_one, Nat.compare_eq_gt.2 (Nat.compare_eq_lt.1 (compare_of_lt hn hm h))]
    rfl

theorem compare_natCast (a b : Nat) : compare (a : Int) b = compare a b := by
  simp only [Int.compare_eq_ite_lt, Nat.compare_eq_ite_lt, Int.ofNat_lt]

theorem compare_neg (a b : Int) : compare (-a) (-b) = (compare a b).swap := by
  rw [Int.compare_swap]
  simp only [Int.compare_eq_ite_lt, Int.neg_lt_neg_iff]

theorem compare_finite (hm : IsKept m e) (hn : IsKept n f) (s t : Sign) :
    UnpackedFloat.compare (.finite s m e hm.pos) (.finite t n f hn.pos) =
      some (compare (s.apply (m * 2 ^ (e - min e f).toNat : Nat))
        (t.apply (n * 2 ^ (f - min e f).toNat : Nat))) := by
  have hpos := Nat.mul_pos hm.pos (Nat.two_pow_pos (e - min e f).toNat)
  have hpos' := Nat.mul_pos hn.pos (Nat.two_pow_pos (f - min e f).toNat)
  have hscaled := compare_scaled hm hn
  generalize m * 2 ^ (e - min e f).toNat = M at hpos hscaled ⊢
  generalize n * 2 ^ (f - min e f).toNat = N at hpos' hscaled ⊢
  cases s with
  | negative =>
    cases t with
    | negative =>
      simp only [UnpackedFloat.compare, hscaled, Sign.apply, compare_neg, compare_natCast]
    | positive =>
      exact congrArg some (Int.compare_eq_lt.2 (by simp only [Sign.apply]; omega)).symm
  | positive =>
    cases t with
    | negative =>
      exact congrArg some (Int.compare_eq_gt.2 (by simp only [Sign.apply]; omega)).symm
    | positive =>
      simp only [UnpackedFloat.compare, hscaled, Sign.apply, compare_natCast]

end

/-- What is neither zero nor NaN, and has the sign `s`. -/
def IsSigned (s : Sign) : UnpackedFloat → Prop
  | .infinity t => t = s
  | .finite t _ _ _ => t = s
  | _ => False

theorem IsSigned.ne {u : UnpackedFloat} (h : IsSigned .negative u) : ¬IsSigned .positive u := by
  cases u <;> simp_all [IsSigned]

@[simp] theorem unpack_pack_infinity (s : Sign) :
    (Float.Model.pack (.infinity s)).unpack = .infinity s := by
  cases s <;> rfl

@[simp] theorem unpack_pack_zero (s : Sign) : (Float.Model.pack (.zero s)).unpack = .zero s := by
  cases s <;> rfl

@[simp] theorem unpack_pack_notANumber :
    (Float.Model.pack .notANumber).unpack = .notANumber := by
  rfl

theorem isSigned_pack {m : Nat} {e : Int} (hpos : 0 < m) (hlt : m < 2 ^ 53) (hmin : -1074 ≤ e)
    (hfull : 2 ^ 52 ≤ m ∨ e = -1074) (s : Sign) :
    IsSigned s (Float.Model.pack (.finite s m e hpos)).unpack := by
  by_cases hmax : e ≤ 971
  · rw [unpack_pack ⟨hlt, hmin, hmax, hfull, hpos⟩]
    rfl
  · have hpack : Float.Model.pack (.finite s m e hpos) = .pack (.infinity s) := by
      apply toModel_ext
      simp only [Float.Model.pack, UnpackedFloat.pack]
      rw [if_pos]
      change 2048 ≤ (e + 1023 + 52).toNat + 1
      omega
    rw [hpack, unpack_pack_infinity]
    rfl

theorem roundDiv_toEven_cases {den : Nat} (hden : 0 < den) (num : Nat) :
    roundDiv .toEven num den = num / den ∨
      roundDiv .toEven num den = num / den + 1 ∧ 0 < num % den := by
  simp only [roundDiv]
  cases h : compare (2 * (num % den)) den with
  | lt => exact .inl rfl
  | gt =>
    rw [Nat.compare_eq_gt] at h
    exact .inr ⟨rfl, by omega⟩
  | eq =>
    rw [Nat.compare_eq_eq] at h
    dsimp only
    omega

theorem roundDiv_toEven_le {num den n : Nat} (hden : 0 < den) (h : num ≤ n * den) :
    roundDiv .toEven num den ≤ n := by
  obtain hr | ⟨hr, hmod⟩ := roundDiv_toEven_cases hden num
  · rw [hr]
    exact (Nat.div_le_div_right h).trans_eq (Nat.mul_div_cancel n hden)
  · rw [hr]
    refine Nat.lt_of_mul_lt_mul_left (a := den) ?_
    have := Nat.div_add_mod num den
    rw [Nat.mul_comm den n]
    omega

theorem le_roundDiv_toEven {num den n : Nat} (hden : 0 < den) (h : n * den ≤ num) :
    n ≤ roundDiv .toEven num den := by
  have hle : n ≤ num / den := (Nat.le_div_iff_mul_le hden).2 h
  have := roundDiv_toEven_cases hden num
  omega

theorem roundDiv_one (num : Nat) : roundDiv .toEven num 1 = num := by
  simp only [roundDiv, Nat.mod_one, Nat.div_one]
  rfl

/-- No kept magnitude lies between `v` and `w`, so that rounding may turn one into the other. -/
structure KeepsOrder (v w : ℚ) : Prop where
  le : ∀ {m e}, IsKept m e → v ≤ m * 2 ^ e → w ≤ m * 2 ^ e
  ge : ∀ {m e}, IsKept m e → m * 2 ^ e ≤ v → m * 2 ^ e ≤ w

theorem IsKept.lt_zpow {m : Nat} {e : Int} (h : IsKept m e) : (m * 2 ^ e : ℚ) < 2 ^ (53 + e) := by
  have hlt : (m : ℚ) < 2 ^ (53 : Int) := by exact_mod_cast h.lt
  rw [zpow_add₀ (by norm_num)]
  exact mul_lt_mul_of_pos_right hlt (two_zpow_pos e)

theorem mul_zpow_eq (m : Nat) {e f : Int} (h : f ≤ e) :
    (m * 2 ^ e : ℚ) = (m * 2 ^ (e - f).toNat : Nat) * 2 ^ f := by
  push_cast
  rw [mul_assoc, ← zpow_natCast, ← zpow_add₀ (by norm_num)]
  congr 2
  omega

/-- Rounding to the bits that there is room for does not pass a kept magnitude: one over a higher
exponent is a whole number of them, and one over a lower exponent is not as long. -/
theorem keepsOrder_roundDiv {q : Nat} {E t : Int} (hq : 0 < q)
    (ht : max ((q.log2 : Int) + E - 52) (-1074) = t) (hEt : E ≤ t) :
    KeepsOrder (q * 2 ^ E) (roundDiv .toEven q (2 ^ (t - E).toNat) * 2 ^ t) := by
  have hden : 0 < 2 ^ (t - E).toNat := Nat.two_pow_pos _
  have hlog : (2 : ℚ) ^ ((q.log2 : Int) + E) ≤ q * 2 ^ E := by
    have hself : ((2 ^ q.log2 : Nat) : ℚ) ≤ q := by
      exact_mod_cast Nat.log2_self_le (Nat.ne_of_gt hq)
    rw [zpow_add₀ (by norm_num), zpow_natCast]
    exact mul_le_mul_of_nonneg_right (by exact_mod_cast hself) (le_of_lt (two_zpow_pos E))
  have hlow {m : Nat} {e : Int} (hm : IsKept m e) (he : e < t) : (m * 2 ^ e : ℚ) < 2 ^ (52 + t) :=
    hm.lt_zpow.trans_le (zpow_le_zpow_right₀ (by norm_num) (by omega))
  have hscale (n : Nat) : (n * 2 ^ t : ℚ) = (n * 2 ^ (t - E).toNat : Nat) * 2 ^ E := mul_zpow_eq n hEt
  constructor
  · intro m e hm hle
    by_cases he : t ≤ e
    · rw [mul_zpow_eq m he] at hle ⊢
      rw [hscale, mul_le_mul_iff_of_pos_right (two_zpow_pos E), Nat.cast_le] at hle
      rw [mul_le_mul_iff_of_pos_right (two_zpow_pos t), Nat.cast_le]
      exact roundDiv_toEven_le hden hle
    · have := hm.min_le
      have hlog : (2 : ℚ) ^ (52 + t) ≤ q * 2 ^ E := by
        rwa [show 52 + t = (q.log2 : Int) + E by omega]
      exact absurd hle (not_le.2 ((hlow hm (by omega)).trans_le hlog))
  · intro m e hm hle
    by_cases he : t ≤ e
    · rw [mul_zpow_eq m he] at hle ⊢
      rw [hscale, mul_le_mul_iff_of_pos_right (two_zpow_pos E), Nat.cast_le] at hle
      rw [mul_le_mul_iff_of_pos_right (two_zpow_pos t), Nat.cast_le]
      exact le_roundDiv_toEven hden hle
    · have := hm.min_le
      refine (hlow hm (by omega)).le.trans ?_
      have hlong : 2 ^ 52 * 2 ^ (t - E).toNat ≤ q := by
        rw [← Nat.pow_add, show 52 + (t - E).toNat = q.log2 by omega]
        exact Nat.log2_self_le (Nat.ne_of_gt hq)
      have hbits : ((2 ^ 52 : Nat) : ℚ) ≤ roundDiv .toEven q (2 ^ (t - E).toNat) := by
        exact_mod_cast le_roundDiv_toEven hden hlong
      rw [zpow_add₀ (by norm_num)]
      exact mul_le_mul_of_nonneg_right (by exact_mod_cast hbits) (le_of_lt (two_zpow_pos t))

theorem exists_roundWithAccuracy (s : Sign) {q : Nat} {E : Int} (hq : 0 < q) (hE : -1074 ≤ E)
    (hlong : 2 ^ 52 ≤ q ∨ E = -1074) :
    ∃ (m : Nat) (e : Int) (h : 0 < m),
      roundWithAccuracy Format.binary64 s q E .exact = .finite s m e h ∧
        m < 2 ^ 53 ∧ -1074 ≤ e ∧ (2 ^ 52 ≤ m ∨ e = -1074) ∧ KeepsOrder (q * 2 ^ E) (m * 2 ^ e) := by
  have hne := Nat.ne_of_gt hq
  have hlow := Nat.log2_self_le hne
  have hhigh := Nat.lt_log2_self (n := q)
  generalize ht : max ((q.log2 : Int) + E - 52) (-1074) = t
  have hlog : 2 ^ 52 ≤ q → 52 ≤ q.log2 := (Nat.le_log2 hne).2
  have hEt : E ≤ t := by omega
  have hfirst := shiftToTargetExponent_eq .exact ht hEt
  have hround := ((isQuotient_exact q).shiftRight Nat.one_pos (t - E).toNat).roundedMantissa
  rw [Nat.one_mul] at hround
  have horder := keepsOrder_roundDiv hq ht hEt
  generalize hr : roundDiv .toEven q (2 ^ (t - E).toNat) = r at hround horder
  -- At most one bit is carried.
  have hbounds : r ≤ 2 ^ 53 ∧ (2 ^ 52 ≤ r ∨ t = -1074) ∧ 0 < r := by
    by_cases hshort : t = E
    · rw [hshort, Int.sub_self, Int.toNat_zero, Nat.pow_zero, roundDiv_one] at hr
      have : q.log2 < 53 := by omega
      have := (Nat.log2_lt hne).1 this
      omega
    · obtain ⟨k, hk⟩ : ∃ k, q.log2 = 52 + k := ⟨q.log2 - 52, by omega⟩
      have hshift : (t - E).toNat = k := by omega
      have hquot : 2 ^ 52 ≤ q / 2 ^ k ∧ q / 2 ^ k < 2 ^ 53 := by
        rw [hk, Nat.pow_add] at hlow
        rw [hk, Nat.add_right_comm, Nat.pow_add] at hhigh
        exact ⟨(Nat.le_div_iff_mul_le (Nat.two_pow_pos k)).2 hlow,
          (Nat.div_lt_iff_lt_mul (Nat.two_pow_pos k)).2 hhigh⟩
      rw [hshift] at hr
      have := roundDiv_toEven_cases (Nat.two_pow_pos k) q
      omega
  obtain ⟨hle, hfull, hpos⟩ := hbounds
  by_cases hcarry : r = 2 ^ 53
  · refine ⟨2 ^ 52, t + 1, by decide,
      roundWithAccuracy_of_first (by decide) (by decide) (by omega) (.inl (Nat.le_refl _)) hfirst
        hround (.inr ⟨hcarry, rfl, by omega⟩),
      by decide, by omega, .inl (Nat.le_refl _), ?_⟩
    have hcarried : ((2 ^ 52 : Nat) * 2 ^ (t + 1) : ℚ) = r * 2 ^ t := by
      rw [hcarry, zpow_add_one₀ (by norm_num)]
      push_cast
      ring
    rwa [hcarried]
  · exact ⟨r, t, hpos,
      roundWithAccuracy_of_first hpos (by omega) (by omega) hfull hfirst hround (.inl ⟨rfl, rfl⟩),
      by omega, by omega, hfull, horder⟩

theorem exists_rounded (s : Sign) {m : Nat} {e : Int} (hm : 0 < m) (he : -1074 ≤ e) :
    ∃ (n : Nat) (f : Int) (h : 0 < n),
      UnpackedFloat.round Format.binary64 s m e = .finite s n f h ∧
        n < 2 ^ 53 ∧ -1074 ≤ f ∧ (2 ^ 52 ≤ n ∨ f = -1074) ∧ KeepsOrder (m * 2 ^ e) (n * 2 ^ f) := by
  have hne := Nat.ne_of_gt hm
  generalize ht : max ((m.log2 : Int) + e - 52) (-1074) = t
  have hround : UnpackedFloat.round Format.binary64 s m e = roundWithAccuracy Format.binary64 s
      (m * 2 ^ (e - t).toNat) (e - (e - t).toNat) .exact := by
    simp only [UnpackedFloat.round, targetExponent_eq, decreaseExponent, ht, Nat.shiftLeft_eq]
  have hlong : 2 ^ 52 ≤ m * 2 ^ (e - t).toNat ∨ e - (e - t).toNat = -1074 := by
    by_cases hmin : t = -1074
    · exact .inr (by omega)
    · refine .inl ?_
      calc 2 ^ 52 ≤ 2 ^ (m.log2 + (e - t).toNat) := Nat.pow_le_pow_right (by decide) (by omega)
        _ = 2 ^ m.log2 * 2 ^ (e - t).toNat := Nat.pow_add _ _ _
        _ ≤ m * 2 ^ (e - t).toNat := Nat.mul_le_mul_right _ (Nat.log2_self_le hne)
  have hsame : ((m * 2 ^ (e - t).toNat : Nat) * 2 ^ (e - (e - t).toNat) : ℚ) = m * 2 ^ e := by
    rw [zpow_sub₀ (by norm_num), zpow_natCast]
    push_cast
    field_simp
  rw [hround, ← hsame]
  exact exists_roundWithAccuracy s (Nat.mul_pos hm (Nat.two_pow_pos (e - t).toNat)) (by omega) hlong

theorem isSigned_round (s : Sign) {m : Nat} {e : Int} (hm : 0 < m) (he : -1074 ≤ e) :
    IsSigned s (Float.Model.pack (UnpackedFloat.round Format.binary64 s m e)).unpack := by
  obtain ⟨n, f, hpos, hround, hlt, hmin, hfull, -⟩ := exists_rounded s hm he
  rw [hround]
  exact isSigned_pack hpos hlt hmin hfull s

theorem pos_iff {x : Float} : 0 < x ↔ IsSigned .positive x.toModel.unpack := by
  rw [lt_iff, zero_eq]
  change UnpackedFloat.compare (Float.Model.pack (.zero .positive)).unpack _ = _ ↔ _
  rw [unpack_pack_zero]
  cases x.toModel.unpack with
  | notANumber => exact iff_of_false nofun id
  | infinity s => cases s <;> simp +decide [IsSigned]
  | zero s => exact iff_of_false nofun id
  | finite s m e h => cases s <;> simp +decide [UnpackedFloat.compare, IsSigned]

theorem isSigned_normalize {d e : Int} (he : -1074 ≤ e) :
    IsSigned .positive
      (Float.Model.pack (UnpackedFloat.normalize Format.binary64 d e .positive)).unpack ↔ 0 < d := by
  obtain h | rfl | h := lt_trichotomy d 0
  · have hround := isSigned_round .negative (m := (-d).toNat) (by omega) he
    rw [UnpackedFloat.normalize, Int.compare_eq_lt.2 h]
    exact iff_of_false hround.ne (by omega)
  · rw [UnpackedFloat.normalize, Int.compare_eq_eq.2 rfl, unpack_pack_zero]
    exact iff_of_false id (by decide)
  · have hround := isSigned_round .positive (m := d.toNat) (by omega) he
    rw [UnpackedFloat.normalize, Int.compare_eq_gt.2 h]
    exact iff_of_true hround h

theorem neg_negative : -Sign.negative = .positive := rfl

/-- A difference is positive if the floats differ that way, however close they are. -/
theorem sub_pos_iff {x y : Float} : 0 < x - y ↔ y < x := by
  rw [pos_iff, lt_iff]
  change IsSigned .positive (Float.Model.pack (sub Format.binary64 _ _)).unpack ↔ _
  cases hx : x.toModel.unpack with
  | notANumber =>
    rw [compare_swap]
    simp +decide [sub, UnpackedFloat.compare, IsSigned]
  | infinity s =>
    cases y.toModel.unpack with
    | infinity t => cases s <;> cases t <;> simp +decide [sub, IsSigned]
    | notANumber => simp +decide [sub, UnpackedFloat.compare, IsSigned]
    | zero t => cases s <;> simp +decide [sub, UnpackedFloat.compare, IsSigned]
    | finite t n f h => cases s <;> cases t <;> simp +decide [sub, UnpackedFloat.compare, IsSigned]
  | zero s =>
    cases hy : y.toModel.unpack with
    | notANumber => simp +decide [sub, UnpackedFloat.compare, IsSigned]
    | infinity t => cases t <;> simp [sub, UnpackedFloat.compare, IsSigned, neg_negative]
    | zero t => cases s <;> cases t <;> simp +decide [sub, IsSigned]
    | finite t n f h =>
      rw [sub, unpack_pack (isKept_of_unpack hy)]
      cases t <;> simp [UnpackedFloat.compare, IsSigned, neg_negative]
  | finite s m e h =>
    cases hy : y.toModel.unpack with
    | notANumber => simp +decide [sub, UnpackedFloat.compare, IsSigned]
    | infinity t => cases t <;> simp [sub, UnpackedFloat.compare, IsSigned, neg_negative]
    | zero t =>
      change IsSigned .positive (Float.Model.pack (.finite s m e h)).unpack ↔ _
      rw [unpack_pack (isKept_of_unpack hx)]
      cases s <;> simp +decide [UnpackedFloat.compare, IsSigned]
    | finite t n f h' =>
      have hm := isKept_of_unpack hx
      have hn := isKept_of_unpack hy
      have hmin := hm.min_le
      have hmin' := hn.min_le
      simp only [sub, decreaseExponent, Nat.shiftLeft_eq]
      rw [isSigned_normalize (by omega), compare_finite hn hm, min_comm f e, Option.some.injEq,
        Int.compare_eq_lt, Int.sub_pos]

section

variable {P : UnpackedFloat → Prop} (s : Sign) (hzero : P (.zero s))
  (hfinite : ∀ m e h, P (.finite s m e h))
include hzero hfinite

theorem of_unpack_packComponents {e : BitVec 11} (m : BitVec 52) (he : e ≠ -1#11) :
    P (UnpackedFloat.unpack Format.binary64 (packComponents Format.binary64 s e m)) := by
  simp only [UnpackedFloat.unpack, unpackMantissa_packComponents, unpackExponent_packComponents,
    unpackSign_packComponents, ofBitVec_toBitVec]
  rw [if_neg he]
  split
  · split
    · exact hzero
    · exact hfinite _ _ _
  · exact hfinite _ _ _

theorem of_unpack_pack_finite (hinfinity : P (.infinity s)) (m : Nat) (e : Int) (h : 0 < m) :
    P (Float.Model.pack (.finite s m e h)).unpack := by
  change P (UnpackedFloat.unpack Format.binary64 (UnpackedFloat.pack Format.binary64 _))
  simp only [UnpackedFloat.pack]
  split
  · change P (Float.Model.pack (.infinity s)).unpack
    rwa [unpack_pack_infinity]
  · rename_i hsmall
    change ¬2048 ≤ (e + 1023 + 52).toNat + 1 at hsmall
    split
    · apply of_unpack_packComponents s hzero hfinite
      intro he
      have hlast : (e + 1023 + 52).toNat % 2048 = 2047 := congrArg BitVec.toNat he
      omega
    · exact of_unpack_packComponents s hzero hfinite _ (by decide)

end

theorem isNaN_unpack_pack (u : UnpackedFloat) : (Float.Model.pack u).unpack.isNaN = u.isNaN := by
  cases u with
  | notANumber => rfl
  | infinity s => rw [unpack_pack_infinity]
  | zero s => rw [unpack_pack_zero]
  | finite s m e h =>
    exact of_unpack_pack_finite (P := (·.isNaN = false)) s rfl (fun _ _ _ => rfl) rfl m e h

theorem isNaN_roundWithAccuracy (spec : Format) (s : Sign) (q : Nat) (E : Int) (a : Accuracy) :
    (roundWithAccuracy spec s q E a).isNaN = false := by
  simp only [roundWithAccuracy]
  split <;> rfl

theorem isNaN_ofScientific (spec : Format) (n : Nat) (e : Int) :
    (UnpackedFloat.ofScientific spec n e).isNaN = false := by
  simp only [UnpackedFloat.ofScientific]
  split
  · rfl
  · split
    · rfl
    · split
      · rfl
      · split <;> exact isNaN_roundWithAccuracy ..

theorem isNaN_div {x y : Float} (hx : x.isNaN = false) (hy : y.isFinite = true) (hpos : 0 < y) :
    (x / y).isNaN = false := by
  rw [pos_iff] at hpos
  change x.toModel.unpack.isNaN = false at hx
  change y.toModel.unpack.isFinite = true at hy
  change (Float.Model.pack (div Format.binary64 _ _)).unpack.isNaN = false
  rw [isNaN_unpack_pack]
  cases hv : y.toModel.unpack with
  | notANumber => simp [hv, IsSigned] at hpos
  | infinity t => simp [hv, UnpackedFloat.isFinite] at hy
  | zero t => simp [hv, IsSigned] at hpos
  | finite t n f h =>
    cases hu : x.toModel.unpack with
    | notANumber => simp [hu, UnpackedFloat.isNaN] at hx
    | infinity s => rfl
    | zero s => rfl
    | finite s m e h' => exact isNaN_roundWithAccuracy ..

theorem isNaN_neg (x : Float) : (-x).isNaN = x.isNaN := by
  change (Float.Model.pack x.toModel.unpack.neg).unpack.isNaN = x.toModel.unpack.isNaN
  rw [isNaN_unpack_pack]
  cases x.toModel.unpack <;> rfl

theorem isNaN_ofNat (n : Nat) : (Float.ofNat n).isNaN = false := by
  obtain rfl | hpos := Nat.eq_zero_or_pos n
  · decide +kernel
  · change (toFloat n 0).isNaN = false
    by_cases hshort : n < 2 ^ 53
    · obtain ⟨m, e, hm, -, hvalue, -⟩ := exists_natural hpos hshort
      have hr : Rounds (n * 10 ^ (0 : Int)) m e := by
        rw [zpow_zero, mul_one, ← hvalue]
        exact Rounds.self m e
      rw [toFloat_of_rounds hm hr]
      change (ofKept hm .positive).toModel.unpack.isNaN = false
      rw [unpack_ofKept]
      rfl
    · simp only [toFloat, Float.ofScientific]
      rw [dif_neg fun h => hshort h.1]
      exact (isNaN_unpack_pack _).trans (isNaN_ofScientific ..)

theorem isNaN_ofInt (n : Int) : (Float.ofInt n).isNaN = false := by
  cases n with
  | ofNat n => exact isNaN_ofNat n
  | negSucc n => exact (isNaN_neg _).trans (isNaN_ofNat _)

end InstrumentBus.Decimal
