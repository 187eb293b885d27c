import InstrumentBus.Proofs.Decimal.Order

/-!
What floats stand for. A sum or a difference of floats is rounded, but never past another float: it
lies between any two floats that the exact one lies between.
-/

namespace InstrumentBus.Decimal

open Float.Model (Format UnpackedFloat)
open Float.Model.UnpackedFloat

/-- The number that stands for what a float is unpacked to; zero, if that is no number. -/
def exact : UnpackedFloat → ℚ
  | .finite s m e _ => s.apply m * 2 ^ e
  | _ => 0

def value (x : Float) : ℚ := exact x.toModel.unpack

theorem value_ofKept {m : Nat} {e : Int} (h : IsKept m e) (s : Sign) :
    value (ofKept h s) = s.apply m * 2 ^ e := by
  rw [value, unpack_ofKept, exact]

theorem isFinite_ofKept {m : Nat} {e : Int} (h : IsKept m e) (s : Sign) :
    (ofKept h s).isFinite = true := by
  change (ofKept h s).toModel.unpack.isFinite = true
  rw [unpack_ofKept]
  rfl

theorem isFinite_zero (s : Sign) : (Float.ofModel (.pack (.zero s))).isFinite = true := by
  cases s <;> rfl

theorem value_zero (s : Sign) : value (.ofModel (.pack (.zero s))) = 0 := by
  rw [value]
  change exact (Float.Model.pack (.zero s)).unpack = 0
  rw [unpack_pack_zero]
  rfl

theorem apply_mul_zpow (s : Sign) (m : Nat) {e f : Int} (h : f ≤ e) :
    (s.apply m * 2 ^ e : ℚ) = s.apply (m * 2 ^ (e - f).toNat : Nat) * 2 ^ f := by
  have hscale := mul_zpow_eq m h
  cases s with
  | positive => exact_mod_cast hscale
  | negative =>
    simp only [Sign.apply, Int.cast_neg, Int.cast_natCast, neg_mul, hscale]

theorem lt_iff_value {x y : Float} (hx : x.isFinite = true) (hy : y.isFinite = true) :
    x < y ↔ value x < value y := by
  rw [lt_iff]
  obtain ⟨s, hu, rfl⟩ | ⟨s, m, e, hm, hu, rfl⟩ := eq_of_isFinite hx
  · obtain ⟨t, hv, rfl⟩ | ⟨t, n, f, hn, hv, rfl⟩ := eq_of_isFinite hy
    · rw [hu, hv, value_zero, value_zero]
      exact iff_of_false nofun (lt_irrefl 0)
    · have := mul_pos (Nat.cast_pos.2 hn.pos) (two_zpow_pos f)
      rw [hu, hv, value_zero, value_ofKept]
      cases t <;> simp +decide [UnpackedFloat.compare, Sign.apply, this, this.le]
  · obtain ⟨t, hv, rfl⟩ | ⟨t, n, f, hn, hv, rfl⟩ := eq_of_isFinite hy
    · have := mul_pos (Nat.cast_pos.2 hm.pos) (two_zpow_pos e)
      rw [hu, hv, value_zero, value_ofKept]
      cases s <;> simp +decide [UnpackedFloat.compare, Sign.apply, this, this.le]
    · rw [hu, hv, compare_finite hm hn, Option.some.injEq, Int.compare_eq_lt, value_ofKept,
        value_ofKept]
      rw [apply_mul_zpow s m (min_le_left e f), apply_mul_zpow t n (min_le_right e f),
        mul_lt_mul_iff_of_pos_right (two_zpow_pos _), Int.cast_lt]

theorem le_iff_value {x y : Float} (hx : x.isFinite = true) (hy : y.isFinite = true) :
    x ≤ y ↔ value x ≤ value y := by
  rw [← not_lt_iff (isNaN_of_isFinite hy) (isNaN_of_isFinite hx), lt_iff_value hy hx, not_lt]

theorem isFinite_of_le_of_le {x y z : Float} (hx : x.isFinite = true) (hz : z.isFinite = true)
    (hxy : x ≤ y) (hyz : y ≤ z) : y.isFinite = true := by
  obtain ⟨o, hlow, ho⟩ := le_iff.1 hxy
  obtain ⟨o', hhigh, ho'⟩ := le_iff.1 hyz
  change y.toModel.unpack.isFinite = true
  cases hu : y.toModel.unpack with
  | zero s => rfl
  | finite s m e hm => rfl
  | notANumber =>
    rw [hu] at hhigh
    cases hhigh
  | infinity s =>
    rw [hu] at hlow hhigh
    cases s with
    | positive =>
      obtain ⟨t, hv, -⟩ | ⟨t, n, f, hn, hv, -⟩ := eq_of_isFinite hz
      all_goals
        rw [hv] at hhigh
        cases hhigh
        cases ho'
    | negative =>
      obtain ⟨t, hv, -⟩ | ⟨t, n, f, hn, hv, -⟩ := eq_of_isFinite hx
      · rw [hv] at hlow
        cases hlow
        cases ho
      · rw [hv] at hlow
        cases t <;> cases hlow <;> cases ho

def IsValue (v : ℚ) : Prop :=
  v = 0 ∨ ∃ (s : Sign) (m : Nat) (e : Int), IsKept m e ∧ v = s.apply m * 2 ^ e

theorem isValue_value {x : Float} (h : x.isFinite = true) : IsValue (value x) := by
  obtain ⟨s, -, rfl⟩ | ⟨s, m, e, hm, -, rfl⟩ := eq_of_isFinite h
  · exact .inl (value_zero s)
  · exact .inr ⟨s, m, e, hm, value_ofKept hm s⟩

theorem IsValue.neg {v : ℚ} (h : IsValue v) : IsValue (-v) := by
  obtain rfl | ⟨s, m, e, hm, rfl⟩ := h
  · exact .inl neg_zero
  · cases s with
    | negative => exact .inr ⟨.positive, m, e, hm, by simp [Sign.apply]⟩
    | positive => exact .inr ⟨.negative, m, e, hm, by simp [Sign.apply]⟩

theorem isValue_half {k : Int} (hk : k.natAbs < 2 ^ 53) : IsValue (k / 2) := by
  obtain rfl | hne := eq_or_ne k 0
  · exact .inl (by simp)
  · obtain ⟨m, e, hm, hfull, hvalue, -⟩ := exists_natural (n := k.natAbs) (by omega) hk
    have hhalf : IsKept m (e - 1) := by
      have hlarge : -53 < e := by
        have hone : (1 : ℚ) ≤ m * 2 ^ e := by
          rw [hvalue]
          exact_mod_cast Int.natAbs_pos.2 hne
        have hlt := hone.trans_lt hm.lt_zpow
        rw [← zpow_zero (2 : ℚ), zpow_lt_zpow_iff_right₀ (by norm_num)] at hlt
        omega
      have := hm.le_max
      exact ⟨hm.lt, by omega, by omega, .inl hfull, hm.pos⟩
    have hsplit : (m * 2 ^ (e - 1) : ℚ) = k.natAbs / 2 := by
      rw [zpow_sub_one₀ (by norm_num), ← mul_assoc, hvalue, div_eq_mul_inv]
    obtain hsign | hsign := Int.natAbs_eq k
    · refine .inr ⟨.positive, m, e - 1, hhalf, ?_⟩
      simp only [Sign.apply, Int.cast_natCast, hsplit]
      conv_lhs => rw [hsign, Int.cast_natCast]
    · refine .inr ⟨.negative, m, e - 1, hhalf, ?_⟩
      simp only [Sign.apply, Int.cast_neg, Int.cast_natCast, neg_mul, hsplit]
      conv_lhs => rw [hsign, Int.cast_neg, Int.cast_natCast]
      ring

theorem exists_kept_rounded (s : Sign) {m n : Nat} {e f : Int} (hm : 0 < m) (he : -1074 ≤ e)
    (hn : IsKept n f) (hle : (m * 2 ^ e : ℚ) ≤ n * 2 ^ f) :
    ∃ (k : Nat) (g : Int) (hk : IsKept k g), KeepsOrder (m * 2 ^ e) (k * 2 ^ g) ∧
      UnpackedFloat.round Format.binary64 s m e = .finite s k g hk.pos := by
  obtain ⟨k, g, hpos, hround, hlt, hmin, hfull, horder⟩ := exists_rounded s hm he
  have hmax : g ≤ 971 := by
    by_contra hlarge
    have hfull : ((2 : ℚ) ^ (52 : Int)) ≤ k := by
      exact_mod_cast hfull.resolve_right (by omega)
    have hlong : (2 : ℚ) ^ (52 + g) ≤ k * 2 ^ g := by
      rw [zpow_add₀ (by norm_num)]
      exact mul_le_mul_of_nonneg_right hfull (le_of_lt (two_zpow_pos g))
    have hshort : (n * 2 ^ f : ℚ) < 2 ^ (52 + g) := by
      have := hn.le_max
      exact hn.lt_zpow.trans_le (zpow_le_zpow_right₀ (by norm_num) (by omega))
    exact absurd (horder.le hn hle) (not_le.2 (hshort.trans_le hlong))
  exact ⟨k, g, ⟨hlt, hmin, hmax, hfull, hpos⟩, horder, hround⟩

theorem round_between (s : Sign) {m : Nat} {e : Int} (hm : 0 < m) (he : -1074 ≤ e) {v w : ℚ}
    (hv : IsValue v) (hw : IsValue w) (hle : v ≤ m * 2 ^ e) (hge : m * 2 ^ e ≤ w) :
    ∃ (k : Nat) (g : Int) (hk : IsKept k g), v ≤ k * 2 ^ g ∧ k * 2 ^ g ≤ w ∧
      UnpackedFloat.round Format.binary64 s m e = .finite s k g hk.pos := by
  have hpos (n : Nat) (f : Int) : (0 : ℚ) ≤ n * 2 ^ f :=
    mul_nonneg (Nat.cast_nonneg n) (two_zpow_pos f).le
  have hm' : (0 : ℚ) < m * 2 ^ e := mul_pos (Nat.cast_pos.2 hm) (two_zpow_pos e)
  obtain rfl | ⟨t, n, f, hn, rfl⟩ := hw
  · exact absurd hge (not_le.2 hm')
  · cases t with
    | negative =>
      have := hpos n f
      simp only [Sign.apply, Int.cast_neg, Int.cast_natCast, neg_mul] at hge
      linarith
    | positive =>
      obtain ⟨k, g, hk, horder, hround⟩ := exists_kept_rounded s hm he hn hge
      refine ⟨k, g, hk, ?_, horder.le hn hge, hround⟩
      obtain rfl | ⟨t, n', f', hn', rfl⟩ := hv
      · exact hpos k g
      · cases t with
        | positive => exact horder.ge hn' hle
        | negative =>
          have := hpos n' f'
          have := hpos k g
          simp only [Sign.apply, Int.cast_neg, Int.cast_natCast, neg_mul]
          linarith

theorem normalize_between {d e : Int} (he : -1074 ≤ e) {v w : ℚ} (hv : IsValue v) (hw : IsValue w)
    (hle : v ≤ d * 2 ^ e) (hge : d * 2 ^ e ≤ w) (s : Sign) {x : Float}
    (hx : x = .ofModel (.pack (UnpackedFloat.normalize Format.binary64 d e s))) :
    x.isFinite = true ∧ v ≤ value x ∧ value x ≤ w := by
  obtain h | rfl | h := lt_trichotomy d 0
  · rw [UnpackedFloat.normalize, Int.compare_eq_lt.2 h] at hx
    obtain ⟨m, rfl⟩ : ∃ m : Nat, d = -m := ⟨(-d).toNat, by omega⟩
    simp only [Int.cast_neg, Int.cast_natCast, neg_mul] at hle hge
    obtain ⟨k, g, hk, hle', hge', hround⟩ := round_between .negative (m := m) (by omega) he hw.neg
      hv.neg (by linarith) (by linarith)
    simp only [neg_neg, Int.toNat_natCast, hround] at hx
    obtain rfl : x = ofKept hk .negative := hx
    rw [value_ofKept]
    simp only [Sign.apply, Int.cast_neg, Int.cast_natCast, neg_mul]
    exact ⟨isFinite_ofKept hk _, by linarith, by linarith⟩
  · rw [UnpackedFloat.normalize, Int.compare_eq_eq.2 rfl] at hx
    rw [Int.cast_zero, zero_mul] at hle hge
    obtain rfl : x = .ofModel (.pack (.zero s)) := hx
    rw [value_zero]
    exact ⟨isFinite_zero s, hle, hge⟩
  · rw [UnpackedFloat.normalize, Int.compare_eq_gt.2 h] at hx
    obtain ⟨m, rfl⟩ : ∃ m : Nat, d = m := ⟨d.toNat, by omega⟩
    rw [Int.cast_natCast] at hle hge
    obtain ⟨k, g, hk, hle', hge', hround⟩ :=
      round_between .positive (m := m) (by omega) he hv hw hle hge
    simp only [Int.toNat_natCast, hround] at hx
    obtain rfl : x = ofKept hk .positive := hx
    rw [value_ofKept]
    exact ⟨isFinite_ofKept hk _, hle', hge'⟩

section

variable {x y : Float} (hx : x.isFinite = true) (hy : y.isFinite = true)

include hx in
theorem value_neg : (-x).isFinite = true ∧ value (-x) = -value x := by
  have hneg : (-x) = .ofModel (.pack x.toModel.unpack.neg) := rfl
  obtain ⟨s, hu, rfl⟩ | ⟨s, m, e, hm, hu, rfl⟩ := eq_of_isFinite hx
  · rw [hneg, hu]
    exact ⟨isFinite_zero (-s), (value_zero (-s)).trans (by rw [value_zero, neg_zero])⟩
  · rw [hneg, hu]
    refine ⟨isFinite_ofKept hm (-s), (value_ofKept hm (-s)).trans ?_⟩
    rw [value_ofKept]
    cases s <;> simp [Sign.apply]

include hx in
theorem value_abs : x.abs.isFinite = true ∧ value x.abs = |value x| := by
  have habs : x.abs = .ofModel (.pack x.toModel.unpack.abs) := rfl
  obtain ⟨s, hu, rfl⟩ | ⟨s, m, e, hm, hu, rfl⟩ := eq_of_isFinite hx
  · rw [habs, hu]
    exact ⟨isFinite_zero .positive, (value_zero .positive).trans (by rw [value_zero, abs_zero])⟩
  · rw [habs, hu]
    refine ⟨isFinite_ofKept hm .positive, (value_ofKept hm .positive).trans ?_⟩
    rw [value_ofKept, abs_mul, abs_of_pos (two_zpow_pos e)]
    cases s <;> simp [Sign.apply]

include hx hy

theorem add_between {v w : ℚ} (hv : IsValue v) (hw : IsValue w) (hle : v ≤ value x + value y)
    (hge : value x + value y ≤ w) : (x + y).isFinite = true ∧ v ≤ value (x + y) ∧ value (x + y) ≤ w := by
  have hadd : x + y = .ofModel (.pack (add Format.binary64 x.toModel.unpack y.toModel.unpack)) := rfl
  have hexact {z : Float} (hz : z.isFinite = true) (hvalue : value z = value x + value y)
      (hsum : x + y = z) : (x + y).isFinite = true ∧ v ≤ value (x + y) ∧ value (x + y) ≤ w := by
    rw [hsum, hvalue]
    exact ⟨hz, hle, hge⟩
  obtain ⟨s, hu, rfl⟩ | ⟨s, m, e, hm, hu, rfl⟩ := eq_of_isFinite hx
  · obtain ⟨t, hv, rfl⟩ | ⟨t, n, f, hn, hv, rfl⟩ := eq_of_isFinite hy
    · simp only [value_zero, add_zero] at hexact
      rw [hu, hv] at hadd
      cases s with
      | positive => cases t <;> exact hexact (isFinite_zero _) (value_zero _) hadd
      | negative => cases t <;> exact hexact (isFinite_zero _) (value_zero _) hadd
    · rw [hu, hv] at hadd
      exact hexact hy (by rw [value_zero, zero_add]) hadd
  · obtain ⟨t, hv', rfl⟩ | ⟨t, n, f, hn, hv', rfl⟩ := eq_of_isFinite hy
    · rw [hu, hv'] at hadd
      exact hexact hx (by rw [value_zero, add_zero]) hadd
    · rw [value_ofKept, value_ofKept] at hle hge
      rw [apply_mul_zpow s m (min_le_left e f), apply_mul_zpow t n (min_le_right e f), ← add_mul,
        ← Int.cast_add] at hle hge
      have := hm.min_le
      have := hn.min_le
      refine normalize_between (by omega) hv hw hle hge .positive ?_
      rw [hadd, hu, hv']
      simp only [add, decreaseExponent, Nat.shiftLeft_eq]

theorem sub_eq : x - y = x + -y := by
  have hneg : (-y) = .ofModel (.pack y.toModel.unpack.neg) := rfl
  have hsub : x - y = .ofModel (.pack (sub Format.binary64 x.toModel.unpack y.toModel.unpack)) := rfl
  have hadd : x + -y =
      .ofModel (.pack (add Format.binary64 x.toModel.unpack (-y).toModel.unpack)) := rfl
  rw [hsub, hadd]
  congr 2
  obtain ⟨t, hv, rfl⟩ | ⟨t, n, f, hn, hv, rfl⟩ := eq_of_isFinite hy
  · have hv' : (-Float.ofModel (.pack (.zero t))).toModel.unpack = .zero (-t) := by
      rw [hneg, hv]
      exact unpack_pack_zero (-t)
    rw [hv, hv']
    cases x.toModel.unpack <;> rfl
  · have hv' : (-ofKept hn t).toModel.unpack = .finite (-t) n f hn.pos := by
      rw [hneg, hv]
      exact unpack_pack hn (-t)
    rw [hv, hv']
    obtain ⟨s, hu, -⟩ | ⟨s, m, e, hm, hu, -⟩ := eq_of_isFinite hx
    · rw [hu]
      rfl
    · rw [hu]
      cases t <;> simp [sub, add, Sign.apply, Int.sub_eq_add_neg]

theorem sub_between {v w : ℚ} (hv : IsValue v) (hw : IsValue w) (hle : v ≤ value x - value y)
    (hge : value x - value y ≤ w) : (x - y).isFinite = true ∧ v ≤ value (x - y) ∧ value (x - y) ≤ w := by
  obtain ⟨hfinite, hvalue⟩ := value_neg hy
  rw [sub_eq hx hy]
  rw [sub_eq_add_neg, ← hvalue] at hle hge
  exact add_between hx hfinite hv hw hle hge

end

end InstrumentBus.Decimal
