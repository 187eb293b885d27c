import InstrumentBus.Proofs.Decimal.Rounding

/-!
Floats and what they are unpacked to.
-/

namespace InstrumentBus.Decimal

open Float.Model (Format UnpackedFloat)
open Float.Model.UnpackedFloat

theorem unpackSign_packComponents (s : Sign) (e : BitVec 11) (m : BitVec 52) :
    unpackSign (packComponents Format.binary64 s e m) = s.toBitVec := by
  simp only [unpackSign, packComponents, BitVec.extractLsb]
  ext i hi
  grind

theorem ofBitVec_toBitVec (s : Sign) : Sign.ofBitVec s.toBitVec = s := by
  cases s <;> rfl

theorem toBitVec_ofBitVec (b : BitVec 1) : (Sign.ofBitVec b).toBitVec = b := by
  revert b
  decide

theorem exists_packComponents (b : BitVec 64) :
    ∃ (s : Sign) (e : BitVec 11) (m : BitVec 52), b = packComponents Format.binary64 s e m := by
  refine ⟨.ofBitVec (@unpackSign Format.binary64 b), @unpackExponent Format.binary64 b,
    @unpackMantissa Format.binary64 b, ?_⟩
  rw [packComponents, toBitVec_ofBitVec]
  simp only [unpackSign, unpackExponent, unpackMantissa, BitVec.extractLsb]
  ext i hi
  grind

theorem toNat_implicit (m : BitVec 52) : (1#1 ++ m).toNat = 2 ^ 52 + m.toNat := by
  rw [BitVec.toNat_append, ← Nat.shiftLeft_add_eq_or_of_lt m.isLt]
  rfl

section

variable (s : Sign) (e : BitVec 11) (m : BitVec 52)

theorem unpack_normal (he : e ≠ -1#11) (he0 : e ≠ 0#11) :
    UnpackedFloat.unpack Format.binary64 (packComponents Format.binary64 s e m) =
      .finite s (2 ^ 52 + m.toNat) (e.toNat - 1075) (by omega) := by
  simp only [UnpackedFloat.unpack, unpackMantissa_packComponents, unpackExponent_packComponents,
    unpackSign_packComponents, ofBitVec_toBitVec]
  rw [if_neg he, if_neg he0]
  simp only [toNat_implicit]
  rfl

theorem unpack_subnormal (hm : 0 < m.toNat) :
    UnpackedFloat.unpack Format.binary64 (packComponents Format.binary64 s 0#11 m) =
      .finite s m.toNat (-1074) hm := by
  have hne : m ≠ 0#52 := by
    intro h
    rw [h] at hm
    exact Nat.lt_irrefl 0 hm
  simp only [UnpackedFloat.unpack, unpackMantissa_packComponents, unpackExponent_packComponents,
    unpackSign_packComponents, ofBitVec_toBitVec]
  rw [if_neg (by decide), if_pos trivial, dif_neg hne]
  rfl

theorem unpack_zero :
    UnpackedFloat.unpack Format.binary64 (packComponents Format.binary64 s 0#11 0#52) = .zero s := by
  cases s <;> rfl

theorem isFinite_unpack_special :
    (UnpackedFloat.unpack Format.binary64 (packComponents Format.binary64 s (-1#11) m)).isFinite =
      false := by
  simp only [UnpackedFloat.unpack, unpackMantissa_packComponents, unpackExponent_packComponents,
    unpackSign_packComponents, ofBitVec_toBitVec]
  rw [if_pos trivial]
  split <;> rfl

theorem pack_normal (he : e ≠ -1#11) (hpos : 0 < 2 ^ 52 + m.toNat) :
    UnpackedFloat.pack Format.binary64 (.finite s (2 ^ 52 + m.toNat) (e.toNat - 1075) hpos) =
      packComponents Format.binary64 s e m := by
  have hlt := e.isLt
  have hlast : e.toNat ≠ 2047 := fun h => he (BitVec.eq_of_toNat_eq h)
  have hbiased : ((e.toNat - 1075 : Int) + (Format.binary64.exponentBias : Int) +
      (Format.binary64.mantissaBitsWithoutImplicit : Int)).toNat = e.toNat := by
    change ((e.toNat - 1075 : Int) + 1023 + 52).toNat = e.toNat
    omega
  have hlog : (2 ^ 52 + m.toNat).log2 = 52 := by
    have := m.isLt
    exact (Nat.log2_eq_iff (by omega)).2 ⟨by omega, by omega⟩
  simp only [UnpackedFloat.pack, hbiased, hlog]
  have hmantissa : BitVec.ofNat 52 (2 ^ 52 + m.toNat) = m := by
    apply BitVec.eq_of_toNat_eq
    rw [BitVec.toNat_ofNat, Nat.add_mod_left, Nat.mod_eq_of_lt m.isLt]
  rw [if_neg (by change ¬2048 ≤ e.toNat + 1; omega), if_pos (by decide), hmantissa,
    BitVec.ofNat_toNat, BitVec.setWidth_eq]

theorem pack_subnormal (hpos : 0 < m.toNat) :
    UnpackedFloat.pack Format.binary64 (.finite s m.toNat (-1074) hpos) =
      packComponents Format.binary64 s 0#11 m := by
  have hlog : m.toNat.log2 + 1 ≠ Format.binary64.mantissaBits := by
    have := (Nat.log2_lt (Nat.ne_of_gt hpos)).2 m.isLt
    change m.toNat.log2 + 1 ≠ 53
    omega
  simp only [UnpackedFloat.pack]
  rw [if_neg (by decide), if_neg hlog, BitVec.ofNat_toNat, BitVec.setWidth_eq]

end

theorem unpack_cases (x : Float.Model) (h : x.isFinite = true) :
    (∃ s, x.toBits.toBitVec = packComponents Format.binary64 s 0#11 0#52) ∨
    (∃ (s : Sign) (m : BitVec 52), 0 < m.toNat ∧
      x.toBits.toBitVec = packComponents Format.binary64 s 0#11 m) ∨
    ∃ (s : Sign) (e : BitVec 11) (m : BitVec 52), e ≠ -1#11 ∧ e ≠ 0#11 ∧
      x.toBits.toBitVec = packComponents Format.binary64 s e m := by
  obtain ⟨s, e, m, hbits⟩ := exists_packComponents x.toBits.toBitVec
  by_cases he0 : e = 0#11
  · by_cases hm : m = 0#52
    · exact .inl ⟨s, by rw [hbits, he0, hm]⟩
    · refine .inr (.inl ⟨s, m, ?_, by rw [hbits, he0]⟩)
      exact Nat.pos_of_ne_zero fun h => hm (BitVec.eq_of_toNat_eq h)
  · refine .inr (.inr ⟨s, e, m, ?_, he0, hbits⟩)
    intro he
    have hspecial := isFinite_unpack_special s m
    rw [← he, ← hbits] at hspecial
    rw [Float.Model.isFinite, Float.Model.unpack, hspecial] at h
    cases h

theorem toModel_ext {x y : Float.Model} (h : x.toBits.toBitVec = y.toBits.toBitVec) : x = y := by
  cases x with
  | mk a ha =>
    cases y with
    | mk b hb =>
      have : a = b := UInt64.toBitVec_inj.1 h
      cases this
      rfl

theorem pack_unpack {x : Float.Model} (h : x.isFinite = true) : Float.Model.pack x.unpack = x := by
  apply toModel_ext
  change UnpackedFloat.pack Format.binary64 (UnpackedFloat.unpack Format.binary64 _) = _
  obtain ⟨s, hbits⟩ | ⟨s, m, hm, hbits⟩ | ⟨s, e, m, he, he0, hbits⟩ := unpack_cases x h
  · rw [hbits, unpack_zero]
    rfl
  · rw [hbits, unpack_subnormal s m hm, pack_subnormal]
  · rw [hbits, unpack_normal s e m he he0, pack_normal s e m he]

theorem isKept_of_unpack {x : Float.Model} {s : Sign} {m : Nat} {e : Int} {hm : 0 < m}
    (h : x.unpack = .finite s m e hm) : IsKept m e := by
  have hfinite : x.isFinite = true := by rw [Float.Model.isFinite, h]; rfl
  rw [Float.Model.unpack] at h
  obtain ⟨s', hbits⟩ | ⟨s', m', hm', hbits⟩ | ⟨s', e', m', he, he0, hbits⟩ := unpack_cases x hfinite
  · rw [hbits, unpack_zero] at h
    cases h
  · rw [hbits, unpack_subnormal s' m' hm'] at h
    cases h
    have := m'.isLt
    exact ⟨by omega, Int.le_refl _, by omega, .inr rfl, hm⟩
  · rw [hbits, unpack_normal s' e' m' he he0] at h
    cases h
    have := m'.isLt
    have := e'.isLt
    have hlast : e'.toNat ≠ 2047 := fun h => he (BitVec.eq_of_toNat_eq h)
    have hfirst : e'.toNat ≠ 0 := fun h => he0 (BitVec.eq_of_toNat_eq h)
    exact ⟨by omega, by omega, by omega, .inl (by omega), hm⟩

theorem unpack_pack {m : Nat} {e : Int} (h : IsKept m e) (s : Sign) :
    (Float.Model.pack (.finite s m e h.pos)).unpack = .finite s m e h.pos := by
  change UnpackedFloat.unpack Format.binary64 (UnpackedFloat.pack Format.binary64 _) = _
  obtain ⟨hlt, hmin, hmax, hfull, hpos⟩ := h
  by_cases hnormal : 2 ^ 52 ≤ m
  · obtain ⟨m, rfl⟩ : ∃ m' : BitVec 52, m = 2 ^ 52 + m'.toNat := by
      refine ⟨BitVec.ofNat 52 (m - 2 ^ 52), ?_⟩
      rw [BitVec.toNat_ofNat, Nat.mod_eq_of_lt (by omega)]
      omega
    obtain ⟨e, rfl⟩ : ∃ e' : BitVec 11, e = e'.toNat - 1075 := by
      refine ⟨BitVec.ofNat 11 (e + 1075).toNat, ?_⟩
      rw [BitVec.toNat_ofNat, Nat.mod_eq_of_lt (by omega)]
      omega
    have he : e ≠ -1#11 := by
      intro h
      rw [h] at hmax
      exact absurd hmax (by decide)
    have he0 : e ≠ 0#11 := by
      intro h
      rw [h] at hmin
      exact absurd hmin (by decide)
    rw [pack_normal s e m he, unpack_normal s e m he he0]
  · obtain ⟨m, rfl⟩ : ∃ m' : BitVec 52, m = m'.toNat :=
      ⟨BitVec.ofNat 52 m, by rw [BitVec.toNat_ofNat, Nat.mod_eq_of_lt (by omega)]⟩
    cases hfull.resolve_left hnormal
    rw [pack_subnormal, unpack_subnormal s m hpos]

def ofKept {m : Nat} {e : Int} (h : IsKept m e) (s : Sign) : Float :=
  .ofModel (.pack (.finite s m e h.pos))

@[simp] theorem unpack_ofKept {m : Nat} {e : Int} (h : IsKept m e) (s : Sign) :
    (ofKept h s).toModel.unpack = .finite s m e h.pos :=
  unpack_pack h s

theorem neg_ofKept {m : Nat} {e : Int} (h : IsKept m e) :
    -ofKept h .positive = ofKept h .negative := by
  change Float.ofModel (.pack (ofKept h .positive).toModel.unpack.neg) = _
  rw [unpack_ofKept]
  rfl

theorem eq_of_isFinite {x : Float} (h : x.isFinite = true) :
    (∃ s, x.toModel.unpack = .zero s ∧ x = .ofModel (.pack (.zero s))) ∨
    ∃ (s : Sign) (m : Nat) (e : Int) (hm : IsKept m e),
      x.toModel.unpack = .finite s m e hm.pos ∧ x = ofKept hm s := by
  have hfinite : x.toModel.isFinite = true := h
  have hx : x = .ofModel (.pack x.toModel.unpack) := by rw [pack_unpack hfinite]
  rw [Float.Model.isFinite] at hfinite
  cases hu : x.toModel.unpack with
  | infinity s =>
    rw [hu] at hfinite
    cases hfinite
  | notANumber =>
    rw [hu] at hfinite
    cases hfinite
  | zero s =>
    rw [hu] at hx
    exact .inl ⟨s, rfl, hx⟩
  | finite s m e hm =>
    rw [hu] at hx
    exact .inr ⟨s, m, e, isKept_of_unpack hu, rfl, hx⟩

end InstrumentBus.Decimal
