import InstrumentBus.Text.Base64

/-!
Decoding gives back the bytes that were encoded, and no more bytes than there are digits.
-/

namespace InstrumentBus.Text.Base64

theorem digit_mod (n : Nat) : digit (n % 64) = digit n := by
  simp only [digit, Nat.mod_mod]

theorem value?_digit (n : Nat) : value? (digit n) = some (n % 64) := by
  have small : ∀ k : Fin 64, value? (digit k) = some k.val := by decide
  rw [← digit_mod]
  exact small ⟨n % 64, Nat.mod_lt n (by decide)⟩

theorem digit_ne_pad (n : Nat) : digit n ≠ '=' := by
  intro h
  have := value?_digit n
  rw [h] at this
  cases this

theorem toUInt8_eq {n : Nat} {b : UInt8} (h : n % 256 = b.toNat) : n.toUInt8 = b := by
  apply UInt8.toNat_inj.1
  rw [Nat.toUInt8, UInt8.toNat_ofNat']
  exact h

theorem decode?_group (a b c d : Char) (h : d ≠ '=') (cs : List Char) :
    decode? (a :: b :: c :: d :: cs) = (do
      let n := (((← value? a) * 64 + (← value? b)) * 64 + (← value? c)) * 64 + (← value? d)
      let bs ← decode? cs
      some ((n / 65536).toUInt8 :: (n / 256).toUInt8 :: n.toUInt8 :: bs)) := by
  rw [decode?]
  · intro h1 h2
    exact absurd h2 (by simp [h])
  · intro h1
    exact absurd h1 h

theorem decode?_encode (bs : List UInt8) : decode? (encode bs) = some bs := by
  induction bs using encode.induct with
  | case1 a b c bs ih =>
    have ha := a.toNat_lt
    have hb := b.toNat_lt
    have hc := c.toNat_lt
    rw [encode, decode?_group _ _ _ _ (digit_ne_pad _), ih]
    simp only [value?_digit, Option.bind_eq_bind, Option.bind_some, Option.some.injEq,
      List.cons.injEq, and_true]
    refine ⟨toUInt8_eq ?_, toUInt8_eq ?_, toUInt8_eq ?_⟩ <;> omega
  | case2 a b =>
    have ha := a.toNat_lt
    have hb := b.toNat_lt
    have hzero : (((a.toNat * 256 + b.toNat) * 4 / 4096 % 64 * 64 +
        (a.toNat * 256 + b.toNat) * 4 / 64 % 64) * 64 +
          (a.toNat * 256 + b.toNat) * 4 % 64) % 4 = 0 := by omega
    rw [encode, decode?]
    · simp only [value?_digit, Option.bind_eq_bind, Option.bind_some, hzero, ↓reduceIte,
        Option.some.injEq, List.cons.injEq, and_true]
      refine ⟨toUInt8_eq ?_, toUInt8_eq ?_⟩ <;> omega
    · exact digit_ne_pad _
  | case3 a =>
    have ha := a.toNat_lt
    have hzero : (a.toNat * 16 / 64 % 64 * 64 + a.toNat * 16 % 64) % 16 = 0 := by omega
    rw [encode, decode?]
    simp only [value?_digit, Option.bind_eq_bind, Option.bind_some, hzero, ↓reduceIte,
      Option.some.injEq, List.cons.injEq, and_true]
    exact toUInt8_eq (by omega)
  | case4 => rfl

theorem toNat_of_mem_encode {bs : List UInt8} {c : Char} (h : c ∈ encode bs) : 33 ≤ c.toNat := by
  have hdigit (n : Nat) : 33 ≤ (digit n).toNat := by
    have small : ∀ k : Fin 64, 33 ≤ (digit k).toNat := by decide
    rw [← digit_mod]
    exact small ⟨n % 64, Nat.mod_lt n (by decide)⟩
  induction bs using encode.induct with
  | case1 a b d bs ih =>
    simp only [encode, List.mem_cons] at h
    rcases h with rfl | rfl | rfl | rfl | h
    · exact hdigit _
    · exact hdigit _
    · exact hdigit _
    · exact hdigit _
    · exact ih h
  | case2 a b =>
    simp only [encode, List.mem_cons, List.not_mem_nil, or_false] at h
    rcases h with rfl | rfl | rfl | rfl
    · exact hdigit _
    · exact hdigit _
    · exact hdigit _
    · decide
  | case3 a =>
    simp only [encode, List.mem_cons, List.not_mem_nil, or_false] at h
    rcases h with rfl | rfl | rfl | rfl
    · exact hdigit _
    · exact hdigit _
    · decide
    · decide
  | case4 => cases h

theorem length_decode?_le {cs : List Char} {bs : List UInt8} (h : decode? cs = some bs) :
    bs.length ≤ cs.length := by
  induction cs using decode?.induct generalizing bs with
  | case1 =>
    cases h
    exact Nat.le_refl 0
  | case2 a b =>
    simp only [decode?, Option.bind_eq_bind, Option.bind_eq_some_iff] at h
    obtain ⟨x, -, y, -, h⟩ := h
    split at h <;> cases h
    simp
  | case3 a b c hc =>
    rw [decode?.eq_3 _ _ _ hc] at h
    simp only [Option.bind_eq_bind, Option.bind_eq_some_iff] at h
    obtain ⟨x, -, y, -, z, -, h⟩ := h
    split at h <;> cases h
    simp
  | case4 a b c d cs hc hd ih =>
    rw [decode?.eq_4 _ _ _ _ _ hc hd] at h
    simp only [Option.bind_eq_bind, Option.bind_eq_some_iff] at h
    obtain ⟨x, -, y, -, z, -, w, -, more, hmore, h⟩ := h
    cases h
    have := ih hmore
    simp only [List.length_cons]
    omega
  | case5 cs h1 h2 h3 h4 =>
    rw [decode?.eq_5 _ h1 h2 h3 h4] at h
    cases h

end InstrumentBus.Text.Base64
