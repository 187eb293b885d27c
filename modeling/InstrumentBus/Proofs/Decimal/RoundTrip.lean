import InstrumentBus.Number.Format
import InstrumentBus.Proofs.Decimal.Digits
import InstrumentBus.Proofs.Decimal.Shortest

/-!
A written float is read as itself.
-/

namespace InstrumentBus

namespace Decimal

theorem ofDigits_append_zeros (ds : List Char) (n : Nat) :
    ofDigits (ds ++ List.replicate n '0') = ofDigits ds * 10 ^ n := by
  induction n with
  | zero => rw [List.replicate_zero, List.append_nil, Nat.pow_zero, Nat.mul_one]
  | succ n ih =>
    have hlast (cs : List Char) : ofDigits (cs ++ ['0']) = 10 * ofDigits cs := by
      simp only [ofDigits, List.foldl_append, List.foldl_cons, List.foldl_nil]
      rfl
    rw [List.replicate_succ', ← List.append_assoc, hlast, ih]
    ring

theorem spanDigits_append {ds rest : List Char} (hds : ∀ d ∈ ds, d.isDigit = true)
    (hrest : spanDigits rest = ([], rest)) : spanDigits (ds ++ rest) = (ds, rest) := by
  obtain ⟨htake, hdrop⟩ := Prod.mk.inj hrest
  simp only [spanDigits, List.takeWhile_append_of_pos hds, List.dropWhile_append_of_pos hds, htake,
    hdrop, List.append_nil]

theorem spanDigits_of_forall {ds : List Char} (hds : ∀ d ∈ ds, d.isDigit = true) :
    spanDigits ds = (ds, []) := by
  have : spanDigits (ds ++ []) = (ds, []) := spanDigits_append hds rfl
  rwa [List.append_nil] at this

theorem spanDigits_point (cs : List Char) : spanDigits ('.' :: cs) = ([], '.' :: cs) := rfl

structure IsPositional (cs : List Char) (digits : Nat) (exp : Int) : Prop where
  read : unsigned? cs = some (toFloat digits exp)
  head : ∀ c ∈ cs.head?, c.isDigit = true
  plain : ∀ c ∈ cs, c.isDigit = true ∨ c = '.'

theorem isPositional_whole {ds : List Char} (hne : ds ≠ []) (hds : ∀ d ∈ ds, d.isDigit = true) :
    IsPositional ds (ofDigits ds) 0 := by
  refine ⟨?_, fun c hc => hds c (List.mem_of_mem_head? hc), fun c hc => .inl (hds c hc)⟩
  simp only [unsigned?, spanDigits_of_forall hds, List.isEmpty_eq_false_iff.2 hne, exponent?]
  rw [List.append_nil]
  rfl

theorem isPositional_point {ds fraction : List Char} (hne : ds ≠ [])
    (hds : ∀ d ∈ ds ++ fraction, d.isDigit = true) :
    IsPositional (ds ++ '.' :: fraction) (ofDigits (ds ++ fraction)) (-fraction.length) := by
  have hwhole d (h : d ∈ ds) := hds d (List.mem_append_left _ h)
  have hfraction d (h : d ∈ fraction) := hds d (List.mem_append_right _ h)
  refine ⟨?_, ?_, ?_⟩
  · simp only [unsigned?, spanDigits_append hwhole (spanDigits_point fraction),
      spanDigits_of_forall hfraction, List.isEmpty_eq_false_iff.2 hne, exponent?]
    rw [← Int.zero_sub]
    rfl
  · intro c hc
    rw [List.head?_append_of_ne_nil _ hne] at hc
    exact hwhole c (List.mem_of_mem_head? hc)
  · intro c hc
    obtain hc | hc := List.mem_append.1 hc
    · exact .inl (hwhole c hc)
    · obtain hc | hc := List.mem_cons.1 hc
      · exact .inr hc
      · exact .inl (hfraction c hc)

theorem isDigit_of_mem_zeros {n : Nat} {c : Char} (h : c ∈ List.replicate n '0') :
    c.isDigit = true := by
  rw [List.eq_of_mem_replicate h]
  rfl

theorem isPositional_zeros (digits n : Nat) :
    IsPositional (Scaled.positional ⟨digits, .ofNat n⟩) (digits * 10 ^ n) 0 := by
  have hds : ∀ c ∈ Nat.toDigits 10 digits ++ List.replicate n '0', c.isDigit = true := fun c hc =>
    (List.mem_append.1 hc).elim isDigit_of_mem_toDigits isDigit_of_mem_zeros
  have hne : Nat.toDigits 10 digits ++ List.replicate n '0' ≠ [] :=
    List.append_ne_nil_of_left_ne_nil Nat.toDigits_ne_nil _
  have hwhole := isPositional_whole hne hds
  rwa [ofDigits_append_zeros, ofDigits_toDigits] at hwhole

theorem isPositional_places (digits n : Nat) :
    IsPositional (Scaled.positional ⟨digits, .negSucc n⟩) digits (.negSucc n) := by
  simp only [Scaled.positional]
  generalize hpad : List.replicate (n + 1 + 1 - _) '0' ++ Nat.toDigits 10 digits = ds
  have hlength : n + 2 ≤ ds.length := by
    rw [← hpad, List.length_append, List.length_replicate]
    omega
  have hvalue : ofDigits ds = digits := by
    rw [← hpad, ofDigits_zeros_append, ofDigits_toDigits]
  have hds : ∀ c ∈ ds, c.isDigit = true := by
    rw [← hpad]
    intro c hc
    exact (List.mem_append.1 hc).elim isDigit_of_mem_zeros isDigit_of_mem_toDigits
  generalize hwhole : ds.length - (n + 1) = whole
  have hne : ds.take whole ≠ [] := by
    apply List.ne_nil_of_length_pos
    rw [List.length_take]
    omega
  have hfraction : (ds.drop whole).length = n + 1 := by
    rw [List.length_drop]
    omega
  rw [← List.take_append_drop whole ds] at hds
  have hpoint := isPositional_point hne hds
  rw [List.take_append_drop, hvalue, hfraction] at hpoint
  exact hpoint

theorem exists_isPositional (d : Scaled) : ∃ (digits : Nat) (exp : Int),
    IsPositional d.positional digits exp ∧ (digits * 10 ^ exp : ℚ) = d.digits * 10 ^ d.exp := by
  obtain ⟨digits, exp⟩ := d
  cases exp with
  | ofNat n =>
    refine ⟨digits * 10 ^ n, 0, isPositional_zeros digits n, ?_⟩
    rw [Int.ofNat_eq_natCast, zpow_natCast, zpow_zero, mul_one, Nat.cast_mul, Nat.cast_pow]
    rfl
  | negSucc n => exact ⟨digits, .negSucc n, isPositional_places digits n, rfl⟩

theorem readChars?_signed {cs : List Char} {digits : Nat} {exp : Int}
    (h : IsPositional cs digits exp) (negative : Bool) :
    readChars? (if negative then '-' :: cs else cs) =
      some (if negative then -toFloat digits exp else toFloat digits exp) := by
  cases negative with
  | true => simp only [readChars?, takeSign, h.read, Option.some_or, Option.map_some, ↓reduceIte]
  | false =>
    have hsign : takeSign cs = (false, cs) := by
      cases cs with
      | nil => rfl
      | cons c cs =>
        have hc := h.head c rfl
        simp only [takeSign]
        split
        · rename_i heq
          cases heq
          cases hc
        · rename_i heq
          cases heq
          cases hc
        · rfl
    simp only [readChars?, hsign, h.read, Option.some_or, Option.map_some, Bool.false_eq_true,
      ↓reduceIte]

end Decimal

namespace Number

theorem isSeparator_eq_false {c : Char} (h : c.isDigit = true ∨ c = '.' ∨ c = '-') :
    isSeparator c = false := by
  obtain h | rfl | rfl := h
  · have hdigit := Decimal.toNat_of_isDigit h
    have hne {d : Char} (hd : 57 < d.toNat) : c ≠ d := by
      rintro rfl
      omega
    simp only [isSeparator, Text.isBlank_of_isDigit h, Bool.or_false, Bool.or_eq_false_iff,
      beq_eq_false_iff_ne]
    exact ⟨hne (by decide), hne (by decide)⟩
  · rfl
  · rfl

theorem read?_signed {cs : List Char} {digits : Nat} {exp : Int}
    (h : Decimal.IsPositional cs digits exp) (negative : Bool) {x : Float}
    (hx : (if negative then -Decimal.toFloat digits exp else Decimal.toFloat digits exp) = x)
    (hfinite : x.isFinite = true) : read? (Decimal.signed negative cs) = some x := by
  have hread := Decimal.readChars?_signed h negative
  rw [hx] at hread
  have hsep : ∀ c ∈ (if negative then '-' :: cs else cs), isSeparator c = false := by
    intro c hc
    apply isSeparator_eq_false
    cases negative with
    | true =>
      obtain rfl | hc := List.mem_cons.1 hc
      · exact .inr (.inr rfl)
      · exact (h.plain c hc).imp_right .inl
    | false => exact (h.plain c hc).imp_right .inl
  have hblank : ∀ c ∈ (if negative then '-' :: cs else cs), Text.isBlank c = false := fun c hc =>
    (Bool.or_eq_false_iff.1 (hsep c hc)).2
  have hany : (if negative then '-' :: cs else cs).any isSeparator = false :=
    List.any_eq_false.2 fun c hc => by rw [hsep c hc]; decide
  simp only [read?, Decimal.signed, String.toList_ofList, Text.trimChars_of_forall hblank, hany]
  simp [hread, hfinite]

/-- Every finite float is read back from its digits, zeros with their sign. -/
theorem read?_write {x : Float} (h : x.isFinite = true) : read? (Decimal.write x) = some x := by
  obtain ⟨s, hu, hx⟩ | ⟨s, m, e, hm, hu, hx⟩ := Decimal.eq_of_isFinite h
  · have hzero : Decimal.IsPositional ['0'] 0 0 :=
      Decimal.isPositional_whole (List.cons_ne_nil _ _) (List.forall_mem_singleton.2 rfl)
    rw [Decimal.write, Decimal.Reading.ofFloat, hu]
    refine read?_signed hzero _ ?_ h
    rw [hx]
    cases s with
    | positive => decide +kernel
    | negative => decide +kernel
  · obtain ⟨digits, exp, hpositional, hvalue⟩ :=
      Decimal.exists_isPositional (Decimal.shortest m e)
    have hr := Decimal.rounds_shortest hm
    rw [← hvalue] at hr
    have hwrite : Decimal.write x =
        Decimal.signed (Decimal.isNegative s) (Decimal.shortest m e).positional := by
      obtain ⟨n, rfl⟩ := Nat.exists_eq_add_of_lt hm.pos
      simp only [Decimal.write, Decimal.Reading.ofFloat, hu]
    rw [hwrite]
    refine read?_signed hpositional _ ?_ h
    rw [Decimal.toFloat_of_rounds hm hr, hx]
    cases s with
    | positive => rfl
    | negative => exact Decimal.neg_ofKept hm

theorem isFinite_of_read? {s : String} {x : Float} (h : read? s = some x) :
    x.isFinite = true := by
  have hfilter (o : Option Float)
      (h : (o.bind fun y => if y.isFinite then some y else none) = some x) :
      x.isFinite = true := by
    obtain ⟨y, -, hy⟩ := Option.bind_eq_some_iff.1 h
    split at hy
    · rename_i hfinite
      cases hy
      exact hfinite
    · cases hy
  simp only [read?] at h
  split at h <;> exact hfilter _ h

end Number
end InstrumentBus
