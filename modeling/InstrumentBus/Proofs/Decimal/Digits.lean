import InstrumentBus.Decimal.Read
import InstrumentBus.Proofs.Text.Blank
import Mathlib.Algebra.Ring.Nat

/-!
Digits of natural numbers, written and read.
-/

namespace InstrumentBus

namespace Decimal

theorem ofDigits_eq (ds : List Char) : ofDigits ds = Nat.ofDigitChars 10 ds 0 := by
  rw [Nat.ofDigitChars_eq_foldl]
  rfl

@[simp] theorem ofDigits_toDigits (n : Nat) : ofDigits (Nat.toDigits 10 n) = n := by
  rw [ofDigits_eq, Nat.ofDigitChars_ten_toDigits]

theorem isDigit_of_mem_toDigits {n : Nat} {c : Char} (h : c ∈ Nat.toDigits 10 n) :
    c.isDigit = true :=
  Nat.isDigit_of_mem_toDigits (by decide) (by decide) h

theorem beq_of_isDigit {c mark : Char} (hc : c.isDigit = true) (hmark : mark.isDigit = false) :
    (c == mark) = false := by
  apply beq_false_of_ne
  rintro rfl
  exact Bool.false_ne_true (hmark.symm.trans hc)

theorem toNat_of_isDigit {c : Char} (h : c.isDigit = true) : 48 ≤ c.toNat ∧ c.toNat ≤ 57 := by
  simp only [Char.isDigit, Bool.and_eq_true, decide_eq_true_eq] at h
  exact h

theorem digitValue_lt {c : Char} (h : c.isDigit = true) : digitValue c < 10 := by
  have := toNat_of_isDigit h
  change c.toNat - 48 < 10
  omega

theorem digitChar_digitValue {c : Char} (h : c.isDigit = true) :
    Nat.digitChar (digitValue c) = c := by
  have hchar : digitValue c + 48 = c.toNat := by
    have := toNat_of_isDigit h
    change c.toNat - 48 + 48 = c.toNat
    omega
  have hdigit : ∀ n < 10, (Nat.digitChar n).toNat = n + 48 := by decide
  rw [← Char.toNat_inj, hdigit _ (digitValue_lt h), hchar]

theorem ofDigits_append_singleton (ds : List Char) (d : Char) :
    ofDigits (ds ++ [d]) = 10 * ofDigits ds + digitValue d :=
  List.foldl_concat ..

theorem ofDigits_pos {d : Char} {ds : List Char} (hds : ∀ c ∈ d :: ds, c.isDigit = true)
    (hd : d ≠ '0') : 0 < ofDigits (d :: ds) := by
  induction ds using List.reverseRecOn with
  | nil =>
    have hdigit := hds d List.mem_cons_self
    refine Nat.pos_of_ne_zero fun hzero => hd ?_
    have hvalue : digitValue d = 0 := by simpa [ofDigits] using hzero
    rw [← digitChar_digitValue hdigit, hvalue]
    rfl
  | append_singleton ds c ih =>
    rw [← List.cons_append, ofDigits_append_singleton]
    have := ih fun c hc => hds c (List.mem_append_left _ hc)
    omega

theorem ofDigits_lt {ds : List Char} (hds : ∀ c ∈ ds, c.isDigit = true) :
    ofDigits ds < 10 ^ ds.length := by
  induction ds using List.reverseRecOn with
  | nil => decide
  | append_singleton ds d ih =>
    have := ih fun c hc => hds c (List.mem_append_left _ hc)
    have := digitValue_lt (hds d (List.mem_append_right _ (List.mem_singleton_self _)))
    rw [ofDigits_append_singleton, List.length_append, List.length_singleton, Nat.pow_succ]
    omega

theorem toDigits_ne_zero_cons (n : Nat) (c : Char) (cs : List Char) :
    Nat.toDigits 10 n ≠ '0' :: c :: cs := by
  intro h
  have hdigits : ∀ d ∈ '0' :: c :: cs, d.isDigit = true :=
    fun d hd => isDigit_of_mem_toDigits (h ▸ hd)
  have hvalue : ofDigits (c :: cs) = n := by
    rw [← ofDigits_toDigits n, h]
    rfl
  have hlt := ofDigits_lt fun d hd => hdigits d (List.mem_cons_of_mem _ hd)
  have hlength := (Nat.length_toDigits_le_iff (by decide) (Nat.succ_pos cs.length)).2 (hvalue ▸ hlt)
  rw [h, List.length_cons, List.length_cons] at hlength
  omega

theorem toDigits_ofDigits {d : Char} {ds : List Char} (hds : ∀ c ∈ d :: ds, c.isDigit = true)
    (hd : ds = [] ∨ d ≠ '0') : Nat.toDigits 10 (ofDigits (d :: ds)) = d :: ds := by
  induction ds using List.reverseRecOn with
  | nil =>
    have hdigit := hds d List.mem_cons_self
    have hvalue : ofDigits [d] = digitValue d := by simp [ofDigits]
    rw [hvalue, Nat.toDigits_of_lt_base (digitValue_lt hdigit), digitChar_digitValue hdigit]
  | append_singleton ds c ih =>
    have hd := hd.resolve_left (by simp)
    rw [← List.cons_append] at hds
    have hfront : ∀ c ∈ d :: ds, c.isDigit = true :=
      fun c hc => hds c (List.mem_append_left _ hc)
    have hlast : c.isDigit = true := hds c (List.mem_append_right _ (List.mem_singleton_self _))
    rw [← List.cons_append, ofDigits_append_singleton,
      ← Nat.toDigits_append_toDigits (by decide) (ofDigits_pos hfront hd) (digitValue_lt hlast),
      ih hfront (.inr hd), Nat.toDigits_of_lt_base (digitValue_lt hlast),
      digitChar_digitValue hlast]

theorem ofDigits_zeros_append (n : Nat) (ds : List Char) :
    ofDigits (List.replicate n '0' ++ ds) = ofDigits ds := by
  induction n with
  | zero => rfl
  | succ n ih => exact ih

theorem exists_zeros {ds : List Char} (hne : ds ≠ []) (hds : ∀ d ∈ ds, d.isDigit = true) :
    ∃ zeros, ds = List.replicate zeros '0' ++ Nat.toDigits 10 (ofDigits ds) := by
  induction ds with
  | nil => exact absurd rfl hne
  | cons d ds ih =>
    by_cases hd : ds = [] ∨ d ≠ '0'
    · exact ⟨0, (toDigits_ofDigits hds hd).symm⟩
    · obtain ⟨hds', rfl⟩ : ds ≠ [] ∧ d = '0' := by simpa [not_or] using hd
      obtain ⟨zeros, hzeros⟩ := ih hds' fun c hc => hds c (List.mem_cons_of_mem _ hc)
      have hvalue : ofDigits ('0' :: ds) = ofDigits ds := ofDigits_zeros_append 1 ds
      rw [hvalue]
      exact ⟨zeros + 1, congrArg ('0' :: ·) hzeros⟩

theorem natural?_plus (bound : Nat) (ds : List Char) :
    natural? bound ('+' :: ds) =
      if !ds.isEmpty && ds.all Char.isDigit && ofDigits ds < bound then some (ofDigits ds)
      else none := rfl

theorem natural?_of_ne {cs : List Char} (bound : Nat) (h : ∀ ds, cs ≠ '+' :: ds) :
    natural? bound cs =
      if !cs.isEmpty && cs.all Char.isDigit && ofDigits cs < bound then some (ofDigits cs)
      else none := by
  unfold natural?
  split
  · exact absurd rfl (h _)
  · rfl

theorem ne_plus_of_forall_isDigit {ds : List Char} (hds : ∀ d ∈ ds, d.isDigit = true)
    (cs : List Char) : ds ≠ '+' :: cs := by
  rintro rfl
  exact Bool.false_ne_true (hds '+' List.mem_cons_self)

/-- How a number may be spelled: with zeros in front, and with a plus sign before them. -/
inductive Spells (n : Nat) : List Char → Prop
  | plain (zeros : Nat) : Spells n (List.replicate zeros '0' ++ Nat.toDigits 10 n)
  | plus (zeros : Nat) : Spells n ('+' :: (List.replicate zeros '0' ++ Nat.toDigits 10 n))

theorem isDigit_of_mem_zeros_append {n zeros : Nat} :
    ∀ d ∈ List.replicate zeros '0' ++ Nat.toDigits 10 n, d.isDigit = true := by
  intro d hd
  obtain hd | hd := List.mem_append.1 hd
  · rw [List.eq_of_mem_replicate hd]
    rfl
  · exact isDigit_of_mem_toDigits hd

theorem Spells.not_mem {n : Nat} {cs : List Char} {mark : Char} (h : Spells n cs)
    (hdigit : mark.isDigit = false) (hplus : mark ≠ '+') : mark ∉ cs := by
  have hzeros (zeros : Nat) : mark ∉ List.replicate zeros '0' ++ Nat.toDigits 10 n := by
    intro hmark
    exact Bool.false_ne_true (hdigit.symm.trans (isDigit_of_mem_zeros_append mark hmark))
  cases h with
  | plain zeros => exact hzeros zeros
  | plus zeros => exact List.not_mem_cons_of_ne_of_not_mem hplus (hzeros zeros)

theorem value_eq_some_iff {bound n : Nat} {ds : List Char} :
    (if !ds.isEmpty && ds.all Char.isDigit && ofDigits ds < bound then some (ofDigits ds)
      else none) = some n ↔
      n < bound ∧ ∃ zeros, ds = List.replicate zeros '0' ++ Nat.toDigits 10 n := by
  simp only [Option.ite_none_right_eq_some, Option.some.injEq, Bool.and_eq_true, List.all_eq_true,
    decide_eq_true_eq, Bool.not_eq_true', List.isEmpty_eq_false_iff]
  constructor
  · rintro ⟨⟨⟨hne, hds⟩, hlt⟩, rfl⟩
    exact ⟨hlt, exists_zeros hne hds⟩
  · rintro ⟨hlt, zeros, rfl⟩
    rw [ofDigits_zeros_append, ofDigits_toDigits]
    exact ⟨⟨⟨by simp, isDigit_of_mem_zeros_append⟩, hlt⟩, rfl⟩

theorem natural?_eq_some_iff {bound n : Nat} {cs : List Char} :
    natural? bound cs = some n ↔ n < bound ∧ Spells n cs := by
  by_cases hplus : ∃ ds, cs = '+' :: ds
  · obtain ⟨ds, rfl⟩ := hplus
    rw [natural?_plus, value_eq_some_iff]
    refine and_congr_right fun _ => ?_
    constructor
    · rintro ⟨zeros, rfl⟩
      exact .plus zeros
    · intro h
      generalize hcs : '+' :: ds = cs at h
      cases h with
      | plain zeros => exact absurd hcs.symm (ne_plus_of_forall_isDigit isDigit_of_mem_zeros_append ds)
      | plus zeros => exact ⟨zeros, (List.cons.inj hcs).2⟩
  · have hne : ∀ ds, cs ≠ '+' :: ds := fun ds hds => hplus ⟨ds, hds⟩
    rw [natural?_of_ne bound hne, value_eq_some_iff]
    refine and_congr_right fun _ => ?_
    constructor
    · rintro ⟨zeros, rfl⟩
      exact .plain zeros
    · intro h
      cases h with
      | plain zeros => exact ⟨zeros, rfl⟩
      | plus zeros => exact absurd rfl (hne _)

theorem lt_of_natural? {bound n : Nat} {cs : List Char} (h : natural? bound cs = some n) :
    n < bound :=
  (natural?_eq_some_iff.1 h).1

theorem natural?_toDigits {bound n : Nat} (h : n < bound) :
    natural? bound (Nat.toDigits 10 n) = some n :=
  natural?_eq_some_iff.2 ⟨h, .plain 0⟩

end Decimal

namespace Text

theorem isBlank_of_isDigit {c : Char} (h : c.isDigit = true) : isBlank c = false := by
  have := Decimal.toNat_of_isDigit h
  simp only [isBlank, Bool.or_eq_false_iff, Bool.and_eq_false_iff, decide_eq_false_iff_not,
    beq_eq_false_iff_ne]
  omega

end Text
end InstrumentBus
