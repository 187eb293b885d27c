import InstrumentBus.Json.Read
import InstrumentBus.Json.Write
import InstrumentBus.Proofs.Text.Utf8
import Mathlib.Tactic.SplitIfs

/-!
A JSON string is read as the text that was written.
-/

namespace InstrumentBus.Json

open Text (Bytes encode)

theorem encode_cons_of_lt {c : Char} (h : c.toNat < 128) (cs : List Char) :
    encode (c :: cs) = byte c :: encode cs := by
  rw [Text.encode_cons, Text.utf8EncodeChar_of_lt h]
  rfl

theorem toNat_byte {c : Char} (h : c.toNat < 128) : (byte c).toNat = c.toNat :=
  UInt8.toNat_ofNat_of_lt' (Nat.lt_trans h (by decide))

theorem eq_of_byte_eq {c d : Char} (hc : c.toNat < 128) (hd : d.toNat < 128)
    (h : byte c = byte d) : c = d := by
  have hnat : c.toNat = d.toNat := by rw [← toNat_byte hc, h, toNat_byte hd]
  rw [← Char.ofNat_toNat c, hnat, Char.ofNat_toNat]

section

variable {fuel : Nat} {acc bs : Bytes} {b : UInt8}

theorem takeStringOf_quote (fuel : Nat) (acc bs : Bytes) :
    takeStringOf (fuel + 1) (some acc) (byte '"' :: bs) = some (some acc.reverse, bs) := rfl

theorem takeStringOf_piece {c : UInt8} {piece rest : Bytes}
    (hpiece : takePiece? (c :: bs) = some (some piece, rest)) (hquote : c ≠ byte '"') :
    takeStringOf (fuel + 1) (some acc) (c :: bs) =
      takeStringOf fuel (some (piece.reverse ++ acc)) rest := by
  rw [takeStringOf, hpiece]
  · rfl
  · intro tail heq
    exact hquote (List.cons.inj heq).1

theorem takeStringOf_plain (h : 0x20 ≤ b) (hquote : b ≠ byte '"') (hslash : b ≠ byte '\\') :
    takeStringOf (fuel + 1) (some acc) (b :: bs) = takeStringOf fuel (some (b :: acc)) bs := by
  have hpiece : takePiece? (b :: bs) = some (some [b], bs) := by
    rw [takePiece?, if_neg hslash, if_neg (UInt8.not_lt.2 h)]
  exact takeStringOf_piece hpiece hquote

theorem takeStringOf_plains {ps : Bytes} (h : ∀ b ∈ ps, 0x20 ≤ b ∧ b ≠ byte '"' ∧ b ≠ byte '\\') :
    takeStringOf (fuel + ps.length) (some acc) (ps ++ bs) =
      takeStringOf fuel (some (ps.reverse ++ acc)) bs := by
  induction ps generalizing acc with
  | nil => rfl
  | cons p ps ih =>
    obtain ⟨⟨hlow, hquote, hslash⟩, hps⟩ := List.forall_mem_cons.1 h
    rw [List.length_cons, ← Nat.add_assoc, List.cons_append,
      takeStringOf_plain hlow hquote hslash, ih hps]
    simp

theorem takeStringOf_escape {c : Char} {es : Bytes}
    (h : takeEscape? (es ++ bs) = some (some c, bs)) :
    takeStringOf (fuel + 1) (some acc) (byte '\\' :: (es ++ bs)) =
      takeStringOf fuel (some ((String.utf8EncodeChar c).reverse ++ acc)) bs := by
  have hpiece : takePiece? (byte '\\' :: (es ++ bs)) =
      some (some (String.utf8EncodeChar c), bs) := by
    have hsingle : String.singleton c = String.ofList [c] := String.toList_inj.1 (by simp)
    have hutf8 : Text.utf8 (String.singleton c) = String.utf8EncodeChar c := by
      rw [hsingle, Text.utf8_ofList, Text.encode_cons, Text.encode_nil, List.append_nil]
    rw [takePiece?, if_pos rfl, h, Option.map_some, ← hutf8]
    rfl
  exact takeStringOf_piece hpiece (by decide)

end

theorem takeEscape?_short {b : UInt8} {c : Char} (h : shortEscape? b = some c) (hu : b ≠ byte 'u')
    (bs : Bytes) : takeEscape? (b :: bs) = some (some c, bs) := by
  rw [takeEscape?, if_neg hu, h]
  rfl

theorem toNat_nibble_lt (n : Nat) : (nibble n).toNat < 128 := by
  have small : ∀ k : Fin 16, (Nat.digitChar k).toNat < 128 := by decide
  exact small ⟨n % 16, Nat.mod_lt n (by decide)⟩

theorem takeEscape?_unit {c : Char} (h : c.toNat < 0x20) (bs : Bytes) :
    takeEscape? (encode ['u', '0', '0', nibble (c.toNat / 16), nibble c.toNat] ++ bs) =
      some (some c, bs) := by
  have hdigits : ∀ n : Fin 0x20, Text.readDigits? Text.hexValue? 16
      ([byte '0', byte '0', byte (nibble (n / 16)), byte (nibble n)].map fun b =>
        Char.ofNat b.toNat) = some n.val := by decide
  have hunit : takeUnit? (byte '0' :: byte '0' :: byte (nibble (c.toNat / 16)) ::
      byte (nibble c.toNat) :: bs) = some (c.toNat, bs) := by
    rw [takeUnit?, hdigits ⟨c.toNat, h⟩]
    rfl
  have hencode : encode ['u', '0', '0', nibble (c.toNat / 16), nibble c.toNat] =
      [byte 'u', byte '0', byte '0', byte (nibble (c.toNat / 16)), byte (nibble c.toNat)] := by
    rw [Text.encode_of_ascii]
    · rfl
    · simp [toNat_nibble_lt]
  have hhigh : ¬(0xD800 ≤ c.toNat ∧ c.toNat ≤ 0xDBFF) := by omega
  have hlow : ¬(0xDC00 ≤ c.toNat ∧ c.toNat ≤ 0xDFFF) := by omega
  rw [hencode]
  simp only [List.cons_append, List.nil_append, takeEscape?, ↓reduceIte, hunit,
    Option.bind_eq_bind, Option.bind_some, hhigh, hlow, Char.ofNat_toNat]

/-- Inside a string, some text is taken as the bytes `ps`, in no more steps than it has bytes. -/
def StandsFor (es : List Char) (ps : Bytes) : Prop :=
  ∃ steps ≤ (encode es).length, ∀ fuel acc bs,
    takeStringOf (fuel + steps) (some acc) (encode es ++ bs) =
      takeStringOf fuel (some (ps.reverse ++ acc)) bs

namespace StandsFor

theorem nil : StandsFor [] [] := ⟨0, Nat.le_refl 0, fun _ _ _ => rfl⟩

theorem append {es fs : List Char} {ps qs : Bytes} (h : StandsFor es ps) (h' : StandsFor fs qs) :
    StandsFor (es ++ fs) (ps ++ qs) := by
  obtain ⟨k, hk, htake⟩ := h
  obtain ⟨k', hk', htake'⟩ := h'
  refine ⟨k' + k, ?_, fun fuel acc bs => ?_⟩
  · rw [Text.encode_append, List.length_append]
    omega
  · rw [← Nat.add_assoc, Text.encode_append, List.append_assoc, htake, htake', List.reverse_append,
      List.append_assoc]

theorem short {c e : Char} (he : e.toNat < 128) (h : shortEscape? (byte e) = some c)
    (hu : byte e ≠ byte 'u') : StandsFor ['\\', e] (String.utf8EncodeChar c) := by
  have hencode : encode ['\\', e] = [byte '\\', byte e] := by
    rw [encode_cons_of_lt (by decide), encode_cons_of_lt he, Text.encode_nil]
  refine ⟨1, by simp [hencode], fun fuel acc bs => ?_⟩
  rw [hencode]
  exact takeStringOf_escape (takeEscape?_short h hu bs)

theorem unit {c : Char} (h : c.toNat < 0x20) :
    StandsFor ['\\', 'u', '0', '0', nibble (c.toNat / 16), nibble c.toNat]
      (String.utf8EncodeChar c) := by
  refine ⟨1, ?_, fun fuel acc bs => ?_⟩
  · exact Nat.le_trans (by simp) (Text.length_le_length_encode _)
  · rw [encode_cons_of_lt (by decide)]
    exact takeStringOf_escape (takeEscape?_unit h bs)

theorem plain {c : Char} (hlow : ¬c.toNat < 0x20) (hquote : c ≠ '"') (hslash : c ≠ '\\') :
    StandsFor [c] (String.utf8EncodeChar c) := by
  have hplain : ∀ b ∈ String.utf8EncodeChar c, 0x20 ≤ b ∧ b ≠ byte '"' ∧ b ≠ byte '\\' := by
    intro b hb
    by_cases hc : c.toNat < 128
    · rw [Text.utf8EncodeChar_of_lt hc, List.mem_singleton] at hb
      subst hb
      refine ⟨?_, fun h => hquote (eq_of_byte_eq hc (by decide) h),
        fun h => hslash (eq_of_byte_eq hc (by decide) h)⟩
      have hbyte : c.toNat.toUInt8.toNat = c.toNat := toNat_byte hc
      rw [UInt8.le_iff_toNat_le, hbyte]
      exact Nat.le_of_not_lt hlow
    · have hb := UInt8.le_iff_toNat_le.1 (Text.le_of_mem_utf8EncodeChar (Nat.le_of_not_lt hc) hb)
      refine ⟨UInt8.le_iff_toNat_le.2 (Nat.le_trans (by decide) hb), ?_, ?_⟩ <;> rintro rfl <;>
        exact absurd hb (by decide)
  refine ⟨(String.utf8EncodeChar c).length, by simp, fun fuel acc bs => ?_⟩
  rw [Text.encode_cons, Text.encode_nil, List.append_nil]
  exact takeStringOf_plains hplain

theorem escapeChar (c : Char) : StandsFor (Json.escapeChar c) (String.utf8EncodeChar c) := by
  unfold Json.escapeChar
  split_ifs with h1 h2 h3 h4 h5 h6 h7 h8
  · subst h1
    exact short (by decide) rfl (by decide)
  · subst h2
    exact short (by decide) rfl (by decide)
  · subst h3
    exact short (by decide) rfl (by decide)
  · subst h4
    exact short (by decide) rfl (by decide)
  · subst h5
    exact short (by decide) rfl (by decide)
  · subst h6
    exact short (by decide) rfl (by decide)
  · subst h7
    exact short (by decide) rfl (by decide)
  · exact unit h8
  · exact plain h8 h1 h2

theorem escaped (cs : List Char) : StandsFor (cs.flatMap Json.escapeChar) (encode cs) := by
  induction cs with
  | nil => exact nil
  | cons c cs ih =>
    rw [List.flatMap_cons, Text.encode_cons]
    exact (escapeChar c).append ih

end StandsFor

theorem takeString?_escaped (s : String) (bs : Bytes) :
    takeString? (encode (s.toList.flatMap escapeChar) ++ byte '"' :: bs) = some (some s, bs) := by
  obtain ⟨steps, hsteps, htake⟩ := StandsFor.escaped s.toList
  obtain ⟨fuel, hfuel⟩ : ∃ fuel, (encode (s.toList.flatMap escapeChar) ++ byte '"' :: bs).length + 1 =
      fuel + 1 + steps := by
    refine ⟨(encode (s.toList.flatMap escapeChar) ++ byte '"' :: bs).length - steps, ?_⟩
    rw [List.length_append]
    omega
  rw [takeString?, hfuel, htake, takeStringOf_quote]
  simp [Text.ofUtf8?_encode]

end InstrumentBus.Json
