import InstrumentBus.Text.Utf8

/-!
The bytes of text: characters below 128 are their own byte, all others have only bytes from 128 on,
and reading gives the text back.
-/

namespace InstrumentBus.Text

def encode (cs : List Char) : Bytes := cs.flatMap String.utf8EncodeChar

@[simp] theorem encode_nil : encode [] = [] := rfl

@[simp] theorem encode_cons (c : Char) (cs : List Char) :
    encode (c :: cs) = String.utf8EncodeChar c ++ encode cs := List.flatMap_cons

@[simp] theorem encode_append (cs ds : List Char) : encode (cs ++ ds) = encode cs ++ encode ds :=
  List.flatMap_append

theorem toByteArray_encode (cs : List Char) : (encode cs).toByteArray = cs.utf8Encode := rfl

theorem utf8_ofList (cs : List Char) : utf8 (String.ofList cs) = encode cs := by
  rw [utf8, String.toUTF8_eq_toByteArray, String.toByteArray_ofList, ← toByteArray_encode,
    List.toList_data_toByteArray]

theorem ofUtf8?_utf8 (s : String) : ofUtf8? (utf8 s) = some s := by
  simp only [ofUtf8?, utf8, Array.toArray_toList, String.toUTF8_eq_toByteArray, String.fromUTF8?]
  rw [dif_pos s.isValidUTF8]
  rfl

theorem ofUtf8?_encode (cs : List Char) : ofUtf8? (encode cs) = some (String.ofList cs) := by
  rw [← utf8_ofList, ofUtf8?_utf8]

theorem encode_injective : Function.Injective encode := by
  intro cs ds h
  have := ofUtf8?_encode cs
  rw [h, ofUtf8?_encode, Option.some.injEq, String.ofList_inj] at this
  exact this.symm

theorem ofUtf8Lossy_encode (cs : List Char) : ofUtf8Lossy (encode cs) = String.ofList cs := by
  rw [ofUtf8Lossy, ofUtf8?_encode, Option.getD_some]

theorem encode_of_ofUtf8? {bs : Bytes} {s : String} (h : ofUtf8? bs = some s) :
    encode s.toList = bs := by
  simp only [ofUtf8?, String.fromUTF8?, String.fromUTF8] at h
  split at h
  · cases h
    rw [← utf8_ofList, String.ofList_toList, utf8, String.toUTF8_eq_toByteArray]
  · cases h

theorem utf8EncodeChar_of_lt {c : Char} (h : c.toNat < 128) :
    String.utf8EncodeChar c = [c.toNat.toUInt8] := by
  have : c.val.toNat ≤ 0x7f := Nat.le_of_lt_succ h
  simp only [String.utf8EncodeChar, if_pos this]
  rfl

theorem le_ofNat {n : Nat} (h : 128 ≤ n) (h' : n < 256) : 128 ≤ UInt8.ofNat n := by
  rw [UInt8.le_iff_toNat_le, UInt8.toNat_ofNat_of_lt' h']
  exact h

theorem le_of_mem_utf8EncodeChar {c : Char} (h : 128 ≤ c.toNat) {b : UInt8}
    (hb : b ∈ String.utf8EncodeChar c) : 128 ≤ b := by
  have : ¬c.val.toNat ≤ 0x7f := Nat.not_le_of_lt h
  simp only [String.utf8EncodeChar, if_neg this] at hb
  split at hb
  · simp only [List.mem_cons, List.not_mem_nil, or_false] at hb
    rcases hb with rfl | rfl <;> exact le_ofNat (by omega) (by omega)
  · split at hb
    · simp only [List.mem_cons, List.not_mem_nil, or_false] at hb
      rcases hb with rfl | rfl | rfl <;> exact le_ofNat (by omega) (by omega)
    · simp only [List.mem_cons, List.not_mem_nil, or_false] at hb
      rcases hb with rfl | rfl | rfl | rfl <;> exact le_ofNat (by omega) (by omega)

theorem ofNat_toUInt8 {c : Char} (h : c.toNat < 128) : Char.ofNat c.toNat.toUInt8.toNat = c := by
  rw [Nat.toUInt8, UInt8.toNat_ofNat_of_lt' (Nat.lt_trans h (by decide)), Char.ofNat_toNat]

theorem mem_of_mem_encode {cs : List Char} {b : UInt8} (hb : b ∈ encode cs) (h : b < 128) :
    Char.ofNat b.toNat ∈ cs := by
  obtain ⟨c, hc, hbc⟩ := List.mem_flatMap.1 hb
  have hlt : c.toNat < 128 := by
    rw [← Nat.not_le]
    intro hle
    exact absurd (le_of_mem_utf8EncodeChar hle hbc) (UInt8.not_le.2 h)
  rw [utf8EncodeChar_of_lt hlt, List.mem_singleton] at hbc
  rwa [hbc, ofNat_toUInt8 hlt]

theorem encode_of_ascii {cs : List Char} (h : ∀ c ∈ cs, c.toNat < 128) :
    encode cs = cs.map (·.toNat.toUInt8) := by
  induction cs with
  | nil => rfl
  | cons c cs ih =>
    rw [encode_cons, utf8EncodeChar_of_lt (h c List.mem_cons_self),
      ih fun d hd => h d (List.mem_cons_of_mem c hd)]
    rfl

theorem latin1_encode {cs : List Char} (h : ∀ c ∈ cs, c.toNat < 128) :
    latin1 (encode cs) = String.ofList cs := by
  have hback : cs.map (fun c => Char.ofNat c.toNat.toUInt8.toNat) = cs :=
    (List.map_congr_left fun c hc => ofNat_toUInt8 (h c hc)).trans (List.map_id cs)
  rw [encode_of_ascii h, latin1, List.map_map]
  exact congrArg String.ofList hback

theorem length_le_length_encode (cs : List Char) : cs.length ≤ (encode cs).length := by
  induction cs with
  | nil => exact Nat.le_refl 0
  | cons c cs ih =>
    have hc : 1 ≤ (String.utf8EncodeChar c).length := by
      rw [String.length_utf8EncodeChar]
      exact c.utf8Size_pos
    simp only [encode_cons, List.length_append, List.length_cons]
    omega

theorem length_le_of_ofUtf8? {bs : Bytes} {s : String} (h : ofUtf8? bs = some s) :
    s.toList.length ≤ bs.length :=
  encode_of_ofUtf8? h ▸ length_le_length_encode s.toList

theorem length_repair_le (bs : Bytes) : (repair bs).length ≤ bs.length := by
  induction bs using repair.induct with
  | case1 => simp [repair]
  | case2 b bs h ih =>
    simp only [repair, h, List.length_cons]
    omega
  | case3 b bs n h k ih =>
    have ih : (repair (bs.drop k)).length ≤ bs.length := by
      rw [List.length_drop] at ih
      omega
    simp only [repair, h, List.length_cons]
    exact Nat.succ_le_succ ih

theorem length_ofUtf8Lossy_le (bs : Bytes) : (ofUtf8Lossy bs).toList.length ≤ bs.length := by
  unfold ofUtf8Lossy
  cases h : ofUtf8? bs with
  | none => simpa using length_repair_le bs
  | some s => exact length_le_of_ofUtf8? h

end InstrumentBus.Text
