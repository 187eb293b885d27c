import InstrumentBus.Message.Write
import InstrumentBus.Proofs.Markup.Escape

/-!
Start tags as they are written: where they end, and what names and values they hold.
-/

namespace InstrumentBus.Markup

open Text (Bytes encode)

def isLetter (b : UInt8) : Bool := (65 ≤ b && b ≤ 90) || (97 ≤ b && b ≤ 122)

def isWord (s : String) : Bool := !s.toList.isEmpty && s.toList.all Char.isAlpha

theorem ne_of_isLetter {b c : UInt8} (h : isLetter b = true) (hc : isLetter c = false) : b ≠ c := by
  intro hbc
  rw [hbc, hc] at h
  cases h

theorem isSpace_of_isLetter {b : UInt8} (h : isLetter b = true) : isSpace b = false := by
  simp [isSpace, ne_of_isLetter h (c := 32) rfl, ne_of_isLetter h (c := 9) rfl,
    ne_of_isLetter h (c := 10) rfl, ne_of_isLetter h (c := 13) rfl]

theorem isQuote_of_isLetter {b : UInt8} (h : isLetter b = true) : isQuote b = false := by
  simp [isQuote, ne_of_isLetter h (c := 34) rfl, ne_of_isLetter h (c := 39) rfl]

theorem toNat_of_isAlpha {c : Char} (h : c.isAlpha = true) :
    (65 ≤ c.toNat ∧ c.toNat ≤ 90) ∨ (97 ≤ c.toNat ∧ c.toNat ≤ 122) := by
  obtain h | h := Bool.or_eq_true_iff.1 h
  · exact .inl (of_decide_eq_true h)
  · obtain ⟨hlow, hhigh⟩ := Bool.and_eq_true_iff.1 h
    exact .inr ⟨of_decide_eq_true hlow, of_decide_eq_true hhigh⟩

theorem toNat_lt_of_isWord {s : String} (h : isWord s = true) : ∀ c ∈ s.toList, c.toNat < 128 := by
  intro c hc
  simp only [isWord, Bool.and_eq_true, List.all_eq_true] at h
  have := toNat_of_isAlpha (h.2 c hc)
  omega

theorem length_encode_of_isWord {s : String} (h : isWord s = true) :
    (encode s.toList).length = s.length := by
  rw [Text.encode_of_ascii (toNat_lt_of_isWord h), List.length_map, String.length_toList]

theorem utf8EncodeChar_of_isAlpha {c : Char} (h : c.isAlpha = true) :
    ∃ b, String.utf8EncodeChar c = [b] ∧ isLetter b = true := by
  have hrange := toNat_of_isAlpha h
  have hlt : c.toNat < 128 := by omega
  refine ⟨_, Text.utf8EncodeChar_of_lt hlt, ?_⟩
  have hbyte : c.toNat.toUInt8.toNat = c.toNat := UInt8.toNat_ofNat_of_lt' (Nat.lt_trans hlt (by decide))
  simp only [isLetter, Bool.or_eq_true, Bool.and_eq_true, decide_eq_true_eq, UInt8.le_iff_toNat_le,
    hbyte]
  exact hrange

theorem isLetter_of_mem_encode {s : String} (h : isWord s = true) {b : UInt8}
    (hb : b ∈ encode s.toList) : isLetter b = true := by
  simp only [isWord, Bool.and_eq_true, List.all_eq_true] at h
  obtain ⟨c, hc, hbc⟩ := List.mem_flatMap.1 hb
  obtain ⟨d, hd, hletter⟩ := utf8EncodeChar_of_isAlpha (h.2 c hc)
  rw [hd, List.mem_singleton] at hbc
  rwa [hbc]

theorem encode_eq_cons_of_isWord {s : String} (h : isWord s = true) :
    ∃ b bs, encode s.toList = b :: bs := by
  cases hs : s.toList with
  | nil => simp [isWord, hs] at h
  | cons c cs =>
    obtain ⟨b, hb, -⟩ := utf8EncodeChar_of_isAlpha (c := c) (by simp_all [isWord])
    exact ⟨b, encode cs, by simp [hb]⟩

def attributeBytes (a : String × String) : Bytes :=
  32 :: encode a.1.toList ++ 61 :: 34 :: encode (escape a.2.toList) ++ [34]

theorem encode_writeAttributes (as : Attributes) :
    encode (writeAttributes as) = as.flatMap attributeBytes := by
  rw [writeAttributes, encode, List.flatMap_assoc]
  congr 1
  funext a
  change encode (' ' :: a.1.toList ++ '=' :: '"' :: escape a.2.toList ++ ['"']) = _
  simp only [Text.encode_append, Text.encode_cons]
  rfl

theorem cutAt?_singleton {q : UInt8} {v : Bytes} (hv : q ∉ v) (rest : Bytes) :
    cutAt? [q] (v ++ q :: rest) = some (v, rest) := by
  induction v with
  | nil => simp [cutAt?, Text.afterStart?]
  | cons b v ih =>
    have hb : b ≠ q := by
      intro hb
      exact hv (hb ▸ List.mem_cons_self)
    have hv' : q ∉ v := fun h => hv (List.mem_cons_of_mem b h)
    simp [cutAt?, Text.afterStart?, hb, ih hv']

theorem takeWhile_append_cons {α : Type} {p : α → Bool} {xs : List α} (hxs : ∀ x ∈ xs, p x = true)
    {y : α} (hy : p y = false) (ys : List α) :
    (xs ++ y :: ys).takeWhile p = xs ∧ (xs ++ y :: ys).dropWhile p = y :: ys := by
  rw [List.takeWhile_append_of_pos hxs, List.dropWhile_append_of_pos hxs]
  simp [hy]

theorem attributesFrom?_attributeBytes {key value : String} (hkey : isWord key = true)
    {seen : List Bytes} (hseen : encode key.toList ∉ seen) (fuel : Nat) (rest : Bytes) :
    attributesFrom? (fuel + 1) seen (attributeBytes (key, value) ++ rest) =
      (attributesFrom? fuel (encode key.toList :: seen) rest).map ((key, value) :: ·) := by
  obtain ⟨b, bs, hb⟩ := encode_eq_cons_of_isWord hkey
  have hletter {c : UInt8} (hc : c ∈ b :: bs) : isLetter c = true :=
    isLetter_of_mem_encode hkey (hb ▸ hc)
  have hspace := isSpace_of_isLetter (hletter List.mem_cons_self)
  have hbs : ∀ c ∈ bs, (c != 61 && !isSpace c) = true := by
    intro c hc
    have := hletter (List.mem_cons_of_mem b hc)
    simp [isSpace_of_isLetter this, ne_of_isLetter this (c := 61) rfl]
  have hkeyEnd := takeWhile_append_cons hbs (y := 61) rfl
    (34 :: (encode (escape value.toList) ++ 34 :: rest))
  have hlayout : attributeBytes (key, value) ++ rest =
      32 :: b :: (bs ++ 61 :: 34 :: (encode (escape value.toList) ++ 34 :: rest)) := by
    simp [attributeBytes, hb]
  have hskip : (32 :: b :: (bs ++ 61 :: 34 :: (encode (escape value.toList) ++ 34 :: rest))).dropWhile
      isSpace = b :: (bs ++ 61 :: 34 :: (encode (escape value.toList) ++ 34 :: rest)) := by
    simp [hspace, show isSpace 32 = true from rfl]
  have hcut := cutAt?_singleton (not_mem_encode_escape (by simp) value.toList) (q := 34) rest
  rw [hlayout, attributesFrom?, hskip]
  dsimp only
  rw [hkeyEnd.1, hkeyEnd.2]
  have hequals (xs : Bytes) : (61 :: xs).dropWhile isSpace = 61 :: xs := rfl
  have hquote (xs : Bytes) : (34 :: xs).dropWhile isSpace = 34 :: xs := rfl
  have hlossy : Text.ofUtf8Lossy (b :: bs) = key := by
    rw [← hb, Text.ofUtf8Lossy_encode, String.ofList_toList]
  rw [hb] at hseen ⊢
  simp only [hequals, hquote, hseen, ↓reduceIte, show isQuote 34 = true from rfl, hcut,
    readText?_escape, String.ofList_toList, hlossy, Option.bind_eq_bind, Option.bind_some]
  cases attributesFrom? fuel ((b :: bs) :: seen) rest <;> rfl

structure AreProper (as : Attributes) : Prop where
  words : ∀ a ∈ as, isWord a.1 = true
  nodup : (as.map Prod.fst).Nodup

theorem AreProper.of_sublist (keys : List String) {as : Attributes}
    (h : (as.map Prod.fst).Sublist keys) (hwords : keys.all isWord = true)
    (hnodup : keys.Nodup) : AreProper as where
  words a ha := List.all_eq_true.1 hwords a.1 (h.subset (List.mem_map_of_mem ha))
  nodup := hnodup.sublist h

theorem attributesFrom?_write {as : Attributes} (h : AreProper as) {seen : List Bytes}
    (hseen : ∀ a ∈ as, encode a.1.toList ∉ seen) {fuel : Nat} (hfuel : as.length ≤ fuel) :
    attributesFrom? fuel seen (as.flatMap attributeBytes) = some as := by
  induction as generalizing seen fuel with
  | nil => simp [attributesFrom?]
  | cons a as ih =>
    obtain ⟨hwords, hnodup⟩ := h
    rw [List.map_cons, List.nodup_cons] at hnodup
    obtain ⟨fuel, rfl⟩ := Nat.exists_eq_succ_of_ne_zero (Nat.ne_zero_of_lt hfuel)
    have hrest : AreProper as := ⟨fun c hc => hwords c (List.mem_cons_of_mem a hc), hnodup.2⟩
    have hnew : ∀ c ∈ as, encode c.1.toList ∉ encode a.1.toList :: seen := by
      intro c hc hmem
      cases List.mem_cons.1 hmem with
      | inl heq =>
        have : c.1 = a.1 := String.toList_injective (Text.encode_injective heq)
        exact hnodup.1 (this ▸ List.mem_map_of_mem hc)
      | inr hmem => exact hseen c (List.mem_cons_of_mem a hc) hmem
    rw [List.flatMap_cons, attributesFrom?_attributeBytes (hwords a List.mem_cons_self)
      (hseen a List.mem_cons_self), ih hrest hnew (Nat.le_of_succ_le_succ hfuel)]
    rfl

theorem length_le_length_attributes (as : Attributes) :
    as.length ≤ (as.flatMap attributeBytes).length := by
  induction as with
  | nil => exact Nat.le_refl 0
  | cons a as ih =>
    simp only [List.flatMap_cons, List.length_append, List.length_cons, attributeBytes]
    omega

theorem attributes?_write {as : Attributes} (h : AreProper as) :
    attributes? (as.flatMap attributeBytes) = some as :=
  attributesFrom?_write h (by simp) (length_le_length_attributes as)

/-- Bytes that leave the end of a tag to be found behind them. -/
def Passed (xs : Bytes) : Prop :=
  ∀ ys tag rest, cutTag? none ys = some (tag, rest) →
    cutTag? none (xs ++ ys) = some (xs ++ tag, rest)

theorem Passed.nil : Passed [] := fun _ _ _ h => h

theorem Passed.append {xs ys : Bytes} (hxs : Passed xs) (hys : Passed ys) : Passed (xs ++ ys) := by
  intro zs tag rest h
  simpa only [List.append_assoc] using hxs _ _ _ (hys _ _ _ h)

theorem Passed.singleton {b : UInt8} (hb : b ≠ 62) (hquote : isQuote b = false) : Passed [b] := by
  intro ys tag rest h
  simp [cutTag?, hb, hquote, h]

theorem Passed.of_forall {xs : Bytes} (h : ∀ b ∈ xs, b ≠ 62 ∧ isQuote b = false) : Passed xs := by
  induction xs with
  | nil => exact .nil
  | cons b xs ih =>
    have hb := h b List.mem_cons_self
    exact (Passed.singleton hb.1 hb.2).append (ih fun c hc => h c (List.mem_cons_of_mem b hc))

theorem Passed.quoted {v : Bytes} (hv : 34 ∉ v) : Passed (34 :: v ++ [34]) := by
  intro ys tag rest h
  have inside : cutTag? (some 34) (v ++ 34 :: ys) = some (v ++ 34 :: tag, rest) := by
    induction v with
    | nil => simp [cutTag?, h]
    | cons b v ih =>
      have hb : b ≠ 34 := fun hb => hv (hb ▸ List.mem_cons_self)
      simp [cutTag?, hb, ih fun hmem => hv (List.mem_cons_of_mem b hmem)]
  simp [cutTag?, show isQuote 34 = true from rfl, inside]

theorem Passed.word {s : String} (h : isWord s = true) : Passed (encode s.toList) := by
  apply Passed.of_forall
  intro b hb
  have := isLetter_of_mem_encode h hb
  exact ⟨ne_of_isLetter this rfl, isQuote_of_isLetter this⟩

theorem Passed.attribute {a : String × String} (h : isWord a.1 = true) :
    Passed (attributeBytes a) := by
  have hspace : Passed [32] := .singleton (by decide) rfl
  have hequals : Passed [61] := .singleton (by decide) rfl
  have hvalue := Passed.quoted (not_mem_encode_escape (by simp) a.2.toList)
  simpa [attributeBytes] using (hspace.append (.word h)).append (hequals.append hvalue)

theorem Passed.attributes {as : Attributes} (h : ∀ a ∈ as, isWord a.1 = true) :
    Passed (as.flatMap attributeBytes) := by
  induction as with
  | nil => exact .nil
  | cons a as ih =>
    rw [List.flatMap_cons]
    exact (Passed.attribute (h a List.mem_cons_self)).append
      (ih fun c hc => h c (List.mem_cons_of_mem a hc))

end InstrumentBus.Markup
