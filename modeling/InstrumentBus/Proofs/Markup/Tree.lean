import InstrumentBus.Markup.Node
import InstrumentBus.Proofs.Markup.Tag
import InstrumentBus.Proofs.Text.Blank

/-!
Reading of written markup token by token, whatever follows it.
-/

namespace InstrumentBus.Markup

open Text (Bytes encode)

section

variable {tag : String} (htag : isWord tag = true) {as : Attributes}

theorem takeWhile_attributes {p : UInt8 → Bool} (hp : p 32 = false) (as : Attributes) :
    (as.flatMap attributeBytes).takeWhile p = [] ∧
      (as.flatMap attributeBytes).dropWhile p = as.flatMap attributeBytes := by
  cases as with
  | nil => exact ⟨rfl, rfl⟩
  | cons a as => simp [attributeBytes, hp]

theorem getLast?_attributes (as : Attributes) :
    (as.flatMap attributeBytes).getLast? = none ∨
      (as.flatMap attributeBytes).getLast? = some 34 := by
  induction as with
  | nil => exact .inl rfl
  | cons a as ih =>
    right
    rw [List.flatMap_cons, List.getLast?_append]
    cases ih with
    | inl h => rw [h, Option.none_or, attributeBytes, List.getLast?_concat]
    | inr h => rw [h, Option.some_or]

include htag

theorem openTag_of_not_isEmpty :
    openTag (encode tag.toList ++ as.flatMap attributeBytes) =
      .open (encode tag.toList) (as.flatMap attributeBytes) false := by
  have hname : ∀ b ∈ encode tag.toList, (!isSpace b) = true := by
    intro b hb
    simp [isSpace_of_isLetter (isLetter_of_mem_encode htag hb)]
  have hlast : ((encode tag.toList ++ as.flatMap attributeBytes).getLast? == some 47) = false := by
    rw [List.getLast?_append]
    obtain h | h := getLast?_attributes as
    · rw [h, Option.none_or, beq_eq_false_iff_ne]
      intro hl
      have := isLetter_of_mem_encode htag (List.mem_of_getLast? hl)
      cases this
    · rw [h]
      rfl
  have hend := takeWhile_attributes (p := (!isSpace ·)) rfl as
  simp only [openTag, hlast, Bool.false_eq_true, ↓reduceIte]
  rw [List.takeWhile_append_of_pos hname, List.dropWhile_append_of_pos hname, hend.1, hend.2,
    List.append_nil]

theorem openTag_of_isEmpty :
    openTag (encode tag.toList ++ as.flatMap attributeBytes ++ [47]) =
      .open (encode tag.toList) (as.flatMap attributeBytes) true := by
  have hname : ∀ b ∈ encode tag.toList, (!isSpace b) = true := by
    intro b hb
    simp [isSpace_of_isLetter (isLetter_of_mem_encode htag hb)]
  have hend := takeWhile_attributes (p := (!isSpace ·)) rfl as
  simp only [openTag, List.getLast?_concat, beq_self_eq_true, ↓reduceIte, List.dropLast_concat]
  rw [List.takeWhile_append_of_pos hname, List.dropWhile_append_of_pos hname, hend.1, hend.2,
    List.append_nil]

theorem front_of_passed {body : Bytes} (hbody : Passed (encode tag.toList ++ body)) (rest : Bytes) :
    front (60 :: (encode tag.toList ++ body ++ 62 :: rest)) =
      .token (openTag (encode tag.toList ++ body)) rest := by
  have hcut := hbody (62 :: rest) [] rest (by simp [cutTag?])
  obtain ⟨b, bs, hb⟩ := encode_eq_cons_of_isWord htag
  have hletter : isLetter b = true := isLetter_of_mem_encode htag (hb ▸ List.mem_cons_self)
  rw [hb] at hcut ⊢
  simp only [List.cons_append] at hcut ⊢
  simp only [front, ↓reduceIte, tagFront, ne_of_isLetter hletter (c := 33) rfl,
    ne_of_isLetter hletter (c := 47) rfl, ne_of_isLetter hletter (c := 63) rfl, hcut,
    List.append_nil]

theorem front_open (has : ∀ a ∈ as, isWord a.1 = true) (rest : Bytes) :
    front (60 :: (encode tag.toList ++ as.flatMap attributeBytes ++ 62 :: rest)) =
      .token (.open (encode tag.toList) (as.flatMap attributeBytes) false) rest := by
  rw [front_of_passed htag ((Passed.word htag).append (.attributes has)),
    openTag_of_not_isEmpty htag]

theorem front_empty (has : ∀ a ∈ as, isWord a.1 = true) (rest : Bytes) :
    front (60 :: (encode tag.toList ++ as.flatMap attributeBytes ++ 47 :: 62 :: rest)) =
      .token (.open (encode tag.toList) (as.flatMap attributeBytes) true) rest := by
  have hslash : Passed [47] := .singleton (by decide) rfl
  have hbody := (Passed.word htag).append ((Passed.attributes has).append hslash)
  have := front_of_passed htag hbody rest
  rw [← List.append_assoc, openTag_of_isEmpty htag] at this
  simpa using this

theorem front_close (rest : Bytes) :
    front (60 :: 47 :: (encode tag.toList ++ 62 :: rest)) =
      .token (.close (encode tag.toList)) rest := by
  have hspace : ∀ b ∈ encode tag.toList, isSpace b = false := fun b hb =>
    isSpace_of_isLetter (isLetter_of_mem_encode htag hb)
  have hname : closeName (encode tag.toList) = encode tag.toList := by
    obtain ⟨b, bs, hb⟩ := encode_eq_cons_of_isWord htag
    have hall : (encode tag.toList).all isSpace = false := by
      simp [hb, hspace b (hb ▸ List.mem_cons_self)]
    rw [closeName, hall, Text.dropTail_of_forall hspace]
    rfl
  have hcut := Passed.word htag (62 :: rest) [] rest (by simp [cutTag?])
  rw [List.append_nil] at hcut
  simp only [front, ↓reduceIte, tagFront, show (47 : UInt8) ≠ 33 by decide, hcut, hname]

end

theorem front_text {bs : Bytes} (hne : bs ≠ []) (hbs : 60 ∉ bs) (rest : Bytes) :
    front (bs ++ 60 :: rest) = .token (.text bs) (60 :: rest) := by
  have hall : ∀ b ∈ bs, (b != 60) = true := by
    intro b hb
    simp only [bne_iff_ne]
    intro h
    exact hbs (h ▸ hb)
  have hsplit := takeWhile_append_cons hall (y := 60) rfl rest
  cases bs with
  | nil => exact absurd rfl hne
  | cons b bs =>
    have hb : b ≠ 60 := by simpa using hall b List.mem_cons_self
    simp only [List.cons_append, front, hb, ↓reduceIte] at hsplit ⊢
    rw [hsplit.1, hsplit.2]

def resume (fuel : Nat) (bs : Bytes) : Except Node (List Opened) → Except NodeError Node
  | .error n => .ok n
  | .ok stack => readNode fuel stack bs

/-- From the elements that are open, some bytes lead to others, or complete one, whatever is behind
them. -/
def Leads (stack : List Opened) (bs : Bytes) (result : Except Node (List Opened)) : Prop :=
  ∃ k ≤ bs.length, ∀ fuel rest, readNode (fuel + k) stack (bs ++ rest) = resume fuel rest result

theorem Leads.of_token {stack : List Opened} {bs : Bytes} {t : Token}
    {result : Except Node (List Opened)} (hbs : bs ≠ [])
    (hfront : ∀ rest, front (bs ++ rest) = .token t rest) (ht : t.apply stack = .ok result) :
    Leads stack bs result := by
  refine ⟨1, List.length_pos_iff.2 hbs, ?_⟩
  intro fuel rest
  rw [readNode, hfront]
  dsimp only
  rw [ht]
  cases result <;> rfl

theorem Leads.nil (stack : List Opened) : Leads stack [] (.ok stack) :=
  ⟨0, Nat.le_refl 0, fun _ _ => rfl⟩

theorem Leads.append {stack stack' : List Opened} {bs cs : Bytes}
    {result : Except Node (List Opened)} (hbs : Leads stack bs (.ok stack'))
    (hcs : Leads stack' cs result) : Leads stack (bs ++ cs) result := by
  obtain ⟨k, hk, hbs⟩ := hbs
  obtain ⟨l, hl, hcs⟩ := hcs
  refine ⟨l + k, ?_, ?_⟩
  · rw [List.length_append]
    omega
  · intro fuel rest
    rw [List.append_assoc, ← Nat.add_assoc, hbs]
    exact hcs fuel rest

theorem Leads.text {o : Opened} {stack : List Opened} {cs : List Char} {bs : Bytes}
    {result : Except Node (List Opened)} (hcs : cs ≠ [])
    (h : Leads ({ o with texts := String.ofList cs :: o.texts } :: stack) (60 :: bs) result) :
    Leads (o :: stack) (encode (escape cs) ++ 60 :: bs) result := by
  obtain ⟨k, hk, h⟩ := h
  have hne : encode (escape cs) ≠ [] := by
    intro hnil
    have := readText?_escape cs
    rw [hnil, show ([] : Bytes) = encode (escape []) from rfl, readText?_escape, Option.some.injEq,
      String.ofList_inj] at this
    exact hcs this.symm
  have hpos := List.length_pos_iff.2 hne
  refine ⟨k + 1, ?_, ?_⟩
  · rw [List.length_append]
    omega
  · intro fuel rest
    rw [List.append_assoc, List.cons_append, ← Nat.add_assoc, readNode,
      front_text hne (not_mem_encode_escape (by simp) cs)]
    simp only [Token.apply, readText?_escape]
    exact h fuel rest

theorem Leads.ofBytes {bs : Bytes} {n : Node} (h : Leads [] bs (.error n)) (rest : Bytes) :
    Node.ofBytes (bs ++ rest) = .ok n := by
  obtain ⟨k, hk, h⟩ := h
  have hfuel : (bs ++ rest).length + 1 = (bs ++ rest).length + 1 - k + k := by
    rw [List.length_append]
    omega
  rw [Node.ofBytes, hfuel, h]
  rfl

end InstrumentBus.Markup
