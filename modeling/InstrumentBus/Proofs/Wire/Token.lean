import InstrumentBus.Proofs.Text.Cut
import InstrumentBus.Proofs.Wire.Trace

/-!
Where a token ends that a reader of elements finds within a frame, a frame on its course is in the
text between tags, as deep as the token says, unless the token holds a byte of which the two do not
make the same.
-/

namespace InstrumentBus

open Text (Bytes)

namespace Markup

def Token.depth (n : Nat) : Token → Nat
  | .open _ _ isEmpty => if isEmpty then n else n + 1
  | .close _ => n - 1
  | _ => n

end Markup

namespace Wire

open Markup

/-- A splitter takes what follows a bracket that begins no tag for text, and a bracket within a
declaration or a quote within an end tag for a part of it. A reader of elements reads on to the end
of a tag in the first case, has one more bracket to close in the second, and in the third does not
look for the end of the tag before the quote is closed. -/
def Lex.overlooks (l : Lex) (b : UInt8) : Bool :=
  match l with
  | .open => !beginsTag b
  | .declaration => b == 60
  | .endName _ | .endTail _ => isQuote b
  | _ => false

namespace Place

variable {p p' : Place} {os : List String} {b : UInt8} {bs cs rest : Bytes} {depth : Nat}

def follow? (p : Place) (b : UInt8) : Option Place :=
  if p.lex.overlooks b then none else p.next? b

def track? (p : Place) (bs : Bytes) : Option Place := bs.foldlM follow? p

@[simp] theorem track?_nil : p.track? [] = some p := rfl

@[simp] theorem track?_cons : p.track? (b :: bs) = (p.follow? b).bind (·.track? bs) := rfl

@[simp] theorem track?_append : p.track? (bs ++ cs) = (p.track? bs).bind (·.track? cs) :=
  List.foldlM_append

theorem exists_follow? (h : (p.track? (b :: bs)).isSome = true) :
    ∃ p', p.follow? b = some p' ∧ (p'.track? bs).isSome = true := by
  rw [track?_cons] at h
  cases hb : p.follow? b with
  | none => simp [hb] at h
  | some p' => exact ⟨p', rfl, by simpa [hb] using h⟩

theorem next?_of_follow? (h : p.follow? b = some p') : p.next? b = some p' :=
  (Option.ite_none_left_eq_some.1 h).2

theorem walk?_of_track? (h : p.track? bs = some p') : p.walk? bs = some p' := by
  induction bs generalizing p with
  | nil => exact h
  | cons b bs ih =>
    obtain ⟨p₁, hb, hbs⟩ := Option.bind_eq_some_iff.1 h
    rw [walk?_cons, next?_of_follow? hb]
    exact ih hbs

theorem opened_of_follow? (hlex : ¬p.lex.IsNaming) (h : p.follow? b = some p') : p.opened ≠ [] := by
  intro hopened
  have hnext := next?_of_follow? h
  rw [next?, if_pos hopened, enter?] at hnext
  split at hnext
  · rename_i hopen
    simp [hopen, Lex.IsNaming] at hlex
  · rename_i hname
    simp [hname, Lex.IsNaming] at hlex
  · cases hnext

theorem proceed?_of_follow? (hlex : ¬p.lex.IsNaming) (h : p.follow? b = some p') :
    p.proceed? b = some p' := by
  rw [← next?_of_opened (opened_of_follow? hlex h)]
  exact next?_of_follow? h

theorem exists_proceed? (hlex : ¬p.lex.IsNaming) (h : (p.track? (b :: bs)).isSome = true) :
    ∃ p', p.follow? b = some p' ∧ p.proceed? b = some p' ∧ (p'.track? bs).isSome = true := by
  obtain ⟨p', hfollow, hbs⟩ := exists_follow? h
  exact ⟨p', hfollow, proceed?_of_follow? hlex hfollow, hbs⟩

/-- The bytes before `rest` lead to the text within `depth` open elements. -/
def Spans (p : Place) (bs rest : Bytes) (depth : Nat) : Prop :=
  ∃ used os, bs = used ++ rest ∧ p.track? used = some ⟨.text, os⟩ ∧ os.length = depth

theorem Spans.here : Spans ⟨.text, os⟩ rest rest os.length := ⟨[], os, rfl, rfl, rfl⟩

theorem Spans.cons (hb : p.follow? b = some p') (h : Spans p' bs rest depth) :
    Spans p (b :: bs) rest depth := by
  obtain ⟨used, os, rfl, htrack, hdepth⟩ := h
  exact ⟨b :: used, os, rfl, by rw [track?_cons, hb]; exact htrack, hdepth⟩

theorem spans_text (h : (track? ⟨.text, os⟩ bs).isSome = true) :
    Spans ⟨.text, os⟩ bs (bs.dropWhile (· != 60)) os.length := by
  induction bs with
  | nil => exact .here
  | cons b bs ih =>
    by_cases hb : b = 60
    · rw [List.dropWhile_cons_of_neg (by simp [hb])]
      exact .here
    · obtain ⟨p, hfollow, hp, hbs⟩ := exists_proceed? (by simp [Lex.IsNaming]) h
      simp only [proceed?, stay, hb, ↓reduceIte, Option.some.injEq] at hp
      subst hp
      rw [List.dropWhile_cons_of_pos (by simp [hb])]
      exact (ih hbs).cons hfollow

theorem exists_cutAt? {mark head : Bytes} (hmark : Text.afterStart? mark (b :: bs) = none)
    (h : cutAt? mark (b :: bs) = some (head, rest)) : ∃ head', cutAt? mark bs = some (head', rest) := by
  simp only [cutAt?, hmark] at h
  obtain ⟨⟨head', rest'⟩, hcut, h⟩ := Option.map_eq_some_iff.1 h
  cases h
  exact ⟨head', hcut⟩

theorem exists_cutAt?_pair {c : UInt8} {head : Bytes} {k : Nat} (hc : c ≠ 62) (hk : k ≤ 2)
    (h : cutAt? [c, c, 62] (List.replicate k c ++ c :: bs) = some (head, rest)) :
    ∃ head', cutAt? [c, c, 62] (List.replicate (min (k + 1) 2) c ++ bs) = some (head', rest) := by
  have hthree : k = 0 ∨ k = 1 ∨ k = 2 := by omega
  obtain rfl | rfl | rfl := hthree
  · exact ⟨head, h⟩
  · exact ⟨head, h⟩
  · exact exists_cutAt? (by simp [Text.afterStart?, hc]) h

theorem exists_cutAt?_other {c : UInt8} {head : Bytes} {k : Nat} (hk : k ≤ 2) (hb : b ≠ c)
    (hend : ¬(b = 62 ∧ k ≥ 2))
    (h : cutAt? [c, c, 62] (List.replicate k c ++ b :: bs) = some (head, rest)) :
    ∃ head', cutAt? [c, c, 62] bs = some (head', rest) := by
  have hfirst {xs : Bytes} : Text.afterStart? [c, c, 62] (b :: xs) = none := by
    simp [Text.afterStart?, hb]
  have hsecond {xs : Bytes} : Text.afterStart? [c, c, 62] (c :: b :: xs) = none := by
    simp [Text.afterStart?, hb]
  have hthree : k = 0 ∨ k = 1 ∨ k = 2 := by omega
  obtain rfl | rfl | rfl := hthree
  · exact exists_cutAt? hfirst h
  · obtain ⟨head, h⟩ := exists_cutAt? hsecond h
    exact exists_cutAt? hfirst h
  · have hthird : b ≠ 62 := fun hb => hend ⟨hb, Nat.le_refl 2⟩
    obtain ⟨head, h⟩ := exists_cutAt? (by simp [Text.afterStart?, hthird]) h
    obtain ⟨head, h⟩ := exists_cutAt? hsecond h
    exact exists_cutAt? hfirst h

/-- `mid k` is in the middle of a comment or of raw data, behind `k` bytes `c`. -/
theorem spans_pair {mid : Nat → Lex} {c : UInt8} {head : Bytes} {k : Nat} (hc : c ≠ 62)
    (hmid : ∀ k b p', follow? ⟨mid k, os⟩ b = some p' →
      p' = ⟨if b = c then mid (min (k + 1) 2) else if b = 62 ∧ k ≥ 2 then .text else mid 0, os⟩)
    (hk : k ≤ 2) (h : (track? ⟨mid k, os⟩ bs).isSome = true)
    (hcut : cutAt? [c, c, 62] (List.replicate k c ++ bs) = some (head, rest)) :
    Spans ⟨mid k, os⟩ bs rest os.length := by
  induction bs generalizing k head with
  | nil =>
    have hthree : k = 0 ∨ k = 1 ∨ k = 2 := by omega
    obtain rfl | rfl | rfl := hthree <;> simp [cutAt?, Text.afterStart?, List.replicate] at hcut
  | cons b bs ih =>
    obtain ⟨p, hfollow, hbs⟩ := exists_follow? h
    have hp := hmid k b p hfollow
    by_cases hb : b = c
    · subst hb
      simp only [↓reduceIte] at hp
      subst hp
      obtain ⟨head', hcut⟩ := exists_cutAt?_pair hc hk hcut
      exact (ih (Nat.min_le_right ..) hbs hcut).cons hfollow
    · simp only [hb, ↓reduceIte] at hp
      by_cases hend : b = 62 ∧ k ≥ 2
      · simp only [hend, and_self, ↓reduceIte] at hp
        subst hp
        obtain ⟨rfl, hge⟩ := hend
        obtain rfl : k = 2 := by omega
        have hrest : bs = rest := by
          simp [cutAt?, Text.afterStart?, List.replicate] at hcut
          exact hcut.2
        exact hrest ▸ Spans.here.cons hfollow
      · simp only [hend, ↓reduceIte] at hp
        subst hp
        obtain ⟨head', hcut⟩ := exists_cutAt?_other hk hb hend hcut
        exact (ih (Nat.zero_le 2) hbs hcut).cons hfollow

theorem spans_comment {head : Bytes} (h : (track? ⟨.comment 0, os⟩ bs).isSome = true)
    (hcut : cutAt? commentEnd bs = some (head, rest)) : Spans ⟨.comment 0, os⟩ bs rest os.length := by
  refine spans_pair (c := 45) (by decide) ?_ (Nat.zero_le 2) h hcut
  intro k b p hfollow
  have hp := proceed?_of_follow? (by simp [Lex.IsNaming]) hfollow
  exact (Option.some.inj hp).symm

theorem spans_data {head : Bytes} (h : (track? ⟨.data 0, os⟩ bs).isSome = true)
    (hcut : cutAt? dataEnd bs = some (head, rest)) : Spans ⟨.data 0, os⟩ bs rest os.length := by
  refine spans_pair (c := 93) (by decide) ?_ (Nat.zero_le 2) h hcut
  intro k b p hfollow
  have hp := proceed?_of_follow? (by simp [Lex.IsNaming]) hfollow
  exact (Option.some.inj hp).symm

theorem exists_cutAt?_instruction {head : Bytes} {question : Bool}
    (hend : ¬(b = 62 ∧ question = true))
    (h : cutAt? instructionEnd ((if question then [63] else []) ++ b :: bs) = some (head, rest)) :
    ∃ head', cutAt? instructionEnd ((if b == 63 then [63] else []) ++ bs) = some (head', rest) := by
  by_cases hb : b = 63
  · subst hb
    cases question with
    | false => exact ⟨head, h⟩
    | true => exact exists_cutAt? (by simp [Text.afterStart?, instructionEnd]) h
  · have hfirst {xs : Bytes} : Text.afterStart? instructionEnd (b :: xs) = none := by
      simp [Text.afterStart?, instructionEnd, hb]
    have hnext : (if b == 63 then [63] else []) ++ bs = bs := by simp [hb]
    rw [hnext]
    cases question with
    | false => exact exists_cutAt? hfirst h
    | true =>
      have hb' : b ≠ 62 := fun hb => hend ⟨hb, rfl⟩
      obtain ⟨head', h⟩ := exists_cutAt? (by simp [Text.afterStart?, instructionEnd, hb']) h
      exact exists_cutAt? hfirst h

theorem spans_instruction {head : Bytes} {question : Bool}
    (h : (track? ⟨.instruction question, os⟩ bs).isSome = true)
    (hcut : cutAt? instructionEnd ((if question then [63] else []) ++ bs) = some (head, rest)) :
    Spans ⟨.instruction question, os⟩ bs rest os.length := by
  induction bs generalizing question head with
  | nil => cases question <;> simp [cutAt?, Text.afterStart?, instructionEnd] at hcut
  | cons b bs ih =>
    obtain ⟨p, hfollow, hp, hbs⟩ := exists_proceed? (by simp [Lex.IsNaming]) h
    simp only [proceed?, stay, Option.some.injEq] at hp
    by_cases hend : b = 62 ∧ question = true
    · simp only [hend, and_self, ↓reduceIte] at hp
      subst hp
      obtain ⟨rfl, rfl⟩ := hend
      have hrest : bs = rest := by
        simp [cutAt?, Text.afterStart?, instructionEnd] at hcut
        exact hcut.2
      exact hrest ▸ Spans.here.cons hfollow
    · simp only [hend, ↓reduceIte] at hp
      subst hp
      obtain ⟨head', hcut⟩ := exists_cutAt?_instruction hend hcut
      exact (ih hbs hcut).cons hfollow

theorem spans_declaration {head : Bytes} (h : (track? ⟨.declaration, os⟩ bs).isSome = true)
    (hcut : cutBalanced? 0 bs = some (head, rest)) : Spans ⟨.declaration, os⟩ bs rest os.length := by
  induction bs generalizing head with
  | nil => cases hcut
  | cons b bs ih =>
    obtain ⟨p, hfollow, hp, hbs⟩ := exists_proceed? (by simp [Lex.IsNaming]) h
    have hb : b ≠ 60 := by
      rintro rfl
      cases hfollow
    simp only [proceed?, stay, Option.some.injEq] at hp
    subst hp
    simp only [cutBalanced?, hb, ↓reduceIte] at hcut
    split at hcut
    · rename_i hend
      cases hcut
      rw [if_pos hend] at hfollow
      exact Spans.here.cons hfollow
    · rename_i hend
      rw [if_neg hend] at hfollow hbs
      obtain ⟨⟨head', rest'⟩, hrest, heq⟩ := Option.map_eq_some_iff.1 hcut
      cases heq
      exact (ih hbs hrest).cons hfollow

theorem spans_declaration_drop {head : Bytes} {n : Nat} (hword : ∀ b ∈ bs.take n, b ≠ 62)
    (h : (track? ⟨.declaration, os⟩ bs).isSome = true)
    (hcut : cutBalanced? 0 (bs.drop n) = some (head, rest)) :
    Spans ⟨.declaration, os⟩ bs rest os.length := by
  induction n generalizing bs with
  | zero => exact spans_declaration h hcut
  | succ n ih =>
    cases bs with
    | nil => cases hcut
    | cons b bs =>
      obtain ⟨p, hfollow, hp, hbs⟩ := exists_proceed? (by simp [Lex.IsNaming]) h
      have hb : b ≠ 62 := hword b (by simp)
      simp only [proceed?, stay, hb, ↓reduceIte, Option.some.injEq] at hp
      subst hp
      exact (ih (fun c hc => hword c (by simp [hc])) hbs hcut).cons hfollow

theorem eq_of_close? {name : String} (h : p.close? name = some p') :
    p' = ⟨.text, p.opened.tail⟩ :=
  (Option.some.inj (Option.ite_none_right_eq_some.1 h).2).symm

theorem isQuote_of_follow?_endTag {l : Lex} {name : Bytes}
    (hl : l = .endName name ∨ l = .endTail name) (h : follow? ⟨l, os⟩ b = some p) : isQuote b = false := by
  have hplain := (Option.ite_none_left_eq_some.1 h).1
  obtain rfl | rfl := hl
  · exact eq_false_of_ne_true hplain
  · exact eq_false_of_ne_true hplain

theorem spans_endTag {l : Lex} {name head : Bytes} (hl : l = .endName name ∨ l = .endTail name)
    (h : (track? ⟨l, os⟩ bs).isSome = true) (hcut : cutTag? none bs = some (head, rest)) :
    Spans ⟨l, os⟩ bs rest (os.length - 1) := by
  induction bs generalizing l name head with
  | nil => cases hcut
  | cons b bs ih =>
    obtain ⟨p, hfollow, hp, hbs⟩ := exists_proceed? (by obtain rfl | rfl := hl <;> simp [Lex.IsNaming]) h
    have hquote := isQuote_of_follow?_endTag hl hfollow
    by_cases hb : b = 62
    · subst hb
      cases hcut
      have hclose : close? ⟨l, os⟩ (Splitter.spell name) = some p := by
        obtain rfl | rfl := hl
        · exact hp
        · exact hp
      obtain rfl := eq_of_close? hclose
      exact os.length_tail ▸ Spans.here.cons hfollow
    · simp only [cutTag?, hb, hquote, Bool.false_eq_true, ↓reduceIte] at hcut
      obtain ⟨⟨head', rest'⟩, hrest, heq⟩ := Option.map_eq_some_iff.1 hcut
      cases heq
      have hnext : ∃ name' l', (l' = .endName name' ∨ l' = .endTail name') ∧ p = ⟨l', os⟩ := by
        obtain rfl | rfl := hl
        · simp only [proceed?, stay, hb, ↓reduceIte] at hp
          split at hp
          · exact ⟨_, _, .inl rfl, (Option.some.inj hp).symm⟩
          · exact ⟨_, _, .inr rfl, (Option.some.inj hp).symm⟩
        · simp only [proceed?, stay, hb, ↓reduceIte] at hp
          exact ⟨_, _, .inr rfl, (Option.some.inj hp).symm⟩
      obtain ⟨name', l', hl', rfl⟩ := hnext
      exact (ih hl' hbs hrest).cons hfollow

/-- Whether a start tag ends its element, by the last byte of the tag or else by `slash`. -/
def closes (slash : Bool) (tag : Bytes) : Bool := (tag.getLast?.map (· == 47)).getD slash

theorem closes_cons (slash : Bool) (b : UInt8) (tag : Bytes) :
    closes slash (b :: tag) = closes (b == 47) tag := by
  simp only [closes, List.getLast?_cons]
  cases tag.getLast? <;> rfl

theorem closes_of_ne_nil {tag : Bytes} (h : tag ≠ []) (slash slash' : Bool) :
    closes slash tag = closes slash' tag := by
  simp only [closes, List.getLast?_eq_some_getLast h]
  rfl

theorem ne_nil_of_cutTag? {q : UInt8} {tag : Bytes} (h : cutTag? (some q) bs = some (tag, rest)) :
    tag ≠ [] := by
  cases bs with
  | nil => cases h
  | cons b bs =>
    obtain ⟨⟨tag', rest'⟩, -, heq⟩ := Option.map_eq_some_iff.1 h
    cases heq
    simp

theorem behind_of_ne {slash : Bool} (hb : b ≠ 62) :
    Lex.behind none slash b = .attributes (if isQuote b then some b else none) (b == 47) := by
  by_cases hquote : b = 34 ∨ b = 39
  · obtain rfl | rfl := hquote <;> rfl
  · by_cases hslash : b = 47
    · subst hslash
      rfl
    · rw [not_or] at hquote
      simp [Lex.behind, isQuote, hb, hquote, hslash]

theorem isQuote_of_mem {q : UInt8} (h : q ∈ if isQuote b then some b else none) :
    isQuote q = true := by
  split at h
  · cases h
    assumption
  · cases h

theorem spans_attributes {quote : Option UInt8} {slash : Bool} {o : String} {tag : Bytes}
    (hquote : ∀ q ∈ quote, isQuote q = true)
    (h : (track? ⟨.attributes quote slash, o :: os⟩ bs).isSome = true)
    (hcut : cutTag? quote bs = some (tag, rest)) :
    Spans ⟨.attributes quote slash, o :: os⟩ bs rest
      (if closes slash tag then os.length else os.length + 1) := by
  induction bs generalizing quote slash tag with
  | nil => cases quote <;> cases hcut
  | cons b bs ih =>
    obtain ⟨p, hfollow, hp, hbs⟩ := exists_proceed? (by simp [Lex.IsNaming]) h
    cases quote with
    | some q =>
      obtain ⟨⟨tag', rest'⟩, hrest, heq⟩ := Option.map_eq_some_iff.1 hcut
      cases heq
      simp only [proceed?, stay, Lex.behind, reduceCtorEq, false_and, ↓reduceIte,
        Option.some.injEq] at hp
      subst hp
      rw [closes_cons]
      by_cases hb : b = q
      · have hslash : (b == 47) = false := by
          rw [beq_eq_false_iff_ne]
          rintro rfl
          exact absurd (hb ▸ hquote q rfl) (by decide)
        rw [if_pos hb] at hfollow hbs hrest
        rw [hslash]
        exact (ih (by simp) hbs hrest).cons hfollow
      · rw [if_neg hb] at hfollow hbs hrest
        rw [closes_of_ne_nil (ne_nil_of_cutTag? hrest) (b == 47) slash]
        exact (ih hquote hbs hrest).cons hfollow
    | none =>
      by_cases hb : b = 62
      · subst hb
        cases hcut
        cases slash with
        | true =>
          cases hp
          exact Spans.here.cons hfollow
        | false =>
          cases hp
          exact Spans.here.cons hfollow
      · simp only [cutTag?, hb, ↓reduceIte] at hcut
        obtain ⟨⟨tag', rest'⟩, hrest, heq⟩ := Option.map_eq_some_iff.1 hcut
        cases heq
        simp only [proceed?, stay, hb, false_and, and_false, ↓reduceIte, behind_of_ne hb,
          Option.some.injEq] at hp
        subst hp
        rw [closes_cons]
        exact (ih (fun q => isQuote_of_mem) hbs hrest).cons hfollow

theorem not_isQuote_of_isNameByte (h : isNameByte b = true) :
    isQuote b = false ∧ (b == 47) = false := by
  constructor
  · simp only [isQuote, Bool.or_eq_false_iff, beq_eq_false_iff_ne]
    constructor <;> rintro rfl <;> exact absurd h (by decide)
  · rw [beq_eq_false_iff_ne]
    rintro rfl
    exact absurd h (by decide)

theorem follow?_startName {name : Bytes} (h : follow? ⟨.startName name, os⟩ b = some p) :
    p = if isNameByte b then ⟨.startName (b :: name), os⟩
      else ⟨.behind none false b, Splitter.spell name :: os⟩ := by
  have hnext := next?_of_follow? h
  rw [next?] at hnext
  split at hnext
  · rename_i hos
    cases hos
    simp only [enter?, stay] at hnext
    split at hnext <;> cases hnext <;> simp [*]
  · simp only [proceed?, stay] at hnext
    split at hnext
    · cases hnext
      simp [*]
    · split at hnext
      · cases hnext
      · cases hnext
        simp [*]

theorem spans_startName {name tag : Bytes} (h : (track? ⟨.startName name, os⟩ bs).isSome = true)
    (hcut : cutTag? none bs = some (tag, rest)) :
    Spans ⟨.startName name, os⟩ bs rest
      (if closes false tag then os.length else os.length + 1) := by
  induction bs generalizing name tag with
  | nil => cases hcut
  | cons b bs ih =>
    obtain ⟨p, hfollow, hbs⟩ := exists_follow? h
    have hp := follow?_startName hfollow
    by_cases hb : b = 62
    · subst hb
      cases hcut
      cases hp
      exact Spans.here.cons hfollow
    · simp only [cutTag?, hb, ↓reduceIte] at hcut
      obtain ⟨⟨tag', rest'⟩, hrest, heq⟩ := Option.map_eq_some_iff.1 hcut
      cases heq
      rw [closes_cons]
      cases hname : isNameByte b with
      | true =>
        obtain ⟨hquote, hslash⟩ := not_isQuote_of_isNameByte hname
        rw [if_pos hname] at hp
        subst hp
        rw [hquote] at hrest
        rw [hslash]
        exact (ih hbs hrest).cons hfollow
      | false =>
        rw [hname, behind_of_ne hb] at hp
        subst hp
        exact (spans_attributes (fun q => isQuote_of_mem) hbs hrest).cons hfollow

theorem follow?_bang {seen : Bytes} (h : follow? ⟨.bang seen, os⟩ b = some p) :
    p = ⟨Splitter.afterBang (seen ++ [b]) b, os⟩ :=
  (Option.some.inj (proceed?_of_follow? (by simp [Lex.IsNaming]) h)).symm

theorem Spans.mark {mark body : Bytes} {l : Lex} (hmark : mark ≠ [])
    (htrack : ∀ o os, track? ⟨.bang [], o :: os⟩ mark = some ⟨l, o :: os⟩)
    (h : (track? ⟨.bang [], os⟩ (mark ++ body)).isSome = true)
    (hbody : (track? ⟨l, os⟩ body).isSome = true → Spans ⟨l, os⟩ body rest depth) :
    Spans ⟨.bang [], os⟩ (mark ++ body) rest depth := by
  obtain ⟨b, bs, rfl⟩ := List.exists_cons_of_ne_nil hmark
  obtain ⟨p, hfollow, -⟩ := exists_follow? h
  obtain ⟨o, os, rfl⟩ := List.exists_cons_of_ne_nil (opened_of_follow? (by simp [Lex.IsNaming]) hfollow)
  rw [track?_append, htrack, Option.bind_some] at h
  obtain ⟨used, os', rfl, hused, hdepth⟩ := hbody h
  refine ⟨(b :: bs) ++ used, os', (List.append_assoc ..).symm, ?_, hdepth⟩
  rw [track?_append, htrack]
  exact hused

theorem ne_of_lowerByte {c : UInt8} (hc : lowerByte c = c) (h : lowerByte b ≠ c) : b ≠ c := by
  rintro rfl
  exact h hc

theorem afterBang_of_lowerByte (h : lowerByte b = 100) : Splitter.afterBang [b] b = .declaration := by
  have hend : b ≠ 62 := ne_of_lowerByte rfl (by rw [h]; decide)
  have hdash : b ≠ 45 := ne_of_lowerByte rfl (by rw [h]; decide)
  have hbracket : b ≠ 91 := ne_of_lowerByte rfl (by rw [h]; decide)
  simp [Splitter.afterBang, Splitter.commentMark, Splitter.dataMark, hend, hdash, hbracket]

theorem spans_doctype {head : Bytes} (hword : ((33 :: bs).take 8).map lowerByte = doctypeStart)
    (h : (track? ⟨.bang [], os⟩ bs).isSome = true)
    (hcut : cutBalanced? 0 ((33 :: bs).drop 8) = some (head, rest)) :
    Spans ⟨.bang [], os⟩ bs rest os.length := by
  cases bs with
  | nil => cases hword
  | cons b bs =>
    obtain ⟨p, hfollow, hbs⟩ := exists_follow? h
    have hp := follow?_bang hfollow
    simp only [List.take_succ_cons, List.map_cons, doctypeStart, List.cons.injEq] at hword
    obtain ⟨-, hb, hrest⟩ := hword
    rw [List.nil_append, afterBang_of_lowerByte hb] at hp
    subst hp
    refine (spans_declaration_drop (n := 6) ?_ hbs hcut).cons hfollow
    intro c hc
    have hlower : lowerByte c ∈ (bs.take 6).map lowerByte := List.mem_map_of_mem hc
    rw [hrest] at hlower
    rintro rfl
    exact absurd hlower (by decide)

theorem spans_bang {t : Token} (h : (track? ⟨.bang [], os⟩ bs).isSome = true)
    (ht : bang (33 :: bs) = .token t rest) : Spans ⟨.bang [], os⟩ bs rest (t.depth os.length) := by
  unfold bang at ht
  split at ht
  · rename_i hmark
    split at ht
    · rename_i hcut
      cases ht
      obtain rfl := (List.cons.inj (Text.afterStart?_eq_some_iff.1 hmark)).2
      exact Spans.mark (List.cons_ne_nil 45 [45]) (fun _ _ => rfl) h fun hbody =>
        spans_comment hbody hcut
    · cases ht
  · rename_i hmark _
    split at ht
    · rename_i hcut
      cases ht
      obtain rfl := (List.cons.inj (Text.afterStart?_eq_some_iff.1 hmark)).2
      exact Spans.mark (List.cons_ne_nil 91 _) (fun _ _ => rfl) h fun hbody =>
        spans_data hbody hcut
    · cases ht
  · split at ht
    · rename_i hword
      split at ht
      · rename_i hcut
        split at ht
        · cases ht
        · cases ht
          exact spans_doctype hword h hcut
      · cases ht
    · cases ht

theorem isNameStart_of_follow? (h : follow? ⟨.open, os⟩ b = some p) (hslash : b ≠ 47)
    (hquestion : b ≠ 63) (hbang : b ≠ 33) : isNameStart b = true := by
  have hname := (Option.ite_none_left_eq_some.1 h).1
  simpa [Lex.overlooks, beginsTag, hslash, hquestion, hbang] using hname

theorem follow?_open (h : follow? ⟨.open, os⟩ b = some p) :
    p = ⟨if b = 47 then .endName [] else if b = 63 then .instruction false
      else if b = 33 then .bang [] else .startName [b], os⟩ := by
  have hnext := next?_of_follow? h
  rw [next?] at hnext
  split at hnext
  · simp only [enter?, stay] at hnext
    split at hnext
    · rename_i hname
      cases hnext
      have hne {c : UInt8} (hc : isNameStart c = false) : b ≠ c := by
        rintro rfl
        simp [hname] at hc
      simp [hne (c := 47) rfl, hne (c := 63) rfl, hne (c := 33) rfl]
    · cases hnext
  · simp only [proceed?, stay, Option.some.injEq] at hnext
    subst hnext
    have hname := isNameStart_of_follow? h
    repeat' split
    all_goals first
      | rfl
      | exact absurd (hname ‹_› ‹_› ‹_›) ‹_›

theorem exists_cutAt?_of_ne_nil {mark head : Bytes} (hhead : head ≠ [])
    (h : cutAt? mark (b :: bs) = some (head, rest)) :
    ∃ head', cutAt? mark bs = some (head', rest) := by
  cases hmark : Text.afterStart? mark (b :: bs) with
  | none => exact exists_cutAt? hmark h
  | some rest' =>
    simp only [cutAt?, hmark] at h
    cases h
    exact absurd rfl hhead

theorem depth_openTag (tag : Bytes) (n : Nat) :
    (openTag tag).depth n = if closes false tag then n else n + 1 := by
  have hempty : (tag.getLast? == some 47) = closes false tag := by
    rw [closes]
    cases tag.getLast? <;> rfl
  simp only [openTag, Token.depth, hempty]

theorem spans_openTag {tag : Bytes} (hb : isNameByte b = true)
    (h : (track? ⟨.startName [b], os⟩ bs).isSome = true)
    (hcut : cutTag? none (b :: bs) = some (tag, rest)) :
    Spans ⟨.startName [b], os⟩ bs rest ((openTag tag).depth os.length) := by
  have hend : b ≠ 62 := by
    rintro rfl
    exact absurd hb (by decide)
  obtain ⟨hquote, hslash⟩ := not_isQuote_of_isNameByte hb
  simp only [cutTag?, hend, hquote, Bool.false_eq_true, ↓reduceIte] at hcut
  obtain ⟨⟨tag', rest'⟩, hrest, heq⟩ := Option.map_eq_some_iff.1 hcut
  cases heq
  rw [depth_openTag, closes_cons, hslash]
  exact spans_startName h hrest

theorem spans_tagFront {t : Token} (h : (track? ⟨.open, os⟩ bs).isSome = true)
    (ht : tagFront bs = .token t rest) : Spans ⟨.open, os⟩ bs rest (t.depth os.length) := by
  cases bs with
  | nil => cases ht
  | cons b bs =>
    obtain ⟨p, hfollow, hbs⟩ := exists_follow? h
    have hp := follow?_open hfollow
    simp only [tagFront] at ht
    split at ht
    · rename_i hb
      subst hb
      cases hp
      exact (spans_bang hbs ht).cons hfollow
    · rename_i hbang
      split at ht
      · rename_i hb
        subst hb
        cases hp
        split at ht
        · rename_i hcut
          cases ht
          exact (spans_endTag (.inl rfl) hbs hcut).cons hfollow
        · cases ht
      · rename_i hslash
        split at ht
        · rename_i hb
          subst hb
          cases hp
          split at ht
          · cases ht
          · rename_i head _ hhead hcut
            cases ht
            obtain ⟨head', hcut⟩ := exists_cutAt?_of_ne_nil hhead hcut
            exact (spans_instruction hbs hcut).cons hfollow
          · cases ht
        · rename_i hquestion
          split at ht
          · rename_i hcut
            cases ht
            simp only [hslash, hquestion, hbang, ↓reduceIte] at hp
            subst hp
            have hname := isNameStart_of_follow? hfollow hslash hquestion hbang
            have hb : isNameByte b = true := by simp [isNameByte, hname]
            exact (spans_openTag hb hbs hcut).cons hfollow
          · cases ht

theorem spans_front {t : Token} (h : (track? ⟨.text, os⟩ bs).isSome = true)
    (ht : front bs = .token t rest) : Spans ⟨.text, os⟩ bs rest (t.depth os.length) := by
  cases bs with
  | nil => cases ht
  | cons b bs =>
    simp only [front] at ht
    split at ht
    · rename_i hb
      obtain ⟨p, hfollow, hp, hbs⟩ := exists_proceed? (by simp [Lex.IsNaming]) h
      simp only [proceed?, stay, hb, ↓reduceIte, Option.some.injEq] at hp
      subst hp
      exact (spans_tagFront hbs ht).cons hfollow
    · cases ht
      exact spans_text h

end Place
end Wire
end InstrumentBus
