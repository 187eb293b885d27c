import InstrumentBus.Proofs.Message.Frame
import InstrumentBus.Proofs.Wire.Invariant

/-!
How a splitter reads a written frame behind the name of its tag: nothing is told before the last
byte, which completes the frame.
-/

namespace InstrumentBus.Wire

open Markup (attributeBytes isLetter isWord)
open Text (Bytes encode)

namespace Splitter

variable {s : Splitter} {start : Nat} {seen : Bytes} {os os' : List String} {l l' : Lex}

section

variable {b : UInt8} (h : isLetter b = true)
include h

theorem isNameByte_of_isLetter : isNameByte b = true := by
  simp_all [isNameByte, isNameStart, isLetter]

theorem lexByte_of_open (hlex : s.lex = .open) (here : Nat) :
    s.lexByte here b = ({ s with lex := .startName [b] }, none) := by
  have hstart : isNameStart b = true := by
    simp_all [isNameStart, isLetter]
  simp only [lexByte, hlex, Markup.ne_of_isLetter h (c := 47) rfl,
    Markup.ne_of_isLetter h (c := 63) rfl, Markup.ne_of_isLetter h (c := 33) rfl, hstart,
    ↓reduceIte]

theorem lexByte_of_startName {name : Bytes} (hlex : s.lex = .startName name) (here : Nat) :
    s.lexByte here b = ({ s with lex := .startName (b :: name) }, none) := by
  simp only [lexByte, hlex, isNameByte_of_isLetter h, ↓reduceIte]

end

theorem spell_encode {tag : String} (htag : isWord tag = true) :
    spell (encode tag.toList).reverse = tag := by
  rw [spell, List.reverse_reverse, Text.latin1_encode (Markup.toNat_lt_of_isWord htag),
    String.ofList_toList]

/-- A frame that began at `start` is being read, of which `seen` is what was read. -/
structure Within (s : Splitter) (start : Nat) (seen : Bytes) (os : List String) (l : Lex) :
    Prop where
  frame : s.frameStart = some start
  position : s.position = start + seen.length
  held : s.held = seen.reverse
  opened : s.opened = os
  lex : s.lex = l
  skipping : s.skipping = false

theorem Within.advance (h : Within s start seen os l) (b : UInt8) :
    Within (s.advance b) start (seen ++ [b]) os l where
  frame := h.frame
  position := by
    rw [List.length_append, ← Nat.add_assoc, ← h.position]
    rfl
  held := by
    rw [List.reverse_append, ← h.held]
    rfl
  opened := h.opened
  lex := h.lex
  skipping := h.skipping

theorem Within.withLex (h : Within s start seen os l) (l' : Lex) :
    Within { s with lex := l' } start seen os l' :=
  ⟨h.frame, h.position, h.held, h.opened, rfl, h.skipping⟩

theorem Within.keepFrom (h : Within s start seen os l) : s.keepFrom = start := by
  simp only [Splitter.keepFrom, h.frame]

theorem Within.readByte {t : Splitter} {b : UInt8} (h : Within s start seen os l)
    (ht : Within t start (seen ++ [b]) os' l')
    (hlex : (s.advance b).lexByte s.position b = (t, none))
    (hfit : (seen ++ [b]).length ≤ s.limit) : s.readByte b = (t, []) := by
  have hposition : t.position = s.position + 1 := by
    rw [ht.position, h.position, List.length_append, List.length_singleton, Nat.add_assoc]
  have hlimit : t.limit = s.limit := by
    have := (s.advance b).lexByte_limit s.position b
    rwa [hlex] at this
  have hsize : t.checkSize = (t, none) := by
    have : ¬t.position - start > t.limit := by
      rw [ht.position, hlimit]
      omega
    simp only [checkSize, ht.frame, this, ↓reduceIte]
  have htrim : t.trim s.keepFrom = t := by
    simp only [trim, ht.keepFrom, h.keepFrom, ↓reduceIte]
  rw [readByte_of_none s hposition hlex, hsize, htrim]
  rfl

def Quiet (os : List String) (l : Lex) (bs : Bytes) (os' : List String) (l' : Lex) : Prop :=
  ∀ s start seen, Within s start seen os l → (seen ++ bs).length ≤ s.limit →
    (s.read bs).2 = [] ∧ Within (s.read bs).1 start (seen ++ bs) os' l'

namespace Quiet

variable {os'' : List String} {l'' : Lex} {bs cs : Bytes}

theorem nil : Quiet os l [] os l := by
  intro s start seen h _
  rw [List.append_nil]
  exact ⟨rfl, h⟩

theorem append (hbs : Quiet os l bs os' l') (hcs : Quiet os' l' cs os'' l'') :
    Quiet os l (bs ++ cs) os'' l'' := by
  intro s start seen h hfit
  rw [← List.append_assoc] at hfit ⊢
  have hfirst : (seen ++ bs).length ≤ s.limit := by
    rw [List.length_append] at hfit
    omega
  obtain ⟨hevents, hwithin⟩ := hbs s start seen h hfirst
  rw [← s.read_limit bs] at hfit
  obtain ⟨hevents', hwithin'⟩ := hcs _ start _ hwithin hfit
  rw [read_append, hevents, hevents']
  exact ⟨rfl, hwithin'⟩

theorem byte {b : UInt8} (h : ∀ s start seen, Within s start (seen ++ [b]) os l → ∀ here,
    ∃ t, s.lexByte here b = (t, none) ∧ Within t start (seen ++ [b]) os' l') :
    Quiet os l [b] os' l' := by
  intro s start seen hs hfit
  obtain ⟨t, hlex, ht⟩ := h _ start seen (hs.advance b) s.position
  rw [read, hs.readByte ht hlex hfit]
  exact ⟨rfl, ht⟩

theorem of_forall {P : UInt8 → Prop} (h : ∀ b, P b → Quiet os l [b] os l)
    (hbs : ∀ b ∈ bs, P b) : Quiet os l bs os l := by
  induction bs with
  | nil => exact .nil
  | cons b bs ih =>
    exact (h b (hbs b List.mem_cons_self)).append
      (ih fun c hc => hbs c (List.mem_cons_of_mem b hc))

section

variable {b : UInt8} {name : Bytes}

theorem attributeByte {quote quote' : Option UInt8} {slash slash' : Bool}
    (h : ∀ s : Splitter, s.attributeByte quote slash b =
      ({ s with lex := .attributes quote' slash' }, none)) :
    Quiet os (.attributes quote slash) [b] os (.attributes quote' slash') := by
  apply byte
  intro s start seen hs here
  refine ⟨_, ?_, hs.withLex _⟩
  simp only [lexByte, hs.lex, h]

theorem between (h : b ∉ [34, 39, 47, 62]) :
    Quiet os (.attributes none false) [b] os (.attributes none false) := by
  apply attributeByte
  intro s
  simp_all [Splitter.attributeByte]

theorem openQuote : Quiet os (.attributes none false) [34] os (.attributes (some 34) false) :=
  attributeByte fun _ => rfl

theorem quoted (h : b ≠ 34) :
    Quiet os (.attributes (some 34) false) [b] os (.attributes (some 34) false) := by
  apply byte
  intro s start seen hs here
  refine ⟨_, ?_, hs⟩
  simp only [lexByte, hs.lex, Splitter.attributeByte, h, ↓reduceIte]

theorem closeQuote : Quiet os (.attributes (some 34) false) [34] os (.attributes none false) :=
  attributeByte fun _ => rfl

theorem slash : Quiet os (.attributes none false) [47] os (.attributes none true) :=
  attributeByte fun _ => rfl

theorem endStart : Quiet os (.attributes none false) [62] os .text := by
  apply byte
  intro s start seen hs here
  refine ⟨_, ?_, hs.withLex _⟩
  simp only [lexByte, hs.lex]
  rfl

theorem content (hos : os ≠ []) (h : b ≠ 60) : Quiet os .text [b] os .text := by
  apply byte
  intro s start seen hs here
  refine ⟨_, ?_, hs⟩
  simp [lexByte, hs.lex, hs.opened, h, hos]

theorem bracket : Quiet os .text [60] os .open := by
  apply byte
  intro s start seen hs here
  refine ⟨{ s with lex := .open, tagStart := here, inGarbage := false }, ?_,
    hs.frame, hs.position, hs.held, hs.opened, rfl, hs.skipping⟩
  simp only [lexByte, hs.lex, ↓reduceIte]

theorem endSlash : Quiet os .open [47] os (.endName []) := by
  apply byte
  intro s start seen hs here
  refine ⟨_, ?_, hs.withLex _⟩
  simp only [lexByte, hs.lex, ↓reduceIte]

end

section

variable {tag : String} {name : Bytes}

theorem nameByte {b : UInt8} (h : isLetter b = true) :
    Quiet os (.startName name) [b] os (.startName (b :: name)) := by
  apply byte
  intro s start seen hs here
  exact ⟨_, lexByte_of_startName h hs.lex here, hs.withLex _⟩

theorem endNameByte {b : UInt8} (h : isLetter b = true) :
    Quiet os (.endName name) [b] os (.endName (b :: name)) := by
  apply byte
  intro s start seen hs here
  refine ⟨_, ?_, hs.withLex _⟩
  simp only [lexByte, hs.lex, isNameByte_of_isLetter h, ↓reduceIte]

theorem firstByte {b : UInt8} (h : isLetter b = true) : Quiet os .open [b] os (.startName [b]) := by
  apply byte
  intro s start seen hs here
  exact ⟨_, lexByte_of_open h hs.lex here, hs.withLex _⟩

theorem nameBytes {bs : Bytes} (h : ∀ b ∈ bs, isLetter b = true) :
    Quiet os (.startName name) bs os (.startName (bs.reverse ++ name)) := by
  induction bs generalizing name with
  | nil => exact nil
  | cons b bs ih =>
    rw [List.reverse_cons, List.append_assoc]
    exact (nameByte (h b List.mem_cons_self)).append
      (ih fun c hc => h c (List.mem_cons_of_mem b hc))

theorem endNameBytes {bs : Bytes} (h : ∀ b ∈ bs, isLetter b = true) :
    Quiet os (.endName name) bs os (.endName (bs.reverse ++ name)) := by
  induction bs generalizing name with
  | nil => exact nil
  | cons b bs ih =>
    rw [List.reverse_cons, List.append_assoc]
    exact (endNameByte (h b List.mem_cons_self)).append
      (ih fun c hc => h c (List.mem_cons_of_mem b hc))

theorem startName (htag : isWord tag = true) :
    Quiet os .open (encode tag.toList) os (.startName (encode tag.toList).reverse) := by
  obtain ⟨b, bs, hb⟩ := Markup.encode_eq_cons_of_isWord htag
  have hletter : ∀ c ∈ b :: bs, isLetter c = true := fun c hc =>
    Markup.isLetter_of_mem_encode htag (hb ▸ hc)
  rw [hb, List.reverse_cons]
  exact (firstByte (hletter b List.mem_cons_self)).append
    (nameBytes fun c hc => hletter c (List.mem_cons_of_mem b hc))

theorem endName (htag : isWord tag = true) :
    Quiet os (.endName []) (encode tag.toList) os (.endName (encode tag.toList).reverse) := by
  rw [← List.append_nil (encode tag.toList).reverse]
  exact endNameBytes fun b => Markup.isLetter_of_mem_encode htag

theorem behindName {b : UInt8} {bs : Bytes} (hb : isNameByte b = false) (hos : os ≠ [])
    (hname : spell name ∉ outermostTags)
    (h : Quiet (spell name :: os) (.attributes none false) (b :: bs) os' l') :
    Quiet os (.startName name) (b :: bs) os' l' := by
  intro s start seen hs hfit
  have hopen : s.openElement (spell name) = ({ s with opened := spell name :: s.opened }, none) := by
    rw [openElement_eq]
    simp [isCutBy, hs.opened, hos, hname]
  have hnamed : s.named (spell name) =
      { s with opened := spell name :: s.opened, lex := .attributes none false } := by
    rw [named, hopen, trim, if_pos]
    simp only [Splitter.keepFrom, hs.frame]
  have hwithin : Within (s.named (spell name)) start seen (spell name :: os)
      (.attributes none false) := by
    rw [hnamed]
    exact ⟨hs.frame, hs.position, hs.held, congrArg _ hs.opened, rfl, hs.skipping⟩
  have hread : s.read (b :: bs) = (s.named (spell name)).read (b :: bs) := by
    rw [read_name s bs hs.lex hb, hopen]
    · rfl
    · intro _
      simp only [hopen, Splitter.keepFrom, hs.frame]
  rw [hread]
  apply h _ start seen hwithin
  rwa [hnamed]

end

theorem of_not_mem {c : UInt8} {bs : Bytes} (h : ∀ b, b ≠ c → Quiet os l [b] os l)
    (hc : c ∉ bs) : Quiet os l bs os l :=
  of_forall h fun _ hb hbc => hc (hbc ▸ hb)

theorem oneAttribute {a : String × String} (h : isWord a.1 = true) :
    Quiet os (.attributes none false) (attributeBytes a) os (.attributes none false) := by
  have hkey : Quiet os (.attributes none false) (32 :: encode a.1.toList ++ [61]) os
      (.attributes none false) := by
    apply of_forall (P := (· ∉ [34, 39, 47, 62])) fun b => between
    intro b hb
    simp only [List.cons_append, List.mem_cons, List.mem_append, List.not_mem_nil, or_false] at hb
    obtain rfl | hb | rfl := hb
    · decide
    · have := Markup.isLetter_of_mem_encode h hb
      simp [Markup.ne_of_isLetter this (c := 34) rfl, Markup.ne_of_isLetter this (c := 39) rfl,
        Markup.ne_of_isLetter this (c := 47) rfl, Markup.ne_of_isLetter this (c := 62) rfl]
    · decide
  have hvalue : Quiet os (.attributes (some 34) false) (encode (Markup.escape a.2.toList)) os
      (.attributes (some 34) false) :=
    of_not_mem (fun b => quoted) (Markup.not_mem_encode_escape (by simp) a.2.toList)
  simpa [attributeBytes] using ((hkey.append openQuote).append hvalue).append closeQuote

theorem attributes {as : Attributes} (h : ∀ a ∈ as, isWord a.1 = true) :
    Quiet os (.attributes none false) (as.flatMap attributeBytes) os (.attributes none false) := by
  induction as with
  | nil => exact nil
  | cons a as ih =>
    rw [List.flatMap_cons]
    exact (oneAttribute (h a List.mem_cons_self)).append
      (ih fun c hc => h c (List.mem_cons_of_mem a hc))

theorem exists_behind (as : Attributes) {c : UInt8} (hc : isNameByte c = false) (cs : Bytes) :
    ∃ b bs, as.flatMap attributeBytes ++ c :: cs = b :: bs ∧ isNameByte b = false := by
  cases as with
  | nil => exact ⟨c, cs, rfl, hc⟩
  | cons a as => exact ⟨32, _, rfl, rfl⟩

section

variable {tag : String} (htag : isWord tag = true) (hname : tag ∉ outermostTags) (hos : os ≠ [])
include htag hos

theorem endElement : Quiet (tag :: os) .text (endBytes tag) os .text := by
  have hclose : Quiet (tag :: os) (.endName (encode tag.toList).reverse) [62] os .text := by
    apply byte
    intro s start seen hs here
    refine ⟨{ s with lex := .text, opened := os }, ?_,
      hs.frame, hs.position, hs.held, rfl, rfl, hs.skipping⟩
    obtain ⟨o, os, rfl⟩ := List.exists_cons_of_ne_nil hos
    simp [lexByte, hs.lex, isNameByte, isNameStart, closeElement, hs.opened, spell_encode htag,
      closeInnermost]
  simpa [endBytes] using ((bracket.append endSlash).append (endName htag)).append hclose

include hname

theorem startElement {as : Attributes} {bs : Bytes} {c : UInt8} (hc : isNameByte c = false)
    (h : Quiet (tag :: os) (.attributes none false) (as.flatMap attributeBytes ++ c :: bs) os' l') :
    Quiet os .text (startBytes tag as ++ c :: bs) os' l' := by
  obtain ⟨b, cs, heq, hb⟩ := exists_behind as hc bs
  rw [heq] at h
  rw [startBytes, List.cons_append, List.append_assoc, heq]
  rw [← spell_encode htag] at h hname
  exact bracket.append ((startName htag).append (behindName hb hos hname h))

end

theorem text (s : List Char) (hos : os ≠ []) :
    Quiet os .text (encode (Markup.escape s)) os .text :=
  of_not_mem (fun b => content hos) (Markup.not_mem_encode_escape (by simp) s)

theorem leaf {l : Leaf} (h : l.IsProper) (hname : l.tag ∉ outermostTags) (hos : os ≠ []) :
    Quiet os .text (encode l.body) os .text := by
  have hattributes : Quiet (l.tag :: os) (.attributes none false) _ _ _ :=
    attributes h.attributes.words
  rw [Leaf.encode_body]
  cases hc : l.content with
  | nothing =>
    have hclose : Quiet (l.tag :: os) (.attributes none true) [62] os .text := by
      apply byte
      intro s start seen hs here
      refine ⟨{ s with lex := .text, opened := os }, ?_,
        hs.frame, hs.position, hs.held, rfl, rfl, hs.skipping⟩
      obtain ⟨o, os, rfl⟩ := List.exists_cons_of_ne_nil hos
      simp [lexByte, hs.lex, hs.opened, Splitter.attributeByte, closeInnermost]
    exact startElement h.tag hname hos rfl (hattributes.append (slash.append hclose))
  | text s =>
    exact startElement h.tag hname hos rfl (hattributes.append (endStart.append
      ((text s.toList (List.cons_ne_nil _ _)).append (endElement h.tag hos))))

theorem items {leaves : List Leaf} (h : ∀ l ∈ leaves, l.IsProper ∧ l.tag ∉ outermostTags)
    (hos : os ≠ []) :
    Quiet os .text (encode (leaves.flatMap fun l => '\n' :: ' ' :: ' ' :: l.body)) os .text := by
  induction leaves with
  | nil => exact nil
  | cons l leaves ih =>
    obtain ⟨hl, htag⟩ := h l List.mem_cons_self
    rw [List.flatMap_cons, Text.encode_append]
    have hindent : Quiet os .text (encode (Markup.escape ['\n', ' ', ' '])) os .text := text _ hos
    exact (hindent.append (leaf hl htag hos)).append
      (ih fun k hk => h k (List.mem_cons_of_mem l hk))

end Quiet

@[simp] theorem trim_opened (before : Nat) : (s.trim before).opened = s.opened := by
  simp only [trim]
  split <;> rfl

def Closing (tag : String) (l : Lex) : Prop :=
  l = .attributes none true ∨ ∃ name, l = .endName name ∧ spell name = tag

theorem lexByte_of_closing {tag : String} (hl : Closing tag s.lex) (ho : s.opened = [tag])
    (here : Nat) : s.lexByte here 62 = ({ s with lex := .text } : Splitter).finishFrame := by
  obtain hl | ⟨name, hl, hname⟩ := hl
  · simp [lexByte, hl, Splitter.attributeByte, closeInnermost, ho]
  · simp [lexByte, hl, isNameByte, isNameStart, closeElement, closeInnermost, ho, hname]

theorem Within.finish {tag : String} (h : Within s start seen [tag] l) (hl : Closing tag l) :
    (s.readByte 62).2 = [.frame start (start + (seen ++ [62]).length) (seen ++ [62])] ∧
      (s.readByte 62).1.lex = .text ∧ (s.readByte 62).1.opened = [] := by
  have hnext := h.advance 62
  have hevent : (({ s.advance 62 with lex := .text } : Splitter).finishFrame).2 =
      some (.frame start (start + (seen ++ [62]).length) (seen ++ [62])) := by
    simp [finishFrame, hnext.skipping, hnext.frame, hnext.position, hnext.held]
  have hlexByte : (s.advance 62).lexByte s.position 62 =
      (({ s.advance 62 with lex := .text } : Splitter).finishFrame.1,
        some (.frame start (start + (seen ++ [62]).length) (seen ++ [62]))) := by
    rw [lexByte_of_closing (hnext.lex ▸ hl) hnext.opened s.position, ← hevent]
  rw [readByte_of_some s rfl hlexByte]
  exact ⟨rfl, trim_lex .., trim_opened ..⟩

def IsFlat : Frame → Prop
  | .leaf _ => True
  | .vector _ _ items => ∀ l ∈ items, l.tag ∉ outermostTags

theorem closing_endName {tag : String} (htag : isWord tag = true) :
    Closing tag (.endName (encode tag.toList).reverse) :=
  .inr ⟨_, rfl, spell_encode htag⟩

/-- Within a frame nothing is told before its last byte. -/
theorem exists_quiet {f : Frame} (h : f.IsProper) (hflat : IsFlat f) :
    ∃ b bs l, encode f.body = 60 :: (encode f.tag.toList ++ (b :: bs ++ [62])) ∧
      isNameByte b = false ∧ Quiet [f.tag] (.attributes none false) (b :: bs) [f.tag] l ∧
      Closing f.tag l := by
  have hend {tag : String} (htag : isWord tag = true) :
      Quiet [tag] .text (60 :: 47 :: encode tag.toList) [tag]
        (.endName (encode tag.toList).reverse) :=
    (Quiet.bracket.append Quiet.endSlash).append (Quiet.endName htag)
  cases f with
  | leaf l =>
    have hattributes : Quiet [l.tag] (.attributes none false) _ _ _ :=
      Quiet.attributes h.attributes.words
    cases hc : l.content with
    | nothing =>
      obtain ⟨b, bs, heq, hb⟩ := Quiet.exists_behind l.attributes (c := 47) rfl []
      refine ⟨b, bs, _, ?_, hb, heq ▸ hattributes.append Quiet.slash, .inl rfl⟩
      rw [← heq, Frame.body, l.encode_body, hc]
      simp [startBytes, Frame.tag]
    | text s =>
      obtain ⟨b, bs, heq, hb⟩ := Quiet.exists_behind l.attributes (c := 62) rfl
        (encode (Markup.escape s.toList) ++ 60 :: 47 :: encode l.tag.toList)
      refine ⟨b, bs, _, ?_, hb, heq ▸ ?_, closing_endName h.tag⟩
      · rw [← heq, Frame.body, l.encode_body, hc]
        simp [startBytes, endBytes, Frame.tag]
      · exact hattributes.append (Quiet.endStart.append
          ((Quiet.text _ (List.cons_ne_nil _ _)).append (hend h.tag)))
  | vector tag as items =>
    obtain ⟨htag, has, hitems⟩ := h
    have hattributes : Quiet [tag] (.attributes none false) _ _ _ := Quiet.attributes has.words
    obtain ⟨b, bs, heq, hb⟩ := Quiet.exists_behind as (c := 62) rfl
      (encode (items.flatMap fun l => '\n' :: ' ' :: ' ' :: l.body) ++
        (encode (Markup.escape ['\n']) ++ 60 :: 47 :: encode tag.toList))
    refine ⟨b, bs, _, ?_, hb, heq ▸ ?_, closing_endName htag⟩
    · rw [← heq, Frame.encode_body]
      simp [startBytes, endBytes, Frame.tag]
    · have hleaves := Quiet.items (fun l hl => ⟨hitems l hl, hflat l hl⟩)
        (List.cons_ne_nil tag [])
      have hfeed : Quiet [tag] .text (encode (Markup.escape ['\n'])) _ _ :=
        Quiet.text _ (List.cons_ne_nil tag [])
      exact hattributes.append (Quiet.endStart.append (hleaves.append (hfeed.append (hend htag))))

end Splitter
end InstrumentBus.Wire
