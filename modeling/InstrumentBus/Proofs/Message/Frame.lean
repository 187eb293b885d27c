import InstrumentBus.Proofs.Markup.Tree

/-!
The element that a written frame is read as, whatever comes after the frame.
-/

namespace InstrumentBus

open Markup (AreProper Leads Node Opened Token attributeBytes isWord)
open Text (Bytes encode)

def Content.string : Content → String
  | .nothing => ""
  | .text s => s

section

variable {tag : String} (htag : isWord tag = true) {as : Attributes}

def startBytes (tag : String) (as : Attributes) : Bytes :=
  60 :: (encode tag.toList ++ as.flatMap attributeBytes)

def endBytes (tag : String) : Bytes := 60 :: 47 :: (encode tag.toList ++ [62])

theorem encode_start (tag : String) (as : Attributes) :
    encode ('<' :: tag.toList ++ writeAttributes as) = startBytes tag as := by
  rw [List.cons_append, Text.encode_cons, Text.encode_append, Markup.encode_writeAttributes]
  rfl

theorem encode_end (tag : String) : encode ('<' :: '/' :: tag.toList ++ ['>']) = endBytes tag := by
  simp only [List.cons_append, Text.encode_cons, Text.encode_append]
  rfl

def opened (tag : String) (as : Attributes) : Opened := ⟨encode tag.toList, as, [], []⟩

theorem title_encode (tag : String) : Text.ofUtf8Lossy (encode tag.toList) = tag := by
  rw [Text.ofUtf8Lossy_encode, String.ofList_toList]

include htag

theorem leads_start (has : AreProper as) (stack : List Opened) :
    Leads stack (startBytes tag as ++ [62]) (.ok (opened tag as :: stack)) := by
  apply Leads.of_token (by simp [startBytes])
  · intro rest
    simpa [startBytes] using Markup.front_open htag has.words rest
  · simp only [Token.apply, Markup.attributes?_write has]
    rfl

theorem leads_empty (has : AreProper as) (stack : List Opened) :
    Leads stack (startBytes tag as ++ [47, 62]) (Markup.attach (.element tag as "" []) stack) := by
  apply Leads.of_token (by simp [startBytes])
  · intro rest
    simpa [startBytes] using Markup.front_empty htag has.words rest
  · simp only [Token.apply, Markup.attributes?_write has, Opened.node, Opened.title, title_encode]
    rfl

theorem leads_end {o : Opened} (ho : o.name = encode tag.toList) (stack : List Opened) :
    Leads (o :: stack) (endBytes tag) (Markup.attach o.node stack) := by
  apply Leads.of_token (by simp [endBytes])
  · intro rest
    simpa [endBytes] using Markup.front_close htag rest
  · simp only [Token.apply, ho, ↓reduceIte]

end

namespace Leaf

variable (l : Leaf)

def body (l : Leaf) : List Char :=
  '<' :: l.tag.toList ++ writeAttributes l.attributes ++
    match l.content with
    | .nothing => ['/', '>']
    | .text s => '>' :: Markup.escape s.toList ++ ('<' :: '/' :: l.tag.toList ++ ['>'])

theorem write_eq : l.write = l.body ++ ['\n'] := by
  cases l with
  | mk tag attributes content =>
    cases content <;> simp [write, body, writeEnd]

def node (l : Leaf) : Node := .element l.tag l.attributes l.content.string []

structure IsProper (l : Leaf) : Prop where
  tag : isWord l.tag = true
  attributes : AreProper l.attributes

theorem encode_body :
    encode l.body = startBytes l.tag l.attributes ++
      match l.content with
      | .nothing => [47, 62]
      | .text s => [62] ++ (encode (Markup.escape s.toList) ++ endBytes l.tag) := by
  rw [body, Text.encode_append, encode_start]
  cases l.content with
  | nothing => rfl
  | text s =>
    dsimp only
    rw [Text.encode_append, encode_end, Text.encode_cons]
    rfl

theorem leads_body (h : l.IsProper) (stack : List Opened) :
    Leads stack (encode l.body) (Markup.attach l.node stack) := by
  rw [encode_body]
  cases hc : l.content with
  | nothing =>
    simpa [node, Content.string, hc] using leads_empty h.tag h.attributes stack
  | text s =>
    have hstart := leads_start h.tag h.attributes stack
    have hend (o : Opened) := leads_end h.tag (o := o)
    dsimp only
    rw [← List.append_assoc]
    apply hstart.append
    cases hs : s.toList with
    | nil =>
      have hnode : (opened l.tag l.attributes).node = l.node := by
        have : s = "" := String.toList_injective hs
        simp [Opened.node, opened, node, Content.string, hc, Opened.title, title_encode, this]
      exact hnode ▸ hend (opened l.tag l.attributes) rfl stack
    | cons c cs =>
      apply Leads.text (by simp)
      have hnode : { opened l.tag l.attributes with texts := [s] }.node = l.node := by
        simp [Opened.node, opened, node, Content.string, hc, Opened.title, title_encode]
      rw [← hs, String.ofList_toList]
      exact hnode ▸ hend { opened l.tag l.attributes with texts := [s] } rfl stack

end Leaf

namespace Frame

def tag : Frame → String
  | .leaf l => l.tag
  | .vector tag _ _ => tag

def body : Frame → List Char
  | .leaf l => l.body
  | .vector tag attributes items =>
    '<' :: tag.toList ++ writeAttributes attributes ++ '>' ::
      items.flatMap (fun l => '\n' :: ' ' :: ' ' :: l.body) ++
        '\n' :: ('<' :: '/' :: tag.toList ++ ['>'])

theorem write_items (items : List Leaf) :
    '\n' :: items.flatMap (fun l => ' ' :: ' ' :: l.write) =
      items.flatMap (fun l => '\n' :: ' ' :: ' ' :: l.body) ++ ['\n'] := by
  induction items with
  | nil => rfl
  | cons l items ih => simp [List.flatMap_cons, l.write_eq, ih]

theorem write_eq (f : Frame) : f.write = f.body ++ ['\n'] := by
  cases f with
  | leaf l => exact l.write_eq
  | vector tag attributes items =>
    change '<' :: tag.toList ++ writeAttributes attributes ++ '>' :: ('\n' :: _) ++ _ = _
    rw [write_items]
    simp [body, writeEnd]

/-- The spaces between the elements of a vector are all the text that it has of its own. -/
def node : Frame → Node
  | .leaf l => l.node
  | .vector tag attributes items =>
    .element tag attributes (String.join (items.map (fun _ => "\n  ") ++ ["\n"])) (items.map (·.node))

def IsProper : Frame → Prop
  | .leaf l => l.IsProper
  | .vector tag attributes items =>
    isWord tag = true ∧ AreProper attributes ∧ ∀ l ∈ items, l.IsProper

def openedVector (tag : String) (attributes : Attributes) (items : List Leaf) : Opened :=
  ⟨encode tag.toList, attributes, items.map fun _ => "\n  ", items.map (·.node)⟩

theorem leads_item {l : Leaf} (h : l.IsProper) (tag : String) (attributes : Attributes)
    (before : List Leaf) (stack : List Opened) :
    Leads (openedVector tag attributes before :: stack) (encode ('\n' :: ' ' :: ' ' :: l.body))
      (.ok (openedVector tag attributes (l :: before) :: stack)) := by
  have hbody := l.encode_body
  rw [startBytes, List.cons_append] at hbody
  change Leads _ (encode (Markup.escape ['\n', ' ', ' ']) ++ encode l.body) _
  rw [hbody]
  apply Leads.text (by simp)
  rw [← hbody]
  exact l.leads_body h _

theorem leads_items {items : List Leaf} (h : ∀ l ∈ items, l.IsProper) (tag : String)
    (attributes : Attributes) (before : List Leaf) (stack : List Opened) :
    Leads (openedVector tag attributes before :: stack)
      (encode (items.flatMap fun l => '\n' :: ' ' :: ' ' :: l.body))
      (.ok (openedVector tag attributes (items.reverse ++ before) :: stack)) := by
  induction items generalizing before with
  | nil => exact .nil _
  | cons l items ih =>
    have hitem := leads_item (h l List.mem_cons_self) tag attributes before stack
    have hitems := ih (fun k hk => h k (List.mem_cons_of_mem l hk)) (l :: before)
    rw [List.flatMap_cons, Text.encode_append, List.reverse_cons, List.append_assoc]
    exact hitem.append hitems

theorem encode_body (tag : String) (attributes : Attributes) (items : List Leaf) :
    encode (Frame.vector tag attributes items).body =
      startBytes tag attributes ++ [62] ++
        (encode (items.flatMap fun l => '\n' :: ' ' :: ' ' :: l.body) ++
          (encode (Markup.escape ['\n']) ++ endBytes tag)) := by
  rw [body, Text.encode_append, Text.encode_append, encode_start, Text.encode_cons,
    Text.encode_cons, encode_end]
  simp only [List.append_assoc]
  rfl

theorem leads_body (f : Frame) (h : f.IsProper) (stack : List Opened) :
    Leads stack (encode f.body) (Markup.attach f.node stack) := by
  cases f with
  | leaf l => exact l.leads_body h stack
  | vector tag attributes items =>
    obtain ⟨htag, hattributes, hitems⟩ := h
    rw [encode_body]
    apply (leads_start htag hattributes stack).append
    apply (leads_items hitems tag attributes [] stack).append
    apply Leads.text (by simp)
    have hnode : { openedVector tag attributes (items.reverse ++ []) with
        texts := "\n" :: (openedVector tag attributes (items.reverse ++ [])).texts }.node =
          (Frame.vector tag attributes items).node := by
      simp [Opened.node, Opened.title, openedVector, title_encode, node, List.map_reverse]
    exact hnode ▸ leads_end htag rfl stack

theorem ofBytes_body (f : Frame) (h : f.IsProper) (rest : Bytes) :
    Node.ofBytes (encode f.body ++ rest) = .ok f.node :=
  Leads.ofBytes (f.leads_body h []) rest

end Frame

theorem isWord_vectorTag (v : Verb) (k : Kind) : isWord (vectorTag v k) = true := by
  cases v <;> cases k <;> decide

theorem isWord_elementTag (v : Verb) (k : Kind) : isWord (elementTag v k) = true := by
  cases v <;> cases k <;> decide

theorem keys_optional (key : String) (value : Option String) :
    ((optional key value).map Prod.fst).Sublist [key] := by
  cases value <;> simp [optional]

theorem DefinedElement.isProper_leaf (k : Kind) (e : DefinedElement) : (e.leaf k).IsProper where
  tag := isWord_elementTag .define k
  attributes := by
    apply AreProper.of_sublist ["name", "label", "format", "min", "max", "step"]
    · simp only [leaf, List.map_append, List.map_cons]
      apply List.Sublist.append (.cons_cons _ (keys_optional ..))
      split
      · exact .refl _
      · exact List.nil_sublist _
    · decide
    · decide

theorem ElementValue.isProper_leaf (k : Kind) (e : ElementValue) : (e.leaf k).IsProper where
  tag := isWord_elementTag .update k
  attributes := by
    apply AreProper.of_sublist ["name", "size", "format"]
    · simp only [leaf, List.map_cons]
      cases e.value <;> simp
    · decide
    · decide

namespace Message

theorem areProper_define (m : Definition) : ∀ l ∈ m.elements.map (·.leaf m.kind), l.IsProper := by
  intro l hl
  obtain ⟨e, -, rfl⟩ := List.mem_map.1 hl
  exact e.isProper_leaf m.kind

theorem areProper_values (k : Kind) (elements : List ElementValue) :
    ∀ l ∈ elements.map (·.leaf k), l.IsProper := by
  intro l hl
  obtain ⟨e, -, rfl⟩ := List.mem_map.1 hl
  exact e.isProper_leaf k

theorem isProper_frame (m : Message) : m.frame.IsProper := by
  cases m with
  | discover m =>
    have htag : isWord "getProperties" = true := by decide
    refine ⟨htag, .of_sublist ["version", "device", "name"] ?_ (by decide) (by decide)⟩
    simp only [List.map_append]
    exact ((keys_optional ..).append (keys_optional ..)).append (keys_optional ..)
  | remove m =>
    have htag : isWord "delProperty" = true := by decide
    refine ⟨htag, .of_sublist ["device", "name", "timestamp", "message"] ?_
      (by decide) (by decide)⟩
    simp only [List.map_append, List.map_cons]
    exact ((List.Sublist.cons_cons _ (keys_optional ..)).append (keys_optional ..)).append
      (keys_optional ..)
  | notify m =>
    have htag : isWord "message" = true := by decide
    refine ⟨htag, .of_sublist ["device", "timestamp", "message"] ?_ (by decide) (by decide)⟩
    simp only [List.map_append, List.map_cons]
    exact ((keys_optional ..).append (keys_optional ..)).append (.refl _)
  | payloads m =>
    have htag : isWord "enableBLOB" = true := by decide
    refine ⟨htag, .of_sublist ["device", "name"] ?_ (by decide) (by decide)⟩
    simp only [List.map_append]
    exact (keys_optional ..).append (keys_optional ..)
  | define m =>
    refine ⟨isWord_vectorTag .define m.kind, .of_sublist ["device", "name", "label", "group",
      "state", "perm", "rule", "timeout", "timestamp", "message"] ?_ (by decide) (by decide),
      areProper_define m⟩
    simp only [List.map_append, List.map_cons]
    have hhead : (("device" :: "name" :: (optional "label" m.label).map Prod.fst) ++
        (optional "group" m.group).map Prod.fst).Sublist ["device", "name", "label", "group"] :=
      (List.Sublist.cons_cons _ (.cons_cons _ (keys_optional ..))).append (keys_optional ..)
    exact ((((hhead.append (.cons_cons _ (keys_optional ..))).append (keys_optional ..)).append
      (keys_optional ..)).append (keys_optional ..)).append (keys_optional ..)
  | update m =>
    refine ⟨isWord_vectorTag .update m.kind, .of_sublist ["device", "name", "state", "timeout",
      "timestamp", "message"] ?_ (by decide) (by decide), areProper_values m.kind m.elements⟩
    simp only [List.map_append, List.map_cons]
    have hhead : ("device" :: "name" :: (optional "state" (m.state.map word)).map Prod.fst).Sublist
        ["device", "name", "state"] :=
      .cons_cons _ (.cons_cons _ (keys_optional ..))
    exact ((hhead.append (keys_optional ..)).append (keys_optional ..)).append (keys_optional ..)
  | change m =>
    refine ⟨isWord_vectorTag .change m.kind, .of_sublist ["device", "name", "timestamp"] ?_
      (by decide) (by decide), areProper_values m.kind m.elements⟩
    simp only [List.map_cons]
    exact .cons_cons _ (.cons_cons _ (keys_optional ..))

end Message
end InstrumentBus
