import InstrumentBus.Proofs.Decimal.RoundTrip
import InstrumentBus.Proofs.Except
import InstrumentBus.Proofs.Message.Frame
import InstrumentBus.Proofs.Text.Base64

/-!
A frame is read as the message that it was written for, except for what frames do not keep.
-/

namespace InstrumentBus

open Markup (Node)
open Text (Bytes)

def WireValue.trimmed : WireValue → WireValue
  | .scalar text => .scalar (Text.trim text)
  | .blob payload => .blob payload

def DefinedElement.carried (k : Kind) (e : DefinedElement) : DefinedElement where
  name := e.name
  label := e.label
  value := if k = .blob then .scalar "" else e.value.trimmed
  range := if k = .number then some (e.range.getD .default) else none

def ElementValue.carried (e : ElementValue) : ElementValue := { e with value := e.value.trimmed }

def Message.carried : Message → Message
  | .define m => .define { m with elements := m.elements.map (·.carried m.kind) }
  | .update m => .update { m with elements := m.elements.map (·.carried) }
  | .change m => .change { m with elements := m.elements.map (·.carried) }
  | m => m

def NumberRange.IsFinite (r : NumberRange) : Prop :=
  r.min.isFinite = true ∧ r.max.isFinite = true ∧ r.step.isFinite = true

instance (r : NumberRange) : Decidable r.IsFinite := inferInstanceAs (Decidable (_ ∧ _ ∧ _))

/-- A value that properties of a kind have. The size of a payload is a number of 64 bits. -/
def WireValue.IsOf (k : Kind) : WireValue → Prop
  | .scalar _ => k ≠ .blob
  | .blob payload => k = .blob ∧ payload.size < UInt64.size

/-- Values are of the kind of their property, except that a definition of payloads may hold
anything, and numbers are finite. -/
def Message.IsCarriable : Message → Prop
  | .define m =>
    (∀ x ∈ m.timeout, x.isFinite = true) ∧
      ∀ e ∈ m.elements, (m.kind = .blob ∨ e.value.IsOf m.kind) ∧ ∀ r ∈ e.range, r.IsFinite
  | .update m =>
    (∀ x ∈ m.timeout, x.isFinite = true) ∧ ∀ e ∈ m.elements, e.value.IsOf m.kind
  | .change m => ∀ e ∈ m.elements, e.value.IsOf m.kind
  | _ => True

def lookup (key : String) (as : Attributes) : Option String := (as.find? (·.1 == key)).map (·.2)

theorem attr?_element (tag text : String) (as : Attributes) (children : List Node) (key : String) :
    (Node.element tag as text children).attr? key = lookup key as := rfl

section

variable {key other : String} {as bs : Attributes}

@[simp] theorem lookup_nil : lookup key [] = none := rfl

@[simp] theorem lookup_cons (value : String) :
    lookup key ((other, value) :: as) = if other = key then some value else lookup key as := by
  by_cases h : other = key
  · simp [lookup, h]
  · simp [lookup, beq_eq_false_iff_ne.2 h, h]

@[simp] theorem lookup_append : lookup key (as ++ bs) = (lookup key as).or (lookup key bs) := by
  simp only [lookup, List.find?_append, Option.map_or]

@[simp] theorem lookup_optional (value : Option String) :
    lookup key (optional other value) = if other = key then value else none := by
  cases value <;> simp [optional]

end

theorem ofWord?_state (a : State) : ofWord? State (word a) = some a := by
  cases a <;> decide

theorem ofWord?_permission (a : Permission) : ofWord? Permission (word a) = some a := by
  cases a <;> decide

theorem ofWord?_rule (a : Rule) : ofWord? Rule (word a) = some a := by
  cases a <;> decide

theorem ofWord?_policy (a : BlobPolicy) :
    ofWord? BlobPolicy (Text.trim (word a)) = some a := by
  cases a <;> decide

namespace Markup.Node

variable {n : Node} {key : String}

theorem required_of_attr? {value : String} (h : n.attr? key = some value) :
    n.required key = .ok value := by
  rw [required, h]

theorem numberAttr_of_attr? {x : Option Float} (h : n.attr? key = x.map Decimal.write)
    (hx : ∀ y ∈ x, y.isFinite = true) : n.numberAttr key = .ok x := by
  rw [numberAttr, h]
  cases x with
  | none => rfl
  | some y => simp only [Option.map_some, Number.read?_write (hx y rfl)]

theorem wordAttr_of_attr? {α : Type} [Vocabulary α] (hword : ∀ a : α, ofWord? α (word a) = some a)
    {a : Option α} (h : n.attr? key = a.map word) : n.wordAttr α key = .ok a := by
  rw [wordAttr, h]
  cases a with
  | none => rfl
  | some a =>
    simp only [Option.map_some, readWord, hword]
    rfl

theorem readSize?_toString {n : Nat} (h : n < UInt64.size) : readSize? (toString n) = some n := by
  have hdigits : (toString n).toList = Nat.toDigits 10 n := by
    rw [Nat.toString_eq_ofList_toDigits, String.toList_ofList]
  have hblank : ∀ c ∈ Nat.toDigits 10 n, Text.isBlank c = false := fun c hc =>
    Text.isBlank_of_isDigit (Decimal.isDigit_of_mem_toDigits hc)
  rw [readSize?, hdigits, Text.trimChars_of_forall hblank, Decimal.natural?_toDigits h]

end Markup.Node

theorem filter_base64 (bs : Bytes) :
    (Text.Base64.encode bs).filter (!Node.isBase64Gap ·) = Text.Base64.encode bs := by
  apply List.filter_eq_self.2
  intro c hc
  have := Text.Base64.toNat_of_mem_encode hc
  simp only [Node.isBase64Gap, Bool.not_eq_true', Bool.or_eq_false_iff, beq_eq_false_iff_ne]
  refine ⟨⟨⟨⟨?_, ?_⟩, ?_⟩, ?_⟩, ?_⟩ <;> rintro rfl <;> revert this <;> decide

namespace ElementValue

theorem blob_leaf {k : Kind} {name : String} {payload : Blob} (h : payload.size < UInt64.size) :
    Node.blob ((ElementValue.mk name (.blob payload)).leaf k).node = .ok payload := by
  have htext : ((ElementValue.mk name (.blob payload)).leaf k).node.text.toList =
      Text.Base64.encode payload.data := String.toList_ofList
  have hsize : ((ElementValue.mk name (.blob payload)).leaf k).node.attr? "size" =
      some (toString payload.size) := by
    simp [leaf, Leaf.node, attr?_element]
  have hformat : ((ElementValue.mk name (.blob payload)).leaf k).node.attr? "format" =
      some payload.format := by
    simp [leaf, Leaf.node, attr?_element]
  simp only [Node.blob, htext, hsize, hformat, filter_base64, Text.Base64.decode?_encode,
    Node.readSize?_toString h]
  rfl

theorem elementValue_leaf {k : Kind} {e : ElementValue} (h : e.value.IsOf k) :
    Node.elementValue k (e.leaf k).node = .ok e.carried := by
  have hname : (e.leaf k).node.required "name" = .ok e.name :=
    Node.required_of_attr? (by simp [leaf, Leaf.node, attr?_element])
  cases e with
  | mk name value =>
    simp only [Node.elementValue, hname]
    cases value with
    | scalar text =>
      have hk : k ≠ .blob := h
      simp only [hk, ↓reduceIte]
      rfl
    | blob payload =>
      obtain ⟨rfl, hsize⟩ := h
      simp only [↓reduceIte, blob_leaf hsize]
      rfl

end ElementValue

theorem NumberRange.isFinite_default : NumberRange.default.IsFinite := by
  decide +kernel

namespace DefinedElement

variable {e : DefinedElement}

theorem attr?_leaf_of_number {key : String} :
    (e.leaf .number).node.attr? key =
      lookup key (("name", e.name) :: optional "label" e.label ++
        [("format", (e.range.getD .default).format),
          ("min", Decimal.write (e.range.getD .default).min),
          ("max", Decimal.write (e.range.getD .default).max),
          ("step", Decimal.write (e.range.getD .default).step)]) := rfl

theorem rangeAttrs_leaf (h : ∀ r ∈ e.range, r.IsFinite) :
    (e.leaf .number).node.rangeAttrs = .ok (e.range.getD .default) := by
  have hfinite : (e.range.getD .default).IsFinite := by
    cases he : e.range with
    | none => exact NumberRange.isFinite_default
    | some r => exact h r he
  obtain ⟨hmin, hmax, hstep⟩ := hfinite
  have hmin : (e.leaf .number).node.numberAttr "min" = .ok (some (e.range.getD .default).min) :=
    Node.numberAttr_of_attr? (by simp [attr?_leaf_of_number]) (by simpa using hmin)
  have hmax : (e.leaf .number).node.numberAttr "max" = .ok (some (e.range.getD .default).max) :=
    Node.numberAttr_of_attr? (by simp [attr?_leaf_of_number]) (by simpa using hmax)
  have hstep : (e.leaf .number).node.numberAttr "step" = .ok (some (e.range.getD .default).step) :=
    Node.numberAttr_of_attr? (by simp [attr?_leaf_of_number]) (by simpa using hstep)
  have hformat : (e.leaf .number).node.attr? "format" = some (e.range.getD .default).format := by
    simp [attr?_leaf_of_number]
  rw [Node.rangeAttrs, hmin, hmax, hstep, hformat]
  rfl

theorem scalar_leaf {k : Kind} (h : k = .blob ∨ e.value.IsOf k) :
    (e.leaf k).node.scalar = if k = .blob then .scalar "" else e.value.trimmed := by
  cases e with
  | mk name label value range =>
    by_cases hk : k = .blob
    · have htext : (leaf k ⟨name, label, value, range⟩).node.text = "" := by
        cases value <;> simp [leaf, Leaf.node, Node.text, Content.string, hk]
      rw [Node.scalar, htext, if_pos hk]
      decide
    · have hvalue : value.IsOf k := h.resolve_left hk
      cases value with
      | scalar text =>
        simp [leaf, Leaf.node, Node.scalar, Node.text, Content.string, WireValue.trimmed, hk]
      | blob payload => exact absurd hvalue.1 hk

theorem definedElement_leaf {k : Kind} (hvalue : k = .blob ∨ e.value.IsOf k)
    (hrange : ∀ r ∈ e.range, r.IsFinite) :
    Node.definedElement k (e.leaf k).node = .ok (e.carried k) := by
  have hname : (e.leaf k).node.required "name" = .ok e.name :=
    Node.required_of_attr? (by simp [leaf, Leaf.node, attr?_element])
  have hlabel : (e.leaf k).node.attr? "label" = e.label := by
    by_cases hk : k = .number <;> simp [leaf, Leaf.node, attr?_element, hk]
  rw [Node.definedElement, scalar_leaf hvalue, hname, hlabel]
  by_cases hk : k = .number
  · cases hk
    rw [rangeAttrs_leaf hrange]
    rfl
  · simp only [hk, ↓reduceIte, carried]
    rfl

end DefinedElement

namespace Message

variable {n : Node} {k : Kind}

theorem message?_define (h : n.name = vectorTag .define k) :
    n.message? = (n.definition k).map fun m => some (.define m) := by
  cases k <;> (unfold Node.message?; rw [h]; rfl)

theorem message?_update (h : n.name = vectorTag .update k) :
    n.message? = (n.update k).map fun m => some (.update m) := by
  cases k <;> (unfold Node.message?; rw [h]; rfl)

theorem message?_change (h : n.name = vectorTag .change k) :
    n.message? = (n.change k).map fun m => some (.change m) := by
  cases k <;> (unfold Node.message?; rw [h]; rfl)

theorem items_frame (v : Verb) (k : Kind) (as : Attributes) (leaves : List Leaf)
    (h : ∀ l ∈ leaves, l.tag = elementTag v k) :
    Node.items v k (Frame.vector (vectorTag v k) as leaves).node = leaves.map (·.node) := by
  apply List.filter_eq_self.2
  intro n hn
  obtain ⟨l, hl, rfl⟩ := List.mem_map.1 hn
  exact beq_iff_eq.2 (h l hl)

theorem mapM_define {m : Definition}
    (h : ∀ e ∈ m.elements, (m.kind = .blob ∨ e.value.IsOf m.kind) ∧ ∀ r ∈ e.range, r.IsFinite) :
    (Node.items .define m.kind (Message.define m).frame.node).mapM (Node.definedElement m.kind) =
      .ok (m.elements.map (·.carried m.kind)) := by
  rw [frame, items_frame, List.map_map, List.mapM_map]
  · exact mapM_of_forall fun e he => DefinedElement.definedElement_leaf (h e he).1 (h e he).2
  · intro l hl
    obtain ⟨e, -, rfl⟩ := List.mem_map.1 hl
    rfl

theorem mapM_values {v : Verb} (hv : elementTag v k = elementTag .update k) (as : Attributes)
    {elements : List ElementValue} (h : ∀ e ∈ elements, e.value.IsOf k) :
    (Node.items v k (Frame.vector (vectorTag v k) as (elements.map (·.leaf k))).node).mapM
      (Node.elementValue k) = .ok (elements.map (·.carried)) := by
  rw [items_frame, List.map_map, List.mapM_map]
  · exact mapM_of_forall fun e he => ElementValue.elementValue_leaf (h e he)
  · intro l hl
    obtain ⟨e, -, rfl⟩ := List.mem_map.1 hl
    exact hv.symm

@[simp] theorem attr?_vector (tag key : String) (as : Attributes) (items : List Leaf) :
    (Frame.vector tag as items).node.attr? key = lookup key as := rfl

@[simp] theorem attr?_leaf (l : Leaf) (key : String) :
    (Frame.leaf l).node.attr? key = lookup key l.attributes := rfl

theorem definition_frame {m : Definition} (h : (Message.define m).IsCarriable) :
    Node.definition m.kind (Message.define m).frame.node =
      .ok { m with elements := m.elements.map (·.carried m.kind) } := by
  have hdevice : (Message.define m).frame.node.required "device" = .ok m.device :=
    Node.required_of_attr? (by simp [frame])
  have hname : (Message.define m).frame.node.required "name" = .ok m.name :=
    Node.required_of_attr? (by simp [frame])
  have hlabel : (Message.define m).frame.node.attr? "label" = m.label := by simp [frame]
  have hgroup : (Message.define m).frame.node.attr? "group" = m.group := by simp [frame]
  have hstate : (Message.define m).frame.node.wordAttr State "state" = .ok (some m.state) :=
    Node.wordAttr_of_attr? ofWord?_state (by simp [frame])
  have hpermission : (Message.define m).frame.node.wordAttr Permission "perm" = .ok m.permission :=
    Node.wordAttr_of_attr? ofWord?_permission (by simp [frame])
  have hrule : (Message.define m).frame.node.wordAttr Rule "rule" = .ok m.rule :=
    Node.wordAttr_of_attr? ofWord?_rule (by simp [frame])
  have htimeout : (Message.define m).frame.node.numberAttr "timeout" = .ok m.timeout :=
    Node.numberAttr_of_attr? (by simp [frame]) h.1
  have htimestamp : (Message.define m).frame.node.attr? "timestamp" = m.timestamp := by
    simp [frame]
  have hmessage : (Message.define m).frame.node.attr? "message" = m.message := by simp [frame]
  rw [Node.definition, mapM_define h.2, hdevice, hname, hlabel, hgroup, hstate, hpermission, hrule,
    htimeout, htimestamp, hmessage]
  rfl

theorem update_frame {m : Update} (h : (Message.update m).IsCarriable) :
    Node.update m.kind (Message.update m).frame.node =
      .ok { m with elements := m.elements.map (·.carried) } := by
  have hdevice : (Message.update m).frame.node.required "device" = .ok m.device :=
    Node.required_of_attr? (by simp [frame])
  have hname : (Message.update m).frame.node.required "name" = .ok m.name :=
    Node.required_of_attr? (by simp [frame])
  have hstate : (Message.update m).frame.node.wordAttr State "state" = .ok m.state :=
    Node.wordAttr_of_attr? ofWord?_state (by simp [frame])
  have htimeout : (Message.update m).frame.node.numberAttr "timeout" = .ok m.timeout :=
    Node.numberAttr_of_attr? (by simp [frame]) h.1
  have htimestamp : (Message.update m).frame.node.attr? "timestamp" = m.timestamp := by
    simp [frame]
  have hmessage : (Message.update m).frame.node.attr? "message" = m.message := by simp [frame]
  rw [Node.update, hdevice, hname, hstate, htimeout, htimestamp, hmessage, frame,
    mapM_values (v := .update) rfl _ h.2]
  rfl

theorem change_frame {m : ChangeRequest} (h : (Message.change m).IsCarriable) :
    Node.change m.kind (Message.change m).frame.node =
      .ok { m with elements := m.elements.map (·.carried) } := by
  have hdevice : (Message.change m).frame.node.required "device" = .ok m.device :=
    Node.required_of_attr? (by simp [frame])
  have hname : (Message.change m).frame.node.required "name" = .ok m.name :=
    Node.required_of_attr? (by simp [frame])
  have htimestamp : (Message.change m).frame.node.attr? "timestamp" = m.timestamp := by
    simp [frame]
  rw [Node.change, hdevice, hname, htimestamp, frame, mapM_values (v := .change) rfl _ h]
  rfl

theorem message?_frame {m : Message} (h : m.IsCarriable) :
    m.frame.node.message? = .ok (some m.carried) := by
  cases m with
  | discover m => simp [frame, Frame.node, Leaf.node, Node.message?, Node.name, attr?_element, carried]
  | remove m =>
    simp [frame, Frame.node, Leaf.node, Node.message?, Node.name, attr?_element, carried,
      Node.required]
    rfl
  | notify m => simp [frame, Frame.node, Leaf.node, Node.message?, Node.name, attr?_element, carried]
  | payloads m =>
    simp [frame, Frame.node, Leaf.node, Node.message?, Node.name, attr?_element, carried,
      Node.readWord, Node.text, Content.string, ofWord?_policy]
    rfl
  | define m =>
    rw [message?_define (k := m.kind) rfl, definition_frame h]
    rfl
  | update m =>
    rw [message?_update (k := m.kind) rfl, update_frame h]
    rfl
  | change m =>
    rw [message?_change (k := m.kind) rfl, change_frame h]
    rfl

theorem toBytes_eq (m : Message) : m.toBytes = Text.encode m.frame.body ++ [10] := by
  rw [toBytes, write, Text.utf8_ofList, Frame.write_eq, Text.encode_append]
  rfl

theorem ofFrame?_body (m : Message) (rest : Bytes) :
    ofFrame? (Text.encode m.frame.body ++ rest) = m.frame.node.message? := by
  rw [ofFrame?, m.frame.ofBytes_body m.isProper_frame]

/-- The frame of a message is read as that message, but for blanks around values, payloads in
definitions, and the ranges of numbers. -/
theorem ofFrame?_toBytes (m : Message) (h : m.IsCarriable) :
    ofFrame? m.toBytes = .ok (some m.carried) := by
  rw [toBytes_eq, ofFrame?_body, message?_frame h]

theorem ofFrame?_toBytes_of_blanks :
    let m (text : String) : Message := .define ⟨.number, "Camera", "GAIN", none, some "a < b", .idle,
      some .readWrite, none, some 0.25, none, none,
      [⟨"GAIN", none, .scalar text, some ⟨"%.1f", -0.5, 1e22, 0.1⟩⟩]⟩
    (m " 5\n").IsCarriable ∧ ofFrame? (m " 5\n").toBytes = .ok (some (m "5")) := by
  intro m
  have h : (m " 5\n").IsCarriable := by
    refine ⟨fun x hx => ?_, fun e he => ⟨.inr ?_, fun r hr => ?_⟩⟩
    · cases hx
      decide +kernel
    · cases List.mem_singleton.1 he
      exact Kind.noConfusion
    · cases List.mem_singleton.1 he
      cases hr
      decide +kernel
  have hm : (m " 5\n").carried = m "5" := by decide +kernel
  exact ⟨h, hm ▸ ofFrame?_toBytes (m " 5\n") h⟩

end Message

end InstrumentBus
