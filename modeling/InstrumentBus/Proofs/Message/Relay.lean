import InstrumentBus.Proofs.Markup.Length
import InstrumentBus.Proofs.Message.RoundTrip

/-!
What is read from a frame can be sent on. It is of the form in which frames keep it, so that
everyone who gets it on its way reads the same message.
-/

namespace InstrumentBus

open Markup (Node)
open Text (Bytes)

def DefinedElement.emptied (k : Kind) (e : DefinedElement) : DefinedElement :=
  if k = .blob then { e with value := .scalar "" } else e

def Message.emptied : Message → Message
  | .define m => .define { m with elements := m.elements.map (·.emptied m.kind) }
  | m => m

namespace Markup.Node

variable {n : Node} {k : Kind}

theorem isFinite_of_numberAttr {key : String} {x : Option Float} (h : n.numberAttr key = .ok x) :
    ∀ y ∈ x, y.isFinite = true := by
  unfold numberAttr at h
  split at h
  · split at h
    · rename_i hread
      cases h
      rintro _ ⟨⟩
      exact Number.isFinite_of_read? hread
    · cases h
  · cases h
    rintro _ ⟨⟩

theorem isFinite_of_rangeAttrs {r : NumberRange} (h : n.rangeAttrs = .ok r) : r.IsFinite := by
  have hzero : (0 : Float).isFinite = true := NumberRange.isFinite_default.1
  have hgetD {key : String} {x : Option Float} (hx : n.numberAttr key = .ok x) :
      (x.getD 0).isFinite = true := by
    cases x with
    | none => exact hzero
    | some y => exact isFinite_of_numberAttr hx y rfl
  simp only [rangeAttrs, bind_eq_ok_iff] at h
  obtain ⟨min, hmin, max, hmax, step, hstep, ⟨⟩⟩ := h
  exact ⟨hgetD hmin, hgetD hmax, hgetD hstep⟩

/-- The size of a payload is the one declared, which has 64 bits, or that of the data, which come
from the text. -/
theorem size_lt_of_blob {payload : Blob} (h : n.blob = .ok payload)
    (htext : n.text.toList.length < UInt64.size) : payload.size < UInt64.size := by
  simp only [blob, malformed, bind, Except.bind] at h
  split at h
  · rename_i data hdecode
    have hdigits := Text.Base64.length_decode?_le hdecode
    have hgaps := List.length_filter_le (!isBase64Gap ·) n.text.toList
    split at h
    · split at h
      · rename_i hread
        cases h
        exact Decimal.lt_of_natural? hread
      · cases h
    · cases h
      dsimp only
      omega
  · cases h

theorem carried_of_definedElement {e : DefinedElement} (h : n.definedElement k = .ok e) :
    e.carried k = e.emptied k ∧ (k = .blob ∨ e.value.IsOf k) ∧ ∀ r ∈ e.range, r.IsFinite := by
  by_cases hk : k = .number
  · subst hk
    simp only [definedElement, ↓reduceIte, bind_eq_ok_iff] at h
    obtain ⟨range, hrange, name, -, ⟨⟩⟩ := h
    obtain ⟨r, hr, rfl⟩ := map_eq_ok_iff.1 hrange
    refine ⟨?_, .inr Kind.noConfusion, ?_⟩
    · simp [DefinedElement.carried, DefinedElement.emptied, WireValue.trimmed, scalar]
    · rintro _ ⟨⟩
      exact isFinite_of_rangeAttrs hr
  · simp only [definedElement, hk, ↓reduceIte, bind_eq_ok_iff, Except.ok.injEq,
      exists_eq_left'] at h
    obtain ⟨name, -, ⟨⟩⟩ := h
    refine ⟨?_, Decidable.or_iff_not_imp_left.2 id, by simp⟩
    by_cases hblob : k = .blob <;>
      simp [DefinedElement.carried, DefinedElement.emptied, WireValue.trimmed, scalar, hk, hblob]

theorem carried_of_elementValue {e : ElementValue} (h : n.elementValue k = .ok e)
    (htext : n.text.toList.length < UInt64.size) : e.carried = e ∧ e.value.IsOf k := by
  by_cases hk : k = .blob
  · simp only [elementValue, hk, ↓reduceIte, bind_eq_ok_iff] at h
    obtain ⟨name, -, value, hvalue, ⟨⟩⟩ := h
    obtain ⟨payload, hpayload, rfl⟩ := map_eq_ok_iff.1 hvalue
    exact ⟨rfl, hk, size_lt_of_blob hpayload htext⟩
  · simp only [elementValue, hk, ↓reduceIte, bind_eq_ok_iff] at h
    obtain ⟨name, -, value, ⟨⟩, ⟨⟩⟩ := h
    exact ⟨by simp [ElementValue.carried, WireValue.trimmed, scalar], hk⟩

theorem carried_of_elementValues {limit : Nat} {v : Verb} {es : List ElementValue}
    (h : (n.items v k).mapM (elementValue k) = .ok es) (hfits : n.Fits limit)
    (hlimit : limit < UInt64.size) :
    es.map (·.carried) = es ∧ ∀ e ∈ es, e.value.IsOf k := by
  have hread (e : ElementValue) (he : e ∈ es) : e.carried = e ∧ e.value.IsOf k := by
    obtain ⟨child, hchild, hvalue⟩ := exists_of_mapM_eq_ok h e he
    have htext := hfits child (List.mem_filter.1 hchild).1
    exact carried_of_elementValue hvalue (Nat.lt_of_le_of_lt htext hlimit)
  refine ⟨?_, fun e he => (hread e he).2⟩
  rw [List.map_congr_left fun e he => (hread e he).1, List.map_id']

theorem carried_of_definition {m : Definition} (h : n.definition k = .ok m) :
    (Message.define m).carried = (Message.define m).emptied ∧ (Message.define m).IsCarriable := by
  simp only [definition, bind_eq_ok_iff] at h
  obtain ⟨es, hes, -, -, -, -, -, -, -, -, -, -, timeout, htimeout, ⟨⟩⟩ := h
  have hread (e : DefinedElement) (he : e ∈ es) : e.carried k = e.emptied k ∧
      (k = .blob ∨ e.value.IsOf k) ∧ ∀ r ∈ e.range, r.IsFinite := by
    obtain ⟨child, -, helement⟩ := exists_of_mapM_eq_ok hes e he
    exact carried_of_definedElement helement
  refine ⟨?_, isFinite_of_numberAttr htimeout, fun e he => (hread e he).2⟩
  simp only [Message.carried, Message.emptied]
  rw [List.map_congr_left fun e he => (hread e he).1]

theorem carried_of_update {limit : Nat} {m : Update} (h : n.update k = .ok m)
    (hfits : n.Fits limit) (hlimit : limit < UInt64.size) :
    (Message.update m).carried = .update m ∧ (Message.update m).IsCarriable := by
  simp only [update, bind_eq_ok_iff] at h
  obtain ⟨-, -, -, -, -, -, timeout, htimeout, es, hes, ⟨⟩⟩ := h
  obtain ⟨hcarried, hkinds⟩ := carried_of_elementValues hes hfits hlimit
  exact ⟨by simp only [Message.carried, hcarried], isFinite_of_numberAttr htimeout, hkinds⟩

theorem carried_of_change {limit : Nat} {m : ChangeRequest} (h : n.change k = .ok m)
    (hfits : n.Fits limit) (hlimit : limit < UInt64.size) :
    (Message.change m).carried = .change m ∧ (Message.change m).IsCarriable := by
  simp only [change, bind_eq_ok_iff] at h
  obtain ⟨-, -, -, -, es, hes, ⟨⟩⟩ := h
  obtain ⟨hcarried, hkinds⟩ := carried_of_elementValues hes hfits hlimit
  exact ⟨by simp only [Message.carried, hcarried], hkinds⟩

theorem carried_of_message? {limit : Nat} {m : Message} (h : n.message? = .ok (some m))
    (hfits : n.Fits limit) (hlimit : limit < UInt64.size) :
    m.carried = m.emptied ∧ m.IsCarriable := by
  unfold message? at h
  split at h
  · cases h
    exact ⟨rfl, trivial⟩
  · obtain ⟨device, -, ⟨⟩⟩ := bind_eq_ok_iff.1 h
    exact ⟨rfl, trivial⟩
  · cases h
    exact ⟨rfl, trivial⟩
  · obtain ⟨policy, -, ⟨⟩⟩ := bind_eq_ok_iff.1 h
    exact ⟨rfl, trivial⟩
  · split at h
    · obtain ⟨d, hd, ⟨⟩⟩ := map_eq_ok_iff.1 h
      exact carried_of_definition hd
    · obtain ⟨u, hu, ⟨⟩⟩ := map_eq_ok_iff.1 h
      exact carried_of_update hu hfits hlimit
    · obtain ⟨c, hc, ⟨⟩⟩ := map_eq_ok_iff.1 h
      exact carried_of_change hc hfits hlimit
    · cases h

end Markup.Node

namespace Message

variable {bs : Bytes} {m : Message}

theorem carried_of_ofFrame? (hbs : bs.length < UInt64.size) (h : ofFrame? bs = .ok (some m)) :
    m.carried = m.emptied ∧ m.IsCarriable := by
  unfold ofFrame? at h
  split at h
  · rename_i n hn
    exact Node.carried_of_message? h (Node.fits_ofBytes hn) hbs
  · cases h

theorem carried_emptied (m : Message) : m.emptied.carried = m.carried := by
  cases m with
  | define d =>
    have helement (e : DefinedElement) : (e.emptied d.kind).carried d.kind = e.carried d.kind := by
      unfold DefinedElement.emptied
      split
      · rename_i hk
        simp [DefinedElement.carried, hk]
      · rfl
    simp only [emptied, carried, List.map_map, Function.comp_def, helement]
  | _ => rfl

theorem isCarriable_emptied (h : m.IsCarriable) : m.emptied.IsCarriable := by
  cases m with
  | define d =>
    refine ⟨h.1, fun e he => ?_⟩
    obtain ⟨full, hfull, rfl⟩ := List.mem_map.1 he
    obtain ⟨hvalue, hrange⟩ := h.2 full hfull
    unfold DefinedElement.emptied
    split
    · rename_i hk
      exact ⟨.inl hk, hrange⟩
    · exact ⟨hvalue, hrange⟩
  | _ => exact h

/-- What arrives when a number of brokers, one after the other, read a frame and send on what they
read. -/
def relayed? : Nat → Bytes → Except WireError (Option Message)
  | 0, bs => ofFrame? bs
  | n + 1, bs => do
    match ← ofFrame? bs with
    | some m => relayed? n m.toBytes
    | none => .ok none

theorem relayed?_toBytes (hcarried : m.carried = m.emptied) (hm : m.IsCarriable) (n : Nat) :
    relayed? n m.toBytes = .ok (some m.emptied) := by
  have hread : ofFrame? m.toBytes = .ok (some m.emptied) := hcarried ▸ ofFrame?_toBytes m hm
  have hagain : ofFrame? m.emptied.toBytes = .ok (some m.emptied) := by
    rw [ofFrame?_toBytes m.emptied (isCarriable_emptied hm), carried_emptied, hcarried]
  have hlater (n : Nat) : relayed? n m.emptied.toBytes = .ok (some m.emptied) := by
    induction n with
    | zero => exact hagain
    | succ n ih =>
      simp only [relayed?, hagain]
      exact ih
  cases n with
  | zero => exact hread
  | succ n =>
    simp only [relayed?, hread]
    exact hlater n

/-- Whatever the bytes, the frame of the message that is read from them is read as that message,
without the text in a definition of payloads. So it arrives as it was first read, by way of any
number of brokers. Byte strings in memory are shorter than `UInt64.size`. -/
theorem relayed_as_first_read (bs : Bytes) (hbs : bs.length < UInt64.size) (m : Message)
    (h : ofFrame? bs = .ok (some m)) :
    ofFrame? m.toBytes = .ok (some m.emptied) ∧
      ∀ n, relayed? (n + 1) bs = .ok (some m.emptied) := by
  obtain ⟨hcarried, hm⟩ := carried_of_ofFrame? hbs h
  refine ⟨relayed?_toBytes hcarried hm 0, fun n => ?_⟩
  simp only [relayed?, h]
  exact relayed?_toBytes hcarried hm n

def oddFrame : Bytes :=
  Text.utf8 ("<setNumberVector device='a&#38;b' name='N' timeout='0:30'><other/>" ++
    "<oneNumber name='X'> 1<!-- 2 --><![CDATA[3]]> </oneNumber></setNumberVector>")

theorem odd_frame_relayed :
    let m : Message :=
      .update ⟨.number, "a&b", "N", none, some 0.5, none, none, [⟨"X", .scalar "13"⟩]⟩
    oddFrame.length < UInt64.size ∧ ofFrame? oddFrame = .ok (some m) ∧
      ∀ n, relayed? (n + 1) oddFrame = .ok (some m) := by
  intro m
  have hlength : oddFrame.length < UInt64.size := by decide +kernel
  have hread : ofFrame? oddFrame = .ok (some m) := by decide +kernel
  exact ⟨hlength, hread, (relayed_as_first_read oddFrame hlength m hread).2⟩

end Message

end InstrumentBus
