import InstrumentBus.Proofs.Decimal.Digits
import InstrumentBus.Proofs.Decimal.Whole
import InstrumentBus.Proofs.Except
import InstrumentBus.Proofs.Json.Quoted

/-!
A written JSON value is read as itself.
-/

namespace InstrumentBus.Json

open Text (Bytes encode)

theorem byte_ofNat {c : Char} (h : c.toNat < 128) : Char.ofNat (byte c).toNat = c := by
  rw [toNat_byte h, Char.ofNat_toNat]

theorem toNat_lt_of_isDigit {c : Char} (h : c.isDigit = true) : c.toNat < 128 := by
  have := Decimal.toNat_of_isDigit h
  omega

theorem isDigit_byte {c : Char} (h : c.isDigit = true) : isDigit (byte c) = true := by
  have hdigit := Decimal.toNat_of_isDigit h
  have hbyte := toNat_byte (toNat_lt_of_isDigit h)
  simp only [isDigit, Bool.and_eq_true, decide_eq_true_eq, UInt8.le_iff_toNat_le, hbyte]
  exact hdigit

/-- What may follow an integer. -/
def Stops (bs : Bytes) : Prop :=
  ∀ b ∈ bs.head?, isDigit b = false ∧ b ≠ byte '.' ∧ b ≠ byte 'e' ∧ b ≠ byte 'E'

theorem spanDigits_encode {ds : List Char} (hds : ∀ d ∈ ds, d.isDigit = true) {bs : Bytes}
    (hbs : Stops bs) : spanDigits (encode ds ++ bs) = (ds, bs) := by
  have hencode : encode ds = ds.map byte :=
    Text.encode_of_ascii fun d hd => toNat_lt_of_isDigit (hds d hd)
  have hall : ∀ b ∈ ds.map byte, isDigit b = true := by
    simp only [List.mem_map, forall_exists_index, and_imp, forall_apply_eq_imp_iff₂]
    exact fun d hd => isDigit_byte (hds d hd)
  have hstop : bs.takeWhile isDigit = [] ∧ bs.dropWhile isDigit = bs := by
    cases bs with
    | nil => exact ⟨rfl, rfl⟩
    | cons b bs => simp [(hbs b rfl).1]
  have hback : (ds.map byte).map (fun b => Char.ofNat b.toNat) = ds := by
    rw [List.map_map]
    exact (List.map_congr_left fun d hd => byte_ofNat (toNat_lt_of_isDigit (hds d hd))).trans
      (List.map_id ds)
  rw [hencode, spanDigits, List.takeWhile_append_of_pos hall, List.dropWhile_append_of_pos hall,
    hstop.1, hstop.2, List.append_nil, hback]

theorem eq_zero_of_head?_toDigits (n : Nat) (h : (Nat.toDigits 10 n).head? = some '0') : n = 0 := by
  induction n using Nat.strongRecOn with
  | ind n ih =>
    by_cases hn : n < 10
    · rw [Nat.toDigits_of_lt_base hn] at h
      exact Nat.digitChar_eq_zero.1 (Option.some.inj h)
    · rw [Nat.toDigits_of_base_le (by decide) (Nat.le_of_not_lt hn),
        List.head?_append_of_ne_nil _ Nat.toDigits_ne_nil] at h
      have := ih (n / 10) (by omega) h
      omega

theorem takeWhole?_toDigits (n : Nat) {bs : Bytes} (hbs : Stops bs) :
    takeWhole? (encode (Nat.toDigits 10 n) ++ bs) = some (Nat.toDigits 10 n, bs) := by
  rw [takeWhole?, spanDigits_encode (fun _ => Decimal.isDigit_of_mem_toDigits) hbs]
  split
  · rename_i heq
    exact absurd (Prod.mk.inj heq).1 Nat.toDigits_ne_nil
  · rename_i heq
    have hdigits := (Prod.mk.inj heq).1
    rw [eq_zero_of_head?_toDigits n (by rw [hdigits]; rfl)] at hdigits
    cases hdigits
  · rename_i heq
    cases heq
    rfl

theorem takeFraction?_of_stops {bs : Bytes} (hbs : Stops bs) : takeFraction? bs = some ([], bs) := by
  cases bs with
  | nil => rfl
  | cons b bs =>
    rw [takeFraction?]
    rintro tail heq
    cases heq
    exact (hbs _ rfl).2.1 rfl

theorem takeExponent?_of_stops {bs : Bytes} (hbs : Stops bs) : takeExponent? bs = some (none, bs) := by
  cases bs with
  | nil => rfl
  | cons b bs =>
    obtain ⟨-, -, he, hE⟩ := hbs b rfl
    simp only [takeExponent?, he, hE, or_self, ↓reduceIte]

theorem encode_toDigits (n : Nat) : encode (Nat.toDigits 10 n) = (Nat.toDigits 10 n).map byte :=
  Text.encode_of_ascii fun _ hc => toNat_lt_of_isDigit (Decimal.isDigit_of_mem_toDigits hc)

theorem encode_toDigits_eq_cons (n : Nat) :
    ∃ b tail, encode (Nat.toDigits 10 n) = b :: tail ∧ isDigit b = true := by
  cases hdigits : Nat.toDigits 10 n with
  | nil => exact absurd hdigits Nat.toDigits_ne_nil
  | cons d ds =>
    refine ⟨byte d, ds.map byte, ?_, isDigit_byte (Decimal.isDigit_of_mem_toDigits (n := n) ?_)⟩
    · rw [← hdigits, encode_toDigits, hdigits, List.map_cons]
    · rw [hdigits]
      exact List.mem_cons_self

theorem takeNumber?_writeInteger {n : Int} (h : n.natAbs.log2 < 1023) {bs : Bytes} (hbs : Stops bs) :
    takeNumber? (encode (writeInteger n) ++ bs) = some (.integer n, bs) := by
  have hwhole := takeWhole?_toDigits n.natAbs hbs
  have hinf : (Decimal.toFloat n.natAbs 0).isInf = false := Decimal.isInf_toFloat h
  unfold writeInteger
  split
  · obtain ⟨m, hm⟩ : ∃ m, n.natAbs = m := ⟨_, rfl⟩
    have hzero : m ≠ 0 := by omega
    have hvalue : -(m : Int) = n := by omega
    rw [hm] at hwhole hinf ⊢
    rw [encode_cons_of_lt (by decide), List.cons_append]
    simp [takeNumber?, byte, hwhole, takeFraction?_of_stops hbs, takeExponent?_of_stops hbs, hinf,
      hzero, hvalue]
  · obtain ⟨m, hm⟩ : ∃ m, n.natAbs = m := ⟨_, rfl⟩
    have hvalue : (m : Int) = n := by omega
    rw [hm] at hwhole hinf ⊢
    obtain ⟨b, tail, hcons, hb⟩ := encode_toDigits_eq_cons m
    have hminus : b ≠ 0x2D := by
      rintro rfl
      exact absurd hb (by decide)
    rw [hcons, List.cons_append] at hwhole ⊢
    simp [takeNumber?, hminus, hwhole, takeFraction?_of_stops hbs, takeExponent?_of_stops hbs, hinf,
      hvalue]

theorem encode_writeInteger_eq_cons (n : Int) :
    ∃ b tail, encode (writeInteger n) = b :: tail ∧ (b = byte '-' ∨ isDigit b = true) := by
  unfold writeInteger
  split
  · exact ⟨_, _, encode_cons_of_lt (by decide) _, .inl rfl⟩
  · obtain ⟨b, tail, hcons, hb⟩ := encode_toDigits_eq_cons n.natAbs
    exact ⟨b, tail, hcons, .inr hb⟩

theorem takeByte?_self {b : UInt8} (h : isSpace b = false) (bs : Bytes) :
    takeByte? b (b :: bs) = some bs := by
  simp [takeByte?, skipSpace, h]

theorem takeByte?_of_ne {b c : UInt8} (hc : isSpace c = false) (h : c ≠ b) (bs : Bytes) :
    takeByte? b (c :: bs) = none := by
  simp [takeByte?, skipSpace, hc, h]

theorem stops_nil : Stops [] := fun _ h => nomatch h

theorem stops_cons {b : UInt8} (h : b = byte ',' ∨ b = byte ']' ∨ b = byte '\x7d') (bs : Bytes) :
    Stops (b :: bs) := by
  rintro c hc
  obtain rfl := Option.some.inj hc
  obtain rfl | rfl | rfl := h <;> decide

section

variable {fuel : Nat} {b : UInt8} {bs rest : Bytes}

theorem isSpace_of_number (h : b = byte '-' ∨ isDigit b = true) : isSpace b = false := by
  cases hb : isSpace b with
  | false => rfl
  | true =>
    simp only [isSpace, Bool.or_eq_true, beq_iff_eq] at hb
    obtain ((rfl | rfl) | rfl) | rfl := hb <;> exact absurd h (by decide)

theorem takeValueOf_number (h : b = byte '-' ∨ isDigit b = true) :
    takeValueOf (fuel + 1) (b :: bs) = takeNumber? (b :: bs) := by
  have hne : ∀ {c : UInt8}, ¬(c = byte '-' ∨ isDigit c = true) → b ≠ c := by
    rintro c hc rfl
    exact hc h
  simp [takeValueOf, skipSpace, isSpace_of_number h, hne (c := byte '\x7b') (by decide),
    hne (c := byte '[') (by decide), hne (c := byte '"') (by decide),
    hne (c := byte 'n') (by decide), hne (c := byte 't') (by decide),
    hne (c := byte 'f') (by decide)]

theorem takeValueOf_string :
    takeValueOf (fuel + 1) (byte '"' :: bs) =
      (takeString? bs).map fun (text, bs) => (text.elim .broken .string, bs) := rfl

theorem takeValueOf_array_nil :
    takeValueOf (fuel + 1) (byte '[' :: byte ']' :: bs) = some (.array [], bs) := rfl

theorem takeValueOf_object_nil :
    takeValueOf (fuel + 1) (byte '\x7b' :: byte '\x7d' :: bs) = some (.object [], bs) := rfl

theorem takeValueOf_array {items : List Json} (hclose : takeByte? (byte ']') bs = none)
    (hitems : takeItemsOf fuel bs = some (items, rest)) :
    takeValueOf (fuel + 1) (byte '[' :: bs) = some (.array items, rest) := by
  simp [takeValueOf, skipSpace, show isSpace (byte '[') = false by decide,
    show byte '[' ≠ byte '\x7b' by decide, hclose, hitems]

theorem ofMembers_map (members : List (String × Json)) :
    ofMembers (members.map fun m => (some m.1, m.2)) = .object members := by
  have hmap : (members.map fun m => (some m.1, m.2)).mapM
      (fun m : Option String × Json => m.1.map (·, m.2)) = some members := by
    rw [List.mapM_map]
    exact (mapM_of_forall fun _ _ => rfl).trans (congrArg some (List.map_id _))
  rw [ofMembers, hmap]

theorem takeValueOf_object {members : List (String × Json)}
    (hclose : takeByte? (byte '\x7d') bs = none)
    (hmembers : takeMembersOf fuel bs = some (members.map fun m => (some m.1, m.2), rest)) :
    takeValueOf (fuel + 1) (byte '\x7b' :: bs) = some (.object members, rest) := by
  simp [takeValueOf, skipSpace, show isSpace (byte '\x7b') = false by decide, hclose, hmembers,
    ofMembers_map]

theorem takeItemsOf_last {item : Json}
    (hitem : takeValueOf fuel bs = some (item, byte ']' :: rest)) :
    takeItemsOf (fuel + 1) bs = some ([item], rest) := by
  have hcomma : takeByte? (byte ',') (byte ']' :: rest) = none :=
    takeByte?_of_ne (by decide) (by decide) rest
  have hclose := takeByte?_self (b := byte ']') (by decide) rest
  simp [takeItemsOf, hitem, hcomma, hclose]

theorem takeItemsOf_comma {item : Json} {items : List Json} {more : Bytes}
    (hitem : takeValueOf fuel bs = some (item, byte ',' :: more))
    (hitems : takeItemsOf fuel more = some (items, rest)) :
    takeItemsOf (fuel + 1) bs = some (item :: items, rest) := by
  have hcomma := takeByte?_self (b := byte ',') (by decide) more
  simp [takeItemsOf, hitem, hcomma, hitems]

theorem takeMembersOf_last {name : Option String} {value : Json} {more : Bytes}
    (hname : takeString? bs = some (name, byte ':' :: more))
    (hvalue : takeValueOf fuel more = some (value, byte '\x7d' :: rest)) :
    takeMembersOf (fuel + 1) (byte '"' :: bs) = some ([(name, value)], rest) := by
  have hquote := takeByte?_self (b := byte '"') (by decide) bs
  have hcolon := takeByte?_self (b := byte ':') (by decide) more
  have hcomma : takeByte? (byte ',') (byte '\x7d' :: rest) = none :=
    takeByte?_of_ne (by decide) (by decide) rest
  have hclose := takeByte?_self (b := byte '\x7d') (by decide) rest
  simp [takeMembersOf, hquote, hname, hcolon, hvalue, hcomma, hclose]

theorem takeMembersOf_comma {name : Option String} {value : Json}
    {members : List (Option String × Json)} {more others : Bytes}
    (hname : takeString? bs = some (name, byte ':' :: more))
    (hvalue : takeValueOf fuel more = some (value, byte ',' :: others))
    (hmembers : takeMembersOf fuel others = some (members, rest)) :
    takeMembersOf (fuel + 1) (byte '"' :: bs) = some ((name, value) :: members, rest) := by
  have hquote := takeByte?_self (b := byte '"') (by decide) bs
  have hcolon := takeByte?_self (b := byte ':') (by decide) more
  have hcomma := takeByte?_self (b := byte ',') (by decide) others
  simp [takeMembersOf, hquote, hname, hcolon, hvalue, hcomma, hmembers]

end

/-- A value of at most so many levels that its text determines: there is nothing in it that is
written as `null` in its place, and a float holds each of its integers. -/
inductive Kept : Nat → Json → Prop
  | null {limit : Nat} : Kept limit .null
  | bool {limit : Nat} (b : Bool) : Kept limit (.bool b)
  | integer {limit : Nat} {n : Int} (h : n.natAbs.log2 < 1023) : Kept limit (.integer n)
  | string {limit : Nat} (s : String) : Kept limit (.string s)
  | array {limit : Nat} {items : List Json} (h : ∀ item ∈ items, Kept limit item) :
    Kept (limit + 1) (.array items)
  | object {limit : Nat} {members : List (String × Json)} (h : ∀ m ∈ members, Kept limit m.2) :
    Kept (limit + 1) (.object members)

theorem fitAll_of_forall {limit : Nat} {items : List Json}
    (h : ∀ item ∈ items, item.fits limit = true) : fitAll limit items = true := by
  induction items with
  | nil => rfl
  | cons item items ih =>
    obtain ⟨hitem, hitems⟩ := List.forall_mem_cons.1 h
    rw [fitAll, hitem, ih hitems]
    rfl

theorem fitMembers_of_forall {limit : Nat} {members : List (String × Json)}
    (h : ∀ m ∈ members, m.2.fits limit = true) : fitMembers limit members = true := by
  induction members with
  | nil => rfl
  | cons m members ih =>
    obtain ⟨hvalue, hmembers⟩ := List.forall_mem_cons.1 h
    rw [fitMembers, hvalue, ih hmembers]
    rfl

theorem Kept.fits {limit : Nat} {j : Json} (h : j.Kept limit) : j.fits limit = true := by
  induction h with
  | null => simp [Json.fits]
  | bool b => simp [Json.fits]
  | integer h => simp [Json.fits]
  | string s => simp [Json.fits]
  | array _ ih => exact fitAll_of_forall ih
  | object _ ih => exact fitMembers_of_forall ih

/-- In front of what stops an integer, the text of a value is read as the value. The recursion goes
less deep than the text is long. -/
def Reads (j : Json) : Prop :=
  ∀ fuel bs, j.writeChars.length ≤ fuel → Stops bs →
    takeValueOf fuel (encode j.writeChars ++ bs) = some (j, bs)

theorem encode_writeString (s : String) (bs : Bytes) :
    encode (writeString s) ++ bs =
      byte '"' :: (encode (s.toList.flatMap escapeChar) ++ byte '"' :: bs) := by
  have hquote : encode ['"'] = [byte '"'] := by decide
  rw [writeString, List.cons_append, encode_cons_of_lt (by decide), Text.encode_append, hquote,
    List.cons_append, List.append_assoc]
  rfl

theorem encode_writeChars_eq_cons (j : Json) :
    ∃ b tail, encode j.writeChars = b :: tail ∧ isSpace b = false ∧ b ≠ byte ']' := by
  have hascii : ∀ {c : Char} (cs : List Char), c.toNat < 128 → isSpace (byte c) = false →
      c ≠ ']' → ∃ b tail, encode (c :: cs) = b :: tail ∧ isSpace b = false ∧ b ≠ byte ']' :=
    fun cs hc hspace hne => ⟨_, _, encode_cons_of_lt hc cs, hspace,
      fun h => hne (eq_of_byte_eq hc (by decide) h)⟩
  cases j with
  | null => exact hascii _ (by decide) (by decide) (by decide)
  | bool b => cases b <;> exact hascii _ (by decide) (by decide) (by decide)
  | integer n =>
    obtain ⟨b, tail, hcons, h⟩ := encode_writeInteger_eq_cons n
    refine ⟨b, tail, hcons, isSpace_of_number h, ?_⟩
    rintro rfl
    exact absurd h (by decide)
  | decimal => exact hascii _ (by decide) (by decide) (by decide)
  | string s => exact hascii _ (by decide) (by decide) (by decide)
  | array items => exact hascii _ (by decide) (by decide) (by decide)
  | object members => exact hascii _ (by decide) (by decide) (by decide)
  | broken => exact hascii _ (by decide) (by decide) (by decide)

theorem writeItems_cons_cons (item next : Json) (items : List Json) :
    writeItems (item :: next :: items) = item.writeChars ++ ',' :: writeItems (next :: items) := by
  rw [writeItems]
  simp

theorem writeMembers_cons_cons (name : String) (value : Json) (next : String × Json)
    (members : List (String × Json)) :
    writeMembers ((name, value) :: next :: members) =
      writeString name ++ ':' :: value.writeChars ++ ',' :: writeMembers (next :: members) := by
  rw [writeMembers]
  simp

theorem takeItemsOf_writeItems {items : List Json} (hne : items ≠ [])
    (h : ∀ item ∈ items, Reads item) {fuel : Nat} (hfuel : (writeItems items).length ≤ fuel)
    (bs : Bytes) : takeItemsOf fuel (encode (writeItems items) ++ bs) = some (items, bs) := by
  induction items generalizing fuel with
  | nil => exact absurd rfl hne
  | cons item items ih =>
    obtain ⟨hitem, hitems⟩ := List.forall_mem_cons.1 h
    cases items with
    | nil =>
      simp only [writeItems, List.length_append, List.length_singleton] at hfuel
      obtain ⟨fuel, rfl⟩ := Nat.exists_eq_add_of_le' (show 1 ≤ fuel by omega)
      have hread := hitem fuel (byte ']' :: bs) (by omega) (stops_cons (by simp) bs)
      rw [writeItems, Text.encode_append, List.append_assoc]
      exact takeItemsOf_last hread
    | cons next items =>
      rw [writeItems_cons_cons, List.length_append, List.length_cons] at hfuel
      obtain ⟨fuel, rfl⟩ := Nat.exists_eq_add_of_le' (show 1 ≤ fuel by omega)
      have hread := hitem fuel (byte ',' :: (encode (writeItems (next :: items)) ++ bs)) (by omega)
        (stops_cons (by simp) _)
      have hlength : (writeItems (next :: items)).length ≤ fuel := by omega
      have hmore := ih (by simp) hitems hlength
      rw [writeItems_cons_cons, Text.encode_append, encode_cons_of_lt (by decide),
        List.append_assoc]
      exact takeItemsOf_comma hread hmore

theorem takeMembersOf_writeMembers {members : List (String × Json)} (hne : members ≠ [])
    (h : ∀ m ∈ members, Reads m.2) {fuel : Nat} (hfuel : (writeMembers members).length ≤ fuel)
    (bs : Bytes) :
    takeMembersOf fuel (encode (writeMembers members) ++ bs) =
      some (members.map fun m => (some m.1, m.2), bs) := by
  induction members generalizing fuel with
  | nil => exact absurd rfl hne
  | cons m members ih =>
    obtain ⟨name, value⟩ := m
    obtain ⟨hvalue, hmembers⟩ : Reads value ∧ ∀ m ∈ members, Reads m.2 := List.forall_mem_cons.1 h
    cases members with
    | nil =>
      simp only [writeMembers, List.length_append, List.length_cons, List.length_nil] at hfuel
      obtain ⟨fuel, rfl⟩ := Nat.exists_eq_add_of_le' (show 1 ≤ fuel by omega)
      have hread := hvalue fuel (byte '\x7d' :: bs) (by omega) (stops_cons (by simp) bs)
      rw [writeMembers, List.append_assoc, List.cons_append, Text.encode_append,
        encode_cons_of_lt (by decide), Text.encode_append, List.append_assoc, encode_writeString,
        List.cons_append, List.append_assoc]
      exact takeMembersOf_last (takeString?_escaped name _) hread
    | cons next members =>
      simp only [writeMembers_cons_cons, List.length_append, List.length_cons] at hfuel
      obtain ⟨fuel, rfl⟩ := Nat.exists_eq_add_of_le' (show 1 ≤ fuel by omega)
      have hread := hvalue fuel (byte ',' :: (encode (writeMembers (next :: members)) ++ bs))
        (by omega) (stops_cons (by simp) _)
      have hlength : (writeMembers (next :: members)).length ≤ fuel := by omega
      have hmore := ih (by simp) hmembers hlength
      rw [writeMembers_cons_cons, List.append_assoc, List.cons_append, Text.encode_append,
        encode_cons_of_lt (by decide), Text.encode_append, encode_cons_of_lt (by decide),
        List.append_assoc, encode_writeString, List.cons_append, List.append_assoc]
      exact takeMembersOf_comma (takeString?_escaped name _) hread hmore

namespace Reads

theorem scalar {j : Json} (hne : j.writeChars ≠ [])
    (h : ∀ fuel bs, Stops bs → takeValueOf (fuel + 1) (encode j.writeChars ++ bs) = some (j, bs)) :
    Reads j := by
  intro fuel bs hfuel hbs
  have hpos := List.length_pos_iff.2 hne
  obtain ⟨fuel, rfl⟩ := Nat.exists_eq_add_of_le' (show 1 ≤ fuel by omega)
  exact h fuel bs hbs

theorem null : Reads .null := scalar (by simp [writeChars]) fun _ _ _ => rfl

theorem bool (b : Bool) : Reads (.bool b) := by
  cases b <;> exact scalar (by simp [writeChars]) fun _ _ _ => rfl

theorem integer {n : Int} (h : n.natAbs.log2 < 1023) : Reads (.integer n) := by
  obtain ⟨b, tail, hcons, hb⟩ := encode_writeInteger_eq_cons n
  refine scalar ?_ fun fuel bs hbs => ?_
  · rw [writeChars]
    intro hnil
    rw [hnil] at hcons
    cases hcons
  · have hread := takeNumber?_writeInteger h hbs
    rw [hcons, List.cons_append] at hread
    rw [writeChars, hcons, List.cons_append, takeValueOf_number hb, hread]

theorem string (s : String) : Reads (.string s) := by
  refine scalar (by simp [writeChars, writeString]) fun fuel bs _ => ?_
  rw [writeChars, encode_writeString, takeValueOf_string, takeString?_escaped]
  rfl

theorem array {items : List Json} (h : ∀ item ∈ items, Reads item) : Reads (.array items) := by
  intro fuel bs hfuel _
  rw [writeChars, List.length_cons] at hfuel
  obtain ⟨fuel, rfl⟩ := Nat.exists_eq_add_of_le' (show 1 ≤ fuel by omega)
  rw [writeChars, encode_cons_of_lt (by decide), List.cons_append]
  cases items with
  | nil => exact takeValueOf_array_nil
  | cons item items =>
    refine takeValueOf_array ?_ (takeItemsOf_writeItems (by simp) h (by omega) bs)
    obtain ⟨b, tail, hcons, hspace, hne⟩ := encode_writeChars_eq_cons item
    obtain ⟨more, hmore⟩ : ∃ more, writeItems (item :: items) = item.writeChars ++ more := by
      cases items with
      | nil => exact ⟨[']'], by rw [writeItems]⟩
      | cons next items => exact ⟨_, writeItems_cons_cons item next items⟩
    rw [hmore, Text.encode_append, hcons]
    exact takeByte?_of_ne hspace hne _

theorem object {members : List (String × Json)} (h : ∀ m ∈ members, Reads m.2) :
    Reads (.object members) := by
  intro fuel bs hfuel _
  rw [writeChars, List.length_cons] at hfuel
  obtain ⟨fuel, rfl⟩ := Nat.exists_eq_add_of_le' (show 1 ≤ fuel by omega)
  rw [writeChars, encode_cons_of_lt (by decide), List.cons_append]
  cases members with
  | nil => exact takeValueOf_object_nil
  | cons m members =>
    refine takeValueOf_object ?_ (takeMembersOf_writeMembers (by simp) h (by omega) bs)
    obtain ⟨more, hmore⟩ : ∃ more, writeMembers (m :: members) = '"' :: more := by
      cases members with
      | nil => exact ⟨_, by rw [writeMembers, writeString]; rfl⟩
      | cons next members => exact ⟨_, by rw [writeMembers_cons_cons, writeString]; rfl⟩
    rw [hmore, encode_cons_of_lt (by decide)]
    exact takeByte?_of_ne (by decide) (by decide) _

end Reads

theorem Kept.reads {limit : Nat} {j : Json} (h : j.Kept limit) : Reads j := by
  induction h with
  | null => exact Reads.null
  | bool b => exact Reads.bool b
  | integer h => exact Reads.integer h
  | string s => exact Reads.string s
  | array _ ih => exact Reads.array ih
  | object _ ih => exact Reads.object ih

theorem Kept.read?_write {limit : Nat} {j : Json} (h : j.Kept limit) :
    read? (Text.utf8 j.write) = some j := by
  have htext : Text.utf8 j.write = encode j.writeChars := Text.utf8_ofList _
  have hlength := Text.length_le_length_encode j.writeChars
  have hread := h.reads ((encode j.writeChars).length + 1) [] (by omega) stops_nil
  rw [List.append_nil] at hread
  rw [htext, read?, hread]
  rfl

end InstrumentBus.Json
