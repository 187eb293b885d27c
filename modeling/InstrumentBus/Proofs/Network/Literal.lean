import InstrumentBus.Network.Address
import InstrumentBus.Proofs.Decimal.RoundTrip

/-!
Literals of addresses: which texts denote which address. Reading finds the address that a text
denotes, and none if it denotes none.
-/

namespace InstrumentBus.Network

namespace Address

open Decimal (ofDigits spanDigits)

def dotted (a b c d : UInt8) : List Char :=
  Nat.toDigits 10 a.toNat ++ '.' :: (Nat.toDigits 10 b.toNat ++
    '.' :: (Nat.toDigits 10 c.toNat ++ '.' :: Nat.toDigits 10 d.toNat))

structure IsGroup (ds : List Char) (g : UInt16) : Prop where
  length_le : ds.length ≤ 4
  value : Text.readDigits? Text.hexValue? 16 ds = some g.toNat

/-- Groups with colons between them. If so told, the last two are written as four bytes. -/
inductive IsGroups : Bool → List Char → List UInt16 → Prop
  | last {ds : List Char} {g : UInt16} (h : IsGroup ds g) : IsGroups false ds [g]
  | bytes (a b c d : UInt8) : IsGroups true (dotted a b c d) [joinBytes a b, joinBytes c d]
  | cons {bytes : Bool} {ds cs : List Char} {g : UInt16} {gs : List UInt16} (h : IsGroup ds g)
      (hrest : IsGroups bytes cs gs) : IsGroups bytes (ds ++ ':' :: cs) (g :: gs)

inductive IsSeries : Bool → List Char → List UInt16 → Prop
  | none : IsSeries false [] []
  | some {bytes : Bool} {cs : List Char} {gs : List UInt16} (h : IsGroups bytes cs gs) :
      IsSeries bytes cs gs

/-- Eight groups, or less with a double colon in place of those that are missing, which are zero.
Only the last two can be bytes. -/
inductive IsEightGroups : List Char → List UInt16 → Prop
  | full {bytes : Bool} {cs : List Char} {gs : List UInt16} (h : IsGroups bytes cs gs)
      (hlength : gs.length = 8) : IsEightGroups cs gs
  | gap {bytes : Bool} {cs ds : List Char} {gs hs : List UInt16} (hfront : IsSeries false cs gs)
      (hback : IsSeries bytes ds hs) (hlength : gs.length + hs.length ≤ 7) :
      IsEightGroups (cs ++ ':' :: ':' :: ds)
        (gs ++ List.replicate (8 - gs.length - hs.length) 0 ++ hs)

inductive IsLiteral : String → Address → Prop
  | v4 {s : String} {a b c d : UInt8} (h : s.toList = dotted a b c d) : IsLiteral s (.v4 a b c d)
  | v6 {s : String} {a b c d e f g h : UInt16}
      (hs : IsEightGroups s.toList [a, b, c, d, e, f, g, h]) :
      IsLiteral s (.v6 a b c d e f g h)

theorem spanDigits_eq {cs ds rest : List Char} (h : spanDigits cs = (ds, rest)) :
    cs = ds ++ rest ∧ (∀ d ∈ ds, d.isDigit = true) ∧ spanDigits rest = ([], rest) := by
  obtain ⟨rfl, rfl⟩ := Prod.mk.inj h
  have hdrop := List.dropWhile_idempotent Char.isDigit cs
  have hsplit :=
    List.takeWhile_append_dropWhile (p := Char.isDigit) (l := cs.dropWhile Char.isDigit)
  rw [hdrop, List.append_left_eq_self] at hsplit
  exact ⟨List.takeWhile_append_dropWhile.symm, fun d hd => List.mem_takeWhile_imp hd,
    Prod.ext hsplit hdrop⟩

section

variable {cs rest : List Char}

theorem takeByte?_append (b : UInt8) (hrest : spanDigits rest = ([], rest)) :
    takeByte? (Nat.toDigits 10 b.toNat ++ rest) = some (b, rest) := by
  have hspan : spanDigits (Nat.toDigits 10 b.toNat ++ rest) = (Nat.toDigits 10 b.toNat, rest) :=
    Decimal.spanDigits_append (fun _ => Decimal.isDigit_of_mem_toDigits) hrest
  have hb : b.toNat < 256 := b.toNat_lt
  have hlength : (Nat.toDigits 10 b.toNat).length ≤ 3 :=
    (Nat.length_toDigits_le_iff (by decide) (by decide)).2 (by omega)
  unfold takeByte?
  rw [hspan]
  split
  · rename_i h
    exact absurd (Prod.mk.inj h).1 Nat.toDigits_ne_nil
  · rename_i h
    exact absurd (Prod.mk.inj h).1 (Decimal.toDigits_ne_zero_cons _ _ _)
  · rename_i h
    cases h
    rw [Decimal.ofDigits_toDigits]
    simp [hlength, hb]

theorem takeByte?_eq_some {b : UInt8} (h : takeByte? cs = some (b, rest)) :
    cs = Nat.toDigits 10 b.toNat ++ rest ∧ spanDigits rest = ([], rest) := by
  unfold takeByte? at h
  split at h
  · cases h
  · cases h
  · rename_i ds rest' hnil hzero hspan
    obtain ⟨hcs, hds, hrest⟩ := spanDigits_eq hspan
    obtain ⟨⟨-, hlt⟩, h⟩ := Option.ite_none_right_eq_some.1 h
    cases h
    refine ⟨?_, hrest⟩
    cases ds with
    | nil => exact absurd rfl hnil
    | cons d ds =>
      have hlead : ds = [] ∨ d ≠ '0' := by
        cases ds with
        | nil => exact .inl rfl
        | cons e ds =>
          refine .inr ?_
          rintro rfl
          exact hzero e ds rfl
      have hbyte : (ofDigits (d :: ds)).toUInt8.toNat = ofDigits (d :: ds) :=
        UInt8.toNat_ofNat_of_lt hlt
      rw [hbyte, Decimal.toDigits_ofDigits hds hlead, hcs]

theorem spanDigits_mark (cs : List Char) : spanDigits ('.' :: cs) = ([], '.' :: cs) := rfl

theorem takeBytes?_append (a b c d : UInt8) (hrest : spanDigits rest = ([], rest)) :
    takeBytes? (dotted a b c d ++ rest) = some ((a, b, c, d), rest) := by
  have hpoint (b : UInt8) (cs : List Char) :
      takeByte? (Nat.toDigits 10 b.toNat ++ '.' :: cs) = some (b, '.' :: cs) :=
    takeByte?_append b (spanDigits_mark cs)
  have hmark (cs : List Char) : takeChar? '.' ('.' :: cs) = some cs := rfl
  simp only [takeBytes?, dotted, List.append_assoc, List.cons_append, hpoint, hmark,
    takeByte?_append d hrest, Option.bind_eq_bind, Option.bind_some]

theorem takeChar?_eq_some {c : Char} : takeChar? c cs = some rest ↔ cs = c :: rest := by
  cases cs with
  | nil => simp [takeChar?]
  | cons d cs => simp [takeChar?]

theorem takeBytes?_eq_some {a b c d : UInt8} (h : takeBytes? cs = some ((a, b, c, d), rest)) :
    cs = dotted a b c d ++ rest ∧ spanDigits rest = ([], rest) := by
  simp only [takeBytes?, Option.bind_eq_bind, Option.bind_eq_some_iff, takeChar?_eq_some] at h
  obtain ⟨⟨a', cs₁⟩, ha, _, rfl, ⟨b', cs₂⟩, hb, _, rfl, ⟨c', cs₃⟩, hc, _, rfl, ⟨d', cs₄⟩, hd, h⟩ :=
    h
  cases h
  obtain ⟨rfl, -⟩ := takeByte?_eq_some ha
  obtain ⟨rfl, -⟩ := takeByte?_eq_some hb
  obtain ⟨rfl, -⟩ := takeByte?_eq_some hc
  obtain ⟨rfl, hrest⟩ := takeByte?_eq_some hd
  refine ⟨?_, hrest⟩
  simp only [dotted, List.append_assoc, List.cons_append]

end

def isHexDigit (c : Char) : Bool := (Text.hexValue? c).isSome

theorem hexValue?_lt {c : Char} {n : Nat} (h : Text.hexValue? c = some n) : n < 16 := by
  unfold Text.hexValue? at h
  split at h
  · rename_i hdigit
    cases h
    have := Decimal.digitValue_lt hdigit
    omega
  · split at h
    · rename_i hletter
      cases h
      simp only [Bool.and_eq_true, decide_eq_true_eq] at hletter
      have hle : c.toNat ≤ 'f'.toNat := hletter.2
      change c.toNat ≤ 102 at hle
      omega
    · obtain ⟨hletter, h⟩ := Option.ite_none_right_eq_some.1 h
      cases h
      simp only [Bool.and_eq_true, decide_eq_true_eq] at hletter
      have hle : c.toNat ≤ 'F'.toNat := hletter.2
      change c.toNat ≤ 70 at hle
      omega

theorem of_foldlM_hexValue? {ds : List Char} {n m : Nat}
    (h : ds.foldlM (fun n c => (Text.hexValue? c).map fun d => n * 16 + d) n = some m) :
    (∀ c ∈ ds, isHexDigit c = true) ∧ m < (n + 1) * 16 ^ ds.length := by
  induction ds generalizing n with
  | nil =>
    cases h
    exact ⟨by simp, by simp⟩
  | cons c ds ih =>
    rw [List.foldlM_cons, Option.bind_eq_bind, Option.bind_eq_some_iff] at h
    obtain ⟨_, hc, h⟩ := h
    obtain ⟨d, hd, rfl⟩ := Option.map_eq_some_iff.1 hc
    obtain ⟨hds, hlt⟩ := ih h
    have hdigit := hexValue?_lt hd
    refine ⟨List.forall_mem_cons.2 ⟨Option.isSome_of_eq_some hd, hds⟩, hlt.trans_le ?_⟩
    rw [List.length_cons, Nat.pow_succ', ← Nat.mul_assoc]
    exact Nat.mul_le_mul_right _ (by omega)

theorem of_readDigits? {ds : List Char} {n : Nat}
    (h : Text.readDigits? Text.hexValue? 16 ds = some n) :
    ds ≠ [] ∧ (∀ c ∈ ds, isHexDigit c = true) ∧ n < 16 ^ ds.length := by
  cases ds with
  | nil => cases h
  | cons c ds =>
    obtain ⟨hds, hlt⟩ := of_foldlM_hexValue? h
    exact ⟨List.cons_ne_nil _ _, hds, by simpa using hlt⟩

theorem IsGroup.takeWhile_append {ds rest : List Char} {g : UInt16} (h : IsGroup ds g)
    (hrest : ∀ c ∈ rest.head?, isHexDigit c = false) : (ds ++ rest).takeWhile isHexDigit = ds := by
  rw [List.takeWhile_append_of_pos (of_readDigits? h.value).2.1]
  cases rest with
  | nil => simp
  | cons c rest => simp [hrest c rfl]

theorem takeGroup?_append {ds rest : List Char} {g : UInt16} (h : IsGroup ds g)
    (hrest : ∀ c ∈ rest.head?, isHexDigit c = false) :
    takeGroup? (ds ++ rest) = some (g, rest) := by
  have htake : (ds ++ rest).takeWhile (fun c => (Text.hexValue? c).isSome) = ds :=
    h.takeWhile_append hrest
  simp only [takeGroup?, htake, Nat.not_lt.2 h.length_le, if_false, h.value, Option.map_some,
    List.drop_left]
  simp

theorem takeGroup?_eq_some {cs rest : List Char} {g : UInt16} (h : takeGroup? cs = some (g, rest)) :
    ∃ ds, IsGroup ds g ∧ cs = ds ++ rest := by
  unfold takeGroup? at h
  obtain ⟨hlength, h⟩ := Option.ite_none_left_eq_some.1 h
  obtain ⟨n, hn, h⟩ := Option.map_eq_some_iff.1 h
  cases h
  obtain ⟨-, -, hlt⟩ := of_readDigits? hn
  have hbound : n < 65536 :=
    hlt.trans_le (Nat.pow_le_pow_right (by decide) (Nat.le_of_not_lt hlength))
  have hgroup : n.toUInt16.toNat = n := UInt16.toNat_ofNat_of_lt hbound
  exact ⟨_, ⟨Nat.le_of_not_lt hlength, hn.trans (congrArg some hgroup.symm)⟩,
    (List.prefix_iff_eq_append.1 (List.takeWhile_prefix _)).symm⟩

/-- Where a series of groups ends: at the end of the text, or at a double colon. -/
inductive IsEnd : List Char → Prop
  | nil : IsEnd []
  | gap (cs : List Char) : IsEnd (':' :: ':' :: cs)

theorem IsEnd.eq_nil_or_colon {rest : List Char} (h : IsEnd rest) :
    rest = [] ∨ ∃ cs, rest = ':' :: cs := by
  cases h with
  | nil => exact .inl rfl
  | gap cs => exact .inr ⟨_, rfl⟩

section

variable {cs rest : List Char}

theorem not_isHexDigit_of_colon (h : rest = [] ∨ ∃ cs, rest = ':' :: cs) :
    ∀ c ∈ rest.head?, isHexDigit c = false := by
  obtain rfl | ⟨cs, rfl⟩ := h
  · simp
  · simp
    rfl

theorem isHexDigit_of_isDigit {c : Char} (h : c.isDigit = true) : isHexDigit c = true := by
  simp [isHexDigit, Text.hexValue?, h]

theorem takeBytes?_eq_none {ds : List Char} {g : UInt16} (hds : IsGroup ds g)
    (h : rest = [] ∨ ∃ cs, rest = ':' :: cs) : takeBytes? (ds ++ rest) = none := by
  cases htake : takeBytes? (ds ++ rest) with
  | none => rfl
  | some result =>
    obtain ⟨⟨a, b, c, d⟩, rest'⟩ := result
    obtain ⟨heq, -⟩ := takeBytes?_eq_some htake
    have hbyte : ∀ c ∈ Nat.toDigits 10 a.toNat, isHexDigit c = true :=
      fun c hc => isHexDigit_of_isDigit (Decimal.isDigit_of_mem_toDigits hc)
    have hdrop := congrArg (List.dropWhile isHexDigit) heq
    rw [List.dropWhile_append_of_pos (of_readDigits? hds.value).2.1, dotted, List.append_assoc,
      List.dropWhile_append_of_pos hbyte] at hdrop
    obtain rfl | ⟨cs, rfl⟩ := h
    · cases hdrop
    · cases hdrop

theorem takeGroups_of_isEnd (h : IsEnd rest) (limit : Nat) (first : Bool) :
    takeGroups limit first rest = ([], false, rest) := by
  obtain _ | _ | limit := limit
  · rfl
  · cases h <;> cases first <;> rfl
  · cases h <;> cases first <;> rfl

def lead (first : Bool) (cs : List Char) : List Char := if first then cs else ':' :: cs

theorem takeChar?_lead (first : Bool) (cs : List Char) :
    (if first = true then some (lead first cs) else takeChar? ':' (lead first cs)) = some cs := by
  cases first <;> rfl

theorem takeGroups_group {ds : List Char} {g : UInt16} (hds : IsGroup ds g)
    (h : rest = [] ∨ ∃ cs, rest = ':' :: cs) (limit : Nat) (first : Bool) :
    takeGroups (limit + 1) first (lead first (ds ++ rest)) =
      (g :: (takeGroups limit false rest).1, (takeGroups limit false rest).2) := by
  have hbytes : (if limit = 0 then none else takeBytes? (ds ++ rest)) = none := by
    rw [takeBytes?_eq_none hds h, ite_self]
  have hgroup := takeGroup?_append hds (not_isHexDigit_of_colon h)
  simp only [takeGroups, takeChar?_lead, hbytes, hgroup]

theorem takeGroups_append {bytes : Bool} {gs : List UInt16} (h : IsGroups bytes cs gs)
    (hrest : IsEnd rest) {limit : Nat} (hlimit : gs.length ≤ limit) (first : Bool) :
    takeGroups limit first (lead first (cs ++ rest)) = (gs, bytes, rest) := by
  induction h generalizing limit first with
  | last hds =>
    obtain ⟨limit, rfl⟩ := Nat.exists_eq_add_of_le' hlimit
    change takeGroups (limit + 1) _ _ = _
    rw [takeGroups_group hds hrest.eq_nil_or_colon, takeGroups_of_isEnd hrest]
  | bytes a b c d =>
    obtain ⟨limit, rfl⟩ := Nat.exists_eq_add_of_le' hlimit
    have hend : spanDigits rest = ([], rest) := by
      cases hrest <;> rfl
    have hbytes := takeBytes?_append a b c d hend
    change takeGroups (limit + 1 + 1) _ _ = _
    simp only [takeGroups, takeChar?_lead, Nat.succ_ne_zero, if_false, hbytes]
  | @cons bytes ds cs g gs hds hcs ih =>
    obtain ⟨limit, rfl⟩ := Nat.exists_eq_add_of_le' (Nat.le_trans (Nat.le_add_left 1 _) hlimit)
    have hrec := ih (Nat.le_of_succ_le_succ hlimit) false
    rw [List.append_assoc, List.cons_append, takeGroups_group hds (.inr ⟨_, rfl⟩)]
    change takeGroups limit false (':' :: (cs ++ rest)) = _ at hrec
    rw [hrec]

theorem isGroups_of_takeGroups {limit : Nat} {first bytes : Bool} {gs : List UInt16}
    (h : takeGroups limit first cs = (gs, bytes, rest)) :
    gs.length ≤ limit ∧ (gs = [] ∧ bytes = false ∧ rest = cs ∨
      ∃ text, IsGroups bytes text gs ∧ cs = lead first (text ++ rest)) := by
  induction limit generalizing first cs gs with
  | zero =>
    cases h
    exact ⟨Nat.le_refl 0, .inl ⟨rfl, rfl, rfl⟩⟩
  | succ limit ih =>
    simp only [takeGroups] at h
    split at h
    · cases h
      exact ⟨Nat.zero_le _, .inl ⟨rfl, rfl, rfl⟩⟩
    · rename_i cs' hlead
      have hcs : cs = lead first cs' := by
        cases first with
        | true => exact Option.some.inj hlead
        | false => exact takeChar?_eq_some.1 hlead
      split at h
      · rename_i a b c d rest' hbytes
        cases h
        obtain ⟨hlimit, hbytes⟩ := Option.ite_none_left_eq_some.1 hbytes
        obtain ⟨rfl, -⟩ := takeBytes?_eq_some hbytes
        refine ⟨?_, .inr ⟨_, .bytes a b c d, hcs⟩⟩
        change 2 ≤ limit + 1
        omega
      · split at h
        · cases h
          exact ⟨Nat.zero_le _, .inl ⟨rfl, rfl, rfl⟩⟩
        · rename_i g rest' hgroup
          obtain ⟨ds, hds, rfl⟩ := takeGroup?_eq_some hgroup
          generalize htail : takeGroups limit false rest' = tail at h
          obtain ⟨gs', bytes', rest''⟩ := tail
          cases h
          obtain ⟨hlength, hrec⟩ := ih htail
          refine ⟨Nat.succ_le_succ hlength, .inr ?_⟩
          obtain ⟨rfl, rfl, rfl⟩ | ⟨text, htext, rfl⟩ := hrec
          · exact ⟨ds, .last hds, hcs⟩
          · refine ⟨ds ++ ':' :: text, .cons hds htext, ?_⟩
            rw [hcs, List.append_assoc]
            rfl

theorem takeGroups_series {bytes : Bool} {gs : List UInt16} (h : IsSeries bytes cs gs)
    (hrest : IsEnd rest) {limit : Nat} (hlimit : gs.length ≤ limit) :
    takeGroups limit true (cs ++ rest) = (gs, bytes, rest) := by
  cases h with
  | none => exact takeGroups_of_isEnd hrest limit true
  | some h => exact takeGroups_append h hrest hlimit true

theorem isSeries_of_takeGroups {limit : Nat} {bytes : Bool} {gs : List UInt16}
    (h : takeGroups limit true cs = (gs, bytes, rest)) :
    gs.length ≤ limit ∧ ∃ text, IsSeries bytes text gs ∧ cs = text ++ rest := by
  obtain ⟨hlimit, ⟨rfl, rfl, rfl⟩ | ⟨text, htext, rfl⟩⟩ := isGroups_of_takeGroups h
  · exact ⟨hlimit, [], .none, rfl⟩
  · exact ⟨hlimit, text, .some htext, rfl⟩

end

theorem whole?_eq_some {α : Type} {x : Option (α × List Char)} {a : α} :
    whole? x = some a ↔ x = some (a, []) := by
  cases x with
  | none => simp [whole?]
  | some result =>
    obtain ⟨b, rest⟩ := result
    simp [whole?, and_comm]

theorem whole?_takeV4? {cs : List Char} {x : Address} :
    whole? (takeV4? cs) = some x ↔ ∃ a b c d, cs = dotted a b c d ∧ x = .v4 a b c d := by
  rw [whole?_eq_some, takeV4?, Option.map_eq_some_iff]
  constructor
  · rintro ⟨⟨⟨a, b, c, d⟩, rest⟩, htake, h⟩
    cases h
    obtain ⟨hcs, -⟩ := takeBytes?_eq_some htake
    exact ⟨a, b, c, d, by rwa [List.append_nil] at hcs, rfl⟩
  · rintro ⟨a, b, c, d, rfl, rfl⟩
    have htake := takeBytes?_append a b c d (rfl : spanDigits [] = ([], []))
    rw [List.append_nil] at htake
    exact ⟨_, htake, rfl⟩

theorem ofGroups?_eq_some {gs : List UInt16} {x : Address} :
    ofGroups? gs = some x ↔
      ∃ a b c d e f g h, gs = [a, b, c, d, e, f, g, h] ∧ x = .v6 a b c d e f g h := by
  constructor
  · intro h
    unfold ofGroups? at h
    split at h
    · cases h
      exact ⟨_, _, _, _, _, _, _, _, rfl, rfl⟩
    · cases h
  · rintro ⟨a, b, c, d, e, f, g, h, rfl, rfl⟩
    rfl

theorem takeV6?_eq_some {cs : List Char} {x : Address} :
    takeV6? cs = some (x, []) ↔ ∃ gs, IsEightGroups cs gs ∧ ofGroups? gs = some x := by
  constructor
  · intro h
    unfold takeV6? at h
    generalize htake : takeGroups 8 true cs = result at h
    obtain ⟨gs, bytes, rest⟩ := result
    obtain ⟨hlimit, text, htext, rfl⟩ := isSeries_of_takeGroups htake
    dsimp only at h
    split at h
    · rename_i hlength
      obtain ⟨x', hx, h⟩ := Option.map_eq_some_iff.1 h
      cases h
      refine ⟨gs, ?_, hx⟩
      rw [List.append_nil]
      cases htext with
      | none => cases hlength
      | some htext => exact .full htext hlength
    · rename_i hlength
      rw [Option.ite_none_left_eq_some] at h
      obtain ⟨hbytes, h⟩ := h
      simp only [Option.bind_eq_bind, Option.bind_eq_some_iff, takeChar?_eq_some,
        Option.map_eq_some_iff] at h
      obtain ⟨_, rfl, cs, rfl, x', hx, h⟩ := h
      generalize hback : takeGroups (7 - gs.length) true cs = result at hx h
      obtain ⟨hs, bytes', rest⟩ := result
      obtain ⟨rfl, rfl⟩ := Prod.mk.inj h
      obtain ⟨hlimit', text', htext', rfl⟩ := isSeries_of_takeGroups hback
      obtain rfl : bytes = false := Bool.eq_false_of_not_eq_true hbytes
      have hseven : gs.length + hs.length ≤ 7 := by omega
      refine ⟨_, ?_, hx⟩
      rw [List.append_nil]
      exact .gap htext htext' hseven
  · rintro ⟨gs, hgs, hx⟩
    cases hgs with
    | @full bytes _ _ h hlength =>
      have htake := takeGroups_append h .nil hlength.le true
      rw [List.append_nil] at htake
      change takeGroups 8 true cs = _ at htake
      simp only [takeV6?, htake, hlength, if_true, hx, Option.map_some]
    | @gap bytes cs ds gs hs hfront hback hlength =>
      have hfirst : takeGroups 8 true (cs ++ ':' :: ':' :: ds) = (gs, false, ':' :: ':' :: ds) :=
        takeGroups_series hfront (.gap ds) (by omega)
      have hsecond : takeGroups (7 - gs.length) true (ds ++ []) = (hs, bytes, []) :=
        takeGroups_series hback .nil (by omega)
      have hne : gs.length ≠ 8 := by omega
      have hmark (cs : List Char) : takeChar? ':' (':' :: cs) = some cs := rfl
      rw [List.append_nil] at hsecond
      simp only [takeV6?, hfirst, hne, if_false, Bool.false_eq_true, hmark, Option.bind_eq_bind,
        Option.bind_some, hsecond, hx, Option.map_some]

theorem IsGroups.colon_mem {bytes : Bool} {cs : List Char} {gs : List UInt16}
    (h : IsGroups bytes cs gs) (hlength : 3 ≤ gs.length) : ':' ∈ cs := by
  cases h with
  | last => simp at hlength
  | bytes => simp at hlength
  | cons => exact List.mem_append_right _ List.mem_cons_self

theorem IsEightGroups.ne_dotted {cs : List Char} {gs : List UInt16} (h : IsEightGroups cs gs)
    (a b c d : UInt8) : cs ≠ dotted a b c d := by
  have hcolon : ':' ∈ cs := by
    cases h with
    | full h hlength => exact h.colon_mem (by omega)
    | gap => exact List.mem_append_right _ List.mem_cons_self
  have hbyte (b : UInt8) : ':' ∉ Nat.toDigits 10 b.toNat := by
    intro h
    cases Decimal.isDigit_of_mem_toDigits h
  rintro rfl
  simp [dotted, hbyte] at hcolon

theorem read?_eq_some_iff {s : String} {x : Address} : read? s = some x ↔ IsLiteral s x := by
  have hv6 : whole? (takeV6? s.toList) = some x ↔
      ∃ gs, IsEightGroups s.toList gs ∧ ofGroups? gs = some x :=
    whole?_eq_some.trans takeV6?_eq_some
  rw [read?, Option.or_eq_some_iff, whole?_takeV4?, hv6]
  constructor
  · rintro (⟨a, b, c, d, hs, rfl⟩ | ⟨-, gs, hs, hx⟩)
    · exact .v4 hs
    · obtain ⟨a, b, c, d, e, f, g, h, rfl, rfl⟩ := ofGroups?_eq_some.1 hx
      exact .v6 hs
  · intro h
    cases h with
    | v4 hs => exact .inl ⟨_, _, _, _, hs, rfl⟩
    | v6 hs =>
      refine .inr ⟨?_, _, hs, rfl⟩
      cases hv4 : whole? (takeV4? s.toList) with
      | none => rfl
      | some y =>
        obtain ⟨a, b, c, d, hdotted, -⟩ := whole?_takeV4?.1 hv4
        exact absurd hdotted (hs.ne_dotted a b c d)

theorem IsLiteral.unique {s : String} {a b : Address} (ha : IsLiteral s a) (hb : IsLiteral s b) :
    a = b :=
  Option.some.inj ((read?_eq_some_iff.2 ha).symm.trans (read?_eq_some_iff.2 hb))

def isLiteralChar (c : Char) : Bool := isHexDigit c || c == '.' || c == ':'

theorem forall_mem_dotted (a b c d : UInt8) : ∀ x ∈ dotted a b c d, isLiteralChar x = true := by
  have hbyte (b : UInt8) : ∀ x ∈ Nat.toDigits 10 b.toNat, isLiteralChar x = true := by
    intro x hx
    rw [isLiteralChar, isHexDigit_of_isDigit (Decimal.isDigit_of_mem_toDigits hx)]
    rfl
  have hpoint : isLiteralChar '.' = true := rfl
  simp only [dotted, List.forall_mem_append, List.forall_mem_cons, hpoint, true_and]
  exact ⟨hbyte a, hbyte b, hbyte c, hbyte d⟩

theorem IsGroups.forall_mem {bytes : Bool} {cs : List Char} {gs : List UInt16}
    (h : IsGroups bytes cs gs) : ∀ c ∈ cs, isLiteralChar c = true := by
  have hgroup {ds : List Char} {g : UInt16} (hds : IsGroup ds g) :
      ∀ c ∈ ds, isLiteralChar c = true := by
    intro c hc
    rw [isLiteralChar, (of_readDigits? hds.value).2.1 c hc]
    rfl
  induction h with
  | last hds => exact hgroup hds
  | bytes a b c d => exact forall_mem_dotted a b c d
  | cons hds _ ih =>
    exact List.forall_mem_append.2 ⟨hgroup hds, List.forall_mem_cons.2 ⟨rfl, ih⟩⟩

theorem IsSeries.forall_mem {bytes : Bool} {cs : List Char} {gs : List UInt16}
    (h : IsSeries bytes cs gs) : ∀ c ∈ cs, isLiteralChar c = true := by
  cases h with
  | none => simp
  | some h => exact h.forall_mem

theorem IsEightGroups.forall_mem {cs : List Char} {gs : List UInt16} (h : IsEightGroups cs gs) :
    ∀ c ∈ cs, isLiteralChar c = true := by
  cases h with
  | full h => exact h.forall_mem
  | gap hfront hback =>
    exact List.forall_mem_append.2 ⟨hfront.forall_mem,
      List.forall_mem_cons.2 ⟨rfl, List.forall_mem_cons.2 ⟨rfl, hback.forall_mem⟩⟩⟩

theorem IsLiteral.forall_mem {s : String} {a : Address} (h : IsLiteral s a) :
    ∀ c ∈ s.toList, isLiteralChar c = true := by
  cases h with
  | v4 hs => exact hs ▸ forall_mem_dotted _ _ _ _
  | v6 hs => exact hs.forall_mem

end Address

end InstrumentBus.Network
