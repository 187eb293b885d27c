import InstrumentBus.Proofs.Except
import InstrumentBus.Proofs.Wire.Token

/-!
A frame is one element: a reader of elements finds its end where the splitter does.
-/

namespace InstrumentBus

open Text (Bytes)

namespace Markup

variable {stack : List Opened} {t : Token}

def height : Except Node (List Opened) → Nat
  | .error _ => 0
  | .ok stack => stack.length

@[simp] theorem height_attach (n : Node) : height (attach n stack) = stack.length := by
  cases stack <;> rfl

@[simp] theorem length_addText (s : String) : (addText s stack).length = stack.length := by
  cases stack <;> rfl

theorem height_of_apply {out : Except Node (List Opened)} (h : t.apply stack = .ok out) :
    height out = t.depth stack.length := by
  cases t with
  | «open» name attributes isEmpty =>
    simp only [Token.apply] at h
    split at h
    · cases h
    · cases isEmpty with
      | true =>
        cases h
        exact height_attach _
      | false =>
        cases h
        rfl
  | close name =>
    simp only [Token.apply] at h
    split at h
    · cases h
    · split at h
      · cases h
        exact height_attach _
      · cases h
  | text bs =>
    simp only [Token.apply] at h
    split at h
    · cases h
      rfl
    · split at h
      · cases h
        exact length_addText _
      · cases h
  | data bs =>
    cases h
    exact length_addText _
  | aside =>
    cases h
    rfl

theorem exists_token_of_readNode {fuel : Nat} {bs : Bytes} {n : Node}
    (h : readNode (fuel + 1) stack bs = .ok n) :
    ∃ t rest out, front bs = .token t rest ∧ t.apply stack = .ok out ∧
      ∀ stack', out = .ok stack' → readNode fuel stack' rest = .ok n := by
  rw [readNode] at h
  cases hfront : front bs with
  | finish => simp [hfront] at h
  | broken => simp [hfront] at h
  | token t rest =>
    rw [hfront] at h
    obtain ⟨out, happly, hout⟩ := bind_eq_ok_iff.1 h
    refine ⟨t, rest, out, rfl, happly, ?_⟩
    rintro stack' rfl
    exact hout

end Markup

namespace Wire

open Markup

namespace Place

variable {p : Place} {bs rest : Bytes} {os : List String} {n : Node} {fuel : Nat}

theorem spans_of_apply {stack : List Opened} {t : Token} {out : Except Node (List Opened)}
    (htoken : Spans p bs rest (t.depth stack.length)) (hbs : (p.track? bs).isSome = true)
    (happly : t.apply stack = .ok out)
    (hrest : ∀ stack', out = .ok stack' → ∀ os, os.length = stack'.length →
      (track? ⟨.text, os⟩ rest).isSome = true → ∃ last, Spans ⟨.text, os⟩ rest last 0) :
    ∃ last, Spans p bs last 0 := by
  rw [← height_of_apply happly] at htoken
  cases out with
  | error n => exact ⟨rest, htoken⟩
  | ok stack' =>
    obtain ⟨used, os, rfl, hused, hdepth⟩ := htoken
    rw [track?_append, hused, Option.bind_some] at hbs
    obtain ⟨last, used', os', rfl, hused', hdepth'⟩ := hrest stack' rfl os hdepth hbs
    refine ⟨last, used ++ used', os', (List.append_assoc ..).symm, ?_, hdepth'⟩
    rw [track?_append, hused]
    exact hused'

theorem spans_of_readNode {stack : List Opened} (hstack : os.length = stack.length)
    (h : (track? ⟨.text, os⟩ bs).isSome = true) (hread : readNode fuel stack bs = .ok n) :
    ∃ last, Spans ⟨.text, os⟩ bs last 0 := by
  induction fuel generalizing stack os bs with
  | zero => cases hread
  | succ fuel ih =>
    obtain ⟨t, rest, out, hfront, happly, hout⟩ := exists_token_of_readNode hread
    refine spans_of_apply (hstack ▸ spans_front h hfront) h happly ?_
    intro stack' hstack' os' hos' hrest
    exact ih hos' hrest (hout stack' hstack')

theorem spans_of_ofBytes (h : (entrance.track? bs).isSome = true)
    (hread : Node.ofBytes (60 :: bs) = .ok n) : ∃ last, Spans entrance bs last 0 := by
  obtain ⟨t, rest, out, hfront, happly, hout⟩ := exists_token_of_readNode hread
  have htoken : Spans entrance bs rest (t.depth ([] : List Opened).length) := spans_tagFront h hfront
  refine spans_of_apply htoken h happly ?_
  intro stack' hstack' os' hos' hrest
  exact spans_of_readNode hos' hrest (hout stack' hstack')

theorem track?_of_walk? {p' : Place} (h : p.walk? bs = some p')
    (hplain : ∀ r b p', r ++ [b] <+: bs → p.walk? r = some p' → p'.lex.overlooks b = false) :
    p.track? bs = some p' := by
  induction bs using List.reverseRecOn generalizing p' with
  | nil => exact h
  | append_singleton bs b ih =>
    rw [walk?_append] at h
    obtain ⟨p₁, hbs, hb⟩ := Option.bind_eq_some_iff.1 h
    have hbegins : bs <+: bs ++ [b] := List.prefix_append ..
    rw [track?_append, ih hbs fun r c p' hr => hplain r c p' (hr.trans hbegins)]
    have hb' : p₁.lex.overlooks b = false := hplain bs b p₁ List.prefix_rfl hbs
    rw [Option.bind_some, track?_cons, follow?, hb']
    exact hb

theorem walk?_eq_none_of_exit {used : Bytes} (hused : used <+: bs) (hne : used ≠ bs)
    (h : p.walk? used = some .exit) : p.walk? bs = none := by
  obtain ⟨more, rfl⟩ := hused
  cases more with
  | nil => exact absurd (List.append_nil used).symm hne
  | cons b more => rw [walk?_append, h]; rfl

end Place

namespace Splitter

variable {limit : Nat} {before q r : Bytes}

theorem not_ofBytes_before_end (hwalk : Place.entrance.walk? q = some .exit)
    (htrack : (Place.entrance.track? r).isSome = true) (hbegins : r <+: q) (hne : r ≠ q) (n : Node) :
    Node.ofBytes (60 :: r) ≠ .ok n := by
  intro hread
  obtain ⟨last, used, os, rfl, hused, hdepth⟩ := Place.spans_of_ofBytes htrack hread
  obtain rfl := List.length_eq_zero_iff.1 hdepth
  have hbefore : used <+: q := (List.prefix_append ..).trans hbegins
  have hshort : used ≠ q := by
    rintro rfl
    exact hne (hbegins.eq_of_length_le (by simp))
  rw [Place.walk?_eq_none_of_exit hbefore hshort (Place.walk?_of_track? hused)] at hwalk
  cases hwalk

theorem track?_of_agrees (hagrees : Agrees limit before q) (hbegins : r <+: q)
    (hplain : ∀ r' b, r' ++ [b] <+: r →
      (after limit (before ++ 60 :: r')).lex.overlooks b = false) :
    (Place.entrance.track? r).isSome = true := by
  obtain ⟨os, hwalk⟩ := hagrees r hbegins
  rw [Place.track?_of_walk? hwalk]
  · rfl
  · intro r' b p hr' hp
    obtain ⟨os', hwalk'⟩ := hagrees r' ((List.prefix_append ..).trans (hr'.trans hbegins))
    cases hp.symm.trans hwalk'
    exact hplain r' b hr'

/-- A frame that is told stands in the stream where it says, and no beginning of it is a message, as
far as the splitter overlooks no byte in it. -/
theorem frame_is_element (limit : Nat) (stream : Bytes) (start stop : Nat) (bytes part : Bytes)
    (hframe : .frame start stop bytes ∈ ((ofLimit limit).extend stream).drain.2)
    (hbegins : part <+: bytes) (hne : part ≠ bytes)
    (hplain : ∀ i b, start ≤ i → i < start + part.length → stream[i]? = some b →
      (after limit (stream.take i)).lex.overlooks b = false) :
    stream.take start ++ bytes <+: stream ∧ ∃ e, Message.ofFrame? part = .error e := by
  rw [drain_ofLimit] at hframe
  obtain ⟨before, q, rfl, hstream, rfl, hagrees, hwalk, -⟩ := exists_of_mem_read hframe
  have hbefore : stream.take before.length = before :=
    List.prefix_iff_eq_take.1 ((List.prefix_append ..).trans hstream) |>.symm
  refine ⟨hbefore.symm ▸ hstream, ?_⟩
  cases part with
  | nil => exact ⟨_, rfl⟩
  | cons b r =>
    obtain ⟨rfl, hr⟩ := List.cons_prefix_cons.1 hbegins
    have hshort : r ≠ q := fun h => hne (congrArg _ h)
    have htrack : (Place.entrance.track? r).isSome = true := by
      apply track?_of_agrees hagrees hr
      intro r' b hr'
      have hbyte : (before ++ 60 :: r') ++ [b] <+: stream := by
        rw [List.append_assoc]
        have hinner : 60 :: (r' ++ [b]) <+: 60 :: q := List.cons_prefix_cons.2 ⟨rfl, hr'.trans hr⟩
        exact ((List.prefix_append_right_inj before).2 hinner).trans hstream
      obtain ⟨behind, hbehind⟩ := hbyte
      rw [List.append_assoc] at hbehind
      have hlt : (before ++ 60 :: r').length < before.length + (60 :: r).length := by
        have := hr'.length_le
        simp only [List.length_append, List.length_cons, List.length_nil] at this ⊢
        omega
      have htake : stream.take (before ++ 60 :: r').length = before ++ 60 :: r' := by
        rw [← hbehind, List.take_left]
      rw [← htake]
      apply hplain _ b (by simp) hlt
      rw [← hbehind, List.getElem?_append_right (Nat.le_refl _), Nat.sub_self]
      rfl
    cases hn : Node.ofBytes (60 :: r) with
    | ok n => exact absurd hn (not_ofBytes_before_end hwalk htrack hr hshort n)
    | error e => exact ⟨_, by rw [Message.ofFrame?, hn]⟩

/-- What follows a bracket that begins no tag may open a comment that only the splitter sees; the
frame then goes on behind the end of its element. -/
theorem frame_beyond_element :
    .frame 0 45 (Text.utf8 "<message><1 x='<!--'/></message>--></message>") ∈
        ((ofLimit 64).extend (Text.utf8 "<message><1 x='<!--'/></message>--></message>")).drain.2 ∧
      Message.ofFrame? (Text.utf8 "<message><1 x='<!--'/></message>--></message>") =
        .ok (some (.notify ⟨none, none, ""⟩)) ∧
      Text.utf8 "<message><1 x='<!--'/></message>" <+:
        Text.utf8 "<message><1 x='<!--'/></message>--></message>" ∧
      Text.utf8 "<message><1 x='<!--'/></message>" ≠
        Text.utf8 "<message><1 x='<!--'/></message>--></message>" ∧
      Message.ofFrame? (Text.utf8 "<message><1 x='<!--'/></message>") =
        .ok (some (.notify ⟨none, none, ""⟩)) := by
  decide +kernel

/-- A reader of elements does not end an end tag within quotes, where a splitter does. -/
example :
    .frame 0 53 (Text.utf8 "<message><a'><!--'></a'><!--'></message>--></message>") ∈
        ((ofLimit 64).extend
          (Text.utf8 "<message><a'><!--'></a'><!--'></message>--></message>")).drain.2 ∧
      Message.ofFrame? (Text.utf8 "<message><a'><!--'></a'><!--'></message>") =
        .ok (some (.notify ⟨none, none, ""⟩)) := by
  decide +kernel

theorem frame_with_comment_is_element :
    .frame 1 47 (Text.utf8 "<message message='/>'><!-- > --><b/></message>") ∈
        ((ofLimit 64).extend (Text.utf8 "x<message message='/>'><!-- > --><b/></message>")).drain.2 ∧
      ∃ e, Message.ofFrame? (Text.utf8 "<message message='/>'><!-- > --><b/></message") = .error e := by
  have hframe : .frame 1 47 (Text.utf8 "<message message='/>'><!-- > --><b/></message>") ∈
      ((ofLimit 64).extend (Text.utf8 "x<message message='/>'><!-- > --><b/></message>")).drain.2 := by
    decide +kernel
  have hplain : ∀ i (hi : i < (Text.utf8 "x<message message='/>'><!-- > --><b/></message>").length),
      (after 64 ((Text.utf8 "x<message message='/>'><!-- > --><b/></message>").take i)).lex.overlooks
        ((Text.utf8 "x<message message='/>'><!-- > --><b/></message>").get ⟨i, hi⟩) = false := by
    decide +kernel
  refine ⟨hframe, (frame_is_element 64 _ 1 47 _ _ hframe (by decide +kernel) (by decide +kernel) ?_).2⟩
  intro i b _ _ hb
  obtain ⟨hi, rfl⟩ := List.getElem?_eq_some_iff.1 hb
  exact hplain i hi

end Splitter
end Wire
end InstrumentBus
