import InstrumentBus.Markup.Node
import InstrumentBus.Proofs.Markup.Escape
import InstrumentBus.Proofs.Text.Cut

/-!
The elements in a piece of markup hold no more text than there are bytes.
-/

namespace InstrumentBus.Markup

open Text (Bytes)

theorem length_afterStart?_le {mark bs rest : Bytes} (h : Text.afterStart? mark bs = some rest) :
    rest.length ≤ bs.length := by
  rw [Text.afterStart?_eq_some_iff.1 h, List.length_append]
  exact Nat.le_add_left ..

theorem length_cutAt?_le {mark bs head rest : Bytes} (h : cutAt? mark bs = some (head, rest)) :
    head.length + rest.length ≤ bs.length := by
  induction bs generalizing head with
  | nil => cases h
  | cons b bs ih =>
    simp only [cutAt?] at h
    split at h
    · rename_i hmark
      cases h
      simpa using length_afterStart?_le hmark
    · obtain ⟨⟨head', rest'⟩, hcut, h⟩ := Option.map_eq_some_iff.1 h
      cases h
      have hle : head'.length + rest'.length ≤ bs.length := ih hcut
      rw [List.length_cons, List.length_cons, Nat.succ_add]
      exact Nat.succ_le_succ hle

theorem length_cutTag?_le {quote : Option UInt8} {bs tag rest : Bytes}
    (h : cutTag? quote bs = some (tag, rest)) : rest.length ≤ bs.length := by
  induction bs generalizing quote tag with
  | nil => cases quote <;> cases h
  | cons b bs ih =>
    cases quote with
    | none =>
      simp only [cutTag?] at h
      split at h
      · cases h
        exact Nat.le_succ _
      · obtain ⟨⟨tag', rest'⟩, hcut, h⟩ := Option.map_eq_some_iff.1 h
        cases h
        exact Nat.le_succ_of_le (ih hcut)
    | some q =>
      obtain ⟨⟨tag', rest'⟩, hcut, h⟩ := Option.map_eq_some_iff.1 h
      cases h
      exact Nat.le_succ_of_le (ih hcut)

theorem length_cutBalanced?_le {depth : Nat} {bs head rest : Bytes}
    (h : cutBalanced? depth bs = some (head, rest)) : rest.length ≤ bs.length := by
  induction bs generalizing depth head with
  | nil => cases depth <;> cases h
  | cons b bs ih =>
    cases depth with
    | zero =>
      simp only [cutBalanced?] at h
      split at h
      · cases h
        exact Nat.le_succ _
      · obtain ⟨⟨head', rest'⟩, hcut, h⟩ := Option.map_eq_some_iff.1 h
        cases h
        exact Nat.le_succ_of_le (ih hcut)
    | succ depth =>
      obtain ⟨⟨head', rest'⟩, hcut, h⟩ := Option.map_eq_some_iff.1 h
      cases h
      exact Nat.le_succ_of_le (ih hcut)

def Token.width : Token → Nat
  | .text bs => bs.length
  | .data bs => bs.length
  | _ => 0

theorem width_bang_le {bs rest : Bytes} {t : Token} (h : bang bs = .token t rest) :
    t.width + rest.length ≤ bs.length := by
  unfold bang at h
  split at h
  · rename_i hmark
    split at h
    · rename_i hcut
      cases h
      have := length_cutAt?_le hcut
      have := length_afterStart?_le hmark
      simp only [Token.width]
      omega
    · cases h
  · rename_i hmark _
    split at h
    · rename_i hcut
      cases h
      have := length_cutAt?_le hcut
      have := length_afterStart?_le hmark
      simp only [Token.width]
      omega
    · cases h
  · split at h
    · split at h
      · rename_i hcut
        split at h
        · cases h
        · cases h
          have := length_cutBalanced?_le hcut
          rw [List.length_drop] at this
          simp only [Token.width]
          omega
      · cases h
    · cases h

theorem width_tagFront_le {bs rest : Bytes} {t : Token} (h : tagFront bs = .token t rest) :
    t.width + rest.length ≤ bs.length := by
  unfold tagFront at h
  split at h
  · cases h
  rename_i b bs
  split at h
  · exact width_bang_le h
  split at h
  · split at h
    · rename_i hcut
      cases h
      have := length_cutTag?_le hcut
      simp only [Token.width, List.length_cons]
      omega
    · cases h
  split at h
  · split at h
    · cases h
    · rename_i hcut
      cases h
      have := length_cutAt?_le hcut
      simp only [Token.width]
      omega
    · cases h
  · split at h
    · rename_i hcut
      cases h
      have := length_cutTag?_le hcut
      simp only [Token.width, openTag]
      omega
    · cases h

theorem width_front_le {bs rest : Bytes} {t : Token} (h : front bs = .token t rest) :
    t.width + rest.length ≤ bs.length := by
  cases bs with
  | nil => cases h
  | cons b bs =>
    simp only [front] at h
    split at h
    · exact Nat.le_succ_of_le (width_tagFront_le h)
    · cases h
      refine Nat.le_of_eq ?_
      rw [Token.width, ← List.length_append, List.takeWhile_append_dropWhile]

namespace Opened

def width (o : Opened) : Nat := (o.texts.flatMap String.toList).length

theorem length_text_node (o : Opened) : o.node.text.toList.length = o.width := by
  simp only [node, Node.text, String.toList_join, List.length_flatMap, List.map_reverse,
    List.sum_reverse, width]

/-- The text in the element and the bytes that are left make up at most `limit`, and so does the
text in each of its children. -/
structure Fits (limit left : Nat) (o : Opened) : Prop where
  width : o.width + left ≤ limit
  children : ∀ c ∈ o.children, c.text.toList.length ≤ limit

end Opened

def Node.Fits (limit : Nat) (n : Node) : Prop := ∀ c ∈ n.children, c.text.toList.length ≤ limit

def OutcomeFits (limit left : Nat) : Except Node (List Opened) → Prop
  | .ok stack => ∀ o ∈ stack, o.Fits limit left
  | .error n => n.Fits limit

section

variable {limit left : Nat} {stack : List Opened}

theorem Opened.Fits.mono {o : Opened} {more : Nat} (h : o.Fits limit more) (hle : left ≤ more) :
    o.Fits limit left := ⟨by have := h.width; omega, h.children⟩

theorem Opened.Fits.attach {o : Opened} (ho : o.Fits limit left)
    (hstack : ∀ o ∈ stack, o.Fits limit left) :
    OutcomeFits limit left (Markup.attach o.node stack) := by
  have hfits : o.node.Fits limit := fun c hc => ho.children c (List.mem_reverse.1 hc)
  have htext : o.node.text.toList.length ≤ limit := by
    rw [o.length_text_node]
    exact Nat.le_trans (Nat.le_add_right ..) ho.width
  cases stack with
  | nil => exact hfits
  | cons parent stack =>
    obtain ⟨hparent, hrest⟩ := List.forall_mem_cons.1 hstack
    refine List.forall_mem_cons.2 ⟨⟨hparent.width, ?_⟩, hrest⟩
    exact List.forall_mem_cons.2 ⟨htext, hparent.children⟩

theorem Opened.Fits.addText {s : String} {width : Nat} (hs : s.toList.length ≤ width)
    (hstack : ∀ o ∈ stack, o.Fits limit (width + left)) :
    ∀ o ∈ Markup.addText s stack, o.Fits limit left := by
  cases stack with
  | nil => simp [Markup.addText]
  | cons o stack =>
    obtain ⟨ho, hrest⟩ := List.forall_mem_cons.1 hstack
    refine List.forall_mem_cons.2 ⟨⟨?_, ho.children⟩, fun o ho => (hrest o ho).mono (by omega)⟩
    have := ho.width
    simp only [Opened.width, List.flatMap_cons, List.length_append] at this ⊢
    omega

theorem Opened.Fits.apply {t : Token} {r : Except Node (List Opened)} (h : t.apply stack = .ok r)
    (hleft : t.width + left ≤ limit) (hstack : ∀ o ∈ stack, o.Fits limit (t.width + left)) :
    OutcomeFits limit left r := by
  have hkept (o : Opened) (ho : o ∈ stack) : o.Fits limit left :=
    (hstack o ho).mono (Nat.le_add_left ..)
  cases t with
  | «open» name attributes isEmpty =>
    simp only [Token.apply] at h
    split at h
    · cases h
    · rename_i attributes _
      have hnew : Opened.Fits limit left ⟨name, attributes, [], []⟩ :=
        ⟨by simpa [Opened.width] using Nat.le_trans (Nat.le_add_left ..) hleft, by simp⟩
      split at h <;> cases h
      · exact hnew.attach hkept
      · exact List.forall_mem_cons.2 ⟨hnew, hkept⟩
  | close name =>
    cases stack with
    | nil => cases h
    | cons o rest =>
      obtain ⟨ho, hrest⟩ := List.forall_mem_cons.1 hkept
      simp only [Token.apply] at h
      split at h <;> cases h
      exact ho.attach hrest
  | text bs =>
    cases stack with
    | nil =>
      cases h
      simp [OutcomeFits]
    | cons o rest =>
      simp only [Token.apply] at h
      split at h
      · rename_i hs
        cases h
        exact addText (length_readText?_le hs) hstack
      · cases h
  | data bs =>
    cases h
    exact addText (Text.length_ofUtf8Lossy_le bs) hstack
  | aside =>
    cases h
    exact hkept

theorem Node.fits_readNode {fuel : Nat} {bs : Bytes} {n : Node}
    (h : readNode fuel stack bs = .ok n) (hbs : bs.length ≤ limit)
    (hstack : ∀ o ∈ stack, o.Fits limit bs.length) : n.Fits limit := by
  induction fuel generalizing stack bs with
  | zero => cases h
  | succ fuel ih =>
    simp only [readNode] at h
    split at h
    · cases h
    · cases h
    · rename_i t rest hfront
      have hwidth := width_front_le hfront
      cases hr : t.apply stack with
      | error e => simp [hr, bind, Except.bind] at h
      | ok r =>
        have hfits := Opened.Fits.apply hr (by omega) fun o ho => (hstack o ho).mono hwidth
        simp only [hr, bind, Except.bind] at h
        cases r with
        | error n =>
          cases h
          exact hfits
        | ok stack => exact ih h (by omega) hfits

end

theorem Node.fits_ofBytes {bs : Bytes} {n : Node} (h : ofBytes bs = .ok n) : n.Fits bs.length :=
  fits_readNode h (Nat.le_refl _) (by simp)

end InstrumentBus.Markup
