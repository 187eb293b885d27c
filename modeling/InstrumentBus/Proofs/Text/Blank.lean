import InstrumentBus.Text.Blank
import Mathlib.Data.List.DropRight

/-!
Trimming takes the blanks around a text, and nothing where there is nothing to trim, as in what was
trimmed before. Splitting a text finds the pieces that it was put together of.
-/

namespace InstrumentBus.Text

variable {α : Type} {p : α → Bool}

theorem dropWhile_of_forall {xs : List α} (h : ∀ x ∈ xs, p x = false) : xs.dropWhile p = xs := by
  cases xs with
  | nil => rfl
  | cons x xs => simp [h x List.mem_cons_self]

theorem dropTail_of_forall {xs : List α} (h : ∀ x ∈ xs, p x = false) : dropTail p xs = xs := by
  rw [dropTail, dropWhile_of_forall fun x hx => h x (List.mem_reverse.1 hx), List.reverse_reverse]

theorem trimChars_of_forall {cs : List Char} (h : ∀ c ∈ cs, isBlank c = false) :
    trimChars cs = cs := by
  rw [trimChars, dropWhile_of_forall h, dropTail_of_forall h]

theorem dropTail_append_of_forall {xs ys : List α} (h : ∀ y ∈ ys, p y = true) :
    dropTail p (xs ++ ys) = dropTail p xs := by
  rw [dropTail, List.reverse_append, List.dropWhile_append_of_pos (by simpa using h), dropTail]

theorem trimChars_between {before cs after : List Char} (hbefore : ∀ c ∈ before, isBlank c = true)
    (hcs : ∀ c ∈ cs, isBlank c = false) (hafter : ∀ c ∈ after, isBlank c = true) :
    trimChars (before ++ cs ++ after) = cs := by
  rw [trimChars, List.append_assoc, List.dropWhile_append_of_pos hbefore]
  cases cs with
  | nil =>
    rw [List.nil_append, List.dropWhile_eq_nil_iff.2 hafter]
    rfl
  | cons c cs =>
    have hc : ¬isBlank c = true := by simp [hcs c List.mem_cons_self]
    rw [List.cons_append, List.dropWhile_cons_of_neg hc, ← List.cons_append,
      dropTail_append_of_forall hafter, dropTail_of_forall hcs]

theorem dropTail_eq_rdropWhile (xs : List α) : dropTail p xs = xs.rdropWhile p := rfl

theorem dropWhile_trimChars (cs : List Char) : (trimChars cs).dropWhile isBlank = trimChars cs := by
  rw [List.dropWhile_eq_self_iff]
  intro hpos
  have hkept : trimChars cs <+: cs.dropWhile isBlank := List.rdropWhile_prefix isBlank _
  rw [hkept.getElem hpos]
  exact List.dropWhile_get_zero_not isBlank cs _

theorem trimChars_trimChars (cs : List Char) : trimChars (trimChars cs) = trimChars cs := by
  rw [trimChars, dropWhile_trimChars, trimChars, dropTail_eq_rdropWhile, dropTail_eq_rdropWhile,
    List.rdropWhile_idempotent]

theorem trimChars_eq_nil_iff {cs : List Char} : trimChars cs = [] ↔ ∀ c ∈ cs, isBlank c = true := by
  rw [trimChars, dropTail_eq_rdropWhile, List.rdropWhile_eq_nil_iff]
  constructor
  · intro h
    have hfront := List.dropWhile_idempotent isBlank cs
    rw [List.dropWhile_eq_nil_iff.2 h] at hfront
    exact List.dropWhile_eq_nil_iff.1 hfront.symm
  · intro h
    simp [List.dropWhile_eq_nil_iff.2 h]

@[simp] theorem trim_trim (s : String) : trim (trim s) = trim s := by
  rw [trim, trim, String.toList_ofList, trimChars_trimChars]

theorem splitAt_of_forall {xs : List α} (h : ∀ x ∈ xs, p x = false) : splitAt p xs = [xs] := by
  induction xs with
  | nil => rfl
  | cons x xs ih =>
    obtain ⟨hx, hxs⟩ := List.forall_mem_cons.1 h
    simp [splitAt, hx, ih hxs]

theorem splitAt_append_cons {x : α} {xs ys : List α} (hx : p x = true) (h : ∀ y ∈ ys, p y = false) :
    splitAt p (ys ++ x :: xs) = ys :: splitAt p xs := by
  induction ys with
  | nil => simp [splitAt, hx]
  | cons y ys ih =>
    obtain ⟨hy, hys⟩ := List.forall_mem_cons.1 h
    simp [splitAt, hy, ih hys]

theorem splitAt_append_flatMap {x : α} {ys : List α} {pieces : List (List α)} (hx : p x = true)
    (hys : ∀ y ∈ ys, p y = false) (hpieces : ∀ piece ∈ pieces, ∀ y ∈ piece, p y = false) :
    splitAt p (ys ++ pieces.flatMap (x :: ·)) = ys :: pieces := by
  induction pieces generalizing ys with
  | nil => rw [List.flatMap_nil, List.append_nil, splitAt_of_forall hys]
  | cons piece pieces ih =>
    obtain ⟨hpiece, hpieces⟩ := List.forall_mem_cons.1 hpieces
    rw [List.flatMap_cons, List.cons_append, splitAt_append_cons hx hys, ih hpiece hpieces]

end InstrumentBus.Text
