import InstrumentBus.Text.Blank

/-!
A text that is cut at a mark is made of the two parts with the mark between them: the first cut
leaves no mark before it, the last cut none behind it.
-/

namespace InstrumentBus.Text

variable {α : Type} [DecidableEq α] {x : α} {xs head tail : List α}

theorem cutFirst?_eq_some_iff :
    cutFirst? x xs = some (head, tail) ↔ xs = head ++ x :: tail ∧ x ∉ head := by
  induction xs generalizing head with
  | nil => simp [cutFirst?]
  | cons y ys ih =>
    by_cases hy : y = x
    · subst hy
      cases head with
      | nil => simp [cutFirst?]
      | cons z zs =>
        simp only [cutFirst?, ↓reduceIte, List.cons_append, List.cons.injEq, List.mem_cons]
        grind
    · cases head with
      | nil => simp [cutFirst?, hy]
      | cons z zs =>
        simp only [cutFirst?, hy, ↓reduceIte, List.cons_append, List.cons.injEq, List.mem_cons,
          Option.map_eq_some_iff, Prod.exists, Prod.mk.injEq]
        grind

theorem cutFirst?_eq_none_iff : cutFirst? x xs = none ↔ x ∉ xs := by
  induction xs with
  | nil => simp [cutFirst?]
  | cons y ys ih =>
    by_cases hy : y = x
    · simp [cutFirst?, hy]
    · simp [cutFirst?, hy, Ne.symm hy, ih]

theorem cutLast?_eq_some_iff :
    cutLast? x xs = some (head, tail) ↔ xs = head ++ x :: tail ∧ x ∉ tail := by
  have hreverse : xs = head ++ x :: tail ↔ xs.reverse = tail.reverse ++ x :: head.reverse := by
    rw [← List.reverse_inj, List.reverse_append, List.reverse_cons, List.append_assoc]
    rfl
  have hfirst := @cutFirst?_eq_some_iff _ _ x xs.reverse tail.reverse head.reverse
  rw [← hreverse, List.mem_reverse] at hfirst
  rw [← hfirst, cutLast?]
  constructor
  · intro h
    obtain ⟨⟨behind, before⟩, hcut, hparts⟩ := Option.map_eq_some_iff.1 h
    obtain ⟨rfl, rfl⟩ := Prod.mk.inj hparts
    rw [List.reverse_reverse, List.reverse_reverse, hcut]
  · intro h
    simp [h]

theorem cutLast?_eq_none_iff : cutLast? x xs = none ↔ x ∉ xs := by
  rw [cutLast?, Option.map_eq_none_iff, cutFirst?_eq_none_iff, List.mem_reverse]

theorem afterStart?_eq_some_iff : afterStart? head xs = some tail ↔ xs = head ++ tail := by
  induction head generalizing xs with
  | nil => simp [afterStart?]
  | cons y ys ih =>
    cases xs with
    | nil => simp [afterStart?]
    | cons z zs => simp [afterStart?, ih]

end InstrumentBus.Text
