import InstrumentBus.Markup.Token
import InstrumentBus.Proofs.Text.Utf8

/-!
Escaped text holds no markup, and reading gives back what was escaped.
-/

namespace InstrumentBus.Markup

open Text (Bytes encode)

theorem escapeChar_cases (c : Char) :
    (c ∈ ['<', '>', '&', '\'', '"'] ∧ ∃ name, escapeChar c = '&' :: name ++ [';'] ∧
      reference? name = some c ∧ ∀ d ∈ name, d ≠ ';' ∧ d ∉ ['<', '>', '\'', '"']) ∨
    c ∉ ['<', '>', '&', '\'', '"'] ∧ escapeChar c = [c] := by
  by_cases h : c ∈ ['<', '>', '&', '\'', '"']
  · left
    simp only [List.mem_cons, List.not_mem_nil, or_false] at h
    rcases h with rfl | rfl | rfl | rfl | rfl
    · exact ⟨by decide, ['l', 't'], rfl, rfl, by simp⟩
    · exact ⟨by decide, ['g', 't'], rfl, rfl, by simp⟩
    · exact ⟨by decide, ['a', 'm', 'p'], rfl, rfl, by simp⟩
    · exact ⟨by decide, ['a', 'p', 'o', 's'], rfl, rfl, by simp⟩
    · exact ⟨by decide, ['q', 'u', 'o', 't'], rfl, rfl, by simp⟩
  · right
    refine ⟨h, ?_⟩
    unfold escapeChar
    split <;> simp_all

theorem unescapeFrom?_name {name : List Char} (h : ∀ d ∈ name, d ≠ ';') (seen cs : List Char) :
    unescapeFrom? (some seen) (name ++ cs) = unescapeFrom? (some (name.reverse ++ seen)) cs := by
  induction name generalizing seen with
  | nil => rfl
  | cons d name ih =>
    have hd : d ≠ ';' := h d List.mem_cons_self
    rw [List.cons_append, unescapeFrom?, if_neg hd, ih fun e he => h e (List.mem_cons_of_mem d he)]
    simp

theorem unescapeFrom?_escapeChar (c : Char) (cs : List Char) :
    unescapeFrom? none (escapeChar c ++ cs) = (unescapeFrom? none cs).map (c :: ·) := by
  obtain ⟨-, name, hc, hname, hplain⟩ | ⟨hc, hplain⟩ := escapeChar_cases c
  · have hsemi : ∀ d ∈ name, d ≠ ';' := fun d hd => (hplain d hd).1
    rw [hc]
    simp only [List.cons_append, List.append_assoc, unescapeFrom?, if_true]
    rw [unescapeFrom?_name hsemi, List.append_nil, List.nil_append, unescapeFrom?, if_pos rfl,
      List.reverse_reverse, hname]
    rfl
  · have hand : c ≠ '&' := by simp_all
    rw [hplain, List.singleton_append, unescapeFrom?, if_neg hand]

theorem unescape?_escape (cs : List Char) : unescape? (escape cs) = some cs := by
  induction cs with
  | nil => rfl
  | cons c cs ih =>
    rw [unescape?] at ih ⊢
    rw [escape, List.flatMap_cons, unescapeFrom?_escapeChar]
    rw [escape] at ih
    rw [ih]
    rfl

theorem not_mem_escape {c : Char} (hc : c ∈ ['<', '>', '\'', '"']) (cs : List Char) :
    c ∉ escape cs := by
  intro h
  obtain ⟨d, -, hd⟩ := List.mem_flatMap.1 h
  obtain ⟨-, name, he, -, hplain⟩ | ⟨hspecial, hplain⟩ := escapeChar_cases d
  · rw [he] at hd
    simp only [List.cons_append, List.mem_cons, List.mem_append, List.not_mem_nil, or_false] at hd
    rcases hd with rfl | hd | rfl
    · simp at hc
    · exact (hplain c hd).2 hc
    · simp at hc
  · rw [hplain, List.mem_singleton] at hd
    rw [hd] at hc
    simp_all

theorem not_mem_encode_escape {b : UInt8} (hb : b ∈ [60, 62, 39, 34]) (cs : List Char) :
    b ∉ encode (escape cs) := by
  intro h
  simp only [List.mem_cons, List.not_mem_nil, or_false] at hb
  rcases hb with rfl | rfl | rfl | rfl <;>
    exact not_mem_escape (by decide) cs (Text.mem_of_mem_encode h (by decide))

theorem readText?_escape (cs : List Char) :
    readText? (encode (escape cs)) = some (String.ofList cs) := by
  simp only [readText?, Text.ofUtf8?_encode, Option.bind_eq_bind, Option.bind_some,
    String.toList_ofList, unescape?_escape, Option.map_some]

theorem length_unescapeFrom?_le {name : Option (List Char)} {cs ds : List Char}
    (h : unescapeFrom? name cs = some ds) : ds.length ≤ cs.length := by
  induction cs generalizing name ds with
  | nil =>
    cases name <;> cases h
    exact Nat.le_refl 0
  | cons c cs ih =>
    cases name with
    | none =>
      simp only [unescapeFrom?] at h
      split at h
      · exact Nat.le_succ_of_le (ih h)
      · obtain ⟨es, hes, rfl⟩ := Option.map_eq_some_iff.1 h
        exact Nat.succ_le_succ (ih hes)
    | some name =>
      simp only [unescapeFrom?] at h
      split at h
      · simp only [Option.bind_eq_bind, Option.bind_eq_some_iff] at h
        obtain ⟨d, -, h⟩ := h
        obtain ⟨es, hes, rfl⟩ := Option.map_eq_some_iff.1 h
        exact Nat.succ_le_succ (ih hes)
      · exact Nat.le_succ_of_le (ih h)

theorem length_readText?_le {bs : Bytes} {s : String} (h : readText? bs = some s) :
    s.toList.length ≤ bs.length := by
  simp only [readText?, Option.bind_eq_bind, Option.bind_eq_some_iff] at h
  obtain ⟨raw, hraw, h⟩ := h
  obtain ⟨cs, hcs, rfl⟩ := Option.map_eq_some_iff.1 h
  rw [String.toList_ofList]
  exact Nat.le_trans (length_unescapeFrom?_le hcs) (Text.length_le_of_ofUtf8? hraw)

end InstrumentBus.Markup
