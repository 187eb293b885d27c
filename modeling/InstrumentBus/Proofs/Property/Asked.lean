import InstrumentBus.Proofs.Property.Verdict

/-!
Requests for a number. A property with a single number shows what it was last asked for; a request
may also ask for nothing.
-/

namespace InstrumentBus

/-- The number that a request asks for: its last entry for the element counts. -/
def ChangeRequest.number? (r : ChangeRequest) (element : String) : Option Float :=
  (r.entriesFor element).getLast?.bind fun entry =>
    match entry.value with
    | .scalar text => Number.read? text
    | .blob _ => none

theorem ChangeRequest.number?_eq_some_iff {r : ChangeRequest} {element : String} {x : Float} :
    r.number? element = some x ↔
      ∃ name text, (r.entriesFor element).getLast? = some ⟨name, .scalar text⟩ ∧
        Number.read? text = some x := by
  unfold number?
  cases (r.entriesFor element).getLast? with
  | none => simp
  | some entry =>
    obtain ⟨name, value⟩ := entry
    cases value <;> simp

theorem ChangeRequest.number?_of_nil {r : ChangeRequest} (h : r.elements = []) (element : String) :
    r.number? element = none := by
  simp [number?, entriesFor, h]

theorem Decimal.beq_of_zeros {x y : Float} (hx : (x == 0) = true) (hy : (y == 0) = true) :
    (x == y) = true := by
  obtain rfl | rfl := eq_zero_of_beq hx
  · obtain rfl | rfl := eq_zero_of_beq hy
    · decide +kernel
    · decide +kernel
  · obtain rfl | rfl := eq_zero_of_beq hy
    · decide +kernel
    · decide +kernel

theorem Value.Same.number {v : Value} {q : Quantity} (h : v.Same (.number q))
    (hfinite : q.value.isFinite = true) :
    ∃ y, v = .number { q with value := y } ∧ (y == q.value) = true := by
  generalize hu : Value.number q = u at h
  cases h with
  | refl => exact ⟨q.value, hu.symm, Decimal.beq_self_of_isFinite hfinite⟩
  | @zero q' _ hy hx =>
    cases hu
    exact ⟨q'.value, rfl, Decimal.beq_of_zeros hy hx⟩

namespace Property

theorem entriesFor_eq_elements {p : Property} {e : Element} (hone : p.elements = [e])
    {r : ChangeRequest} {values : List (String × Value)}
    (hvalues : p.interpret .client r.elements = .ok values) : r.entriesFor e.name = r.elements := by
  refine List.filter_eq_self.2 fun entry hentry => decide_eq_true ?_
  obtain ⟨-, -, f, hf, -, -⟩ := exists_of_forall₂ (interpret_eq_ok_iff.1 hvalues).flip entry hentry
  obtain ⟨hmem, hname⟩ := element?_eq_some hf
  rw [hone, List.mem_singleton] at hmem
  rw [← hname, hmem]

variable {p q : Property} {now : Time.Millis} {r : ChangeRequest} {changed : List String}

theorem IsWellFormed.number_of_applyChange (hp : p.IsWellFormed) {element label : String}
    {x : Float} {range : NumberRange} (hone : p.elements = [⟨element, label, .number ⟨x, range⟩⟩])
    (hbounded : range.min.isFinite = true ∧ range.max.isFinite = true)
    (h : p.applyChange now r = .ok (q, changed)) :
    r.elements = [] ∧ q.elements = p.elements ∨
      ∃ asked y, r.number? element = some asked ∧ asked.isFinite = true ∧
        (range.min < range.max → range.min ≤ asked ∧ asked ≤ range.max) ∧
        (y == asked) = true ∧ q.elements = [⟨element, label, .number ⟨y, range⟩⟩] := by
  have hkind : p.kind ≠ .switch := by
    have := hp.kinds _ (hone ▸ List.mem_singleton_self _)
    rw [← this]
    exact Kind.noConfusion
  obtain ⟨-, -, values, hvalues, -, -⟩ := applyChange_eq_ok_iff.1 h
  have hfulfils := hp.fulfils_of_applyChange h (by rwa [hone, List.forall_mem_singleton]) hkind
  rw [hone, List.forall₂_cons_left_iff] at hfulfils
  obtain ⟨f, _, hf, hnil, hq⟩ := hfulfils
  cases List.forall₂_nil_left_iff.1 hnil
  have hentries : r.entriesFor element = r.elements := entriesFor_eq_elements hone hvalues
  simp only [Fulfils, hentries] at hf
  cases hlast : r.elements.getLast? with
  | none =>
    rw [hlast] at hf
    left
    rw [hq, hf, hone]
    exact ⟨List.getLast?_eq_none_iff.1 hlast, rfl⟩
  | some entry =>
    rw [hlast] at hf
    obtain ⟨v, u, rfl, hadmits, hsame⟩ := hf
    right
    obtain ⟨name, value⟩ := entry
    cases hadmits with
    | @number _ text asked hread hfinite hrange =>
      have hasked : r.number? element = some asked :=
        ChangeRequest.number?_eq_some_iff.2 ⟨name, text, hentries ▸ hlast, hread⟩
      obtain ⟨y, rfl, hy⟩ := hsame.number hfinite
      exact ⟨asked, y, hasked, hfinite, hrange, hy, hq⟩

end Property

end InstrumentBus
