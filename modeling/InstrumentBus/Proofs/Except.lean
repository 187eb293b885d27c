import Mathlib.Data.List.Forall2

/-!
When a computation that can fail gives a value, and which; when it fails, and how.
-/

namespace InstrumentBus

theorem bind_eq_ok_iff {ε α β : Type} {r : Except ε α} {f : α → Except ε β} {b : β} :
    r >>= f = .ok b ↔ ∃ a, r = .ok a ∧ f a = .ok b := by
  cases r with
  | error e => simp [bind, Except.bind]
  | ok a => simp [bind, Except.bind]

theorem check_bind_eq_ok_iff {ε β : Type} {r : Except ε Unit} {f : Unit → Except ε β} {b : β} :
    r >>= f = .ok b ↔ r = .ok () ∧ f () = .ok b := by
  rw [bind_eq_ok_iff]
  exact ⟨fun ⟨(), h⟩ => h, fun h => ⟨(), h⟩⟩

theorem map_eq_ok_iff {ε α β : Type} {r : Except ε α} {f : α → β} {b : β} :
    r.map f = .ok b ↔ ∃ a, r = .ok a ∧ f a = b := by
  cases r <;> simp [Except.map]

theorem map_eq_error_iff {ε α β : Type} {r : Except ε α} {f : α → β} {e : ε} :
    r.map f = .error e ↔ r = .error e := by
  cases r <;> simp [Except.map]

theorem map_bind_eq {ε α β γ : Type} {r : Except ε α} {f : α → Except ε β} {g : β → γ} :
    (r >>= f).map g = r >>= fun a => (f a).map g := by
  cases r <;> rfl

theorem mapError_eq_ok_iff {ε ε' α : Type} {r : Except ε α} {f : ε → ε'} {a : α} :
    r.mapError f = .ok a ↔ r = .ok a := by
  cases r <;> simp [Except.mapError]

theorem mapM_eq_ok_iff {ε α β : Type} {f : α → Except ε β} {as : List α} {bs : List β} :
    as.mapM f = .ok bs ↔ List.Forall₂ (fun a b => f a = .ok b) as bs := by
  induction as generalizing bs with
  | nil => cases bs <;> simp [pure, Except.pure]
  | cons a as ih =>
    simp only [List.mapM_cons, bind_eq_ok_iff, ih, List.forall₂_cons_left_iff]
    constructor
    · rintro ⟨c, hc, cs, hcs, ⟨⟩⟩
      exact ⟨c, cs, hc, hcs, rfl⟩
    · rintro ⟨c, cs, hc, hcs, rfl⟩
      exact ⟨c, hc, cs, hcs, rfl⟩

theorem exists_of_forall₂ {α β : Type} {R : α → β → Prop} {as : List α} {bs : List β}
    (h : List.Forall₂ R as bs) : ∀ b ∈ bs, ∃ a ∈ as, R a b := by
  induction h with
  | nil => simp
  | cons hab _ ih =>
    refine List.forall_mem_cons.2 ⟨⟨_, List.mem_cons_self, hab⟩, ?_⟩
    intro b hb
    obtain ⟨a, ha, hab⟩ := ih b hb
    exact ⟨a, List.mem_cons_of_mem _ ha, hab⟩

theorem exists_of_mapM_eq_ok {ε α β : Type} {f : α → Except ε β} {as : List α} {bs : List β}
    (h : as.mapM f = .ok bs) : ∀ b ∈ bs, ∃ a ∈ as, f a = .ok b :=
  exists_of_forall₂ (mapM_eq_ok_iff.1 h)

theorem mapM_of_forall {m : Type → Type} [Monad m] [LawfulMonad m] {α β : Type} {f : α → m β}
    {g : α → β} {as : List α} (h : ∀ a ∈ as, f a = pure (g a)) :
    as.mapM f = pure (as.map g) := by
  induction as with
  | nil => rfl
  | cons a as ih =>
    rw [List.mapM_cons, h a List.mem_cons_self, ih fun c hc => h c (List.mem_cons_of_mem a hc)]
    simp

theorem bind_eq_error_iff {ε α β : Type} {r : Except ε α} {f : α → Except ε β} {e : ε} :
    r >>= f = .error e ↔ r = .error e ∨ ∃ a, r = .ok a ∧ f a = .error e := by
  cases r with
  | error d => simp [bind, Except.bind]
  | ok a => simp [bind, Except.bind]

theorem check_bind_eq_error_iff {ε β : Type} {r : Except ε Unit} {f : Unit → Except ε β} {e : ε} :
    r >>= f = .error e ↔ r = .error e ∨ r = .ok () ∧ f () = .error e := by
  rw [bind_eq_error_iff]
  exact or_congr_right ⟨fun ⟨(), h⟩ => h, fun h => ⟨(), h⟩⟩

theorem mapError_eq_error_iff {ε ε' α : Type} {r : Except ε α} {f : ε → ε'} {e : ε'} :
    r.mapError f = .error e ↔ ∃ d, r = .error d ∧ f d = e := by
  cases r <;> simp [Except.mapError]

theorem mapM_eq_error_iff {ε α β : Type} {f : α → Except ε β} {as : List α} {e : ε} :
    as.mapM f = .error e ↔
      ∃ pre a post, as = pre ++ a :: post ∧ (∀ c ∈ pre, ∃ b, f c = .ok b) ∧ f a = .error e := by
  induction as with
  | nil => simp [pure, Except.pure]
  | cons a as ih =>
    simp only [List.mapM_cons, bind_eq_error_iff, ih]
    constructor
    · rintro (h | ⟨b, hb, h | ⟨bs, -, ⟨⟩⟩⟩)
      · exact ⟨[], a, as, rfl, by simp, h⟩
      · obtain ⟨pre, c, post, rfl, hpre, hc⟩ := h
        exact ⟨a :: pre, c, post, rfl, List.forall_mem_cons.2 ⟨⟨b, hb⟩, hpre⟩, hc⟩
    · rintro ⟨pre, c, post, hsplit, hpre, hc⟩
      cases pre with
      | nil =>
        cases hsplit
        exact .inl hc
      | cons d pre =>
        cases hsplit
        obtain ⟨⟨b, hb⟩, hpre⟩ := List.forall_mem_cons.1 hpre
        exact .inr ⟨b, hb, .inl ⟨pre, c, post, rfl, hpre, hc⟩⟩

end InstrumentBus
