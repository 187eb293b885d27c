import InstrumentBus.Message.Read

/-!
A frame that carries no message is malformed: reading it fails in no other way.
-/

namespace InstrumentBus

/-- If there is no value, some frame is malformed. -/
def Faulty {α : Type} (r : Except WireError α) : Prop :=
  ∀ e, r = .error e → ∃ tag fault, e = .malformed tag fault

namespace Faulty

variable {α β : Type} {r : Except WireError α} {f : α → Except WireError β}

theorem ok (a : α) : Faulty (.ok a : Except WireError α) := by
  rintro e ⟨⟩

theorem malformed (n : Markup.Node) (fault : FrameFault) :
    Faulty (n.malformed fault : Except WireError α) := by
  rintro e ⟨⟩
  exact ⟨_, _, rfl⟩

theorem bind (hr : Faulty r) (hf : ∀ a, Faulty (f a)) : Faulty (r >>= f) := by
  cases r with
  | error e =>
    rintro _ ⟨⟩
    exact hr e rfl
  | ok a => exact hf a

theorem malformed_bind (n : Markup.Node) (fault : FrameFault) :
    Faulty (n.malformed fault >>= f) := by
  rintro e ⟨⟩
  exact ⟨_, _, rfl⟩

theorem map (hr : Faulty r) (f : α → β) : Faulty (r.map f) := by
  cases r with
  | error e =>
    rintro _ ⟨⟩
    exact hr e rfl
  | ok a => exact ok (f a)

theorem mapM (hf : ∀ a, Faulty (f a)) (as : List α) : Faulty (as.mapM f) := by
  induction as with
  | nil => exact ok []
  | cons a as ih =>
    rw [List.mapM_cons]
    exact (hf a).bind fun b => ih.bind fun bs => ok (b :: bs)

end Faulty

namespace Markup.Node

variable (n : Node) (k : Kind)

theorem faulty_required (key : String) : Faulty (n.required key) := by
  unfold required
  split
  · exact .ok _
  · exact .malformed n _

theorem faulty_readWord (α : Type) [Vocabulary α] (text : String) :
    Faulty (n.readWord α text) := by
  unfold readWord
  split
  · exact .ok _
  · exact .malformed n _

theorem faulty_wordAttr (α : Type) [Vocabulary α] (key : String) :
    Faulty (n.wordAttr α key) := by
  unfold wordAttr
  split
  · exact (n.faulty_readWord α _).map some
  · exact .ok none

theorem faulty_numberAttr (key : String) : Faulty (n.numberAttr key) := by
  unfold numberAttr
  split
  · split
    · exact .ok _
    · exact .malformed n _
  · exact .ok none

theorem faulty_blob : Faulty n.blob := by
  unfold blob
  dsimp only
  split
  · refine (Faulty.ok _).bind fun data => ?_
    split
    · split
      · exact .ok _
      · exact .malformed_bind n _
    · exact .ok _
  · exact .malformed_bind n _

theorem faulty_rangeAttrs : Faulty n.rangeAttrs :=
  (n.faulty_numberAttr "min").bind fun _ => (n.faulty_numberAttr "max").bind fun _ =>
    (n.faulty_numberAttr "step").bind fun _ => .ok _

theorem faulty_definedElement : Faulty (definedElement k n) := by
  have hname (range : Option NumberRange) : Faulty (do
      let name ← n.required "name"
      .ok (⟨name, n.attr? "label", n.scalar, range⟩ : DefinedElement)) :=
    (n.faulty_required "name").bind fun _ => .ok _
  unfold definedElement
  split
  · exact (n.faulty_rangeAttrs.map some).bind hname
  · exact hname none

theorem faulty_elementValue : Faulty (elementValue k n) := by
  refine (n.faulty_required "name").bind fun name => ?_
  dsimp only
  split
  · exact (n.faulty_blob.map WireValue.blob).bind fun _ => .ok _
  · exact .ok _

theorem faulty_definition : Faulty (n.definition k) :=
  (Faulty.mapM (faulty_definedElement · k) _).bind fun _ =>
    (n.faulty_required "device").bind fun _ => (n.faulty_required "name").bind fun _ =>
    (n.faulty_wordAttr State "state").bind fun _ =>
    (n.faulty_wordAttr Permission "perm").bind fun _ =>
    (n.faulty_wordAttr Rule "rule").bind fun _ =>
    (n.faulty_numberAttr "timeout").bind fun _ => .ok _

theorem faulty_update : Faulty (n.update k) :=
  (n.faulty_required "device").bind fun _ => (n.faulty_required "name").bind fun _ =>
    (n.faulty_wordAttr State "state").bind fun _ =>
    (n.faulty_numberAttr "timeout").bind fun _ =>
    (Faulty.mapM (faulty_elementValue · k) _).bind fun _ => .ok _

theorem faulty_change : Faulty (n.change k) :=
  (n.faulty_required "device").bind fun _ => (n.faulty_required "name").bind fun _ =>
    (Faulty.mapM (faulty_elementValue · k) _).bind fun _ => .ok _

theorem faulty_message? : Faulty n.message? := by
  unfold message?
  split
  · exact .ok _
  · exact (n.faulty_required "device").bind fun _ => .ok _
  · exact .ok _
  · exact (n.faulty_readWord BlobPolicy _).bind fun _ => .ok _
  · split
    · exact (n.faulty_definition _).map _
    · exact (n.faulty_update _).map _
    · exact (n.faulty_change _).map _
    · exact .ok none

end Markup.Node

theorem Message.faulty_ofFrame? (bs : Text.Bytes) : Faulty (Message.ofFrame? bs) := by
  unfold ofFrame?
  split
  · exact Markup.Node.faulty_message? _
  · rintro e ⟨⟩
    rename_i e _
    cases e <;> exact ⟨_, _, rfl⟩

end InstrumentBus
