import InstrumentBus.Proofs.Property.Accept

/-!
Changes in place. A property is changed where it is, check by check and write by write, and what was
written stays written if a later check fails. The programs here make the checks and the writes in
their order; each comes to what the change as a whole comes to.
-/

namespace InstrumentBus

/-- A program on a value that is held in place. What it writes before it fails stays written. -/
abbrev InPlace (σ : Type) := ExceptT PropertyError (StateM σ)

namespace InPlace

variable {σ α β : Type}

def exec (program : InPlace σ α) (s : σ) : Except PropertyError α × σ :=
  StateT.run (ExceptT.run program) s

/-- What a change as a whole leaves in place of `s`: all of it, or `s` if it is refused. -/
def settle (s : σ) : Except PropertyError (σ × α) → Except PropertyError α × σ
  | .ok (s', a) => (.ok a, s')
  | .error e => (.error e, s)

section

variable (s : σ)

@[simp] theorem exec_pure (a : α) : exec (pure a) s = (.ok a, s) := rfl

@[simp] theorem exec_get : exec (get : InPlace σ σ) s = (.ok s, s) := rfl

@[simp] theorem exec_modify (f : σ → σ) : exec (modify f) s = (.ok (), f s) := rfl

@[simp] theorem exec_throw (e : PropertyError) :
    exec (throw e : InPlace σ α) s = (.error e, s) := rfl

@[simp] theorem exec_ofExcept (r : Except PropertyError α) :
    exec (MonadExcept.ofExcept r : InPlace σ α) s = (r, s) := by
  cases r <;> rfl

theorem exec_bind (program : InPlace σ α) (next : α → InPlace σ β) :
    exec (program >>= next) s =
      match program.exec s with
      | (.ok a, s') => (next a).exec s'
      | (.error e, s') => (.error e, s') := by
  unfold exec
  rw [ExceptT.run_bind, StateT.run_bind]
  change StateT.run _ _ = _
  rcases StateT.run (ExceptT.run program) s with ⟨_ | a, s'⟩ <;> rfl

variable {s}

theorem exec_bind_read {program : InPlace σ α} {r : Except PropertyError α}
    (h : program.exec s = (r, s)) {next : α → InPlace σ β} {rest : α → Except PropertyError β}
    (hnext : ∀ a, (next a).exec s = (rest a, s)) : exec (program >>= next) s = (r >>= rest, s) := by
  rw [exec_bind, h]
  cases r with
  | error e => rfl
  | ok a => exact hnext a

theorem exec_bind_check {program : InPlace σ α} {r : Except PropertyError α}
    (h : program.exec s = (r, s)) {next : α → InPlace σ β}
    {rest : α → Except PropertyError (σ × β)} (hnext : ∀ a, (next a).exec s = settle s (rest a)) :
    exec (program >>= next) s = settle s (r >>= rest) := by
  rw [exec_bind, h]
  cases r with
  | error e => rfl
  | ok a => exact hnext a

theorem exec_mapM {f : α → InPlace σ β} {g : α → Except PropertyError β}
    (h : ∀ a, (f a).exec s = (g a, s)) (as : List α) : exec (as.mapM f) s = (as.mapM g, s) := by
  induction as with
  | nil => rfl
  | cons a as ih =>
    rw [List.mapM_cons, List.mapM_cons]
    exact exec_bind_read (h a) fun b => exec_bind_read ih fun bs => rfl

end

def interpret (authority : Element.Authority) (entries : List ElementValue) :
    InPlace Property (List (String × Value)) :=
  entries.mapM fun entry => do
    let e ← MonadExcept.ofExcept ((← get).findElement (Text.trim entry.name))
    let value ← MonadExcept.ofExcept (e.interpret authority entry.value)
    return (e.name, value)

def put (touched : List String) (name : String) (value : Value) :
    InPlace Property (List String) := do
  let a := Property.Assignment.put ⟨(← get).elements, touched⟩ name value
  modify fun p => { p with elements := a.elements }
  return a.touched

def assign (values : List (String × Value)) : InPlace Property (List String) := do
  let touched ← values.foldlM (fun touched v => put touched v.1 v.2) []
  return Property.Assignment.changed ⟨(← get).elements, touched⟩

def pressAll (values : List (String × Value)) : InPlace Property (List String) := do
  let p ← get
  let es := Property.pressAll (p.rule.getD .oneOfMany) p.elements values
  modify fun p => { p with elements := es }
  return Property.switchedNames p.elements es

def changeElements (values : List (String × Value)) : InPlace Property (List String) := do
  if (← get).kind = .switch then pressAll values else assign values

def applyChange (now : Time.Millis) (r : ChangeRequest) : InPlace Property (List String) := do
  let p ← get
  MonadExcept.ofExcept (p.checkTarget r.kind r.device r.name)
  if !p.permission.isWritable then throw (.readOnly p.device p.name)
  let values ← interpret .client r.elements
  let changed ← changeElements values
  if !changed.isEmpty then
    modify fun p => { p with timestamp := Property.timestampAt now }
  return changed

def setState (now : Time.Millis) (state : State) : InPlace Property Unit :=
  modify fun p => p.setState now state

def applyUpdate (now : Time.Millis) (u : Update) : InPlace Property (List String) := do
  MonadExcept.ofExcept ((← get).checkTarget u.kind u.device u.name)
  let values ← interpret .owner u.elements
  let changed ← assign values
  if let some state := u.state then setState now state
  if let some seconds := u.timeout then
    modify fun p => { p with timeout := Property.clampTimeout seconds }
  modify fun p => { p with timestamp := u.timestamp.getD (Property.timestampAt now) }
  return changed

def setValue (now : Time.Millis) (name : String) (value : Value) : InPlace Property Unit := do
  let e ← MonadExcept.ofExcept ((← get).findElement name)
  if value.kind ≠ e.kind then throw (.kindMismatch e.kind value.kind)
  modify fun p =>
    { p with elements := p.elements.map fun e => if e.name = name then { e with value } else e }
  modify fun p => { p with timestamp := Property.timestampAt now }

section

variable (p : Property) (now : Time.Millis)

theorem exec_interpret (authority : Element.Authority) (entries : List ElementValue) :
    (interpret authority entries).exec p = (p.interpret authority entries, p) := by
  apply exec_mapM
  intro entry
  rw [exec_bind, exec_get]
  apply exec_bind_read (exec_ofExcept ..)
  intro e
  exact exec_bind_read (exec_ofExcept ..) fun value => rfl

theorem exec_puts (values : List (String × Value)) (touched : List String) :
    exec (values.foldlM (fun touched v => put touched v.1 v.2) touched) p =
      let a := values.foldl (fun a v => Property.Assignment.put a v.1 v.2) ⟨p.elements, touched⟩
      (.ok a.touched, { p with elements := a.elements }) := by
  induction values generalizing p touched with
  | nil => rfl
  | cons v values ih =>
    have hput : exec (put touched v.1 v.2) p =
        let a := Property.Assignment.put ⟨p.elements, touched⟩ v.1 v.2
        (.ok a.touched, { p with elements := a.elements }) := rfl
    rw [List.foldlM_cons, exec_bind, hput]
    exact ih ..

theorem exec_assign (values : List (String × Value)) :
    exec (assign values) p =
      let a := Property.assign p.elements values
      (.ok a.changed, { p with elements := a.elements }) := by
  rw [assign, exec_bind, exec_puts]
  rfl

theorem exec_changeElements (values : List (String × Value)) :
    exec (changeElements values) p =
      (.ok (p.changeElements values).2, { p with elements := (p.changeElements values).1 }) := by
  rw [changeElements, exec_bind, exec_get, Property.changeElements]
  dsimp only
  split
  · rfl
  · exact exec_assign p values

theorem exec_applyChange (r : ChangeRequest) :
    exec (applyChange now r) p = settle p (p.applyChange now r) := by
  unfold applyChange Property.applyChange
  rw [exec_bind, exec_get]
  apply exec_bind_check (exec_ofExcept ..)
  intro _
  dsimp only
  split
  · rfl
  · apply exec_bind_check (exec_interpret ..)
    intro values
    -- All that can fail is behind; what is left are writes.
    rw [exec_bind, exec_changeElements]
    dsimp only
    cases (p.changeElements values).2.isEmpty <;> rfl

theorem exec_applyUpdate (u : Update) :
    exec (applyUpdate now u) p = settle p (p.applyUpdate now u) := by
  unfold applyUpdate Property.applyUpdate
  rw [exec_bind, exec_get]
  apply exec_bind_check (exec_ofExcept ..)
  intro _
  apply exec_bind_check (exec_interpret ..)
  intro values
  rw [exec_bind, exec_assign]
  cases u.state <;> cases u.timeout <;> rfl

theorem exec_setValue (name : String) (value : Value) :
    exec (setValue now name value) p =
      settle p ((p.setValue now name value).map fun q => (q, ())) := by
  unfold setValue Property.setValue
  rw [exec_bind, exec_get, map_bind_eq]
  apply exec_bind_check (exec_ofExcept ..)
  intro e
  dsimp only
  split
  · rfl
  · rfl

end

end InPlace

namespace Property

inductive Call
  | change (now : Time.Millis) (r : ChangeRequest) : Call
  | update (now : Time.Millis) (u : Update) : Call
  | setValue (now : Time.Millis) (name : String) (value : Value) : Call
  | setState (now : Time.Millis) (state : State) : Call

namespace Call

def now : Call → Time.Millis
  | .change now _ => now
  | .update now _ => now
  | .setValue now _ _ => now
  | .setState now _ => now

def outcome (p : Property) : Call → Except PropertyError Property
  | .change now r => (p.applyChange now r).map (·.1)
  | .update now u => (p.applyUpdate now u).map (·.1)
  | .setValue now name value => p.setValue now name value
  | .setState now state => .ok (p.setState now state)

def program : Call → InPlace Property Unit
  | .change now r => do
    let _ ← InPlace.applyChange now r
  | .update now u => do
    let _ ← InPlace.applyUpdate now u
  | .setValue now name value => InPlace.setValue now name value
  | .setState now state => InPlace.setState now state

theorem exec_program (c : Call) (p : Property) :
    c.program.exec p = InPlace.settle p ((c.outcome p).map fun q => (q, ())) := by
  cases c with
  | change now r =>
    rw [program, InPlace.exec_bind, InPlace.exec_applyChange, outcome]
    cases p.applyChange now r <;> rfl
  | update now u =>
    rw [program, InPlace.exec_bind, InPlace.exec_applyUpdate, outcome]
    cases p.applyUpdate now u <;> rfl
  | setValue now name value => exact InPlace.exec_setValue p now name value
  | setState now state => rfl

end Call

/-- A property after some calls. One that fails leaves what it wrote before. -/
def afterCalls (p : Property) (calls : List Call) : Property :=
  calls.foldl (fun p c => (c.program.exec p).2) p

end Property

end InstrumentBus
