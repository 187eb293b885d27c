import InstrumentBus.Text.Blank

/-!
Command lines with options and operands.

An option is named by a word after two dashes, or by a letter after one. A value follows in the next
argument, after an equals sign, or right after the letter; letters may share a dash, and all but the
last of them take no value. Two dashes alone end the options.
-/

namespace InstrumentBus

inductive CommandLineError
  | help : CommandLineError
  | version : CommandLineError
  | usage : CommandLineError
deriving DecidableEq

namespace CommandLine

inductive Action (σ : Type)
  | flag (set : σ → Option σ) : Action σ
  | value (set : String → σ → Option σ) : Action σ
  | stop (error : CommandLineError) : Action σ

structure OptionRule (σ : Type) where
  name : String
  letter : Option Char
  action : Action σ

def helpRule (σ : Type) : OptionRule σ := ⟨"help", some 'h', .stop .help⟩

def versionRule (σ : Type) : OptionRule σ := ⟨"version", some 'V', .stop .version⟩

abbrev OptionRules (σ : Type) := List (OptionRule σ)

namespace OptionRules

variable {σ : Type}

def named? (o : OptionRules σ) (name : String) : Option (Action σ) :=
  (o.find? (·.name == name)).map (·.action)

def lettered? (o : OptionRules σ) (letter : Char) : Option (Action σ) :=
  (o.find? (·.letter == some letter)).map (·.action)

end OptionRules

inductive Step (σ : Type)
  | done (state : σ) : Step σ
  | wants (set : String → Option σ) : Step σ

section Reading

variable {σ : Type}

def accept (state : Option σ) : Except CommandLineError σ :=
  match state with
  | some s => .ok s
  | none => .error .usage

def readName (o : OptionRules σ) (s : σ) (name : String) (attached : Option String) :
    Except CommandLineError (Step σ) :=
  match o.named? name, attached with
  | some (.value set), some value => (accept (set value s)).map .done
  | some (.value set), none => .ok (.wants fun value => set value s)
  | some (.flag set), none => (accept (set s)).map .done
  | some (.stop error), none => .error error
  | _, _ => .error .usage

/-- The value right after a letter: an equals sign before it does not count. -/
def attachedValue : List Char → Option String
  | [] => none
  | '=' :: cs => some (String.ofList cs)
  | cs => some (String.ofList cs)

def readLetters (o : OptionRules σ) (s : σ) : List Char → Except CommandLineError (Step σ)
  | [] => .ok (.done s)
  | c :: cs =>
    match o.lettered? c with
    | some (.flag set) => do readLetters o (← accept (set s)) cs
    | some (.value set) =>
      match attachedValue cs with
      | some value => (accept (set value s)).map .done
      | none => .ok (.wants fun value => set value s)
    | some (.stop error) => .error error
    | none => .error .usage

def isOption (argument : String) : Bool := argument.startsWith "-" && argument != "-"

def readOption (o : OptionRules σ) (s : σ) (argument : String) :
    Except CommandLineError (Step σ) :=
  match argument.toList with
  | '-' :: '-' :: cs =>
    match Text.cutFirst? '=' cs with
    | some (name, value) => readName o s (String.ofList name) (some (String.ofList value))
    | none => readName o s (String.ofList cs) none
  | _ :: cs => readLetters o s cs
  | [] => .error .usage

/-- The arguments of a command; `operand` takes those that are no options. If the last option wants
a value, `wanted` takes it. -/
def readAll (o : OptionRules σ) (operand : String → σ → Option σ) :
    Option (String → Option σ) → σ → List String → Except CommandLineError σ
  | none, s, [] => .ok s
  | some _, _, [] => .error .usage
  | some set, _, a :: as =>
    if isOption a then .error .usage
    else do readAll o operand none (← accept (set a)) as
  | none, s, a :: as =>
    if a = "--" then accept (as.foldlM (fun s a => operand a s) s)
    else if isOption a then do
      match ← readOption o s a with
      | .done s => readAll o operand none s as
      | .wants set => readAll o operand (some set) s as
    else do readAll o operand none (← accept (operand a s)) as

end Reading

def once {α : Type} (old new : Option α) : Option (Option α) :=
  if old.isSome then none else new.map some

def raise (old : Bool) : Option Bool := if old then none else some true

end CommandLine

end InstrumentBus
