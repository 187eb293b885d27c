import InstrumentBus.Client.Assignment
import InstrumentBus.CommandLine.Grammar
import InstrumentBus.Driver.Spec
import InstrumentBus.Network.Address
import InstrumentBus.Settings.Basic

/-!
The commands of the program with their options and operands.
-/

namespace InstrumentBus

structure Remote where
  host : String
  port : UInt16
deriving DecidableEq

inductive ConfigAction
  | dump : ConfigAction
  | validate : ConfigAction
  | path : ConfigAction
deriving DecidableEq

namespace ConfigAction

def name : ConfigAction → String
  | .dump => "dump"
  | .validate => "validate"
  | .path => "path"

def all : List ConfigAction := [.dump, .validate, .path]

end ConfigAction

structure ServeOptions where
  listen : Option Network.Address
  port : Option UInt16
  drivers : List DriverSpec
deriving DecidableEq

/-- A property is only watched together with its device. -/
structure WatchOptions where
  remote : Remote
  device : Option String
  property : Option String
  blobs : Bool
deriving DecidableEq

/-- `wait` is how many seconds the property may take to become known. -/
structure SetOptions where
  remote : Remote
  wait : Nat
  assignments : List Assignment
deriving DecidableEq

inductive Command
  | serve (options : ServeOptions) : Command
  | status : Command
  | devices : Command
  | load (driver : DriverSpec) : Command
  | unload (identifier : String) : Command
  | stop : Command
  | watch (options : WatchOptions) : Command
  | set (options : SetOptions) : Command
  | config (action : ConfigAction) : Command
deriving DecidableEq

/-- The options that stand before the command. `timeout` is how many seconds a control request may
take. -/
structure GlobalOptions where
  config : Option String
  debug : Bool
  socket : Option String
  timeout : Option Nat
deriving DecidableEq

structure Invocation where
  options : GlobalOptions
  command : Command
deriving DecidableEq

namespace CommandLine

def count? (s : String) : Option Nat := Decimal.natural? UInt64.size s.toList

/-- A number with an optional sign, which minus is only for zero. -/
def port? (s : String) : Option UInt16 :=
  let (negative, digits) := Decimal.takeSign s.toList
  if digits.head?.any Char.isDigit then do
    let n ← Decimal.natural? UInt16.size digits
    if negative ∧ n ≠ 0 then none else some n.toUInt16
  else none

def path? (s : String) : Option String := if s.isEmpty then none else some s

def serveRules : OptionRules ServeOptions :=
  [⟨"listen", none, .value fun v s => do
      some { s with listen := ← once s.listen (Network.Address.read? v) }⟩,
    ⟨"port", some 'p', .value fun v s => do some { s with port := ← once s.port (port? v) }⟩,
    ⟨"driver", some 'd', .value fun v s => do
      some { s with drivers := s.drivers ++ [← (DriverSpec.read v).toOption] }⟩,
    helpRule ServeOptions]

def noOperand {σ : Type} : String → σ → Option σ := fun _ _ => none

def readServe (arguments : List String) : Except CommandLineError Command := do
  .ok (.serve (← readAll serveRules noOperand none ⟨none, none, []⟩ arguments))

def readOperands (checks : List (String → Bool)) (arguments : List String) :
    Except CommandLineError (List String) := do
  let operand (a : String) (s : List String) : Option (List String) :=
    if (checks[s.length]?).any (· a) then some (s ++ [a]) else none
  let operands ← readAll [helpRule (List String)] operand none [] arguments
  if operands.length = checks.length then .ok operands else .error .usage

def readPlain (command : Command) (arguments : List String) : Except CommandLineError Command :=
  (readOperands [] arguments).map fun _ => command

def isKind (s : String) : Bool := (DriverKind.read s).toOption.isSome

def readLoad (arguments : List String) : Except CommandLineError Command := do
  match ← readOperands [isKind, fun _ => true] arguments with
  | [kind, target] =>
    match DriverKind.read kind with
    | .ok kind => .ok (.load ⟨kind, target⟩)
    | .error _ => .error .usage
  | _ => .error .usage

def readUnload (arguments : List String) : Except CommandLineError Command := do
  match ← readOperands [fun _ => true] arguments with
  | [identifier] => .ok (.unload identifier)
  | _ => .error .usage

structure RemoteDraft where
  host : Option String
  port : Option UInt16

def RemoteDraft.toRemote (d : RemoteDraft) : Remote :=
  ⟨d.host.getD "localhost", d.port.getD defaultPort⟩

def remoteRules {σ : Type} (get : σ → RemoteDraft) (put : RemoteDraft → σ → σ) : OptionRules σ :=
  [⟨"host", none, .value fun v s => do
      some (put { get s with host := ← once (get s).host (some v) } s)⟩,
    ⟨"port", some 'p', .value fun v s => do
      some (put { get s with port := ← once (get s).port (port? v) } s)⟩]

structure WatchDraft where
  remote : RemoteDraft
  device : Option String
  property : Option String
  blobs : Bool

def watchRules : OptionRules WatchDraft :=
  remoteRules (·.remote) (fun r s => { s with remote := r }) ++
    [⟨"device", none, .value fun v s => do
        some { s with device := ← once s.device (some v) }⟩,
      ⟨"property", none, .value fun v s => do
        some { s with property := ← once s.property (some v) }⟩,
      ⟨"blobs", none, .flag fun s => do some { s with blobs := ← raise s.blobs }⟩,
      helpRule WatchDraft]

def readWatch (arguments : List String) : Except CommandLineError Command := do
  let d ← readAll watchRules noOperand none ⟨⟨none, none⟩, none, none, false⟩ arguments
  if d.property.isSome ∧ d.device.isNone then .error .usage
  else .ok (.watch ⟨d.remote.toRemote, d.device, d.property, d.blobs⟩)

structure SetDraft where
  remote : RemoteDraft
  wait : Option Nat
  assignments : List Assignment

def setRules : OptionRules SetDraft :=
  remoteRules (·.remote) (fun r s => { s with remote := r }) ++
    [⟨"wait", none, .value fun v s => do some { s with wait := ← once s.wait (count? v) }⟩,
      helpRule SetDraft]

def addAssignment (argument : String) (s : SetDraft) : Option SetDraft := do
  some { s with assignments := s.assignments ++ [← (Assignment.read argument).toOption] }

def readSet (arguments : List String) : Except CommandLineError Command := do
  let d ← readAll setRules addAssignment none ⟨⟨none, none⟩, none, []⟩ arguments
  if d.assignments.isEmpty then .error .usage
  else .ok (.set ⟨d.remote.toRemote, d.wait.getD 5, d.assignments⟩)

structure Topic where
  word : String
  subwords : List String

def configWords : List String := ConfigAction.all.map (·.name) ++ ["help"]

def topics : List Topic :=
  (["serve", "status", "devices", "load", "unload", "stop", "watch", "set", "help"].map (⟨·, []⟩)) ++
    [⟨"config", configWords⟩]

def readHelp : List String → CommandLineError
  | [] => .help
  | [word] => if topics.any (·.word == word) then .help else .usage
  | [word, next] =>
    if topics.any fun t => t.word == word && t.subwords.contains next then .help else .usage
  | _ => .usage

def readConfigHelp : List String → CommandLineError
  | [] => .help
  | [word] => if configWords.contains word then .help else .usage
  | _ => .usage

def readConfigOption (argument : String) : CommandLineError :=
  match readOption [helpRule Unit] () argument with
  | .error error => error
  | .ok _ => .usage

def readConfig : List String → Except CommandLineError Command
  | [] => .error .usage
  | word :: arguments =>
    if word = "help" then .error (readConfigHelp arguments)
    else if isOption word then .error (readConfigOption word)
    else match ConfigAction.all.find? (·.name == word) with
      | some action => readPlain (.config action) arguments
      | none => .error .usage

def readCommand (word : String) (arguments : List String) : Except CommandLineError Command :=
  match word with
  | "serve" => readServe arguments
  | "status" => readPlain .status arguments
  | "devices" => readPlain .devices arguments
  | "load" => readLoad arguments
  | "unload" => readUnload arguments
  | "stop" => readPlain .stop arguments
  | "watch" => readWatch arguments
  | "set" => readSet arguments
  | "config" => readConfig arguments
  | "help" => .error (readHelp arguments)
  | _ => .error .usage

def globalRules : OptionRules GlobalOptions :=
  [⟨"config", some 'c', .value fun v s => do
      some { s with config := ← once s.config (path? v) }⟩,
    ⟨"debug", some 'v', .flag fun s => do some { s with debug := ← raise s.debug }⟩,
    ⟨"socket", none, .value fun v s => do some { s with socket := ← once s.socket (path? v) }⟩,
    ⟨"timeout", none, .value fun v s => do
      some { s with timeout := ← once s.timeout (count? v) }⟩,
    helpRule GlobalOptions, versionRule GlobalOptions]

/-- Options, then a command. The value of an option in an argument of its own is only checked when
the next option comes or the command was read; `state` has none if it was refused. -/
def readGlobal : Option GlobalOptions → List String → Except CommandLineError Invocation
  | _, [] => .error .usage
  | state, a :: as =>
    if isOption a then do
      match ← readOption globalRules (← accept state) a with
      | .done s => readGlobal (some s) as
      | .wants set =>
        match as with
        | [] => .error .usage
        | value :: as => if isOption value then .error .usage else readGlobal (set value) as
    else do
      let command ← readCommand a as
      .ok ⟨← accept state, command⟩

def read (arguments : List String) : Except CommandLineError Invocation :=
  readGlobal (some ⟨none, false, none, none⟩) arguments

end CommandLine

end InstrumentBus
