import InstrumentBus.Decimal.Read
import InstrumentBus.Text.Blank
import InstrumentBus.Text.Quoted

/-!
What is logged, and how log lines look.
-/

namespace InstrumentBus

inductive LogFormat
  | pretty : LogFormat
  | compact : LogFormat
  | json : LogFormat
deriving DecidableEq

inductive LogLevel
  | error : LogLevel
  | warn : LogLevel
  | info : LogLevel
  | debug : LogLevel
  | trace : LogLevel
deriving DecidableEq

inductive LogError
  | unknownFormat (text : String) : LogError
  | unknownLevel (text : String) : LogError
deriving DecidableEq

def LogError.message : LogError → String
  | .unknownFormat text =>
    "unknown log format " ++ Text.quote text ++ " (expected pretty, compact or json)"
  | .unknownLevel text => "unknown log level " ++ Text.quote text

namespace LogFormat

def name : LogFormat → String
  | .pretty => "pretty"
  | .compact => "compact"
  | .json => "json"

def all : List LogFormat := [.pretty, .compact, .json]

def read (s : String) : Except LogError LogFormat :=
  let s := String.ofList ((Text.trimChars s.toList).map Char.toLower)
  match all.find? (·.name == s) with
  | some f => .ok f
  | none => .error (.unknownFormat s)

end LogFormat

namespace LogLevel

def name : LogLevel → String
  | .error => "ERROR"
  | .warn => "WARN"
  | .info => "INFO"
  | .debug => "DEBUG"
  | .trace => "TRACE"

/-- From the fewest lines to the most. -/
def all : List LogLevel := [.error, .warn, .info, .debug, .trace]

/-- A name in any case, or the place of the level among all, between blanks. -/
def read (s : String) : Except LogError LogLevel :=
  let t := Text.trim s
  let level := match Decimal.natural? UInt64.size t.toList with
    | some 0 => none
    | some (n + 1) => all[n]?
    | none => all.find? fun l => Text.eqIgnoringCase l.name t
  match level with
  | some l => .ok l
  | none => .error (.unknownLevel s)

end LogLevel

structure LogSetup where
  level : LogLevel
  format : LogFormat
  location : Bool
  target : Bool
  timestamp : Bool
  spans : Bool
deriving DecidableEq

namespace LogSetup

def standard : LogSetup := ⟨.info, .compact, false, true, true, false⟩

def debugging : LogSetup := { standard with level := .debug, location := true, timestamp := false }

def daemon : LogSetup := { standard with format := .json, location := true, spans := true }

end LogSetup

end InstrumentBus
