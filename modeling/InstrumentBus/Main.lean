import InstrumentBus.Client.Error
import InstrumentBus.CommandLine.Command
import InstrumentBus.Settings.Document

/-!
The program. It reads its command line and shows and checks settings; the commands that talk to
other programs are read and checked too, but it opens no connections to carry them out.
-/

namespace InstrumentBus.Program

def name : String := "instrument-bus"

def usage : String :=
  "usage: " ++ name ++ " [-c FILE] [-v] [--socket PATH] [--timeout SECONDS] COMMAND\n\n" ++
    "commands: serve, status, devices, load, unload, stop, watch, set, config, help"

def usualPath : IO String := do
  let folder ← match ← IO.getEnv "XDG_CONFIG_HOME" with
    | some folder => pure folder
    | none => pure (((← IO.getEnv "HOME").getD ".") ++ "/.config")
  return folder ++ "/" ++ name ++ "/config.toml"

/-- The settings in a file, or the standard ones if no file is named and the usual one cannot be
read. -/
def loadSettings (path : Option String) : IO (Except SettingsError Settings) := do
  let read (path : String) : IO (Except SettingsError Settings) := do
    return Settings.read (← IO.FS.readBinFile path).data.toList
  match path with
  | some path => read path
  | none =>
    try read (← usualPath)
    catch _ => return .ok .standard

def fail (message : String) : IO UInt32 := do
  IO.eprintln ("error: " ++ message)
  return 1

def dump (s : Settings) : IO UInt32 := do
  IO.println ("# config.toml (" ++ (← usualPath) ++ ")")
  IO.println s.write
  return 0

def validate (s : Settings) : IO UInt32 := do
  match s.check with
  | .error e => fail (ClientError.config e.message).message
  | .ok () =>
    for d in s.drivers do
      IO.println ("driver " ++ d.write)
    IO.println "Configuration is valid."
    return 0

def run (command : Command) (s : Settings) : IO UInt32 :=
  match command with
  | .config .dump => dump s
  | .config .validate => validate s
  | .config .path => do
    IO.println ("config: " ++ (← usualPath))
    return 0
  | _ => fail (ClientError.connection "no connection to a broker").message

def start (arguments : List String) : IO UInt32 := do
  match CommandLine.read arguments with
  | .error .help =>
    IO.println usage
    return 0
  | .error .version =>
    IO.println name
    return 0
  | .error .usage =>
    IO.eprintln usage
    return 2
  | .ok invocation =>
    match ← loadSettings invocation.options.config with
    | .ok settings => run invocation.command settings
    | .error e => fail e.message

end InstrumentBus.Program

def main (arguments : List String) : IO UInt32 := InstrumentBus.Program.start arguments
