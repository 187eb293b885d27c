import InstrumentBus.Control.Basic
import InstrumentBus.Time.Timestamp

/-!
Responses as text for people.
-/

namespace InstrumentBus.Control

def twoDigits (n : Nat) : String := String.ofList (Time.padded 2 n)

def writeUptime (seconds : Nat) : String :=
  let hours := seconds / 3600
  let minutes := seconds / 60 % 60
  let rest := seconds % 60
  if 0 < hours then toString hours ++ "h" ++ twoDigits minutes ++ "m" ++ twoDigits rest ++ "s"
  else if 0 < minutes then toString minutes ++ "m" ++ twoDigits rest ++ "s"
  else toString rest ++ "s"

def writeMoment (t : Time.Instant) : String :=
  String.ofList (Time.writeDate t.date ++ ' ' :: Time.writeClock t.clock)

def StatusInfo.report (i : StatusInfo) : String :=
  "port:     " ++ toString i.port.toNat ++ "\n" ++
    "uptime:   " ++ writeUptime i.uptimeSeconds.toNat ++ " (since " ++ writeMoment i.startedAt ++
      ")\n" ++
    "clients:  " ++ toString i.clients.toNat ++ "\n" ++
    "drivers:  " ++ toString i.backends.toNat ++ "\n" ++
    "devices:  " ++ toString i.devices.toNat ++ "\n"

def DeviceInfo.report (i : DeviceInfo) : String :=
  "[" ++ toString i.id.toNat ++ "] " ++ i.kind.name ++ " " ++ ", ".intercalate i.identifiers ++
    "\n" ++ String.join (i.devices.map fun name => "    " ++ name ++ "\n")

def reportDevices (infos : List DeviceInfo) : String :=
  if infos.isEmpty then "no drivers loaded\n" else String.join (infos.map (·.report))

end InstrumentBus.Control
