import InstrumentBus.Device

/-!
A camera without hardware: exposures count down and end with a picture, and the cooler moves
towards its set point.

A camera answers each message, and each tick of the clock, with its next state and the messages
that it sends.
-/

namespace InstrumentBus

structure Exposure where
  started : Time.Millis
  seconds : Float
deriving DecidableEq

structure Camera where
  device : Device
  exposure : Option Exposure
  setPoint : Option Float
  temperature : Float
  frames : Nat
deriving DecidableEq

namespace Camera

def id : String := "demo_camera"

def deviceName : String := "Demo Camera"

def connectionName : String := "CONNECTION"
def exposureName : String := "CCD_EXPOSURE"
def exposureElement : String := "CCD_EXPOSURE_VALUE"
def abortName : String := "CCD_ABORT_EXPOSURE"
def abortElement : String := "ABORT"
def temperatureName : String := "CCD_TEMPERATURE"
def temperatureElement : String := "CCD_TEMPERATURE_VALUE"
def frameName : String := "CCD1"

def ambient : Float := 20

def coolingStep : Float := 0.5

/-- Temperatures that are closer than this are the same. -/
def tolerance : Float := Float.ofScientific 2220446049250313 true 31

def draft (name label group : String) (kind : Kind) (elements : List Element) : Property.Draft :=
  { Property.Draft.ofKind deviceName name kind with
    label := some label
    group := some group
    elements := elements }

def mainGroup : String := "Main Control"

def connectionDraft : Property.Draft :=
  draft connectionName "Connection" mainGroup .switch
    [.named "CONNECT" "Connect" (.switch .off), .named "DISCONNECT" "Disconnect" (.switch .on)]

def exposureRange : NumberRange := ⟨"%5.2f", 0.001, 3600, 1⟩

def exposureDraft : Property.Draft :=
  draft exposureName "Expose" mainGroup .number
    [.named exposureElement "Duration (s)" (.number ⟨1, exposureRange⟩)]

def abortDraft : Property.Draft :=
  { draft abortName "Abort" mainGroup .switch [.named abortElement "Abort" (.switch .off)] with
    rule := .atMostOne }

def temperatureRange : NumberRange := ⟨"%5.2f", -50, 50, 0.5⟩

def temperatureDraft : Property.Draft :=
  { draft temperatureName "Temperature" mainGroup .number
      [.named temperatureElement "Temperature (C)" (.number ⟨ambient, temperatureRange⟩)] with
    timeout := 0 }

def frameDraft : Property.Draft :=
  { draft frameName "Image Data" "Image Info" .blob [.named frameName "Image" (.blob .empty)] with
    permission := .readOnly }

def drafts : List Property.Draft :=
  [connectionDraft, exposureDraft, abortDraft, temperatureDraft, frameDraft]

def start (now : Time.Millis) : Camera where
  device := ⟨deviceName, drafts.filterMap fun d => (d.build now).toOption⟩
  exposure := none
  setPoint := none
  temperature := ambient
  frames := 0

def mapProperty (c : Camera) (name : String) (f : Property → Property) : Camera :=
  { c with
    device :=
      { c.device with
        properties := c.device.properties.map fun p => if p.name = name then f p else p } }

def setState (c : Camera) (now : Time.Millis) (name : String) (state : State) : Camera :=
  c.mapProperty name (·.setState now state)

def setValue (c : Camera) (now : Time.Millis) (name element : String) (value : Value) : Camera :=
  c.mapProperty name fun p => ((p.setValue now element value).toOption).getD p

def element? (c : Camera) (name element : String) : Option Element :=
  (c.device.property? name).bind (·.element? element)

def quantity? (c : Camera) (name element : String) : Option Quantity :=
  match c.element? name element with
  | some ⟨_, _, .number q⟩ => some q
  | _ => none

def setNumber (c : Camera) (now : Time.Millis) (name element : String) (x : Float) : Camera :=
  match c.quantity? name element with
  | some q => c.setValue now name element (.number { q with value := x })
  | none => c

def report (c : Camera) (name : String) (elements : List String) : List Message :=
  ((c.device.property? name).map fun p => .update (p.toUpdateOf elements)).toList

def notice (now : Time.Millis) (text : String) : Message :=
  .notify ⟨some deviceName, some (Property.timestampAt now), text⟩

def isConnected (c : Camera) : Bool :=
  ((c.element? connectionName "CONNECT").bind (·.switch?)).any (·.isOn)

def reject (c : Camera) (now : Time.Millis) (name reason : String) : Camera × List Message :=
  let c := c.setState now name .alert
  (c, c.report name [] ++ [notice now (name ++ ": " ++ reason)])

/-- Without a connection there is neither an exposure nor a set point. -/
def connect (c : Camera) (now : Time.Millis) (changed : List String) : Camera × List Message :=
  let c := if c.isConnected then c else { c with exposure := none, setPoint := none }
  let c := c.setState now connectionName .ok
  (c, c.report connectionName changed)

def expose (c : Camera) (now : Time.Millis) (changed : List String) : Camera × List Message :=
  match c.quantity? exposureName exposureElement with
  | none => (c, [])
  | some q =>
    let c := { c with exposure := some ⟨now, q.value⟩ }
    let c := c.setState now frameName .busy
    let frame := c.report frameName []
    let c := c.setState now exposureName .busy
    (c, frame ++ c.report exposureName changed)

def dropExposure (c : Camera) (now : Time.Millis) : Camera × List Message :=
  if c.exposure.isNone then (c, [])
  else
    let c := { c with exposure := none }
    let c := (c.setNumber now exposureName exposureElement 0).setState now exposureName .alert
    let exposure := c.report exposureName [exposureElement]
    let c := c.setState now frameName .idle
    (c, exposure ++ c.report frameName [] ++ [notice now "Exposure aborted"])

/-- The abort switch springs back. -/
def abort (c : Camera) (now : Time.Millis) : Camera × List Message :=
  let (c, dropped) := c.dropExposure now
  let c := (c.setValue now abortName abortElement (.switch .off)).setState now abortName .ok
  (c, dropped ++ c.report abortName [abortElement])

/-- The number asked for becomes the set point; the element goes on showing the temperature. -/
def steer (c : Camera) (now : Time.Millis) : Camera × List Message :=
  match c.quantity? temperatureName temperatureElement with
  | none => (c, [])
  | some q =>
    let target := q.value
    let c := c.setNumber now temperatureName temperatureElement c.temperature
    if (target - c.temperature).abs < tolerance then
      let c := c.setState now temperatureName .ok
      (c, c.report temperatureName [])
    else
      let c := { c with setPoint := some target }.setState now temperatureName .busy
      (c, c.report temperatureName [])

def follow (c : Camera) (now : Time.Millis) (name : String) (changed : List String) :
    Camera × List Message :=
  if name = connectionName then c.connect now changed
  else if name = exposureName then c.expose now changed
  else if name = abortName then c.abort now
  else if name = temperatureName then c.steer now
  else (c, [])

/-- Only the connection can be changed while there is none. -/
def change (c : Camera) (now : Time.Millis) (r : ChangeRequest) : Camera × List Message :=
  if r.name ≠ connectionName ∧ ¬ c.isConnected then
    c.reject now r.name "camera is not connected"
  else match c.device.applyChange now r with
    | .error e => c.reject now r.name e.message
    | .ok (device, changed) => { c with device := device }.follow now r.name changed

def handle (c : Camera) (now : Time.Millis) : Message → Camera × List Message
  | .discover r => (c, (c.device.discover r).map .define)
  | .change r => if r.device = deviceName then c.change now r else (c, [])
  | _ => (c, [])

def frameWidth : Nat := 64
def frameHeight : Nat := 48

def picture (sequence : Nat) : Blob :=
  let data := (List.range (frameWidth * frameHeight)).map fun i =>
    (i % frameWidth + i / frameWidth + sequence).toUInt8
  ⟨".raw", data.length, data⟩

def finish (c : Camera) (now : Time.Millis) : Camera × List Message :=
  let c := { c with exposure := none, frames := c.frames + 1 }
  let c := (c.setValue now frameName frameName (.blob (picture c.frames))).setState now frameName .ok
  let frame := c.report frameName [frameName]
  let c := c.setState now exposureName .ok
  (c, frame ++ c.report exposureName [exposureElement])

def remaining (e : Exposure) (now : Time.Millis) : Float :=
  let left := e.seconds - Float.ofInt (now - e.started) / 1000
  if left > 0 then left else 0

/-- Shows what is left of an exposure. One whose property is no longer busy is given up. -/
def progressExposure (c : Camera) (now : Time.Millis) : Camera × List Message :=
  match c.exposure with
  | none => (c, [])
  | some e =>
    if (c.device.property? exposureName).map (·.state) ≠ some .busy then
      ({ c with exposure := none }, [])
    else
      let left := remaining e now
      let c := c.setNumber now exposureName exposureElement left
      if left > 0 then (c, c.report exposureName [exposureElement]) else c.finish now

def approach (temperature target : Float) : Float :=
  let delta := target - temperature
  if delta.abs ≤ coolingStep then target
  else if delta < 0 then temperature - coolingStep
  else temperature + coolingStep

def progressCooler (c : Camera) (now : Time.Millis) : Camera × List Message :=
  match c.setPoint with
  | none => (c, [])
  | some target =>
    let isReached := (target - c.temperature).abs ≤ coolingStep
    let c := { c with temperature := approach c.temperature target }
    let c := c.setNumber now temperatureName temperatureElement c.temperature
    let c :=
      if isReached then { c with setPoint := none }.setState now temperatureName .ok else c
    (c, c.report temperatureName [temperatureElement])

def tick (c : Camera) (now : Time.Millis) : Camera × List Message :=
  let (device, overdue) := c.device.expire now
  let (c, exposure) := { c with device := device }.progressExposure now
  let (c, cooler) := c.progressCooler now
  (c, overdue.map .update ++ exposure ++ cooler)

end Camera

end InstrumentBus
