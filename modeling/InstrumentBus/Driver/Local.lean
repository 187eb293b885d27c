import InstrumentBus.Broker.Error
import InstrumentBus.Camera

/-!
A driver inside the broker, as its backend runs it: it can be started when it does not run, and a
stopped one takes no messages.
-/

namespace InstrumentBus

structure LocalDriver where
  running : Option Camera
deriving DecidableEq

namespace LocalDriver

def start (d : LocalDriver) (now : Time.Millis) : Except BrokerError LocalDriver :=
  if d.running.isSome then .error (.alreadyLoaded Camera.id) else .ok ⟨some (.start now)⟩

def stop (_ : LocalDriver) : LocalDriver := ⟨none⟩

def handle (d : LocalDriver) (now : Time.Millis) (m : Message) : LocalDriver × List Message :=
  match d.running with
  | none => (d, [])
  | some c =>
    let (c, sent) := c.handle now m
    (⟨some c⟩, sent)

def tick (d : LocalDriver) (now : Time.Millis) : LocalDriver × List Message :=
  match d.running with
  | none => (d, [])
  | some c =>
    let (c, sent) := c.tick now
    (⟨some c⟩, sent)

end LocalDriver

end InstrumentBus
