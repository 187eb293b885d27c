import InstrumentBus.Message.Read
import InstrumentBus.Wire.Splitter

/-!
Messages from a stream of bytes that comes in chunks.
-/

namespace InstrumentBus.Wire

open Text (Bytes)

def defaultLimit : Nat := 64 * 1024 * 1024

abbrev Arrival := Except WireError Message

/-- What an event tells a reader of messages; frames of unknown tags tell nothing. -/
def Event.arrival? : Event → Option Arrival
  | .fault e => some (.error e)
  | .frame _ _ bs =>
    match Message.ofFrame? bs with
    | .ok (some m) => some (.ok m)
    | .ok none => none
    | .error e => some (.error e)

structure Decoder where
  splitter : Splitter
deriving DecidableEq

namespace Decoder

def ofLimit (limit : Nat) : Decoder := ⟨.ofLimit limit⟩

def feed (d : Decoder) (bs : Bytes) : Decoder := ⟨d.splitter.extend bs⟩

def hasPartialFrame (d : Decoder) : Bool := d.splitter.pending.any (!isGap ·)

def nextFrom : Nat → Splitter → Splitter × Option Arrival
  | 0, s => (s, none)
  | fuel + 1, s =>
    match s.next? with
    | (s, none) => (s, none)
    | (s, some event) =>
      match event.arrival? with
      | some arrival => (s, some arrival)
      | none => nextFrom fuel s

def next? (d : Decoder) : Decoder × Option Arrival :=
  let (s, arrival) := nextFrom d.splitter.bound d.splitter
  (⟨s⟩, arrival)

def drain (d : Decoder) : Decoder × List Arrival :=
  let (s, events) := d.splitter.drain
  (⟨s⟩, events.filterMap Event.arrival?)

def feedAll (d : Decoder) (chunks : List Bytes) : Decoder × List (List Arrival) :=
  chunks.foldl
    (fun (d, out) chunk =>
      let (d, arrivals) := (d.feed chunk).drain
      (d, out ++ [arrivals]))
    (d, [])

end Decoder
end InstrumentBus.Wire
