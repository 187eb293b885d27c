import InstrumentBus.Wire.Splitter

/-!
A splitter that keeps only a window of the stream: the bytes that were read and may still be part of
a frame, and those that are still to be read. Offsets count from the first byte in the window, which
moves on before each search for an event.

Where an offset would have to be less than nothing, or a byte is asked for that is not in the
window, there is no result.
-/

namespace InstrumentBus.Wire

open Text (Bytes)

inductive Call
  | extend (bs : Bytes) : Call
  | scan : Call
deriving DecidableEq

/-- The bytes at hand, and a splitter whose offsets count from the first of them; what it holds and
what it has not read is found in the bytes. -/
structure Window where
  bytes : Bytes
  splitter : Splitter
deriving DecidableEq

namespace Window

def ofLimit (limit : Nat) : Window := ⟨[], .ofLimit limit⟩

def extend (w : Window) (bs : Bytes) : Window := { w with bytes := w.bytes ++ bs }

def distance? (start stop : Nat) : Option Nat :=
  if start ≤ stop then some (stop - start) else none

def slice? (w : Window) (start stop : Nat) : Option Bytes :=
  if start ≤ stop ∧ stop ≤ w.bytes.length then some ((w.bytes.take stop).drop start) else none

def pending? (w : Window) : Option Bytes := w.slice? w.splitter.keepFrom w.splitter.position

/-- Drops the bytes before `start`. No tag is being read if the last one began before that, and then
it is of no account where. -/
def dropBefore? (w : Window) (start : Nat) : Option Window := do
  let position ← distance? start w.splitter.position
  let frameStart ← match w.splitter.frameStart with
    | none => some none
    | some st => (distance? start st).map some
  if start ≤ w.bytes.length then
    some
      { bytes := w.bytes.drop start
        splitter := { w.splitter with
          position := position
          tagStart := w.splitter.tagStart - start
          frameStart := frameStart } }
  else none

def compact? (w : Window) : Option Window :=
  if w.splitter.keepFrom = 0 then some w else w.dropBefore? w.splitter.keepFrom

def checkSize? (s : Splitter) : Option (Splitter × Option Event) :=
  match s.frameStart with
  | none => some (s, none)
  | some start =>
    (distance? start s.position).map fun size =>
      if size > s.limit then
        ({ s with frameStart := none, skipping := true }, some (.fault (.frameTooLarge s.limit)))
      else (s, none)

def step? (s : Splitter) (b : UInt8) : Option (Splitter × Option Event) :=
  match ({ s with position := s.position + 1 } : Splitter).lexByte s.position b with
  | (s, some event) => some (s, some event)
  | (s, none) => checkSize? s

def scanBytes? (s : Splitter) : Bytes → Option (Splitter × Option Event)
  | [] => some (s, none)
  | b :: bs =>
    (step? s b).bind fun
      | (s, some event) => some (s, some event)
      | (s, none) => scanBytes? s bs

def told? (w : Window) : Event → Option Event
  | .frame start stop _ => (w.slice? start stop).map (.frame start stop ·)
  | .fault e => some (.fault e)

def next? (w : Window) : Option (Window × Option Event) := do
  let w ← w.compact?
  let (s, event) ← scanBytes? w.splitter (w.bytes.drop w.splitter.position)
  let w : Window := ⟨w.bytes, s⟩
  match event with
  | none => some (w, none)
  | some event => (w.told? event).map fun event => (w, some event)

def answer? (w : Window) : Call → Option (Window × Option Event)
  | .extend bs => some (w.extend bs, none)
  | .scan => w.next?

def answers? (w : Window) : List Call → Option (Window × List Event)
  | [] => some (w, [])
  | call :: calls => do
    let (w, event) ← w.answer? call
    let (w, events) ← w.answers? calls
    some (w, event.toList ++ events)

end Window

namespace Splitter

def answer (s : Splitter) : Call → Splitter × Option Event
  | .extend bs => (s.extend bs, none)
  | .scan => s.next?

def answers (s : Splitter) : List Call → Splitter × List Event
  | [] => (s, [])
  | call :: calls =>
    let (s, event) := s.answer call
    let (s, events) := s.answers calls
    (s, event.toList ++ events)

end Splitter
end InstrumentBus.Wire
