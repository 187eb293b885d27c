import InstrumentBus.Message.Write
import InstrumentBus.Wire.Decoder

/-!
Messages over a connection: what a peer sends comes in chunks and ends or fails, and what is sent
to it may be cut off.
-/

namespace InstrumentBus.Wire

open Text (Bytes)

/-- What a connection does when it has no more bytes: it is closed, it fails, or it stays silent. -/
inductive Ending
  | closed : Ending
  | failed : Ending
  | silent : Ending
deriving DecidableEq

structure Source where
  chunks : List Bytes
  ending : Ending
deriving DecidableEq

/-- Fills a buffer of `n` bytes chunk by chunk: the bytes, and the chunks that are left. There is
none if the chunks hold fewer. -/
def takeExactly? (n : Nat) : List Bytes → Option (Bytes × List Bytes)
  | [] => if n = 0 then some ([], []) else none
  | chunk :: chunks =>
    if n ≤ chunk.length then some (chunk.take n, chunk.drop n :: chunks)
    else (takeExactly? (n - chunk.length) chunks).map fun (bs, chunks) => (chunk ++ bs, chunks)

structure Reader where
  source : Source
  decoder : Decoder
deriving DecidableEq

inductive Reading
  | arrival : Arrival → Reading
  | finished : Reading
  | failed : Reading

namespace Reader

def nextOf (ending : Ending) : List Bytes → Decoder → Reader × Reading
  | chunks, d =>
    match d.next? with
    | (d, some arrival) => (⟨⟨chunks, ending⟩, d⟩, .arrival arrival)
    | (d, none) =>
      match chunks with
      | [] => (⟨⟨[], ending⟩, d⟩, if ending = .closed then .finished else .failed)
      | chunk :: chunks => nextOf ending chunks (d.feed chunk)

def next (r : Reader) : Reader × Reading := nextOf r.source.ending r.source.chunks r.decoder

def readAll (r : Reader) : List Arrival × Reading :=
  let (_, arrivals) := r.decoder.feedAll ([] :: r.source.chunks)
  (arrivals.flatten, if r.source.ending = .closed then .finished else .failed)

end Reader

structure Sink where
  sent : Bytes
  room : Option Nat
deriving DecidableEq

def Sink.send (s : Sink) (bs : Bytes) : Sink × Except WireError Unit :=
  match s.room with
  | none => ({ s with sent := s.sent ++ bs }, .ok ())
  | some room =>
    (⟨s.sent ++ bs.take room, some (room - bs.length)⟩,
      if bs.length ≤ room then .ok () else .error (.connection "no more bytes are taken"))

def Sink.sendMessage (s : Sink) (m : Message) : Sink × Except WireError Unit :=
  s.send m.toBytes

end InstrumentBus.Wire
