import InstrumentBus.Control.Record
import InstrumentBus.Json.Read
import InstrumentBus.Json.Write
import InstrumentBus.Wire.Stream

/-!
Control messages over a connection: the length of the text in four bytes, highest first, and the
text.
-/

namespace InstrumentBus.Control

open Text (Bytes)

def maxSize : Nat := 1048576

def writeLength (n : Nat) : Bytes :=
  [(n / 0x1000000).toUInt8, (n / 0x10000).toUInt8, (n / 0x100).toUInt8, n.toUInt8]

def readLength (bs : Bytes) : Nat := bs.foldl (fun n b => n * 0x100 + b.toNat) 0

def maxLength : Nat := 0xFFFFFFFF

variable {α : Type} [Payload α]

def encode (e : Envelope α) : Except WireError Bytes :=
  let text := Text.utf8 e.toJson.write
  let size := min text.length maxLength
  if size ≤ maxSize then .ok (writeLength size ++ text)
  else .error (.messageTooLarge size maxSize)

def checkLength (n : Nat) : Except WireError Nat :=
  if maxSize < n then .error (.messageTooLarge n maxSize)
  else if n = 0 then .error .emptyMessage
  else .ok n

def readText (text : Bytes) : Except WireError (Envelope α) :=
  match (Json.read? text).bind Envelope.ofJson? with
  | some e => .ok e
  | none => .error .serialization

def decode (bs : Bytes) : Except WireError (Envelope α) :=
  if bs.length < 4 then .error (.incomplete 4 bs.length)
  else do
    let n ← checkLength (readLength (bs.take 4))
    let rest := bs.drop 4
    if rest.length < n then .error (.incomplete (4 + n) bs.length)
    else readText (rest.take n)

def shortfall (ending : Wire.Ending) (operation : String) : WireError :=
  match ending with
  | .silent => .timeout operation
  | .closed => .connection "unexpected end of stream"
  | .failed => .connection "the connection failed"

/-- Reads a message from a connection, first its length and then its text; there is none if the
connection is closed within or before the length. The result has what is still to come. -/
def read (s : Wire.Source) : Except WireError (Option (Envelope α × Wire.Source)) :=
  match Wire.takeExactly? 4 s.chunks with
  | none =>
    match s.ending with
    | .closed => .ok none
    | ending => .error (shortfall ending "read control message length")
  | some (length, chunks) => do
    let n ← checkLength (readLength length)
    match Wire.takeExactly? n chunks with
    | none => .error (shortfall s.ending "read control message payload")
    | some (text, chunks) => do
      let e ← readText text
      .ok (some (e, { s with chunks := chunks }))

def readAllOf : Nat → Wire.Source → List (Envelope α) × Except WireError Unit
  | 0, _ => ([], .ok ())
  | fuel + 1, s =>
    match read s with
    | .ok none => ([], .ok ())
    | .ok (some (e, s)) =>
      let (es, last) := readAllOf fuel s
      (e :: es, last)
    | .error err => ([], .error err)

def readAll (s : Wire.Source) : List (Envelope α) × Except WireError Unit :=
  readAllOf (s.chunks.flatten.length + 1) s

/-- Writes a message. A connection that takes no more bytes either fails or never answers, by
`stalls`. -/
def write (e : Envelope α) (sink : Wire.Sink) (stalls : Bool) :
    Wire.Sink × Except WireError Unit :=
  match encode e with
  | .error err => (sink, .error err)
  | .ok bs =>
    let (sink, sent) := sink.send bs
    (sink, if stalls then sent.mapError fun _ => .timeout "write control message" else sent)

end InstrumentBus.Control
