import InstrumentBus.Text.Utf8
import InstrumentBus.Wire.Error

/-!
Where frames end in a stream of bytes. A frame is one outermost element; nothing announces its
length and nothing encloses it, so tags, quotes and nesting are followed byte by byte.

Text outside any element is told once per run and skipped. An end tag that does not match discards
the frame. A tag that can only be outermost, inside an open frame, cuts that frame short and starts
the next. A frame beyond the limit is told and then skipped up to its end.
-/

namespace InstrumentBus.Wire

open Text (Bytes)

def vectorFragments : List String :=
  ["def", "set", "new"].flatMap fun verb =>
    Kind.all.map fun kind => verb ++ kind.fragment ++ "Vector"

def outermostTags : List String :=
  ["getProperties", "delProperty", "message", "enableBLOB"] ++ vectorFragments

def isNameStart (b : UInt8) : Bool :=
  (65 ≤ b && b ≤ 90) || (97 ≤ b && b ≤ 122) || b == 95 || b == 58 || 128 ≤ b

def isNameByte (b : UInt8) : Bool :=
  isNameStart b || (48 ≤ b && b ≤ 57) || b == 45 || b == 46

def isGap (b : UInt8) : Bool := b == 32 || b == 9 || b == 10 || b == 12 || b == 13

/-- What the bytes read so far are in the middle of. Names are spelled backwards. -/
inductive Lex
  | text : Lex
  | open : Lex
  | bang (seen : Bytes) : Lex
  | comment (dashes : Nat) : Lex
  | data (brackets : Nat) : Lex
  | declaration : Lex
  | instruction (question : Bool) : Lex
  | startName (name : Bytes) : Lex
  | attributes (quote : Option UInt8) (slash : Bool) : Lex
  | endName (name : Bytes) : Lex
  | endTail (name : Bytes) : Lex
deriving DecidableEq

inductive Event
  | frame (start stop : Nat) (bytes : Bytes) : Event
  | fault : WireError → Event
deriving DecidableEq

/-- Offsets count from the start of the stream. `position` is how many bytes were read, `tagStart`
where the tag began that is being read, `frameStart` where the open frame began. `opened` are the
names of the open elements, innermost first. `held` are the bytes up to `position` that may still
be part of a frame, last one first. -/
structure Splitter where
  limit : Nat
  position : Nat
  lex : Lex
  tagStart : Nat
  frameStart : Option Nat
  opened : List String
  inGarbage : Bool
  skipping : Bool
  held : Bytes
  unread : Bytes
deriving DecidableEq

namespace Splitter

def ofLimit (limit : Nat) : Splitter where
  limit := limit
  position := 0
  lex := .text
  tagStart := 0
  frameStart := none
  opened := []
  inGarbage := false
  skipping := false
  held := []
  unread := []

def extend (s : Splitter) (bs : Bytes) : Splitter := { s with unread := s.unread ++ bs }

/-- Where the bytes begin that may still be part of a frame. -/
def keepFrom (s : Splitter) : Nat :=
  match s.frameStart with
  | some start => start
  | none => if s.lex = .text then s.position else min s.tagStart s.position

def pending (s : Splitter) : Bytes := s.held.reverse

def stray (fault : FrameFault) : Event := .fault (.malformed "stream" fault)

def spell (name : Bytes) : String := Text.latin1 name.reverse

/-- Opens the element whose start tag has the given name. A tag that can only be outermost drops
all that is open. -/
def openElement (s : Splitter) (name : String) : Splitter × Option Event :=
  let cuts := !s.opened.isEmpty && outermostTags.contains name
  let event :=
    if cuts && !s.skipping then
      s.opened.getLast?.map fun tag => .fault (.malformed tag (.truncated name))
    else none
  let s := if cuts then { s with opened := [], skipping := false } else s
  let s :=
    if s.opened.isEmpty && !s.skipping then { s with frameStart := some s.tagStart } else s
  ({ s with opened := name :: s.opened }, event)

def finishFrame (s : Splitter) : Splitter × Option Event :=
  ({ s with opened := [], frameStart := none, skipping := false },
    if s.skipping then none
    else s.frameStart.map fun start => .frame start s.position s.held.reverse)

def closeInnermost (s : Splitter) : Splitter × Option Event :=
  match s.opened with
  | _ :: rest@(_ :: _) => ({ s with opened := rest }, none)
  | _ => s.finishFrame

def closeElement (s : Splitter) (name : String) : Splitter × Option Event :=
  match s.opened with
  | [] => (s, some (.fault (.malformed name .notOpen)))
  | innermost :: _ =>
    if name = innermost then s.closeInnermost
    else
      ({ s with opened := [], frameStart := none, skipping := false },
        if s.skipping then none
        else s.opened.getLast?.map fun tag => .fault (.malformed tag (.mismatch innermost name)))

def attributeByte (s : Splitter) (quote : Option UInt8) (slash : Bool) (b : UInt8) :
    Splitter × Option Event :=
  match quote with
  | some q => if b = q then ({ s with lex := .attributes none false }, none) else (s, none)
  | none =>
    if b = 34 ∨ b = 39 then ({ s with lex := .attributes (some b) false }, none)
    else if b = 47 then ({ s with lex := .attributes none true }, none)
    else if b = 62 then
      let s := { s with lex := .text }
      if slash then s.closeInnermost else (s, none)
    else ({ s with lex := .attributes none false }, none)

def commentMark : Bytes := [45, 45]
def dataMark : Bytes := [91, 67, 68, 65, 84, 65, 91]

def afterBang (seen : Bytes) (b : UInt8) : Lex :=
  if seen = commentMark then .comment 0
  else if seen = dataMark then .data 0
  else if b = 62 then .text
  else if seen.isPrefixOf commentMark || seen.isPrefixOf dataMark then .bang seen
  else .declaration

/-- The byte at offset `here`, which `position` is already beyond. -/
def lexByte (s : Splitter) (here : Nat) (b : UInt8) : Splitter × Option Event :=
  match s.lex with
  | .text =>
    if b = 60 then ({ s with lex := .open, tagStart := here, inGarbage := false }, none)
    else if s.opened.isEmpty && !isGap b && !s.inGarbage then
      ({ s with inGarbage := true }, some (stray .unexpectedText))
    else (s, none)
  | .open =>
    if b = 47 then ({ s with lex := .endName [] }, none)
    else if b = 63 then ({ s with lex := .instruction false }, none)
    else if b = 33 then ({ s with lex := .bang [] }, none)
    else if isNameStart b then ({ s with lex := .startName [b] }, none)
    else if s.opened.isEmpty then
      ({ s with lex := .text, inGarbage := true }, some (stray .strayBracket))
    else ({ s with lex := .text }, none)
  | .bang seen => ({ s with lex := afterBang (seen ++ [b]) b }, none)
  | .comment dashes =>
    if b = 45 then ({ s with lex := .comment (min (dashes + 1) 2) }, none)
    else if b = 62 ∧ dashes ≥ 2 then ({ s with lex := .text }, none)
    else ({ s with lex := .comment 0 }, none)
  | .data brackets =>
    if b = 93 then ({ s with lex := .data (min (brackets + 1) 2) }, none)
    else if b = 62 ∧ brackets ≥ 2 then ({ s with lex := .text }, none)
    else ({ s with lex := .data 0 }, none)
  | .declaration => if b = 62 then ({ s with lex := .text }, none) else (s, none)
  | .instruction question =>
    if b = 62 ∧ question then ({ s with lex := .text }, none)
    else ({ s with lex := .instruction (b == 63) }, none)
  | .startName name =>
    if isNameByte b then ({ s with lex := .startName (b :: name) }, none)
    else
      match s.openElement (spell name) with
      | (s, some event) =>
        -- The byte is read again, as the first one behind the name.
        ({ s with lex := .attributes none false, position := here }, some event)
      | (s, none) => s.attributeByte none false b
  | .attributes quote slash => s.attributeByte quote slash b
  | .endName name =>
    if isNameByte b then ({ s with lex := .endName (b :: name) }, none)
    else if b = 62 then ({ s with lex := .text } : Splitter).closeElement (spell name)
    else ({ s with lex := .endTail name }, none)
  | .endTail name =>
    if b = 62 then ({ s with lex := .text } : Splitter).closeElement (spell name)
    else (s, none)

def checkSize (s : Splitter) : Splitter × Option Event :=
  match s.frameStart with
  | some start =>
    if s.position - start > s.limit then
      ({ s with frameStart := none, skipping := true }, some (.fault (.frameTooLarge s.limit)))
    else (s, none)
  | none => (s, none)

/-- Drops held bytes that can no longer be part of a frame, where the first byte to keep was at
`before`. -/
def trim (before : Nat) (s : Splitter) : Splitter :=
  if s.keepFrom = before then s else { s with held := s.held.take (s.position - s.keepFrom) }

/-- Reads one byte. Only a byte that tells nothing else can show that a frame is too large. -/
def step (s : Splitter) (b : UInt8) : Splitter × Option Event :=
  let before := s.keepFrom
  let here := s.position
  let read := { s with position := here + 1, held := b :: s.held }
  let (next, event) := read.lexByte here b
  let next := if next.position = here then { next with held := s.held } else next
  match event with
  | some event => (next.trim before, some event)
  | none =>
    let (next, event) := next.checkSize
    (next.trim before, event)

/-- Reads up to the first event, or all of `bs`; the result holds what was not read. -/
def scanBytes (s : Splitter) : Bytes → Splitter × Option Event
  | [] => ({ s with unread := [] }, none)
  | b :: bs =>
    match s.step b with
    | (next, some event) =>
      ({ next with unread := if next.position = s.position then b :: bs else bs }, some event)
    | (next, none) => next.scanBytes bs

def next? (s : Splitter) : Splitter × Option Event := s.scanBytes s.unread

/-- How many events the bytes at hand can give: a byte is read at most twice. -/
def bound (s : Splitter) : Nat := 2 * s.unread.length + 1

def drainFrom : Nat → Splitter → Splitter × List Event
  | 0, s => (s, [])
  | fuel + 1, s =>
    match s.next? with
    | (s, none) => (s, [])
    | (s, some event) =>
      let (s, events) := drainFrom fuel s
      (s, event :: events)

def drain (s : Splitter) : Splitter × List Event := drainFrom s.bound s

end Splitter
end InstrumentBus.Wire
