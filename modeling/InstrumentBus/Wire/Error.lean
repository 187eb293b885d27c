import InstrumentBus.Property.Error

/-!
What can go wrong on a connection, with frames and with control messages.
-/

namespace InstrumentBus

inductive FrameFault
  | unexpectedText : FrameFault
  | strayBracket : FrameFault
  | notOpen : FrameFault
  | mismatch (expected found : String) : FrameFault
  | truncated (next : String) : FrameFault
  | markup : FrameFault
  | early : FrameFault
  | missing (key : String) : FrameFault
  | badNumber (key text : String) : FrameFault
  | badWord (title text : String) : FrameFault
  | badBase64 : FrameFault
  | other (reason : String) : FrameFault
deriving DecidableEq

def FrameFault.message : FrameFault → String
  | .unexpectedText => "unexpected text between frames"
  | .strayBracket => "stray '<' between frames"
  | .notOpen => "closing tag without an open element"
  | .mismatch expected found => "expected </" ++ expected ++ ">, found </" ++ found ++ ">"
  | .truncated next => "truncated by <" ++ next ++ ">"
  | .markup => "xml"
  | .early => "unexpected end of frame"
  | .missing key => "missing attribute " ++ key
  | .badNumber key text => "invalid " ++ key ++ ": " ++ Text.quote text
  | .badWord title text => badWordMessage title text
  | .badBase64 => "bad base64"
  | .other reason => reason

inductive WireError
  | malformed (tag : String) (fault : FrameFault) : WireError
  | frameTooLarge (max : Nat) : WireError
  | encoding (reason : String) : WireError
  | messageTooLarge (size max : Nat) : WireError
  | serialization : WireError
  | unsupportedVersion (version : String) : WireError
  | connection (reason : String) : WireError
  | incomplete (expected received : Nat) : WireError
  | emptyMessage : WireError
  | timeout (operation : String) : WireError
deriving DecidableEq

def WireError.message : WireError → String
  | .malformed tag fault => "malformed " ++ tag ++ " frame: " ++ fault.message
  | .frameTooLarge max => "frame too large: more than " ++ toString max ++ " bytes"
  | .encoding reason => "encoding failed: " ++ reason
  | .messageTooLarge size max =>
    "message too large: " ++ toString size ++ " bytes (max: " ++ toString max ++ ")"
  | .serialization => "serialization failed"
  | .unsupportedVersion version => "unsupported protocol version: " ++ version
  | .connection reason => "IO error: " ++ reason
  | .incomplete expected received =>
    "incomplete message: expected " ++ toString expected ++ " bytes, got " ++ toString received
  | .emptyMessage => "empty message"
  | .timeout operation => "timeout during " ++ operation

def WireError.isRecoverable : WireError → Bool
  | .malformed .. => true
  | .frameTooLarge _ => true
  | _ => false

end InstrumentBus
