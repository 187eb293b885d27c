/-!
Reading a decimal number as the nearest float.
-/

namespace InstrumentBus.Decimal

def digitValue (c : Char) : Nat := c.toNat - '0'.toNat

def spanDigits (cs : List Char) : List Char × List Char :=
  (cs.takeWhile Char.isDigit, cs.dropWhile Char.isDigit)

def ofDigits (ds : List Char) : Nat :=
  ds.foldl (fun n d => 10 * n + digitValue d) 0

def natural? (bound : Nat) (cs : List Char) : Option Nat :=
  let ds := match cs with
    | '+' :: ds => ds
    | ds => ds
  if !ds.isEmpty && ds.all Char.isDigit && ofDigits ds < bound then some (ofDigits ds) else none

/-- Reads an optional sign; `true` is minus. -/
def takeSign : List Char → Bool × List Char
  | '-' :: cs => (true, cs)
  | '+' :: cs => (false, cs)
  | cs => (false, cs)

/-- `e` or `E`, an optional sign and at least one digit, up to the end; nothing stands for 0. -/
def exponent? : List Char → Option Int
  | [] => some 0
  | c :: cs =>
    if c == 'e' || c == 'E' then
      let (negative, cs) := takeSign cs
      match spanDigits cs with
      | ([], _) => none
      | (ds, []) => some (if negative then -(ofDigits ds : Int) else ofDigits ds)
      | _ => none
    else none

/-- `digits * 10 ^ exp`, correctly rounded. -/
def toFloat (digits : Nat) (exp : Int) : Float :=
  match exp with
  | .ofNat n => Float.ofScientific digits false n
  | .negSucc n => Float.ofScientific digits true (n + 1)

def unsigned? (cs : List Char) : Option Float :=
  let (whole, rest) := spanDigits cs
  let (fraction, rest) := match rest with
    | '.' :: rest => spanDigits rest
    | rest => ([], rest)
  if whole.isEmpty && fraction.isEmpty then none
  else (exponent? rest).map fun e => toFloat (ofDigits (whole ++ fraction)) (e - fraction.length)

def infinity : Float := 1 / 0
def notANumber : Float := 0 / 0

def named? (cs : List Char) : Option Float :=
  let name := String.ofList (cs.map Char.toLower)
  if name = "inf" || name = "infinity" then some infinity
  else if name = "nan" then some notANumber
  else none

def readChars? (cs : List Char) : Option Float :=
  let (negative, body) := takeSign cs
  ((unsigned? body).or (named? body)).map fun x => if negative then -x else x

def read? (s : String) : Option Float := readChars? s.toList

end InstrumentBus.Decimal
