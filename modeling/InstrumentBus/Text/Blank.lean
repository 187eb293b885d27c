/-!
Blank characters and the trimming of text.
-/

namespace InstrumentBus.Text

/-- The characters with the Unicode property `White_Space`. -/
def isBlank (c : Char) : Bool :=
  let n := c.toNat
  (9 ≤ n && n ≤ 13) || n == 0x20 || n == 0x85 || n == 0xA0 || n == 0x1680 ||
    (0x2000 ≤ n && n ≤ 0x200A) || n == 0x2028 || n == 0x2029 || n == 0x202F || n == 0x205F ||
    n == 0x3000

def dropTail {α : Type} (p : α → Bool) (xs : List α) : List α :=
  (xs.reverse.dropWhile p).reverse

def trimChars (cs : List Char) : List Char :=
  dropTail isBlank (cs.dropWhile isBlank)

def trim (s : String) : String :=
  String.ofList (trimChars s.toList)

/-- Splits at every member that satisfies `p`; there is one piece more than there are such members. -/
def splitAt {α : Type} (p : α → Bool) : List α → List (List α)
  | [] => [[]]
  | x :: xs =>
    if p x then [] :: splitAt p xs
    else match splitAt p xs with
      | [] => [[x]]
      | piece :: pieces => (x :: piece) :: pieces

def cutFirst? {α : Type} [DecidableEq α] (x : α) : List α → Option (List α × List α)
  | [] => none
  | y :: ys =>
    if y = x then some ([], ys) else (cutFirst? x ys).map fun (head, tail) => (y :: head, tail)

def cutLast? {α : Type} [DecidableEq α] (x : α) (xs : List α) : Option (List α × List α) :=
  (cutFirst? x xs.reverse).map fun (tail, head) => (head.reverse, tail.reverse)

def afterStart? {α : Type} [DecidableEq α] : List α → List α → Option (List α)
  | [], xs => some xs
  | _ :: _, [] => none
  | y :: ys, x :: xs => if x = y then afterStart? ys xs else none

def eqIgnoringCase (s t : String) : Bool :=
  s.toList.map Char.toLower == t.toList.map Char.toLower

def padLeft (width : Nat) (c : Char) (s : String) : String :=
  String.ofList (List.replicate (width - s.length) c ++ s.toList)

def padRight (width : Nat) (c : Char) (s : String) : String :=
  String.ofList (s.toList ++ List.replicate (width - s.length) c)

end InstrumentBus.Text
