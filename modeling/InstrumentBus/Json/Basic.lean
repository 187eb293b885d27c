/-!
JSON values, and looking up the members of objects.
-/

namespace InstrumentBus

/-- A JSON value. Two things are told apart only as far as a reader of records needs it: a number
that is not written as an integer is `decimal`, and a text with half a surrogate pair or a number
that no float holds is `broken`. -/
inductive Json
  | null : Json
  | bool : Bool → Json
  | integer : Int → Json
  | decimal : Json
  | string : String → Json
  | array : List Json → Json
  | object : List (String × Json) → Json
  | broken : Json

namespace Json

mutual

def fits : Nat → Json → Bool
  | _, .broken => false
  | 0, .array _ => false
  | 0, .object _ => false
  | limit + 1, .array items => fitAll limit items
  | limit + 1, .object members => fitMembers limit members
  | _, _ => true

def fitAll : Nat → List Json → Bool
  | _, [] => true
  | limit, item :: items => item.fits limit && fitAll limit items

def fitMembers : Nat → List (String × Json) → Bool
  | _, [] => true
  | limit, (_, item) :: members => item.fits limit && fitMembers limit members

end

inductive Lookup
  | absent : Lookup
  | one : Json → Lookup
  | repeated : Lookup

def lookup (name : String) (members : List (String × Json)) : Lookup :=
  match members.filter fun m => m.1 == name with
  | [] => .absent
  | [(_, value)] => .one value
  | _ => .repeated

/-- The members of a record in the order of `names`, `none` for a missing one. An object may have
other members too, but none of the names twice; an array has the members in order and may end
early. -/
def record? (names : List String) : Json → Option (List (Option Json))
  | .object members =>
    names.mapM fun name =>
      match lookup name members with
      | .absent => some none
      | .one value => some (some value)
      | .repeated => none
  | .array items =>
    if items.length ≤ names.length then
      some (items.map some ++ List.replicate (names.length - items.length) none)
    else none
  | _ => none

def string? : Json → Option String
  | .string s => some s
  | _ => none

def nat? (bound : Nat) : Json → Option Nat
  | .integer n => if 0 ≤ n ∧ n < bound then some n.toNat else none
  | _ => none

def uint64? (j : Json) : Option UInt64 := (j.nat? UInt64.size).map UInt64.ofNat

def uint16? (j : Json) : Option UInt16 := (j.nat? UInt16.size).map UInt16.ofNat

def list? {α : Type} (item? : Json → Option α) : Json → Option (List α)
  | .array items => items.mapM item?
  | _ => none

/-- A member of an enumeration: its name, or an object of its name and nothing. -/
def name? : Json → Option String
  | .string s => some s
  | .object [(name, .null)] => some name
  | .object [(name, .object [])] => some name
  | _ => none

end Json

end InstrumentBus
