import InstrumentBus.Decimal.Read

/-!
Digits of any base up to sixteen.
-/

namespace InstrumentBus.Text

def decimalValue? (c : Char) : Option Nat :=
  if c.isDigit then some (Decimal.digitValue c) else none

def hexValue? (c : Char) : Option Nat :=
  if c.isDigit then some (Decimal.digitValue c)
  else if 'a' ≤ c && c ≤ 'f' then some (c.toNat - 87)
  else if 'A' ≤ c && c ≤ 'F' then some (c.toNat - 55)
  else none

def readDigits? (value? : Char → Option Nat) (base : Nat) : List Char → Option Nat
  | [] => none
  | cs => cs.foldlM (fun n c => (value? c).map fun d => n * base + d) 0

end InstrumentBus.Text
