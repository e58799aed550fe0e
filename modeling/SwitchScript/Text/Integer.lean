import SwitchScript.Unicode.Numeric
import SwitchScript.Unicode.WhiteSpace

/-!
# Integers given as text

An integer may be surrounded by white space and have a sign. Its digits may be
of any script, and a single underscore may stand between two of them.
-/

namespace SwitchScript.Text

/-- The values of digits with single underscores between them, none at the
ends. -/
def digitValues? : List Char → Option (List Nat)
  | [] => none
  | [c] => (Unicode.decimalValue? c).map ([·])
  | c :: '_' :: rest => do
    let d ← Unicode.decimalValue? c
    return d :: (← digitValues? rest)
  | c :: rest => do
    let d ← Unicode.decimalValue? c
    return d :: (← digitValues? rest)

/-- The greatest number of digits that is read. -/
def maxDigits : Nat := 4300

/-- A number without a sign. -/
def readNatural? (cs : List Char) : Option Nat := do
  let digits ← digitValues? cs
  if digits.length ≤ maxDigits then
    return digits.foldl (fun n d => 10 * n + d) 0
  else
    none

/-- A number with or without a sign. -/
def readSigned? : List Char → Option Int
  | '+' :: rest => (readNatural? rest).map Int.ofNat
  | '-' :: rest => (readNatural? rest).map fun n => -(Int.ofNat n)
  | cs => (readNatural? cs).map Int.ofNat

/-- A text without the white space at its ends. -/
def trim (cs : List Char) : List Char :=
  ((cs.dropWhile Unicode.isWhiteSpace).reverse.dropWhile Unicode.isWhiteSpace).reverse

def readInteger? (s : String) : Option Int :=
  readSigned? (trim s.toList)

end SwitchScript.Text
