import SwitchScript.Unicode.Ranges

/-!
# White space

The property White_Space: the characters that may surround a number given as
text. The layout of a script is narrower, see `SwitchScript.Piece`.
-/

namespace SwitchScript.Unicode

def whiteSpaceTable : List (Nat × Nat) :=
  [(0x9, 0xD), (0x20, 0x20), (0x85, 0x85), (0xA0, 0xA0), (0x1680, 0x1680), (0x2000, 0x200A),
    (0x2028, 0x2029), (0x202F, 0x202F), (0x205F, 0x205F), (0x3000, 0x3000)]

def isWhiteSpace (c : Char) : Bool :=
  inRanges whiteSpaceTable c.toNat

end SwitchScript.Unicode
