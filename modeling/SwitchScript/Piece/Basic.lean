import SwitchScript.Token.Kind
import SwitchScript.Unicode.Letter
import SwitchScript.Unicode.Numeric

/-!
# Pieces of a script

A script is cut into consecutive *pieces*, and nothing of it is lost: the
sources of the pieces, put one after another, are the script again. Comments
and blanks are pieces too. A piece knows what is wrong with it, so cutting
never fails: a number keeps the characters glued to it as its tail, a quoted
piece knows whether it was closed, and a character that can start nothing is a
piece of its own.
-/

namespace SwitchScript

/-! ## Character classes -/

/-- Layout inside a line: space, tab, carriage return, form feed and vertical
tab. -/
def isBlank (c : Char) : Bool :=
  c == ' ' || c == '\t' || c == '\r' || c == '\x0c' || c == '\x0b'

/-- Characters that continue a word: letters, anything with a numeric value,
and the underscore. -/
def isWordChar (c : Char) : Bool :=
  Unicode.isLetter c || Unicode.isDecimal c || Unicode.isOtherNumeric c || c == '_'

/-- Characters that are glued to a number when they follow it directly. -/
def isNumberTail (c : Char) : Bool :=
  isWordChar c || c == '.'

def isQuote (c : Char) : Bool :=
  c == '"' || c == '\''

theorem isWordChar_of_isDecimal {c : Char} (h : Unicode.isDecimal c = true) :
    isWordChar c = true := by
  simp [isWordChar, h]

/-! ## The pieces -/

/-- One piece of a script. -/
inductive Piece
  | comment (text : List Char)
  | blank (text : List Char)
  | lineBreak
  /-- Digits, perhaps with a fraction, and whatever is glued to them. -/
  | number (text tail : List Char)
  /-- A text between quotation marks; the closing one may be missing. -/
  | quoted (mark : Char) (body : List Char) (closed : Bool)
  | word (text : List Char)
  /-- An operator or a punctuation mark. -/
  | operator (kind : Kind) (text : List Char)
  /-- A character that starts no other piece. -/
  | stray (char : Char)
  deriving DecidableEq, Repr

namespace Piece

/-- The part of the script that a piece was cut from. -/
def source : Piece → List Char
  | comment text => text
  | blank text => text
  | lineBreak => ['\n']
  | number text tail => text ++ tail
  | quoted mark body closed => mark :: body ++ (if closed then [mark] else [])
  | word text => text
  | operator _ text => text
  | stray char => [char]

end Piece

end SwitchScript
