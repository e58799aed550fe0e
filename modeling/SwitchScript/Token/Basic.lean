import SwitchScript.Token.Kind

/-!
# Tokens and their places

A token is a kind, the text it stands for and the place where it starts. Lines
and columns count from one; a column counts code points.
-/

namespace SwitchScript

/-- A place in a script. Tokens may come from a caller, so nothing here keeps
lines or columns above zero. -/
structure Position where
  line : Int
  column : Int
  deriving DecidableEq, Inhabited, Repr

namespace Position

/-- The place of the first character of a script. -/
def origin : Position := ⟨1, 1⟩

/-- The place `n` characters further on the same line. -/
def right (p : Position) (n : Nat) : Position := ⟨p.line, p.column + n⟩

def nextLine (p : Position) : Position := ⟨p.line + 1, 1⟩

/-- The opening words of every diagnostic. -/
def label (p : Position) : String :=
  "line " ++ toString p.line ++ ", column " ++ toString p.column

@[simp] theorem right_zero (p : Position) : p.right 0 = p := by
  simp [right]

theorem right_right (p : Position) (m n : Nat) : (p.right m).right n = p.right (m + n) := by
  simp [right, Int.add_assoc]

@[simp] theorem nextLine_right (p : Position) (n : Nat) : (p.right n).nextLine = p.nextLine :=
  rfl

end Position

/-- A text at a place. -/
structure Lexeme where
  text : String
  position : Position
  deriving DecidableEq, Inhabited, Repr

structure Token extends Lexeme where
  kind : Kind
  deriving DecidableEq, Inhabited, Repr

namespace Token

/-- One line of a token dump: place, kind and text. -/
def describe (t : Token) : String :=
  toString t.position.line ++ ":" ++ toString t.position.column ++ " " ++
    t.kind.name ++ " '" ++ t.text ++ "'"

end Token

end SwitchScript
