import SwitchScript.Piece.Cut
import SwitchScript.Token.Stream

/-!
# Scanning

A scan is a script cut into pieces, each with the place where it starts. The
tokens and the lexical errors are two views of it: every piece but a comment, a
blank or a stray character yields one token, and every faulty piece one error.
So scanning never fails and always ends in one end mark.
-/

namespace SwitchScript

/-! ## Lexical errors -/

inductive LexicalFault
  | unexpectedCharacter (char : Char)
  | malformedNumber (whole : List Char)
  | unterminatedString
  deriving DecidableEq, Repr

def LexicalFault.message : LexicalFault → String
  | unexpectedCharacter char => "unexpected character '" ++ String.ofList [char] ++ "'"
  | malformedNumber whole => "malformed number '" ++ String.ofList whole ++ "'"
  | unterminatedString => "unterminated string"

structure LexicalError where
  position : Position
  fault : LexicalFault
  deriving DecidableEq, Repr

def LexicalError.describe (e : LexicalError) : String :=
  e.position.label ++ ": " ++ e.fault.message

/-! ## What a piece yields -/

namespace Piece

/-- The token of a piece that starts at `p`. A line break is shown as an escape
of two characters; a quoted piece stands for the text between its marks. -/
def token? (p : Position) : Piece → Option Token
  | comment _ => none
  | blank _ => none
  | lineBreak => some ⟨⟨"\\n", p⟩, .newline⟩
  | number text _ => some ⟨⟨String.ofList text, p⟩, if '.' ∈ text then .float else .integer⟩
  | quoted _ body _ => some ⟨⟨String.ofList body, p⟩, .string⟩
  | word text => some ⟨⟨String.ofList text, p⟩, Kind.ofWord (String.ofList text)⟩
  | operator kind text => some ⟨⟨String.ofList text, p⟩, kind⟩
  | stray _ => none

def fault? : Piece → Option LexicalFault
  | number text tail => if tail = [] then none else some (.malformedNumber (text ++ tail))
  | quoted _ _ closed => if closed then none else some .unterminatedString
  | stray char => some (.unexpectedCharacter char)
  | _ => none

/-- The error of a piece that starts at `p`. -/
def error? (p : Position) (x : Piece) : Option LexicalError :=
  x.fault?.map (⟨p, ·⟩)

/-- The place right after a piece that starts at `p`. Only a line break leads
to a new line. -/
def next (p : Position) : Piece → Position
  | lineBreak => p.nextLine
  | x => p.right x.source.length

/-- Each piece with the place where it starts, the first one at `p`. -/
def locate (p : Position) : List Piece → List (Position × Piece)
  | [] => []
  | x :: xs => (p, x) :: locate (x.next p) xs

/-- The place right after the last piece, if the first one starts at `p`. -/
def stopAt (p : Position) : List Piece → Position
  | [] => p
  | x :: xs => stopAt (x.next p) xs

theorem locate_append (p : Position) (xs ys : List Piece) :
    locate p (xs ++ ys) = locate p xs ++ locate (stopAt p xs) ys := by
  induction xs generalizing p with
  | nil => rfl
  | cons x xs ih => simp [locate, stopAt, ih]

theorem stopAt_append (p : Position) (xs ys : List Piece) :
    stopAt p (xs ++ ys) = stopAt (stopAt p xs) ys := by
  induction xs generalizing p with
  | nil => rfl
  | cons x xs ih => simp [stopAt, ih]

end Piece

/-! ## Scans -/

/-- The pieces of a script with their places, and the place where it ends. -/
structure Scan where
  pieces : List (Position × Piece)
  stop : Position
  deriving DecidableEq, Repr

namespace Scan

def ofSource (source : String) : Scan :=
  let pieces := Piece.ofText source.toList
  ⟨Piece.locate .origin pieces, Piece.stopAt .origin pieces⟩

/-- The tokens of a scan, closed by an end mark without text. -/
def stream (s : Scan) : Stream :=
  ⟨s.pieces.filterMap fun x => x.2.token? x.1, ⟨"", s.stop⟩⟩

def tokens (s : Scan) : List Token :=
  s.stream.toList

/-- The lexical errors of a scan, in the order of their places. -/
def errors (s : Scan) : List LexicalError :=
  s.pieces.filterMap fun x => x.2.error? x.1

end Scan

/-! ## Scanning on demand -/

/-- A script that is scanned when its tokens are first asked for. Until then no
error is known. -/
structure Scanner where
  source : String
  scan? : Option Scan
  deriving Repr

namespace Scanner

/-- A scanner that has not looked at its script yet. -/
def ofSource (source : String) : Scanner := ⟨source, none⟩

/-- The scan, which is made once and then kept. -/
def scan (s : Scanner) : Scan :=
  s.scan?.getD (Scan.ofSource s.source)

/-- The scanner after its tokens were asked for. -/
def force (s : Scanner) : Scanner := { s with scan? := some s.scan }

/-- The errors found so far. -/
def errors (s : Scanner) : List LexicalError :=
  match s.scan? with
  | none => []
  | some scan => scan.errors

theorem errors_ofSource (source : String) : (ofSource source).errors = [] := rfl

theorem errors_force (source : String) :
    (ofSource source).force.errors = (Scan.ofSource source).errors := rfl

theorem force_force (s : Scanner) : s.force.force = s.force := by
  simp [force, scan]

end Scanner

end SwitchScript
