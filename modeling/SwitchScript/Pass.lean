import SwitchScript.Token.Cursor
import SwitchScript.Diagnostic

/-!
# Passes

A pass is the state of one run over a stream: where it stands, whether an error
was seen, how deeply nested the construct at hand is, and the remarks made so
far. This file holds the steps that need no knowledge of the grammar. The most
telling of them is `Pass.skipConstruct`, which steps over a construct that is
not analysed, up to the place where analysis can resume.
-/

namespace SwitchScript

/-- The state of a run over a token stream. -/
structure Pass where
  cursor : Cursor
  /-- No error was seen. -/
  valid : Bool
  /-- The number of nested constructs that are open. -/
  depth : Int
  /-- The depth from which on nothing may be opened. -/
  limit : Int
  /-- The remarks made so far, the latest one first. -/
  diagnostics : List Diagnostic
  /-- The outcome for the whole stream, once it is known. -/
  verdict? : Option Bool
  deriving DecidableEq, Repr

namespace Pass

/-- The nesting limit where none is asked for: parentheses, brackets, calls,
unary operators and switches combined. -/
def defaultLimit : Int := 32

/-- The state before the first token. -/
def start (s : Stream) (limit : Int) : Pass :=
  ⟨.start s, true, 0, limit, [], none⟩

def kind (p : Pass) : Kind := p.cursor.kind

/-- The current token as the site of a remark. -/
def site (p : Pass) : Site := ⟨p.cursor.index, p.cursor.current⟩

/-- The errors so far, in the order in which they were made. -/
def errors (p : Pass) : List Diagnostic :=
  (p.diagnostics.filter Diagnostic.isError).reverse

/-- The notices so far, in the order in which they were made. -/
def notices (p : Pass) : List Diagnostic :=
  (p.diagnostics.filter fun d => !d.isError).reverse

/-! ## Steps -/

def advance (p : Pass) : Pass := { p with cursor := p.cursor.advance }

def skipNewlines (p : Pass) : Pass := { p with cursor := p.cursor.skipNewlines }

/-- Records an error at the current token. From then on the run is not valid. -/
def report (fault : Fault) (p : Pass) : Pass :=
  { p with valid := false, diagnostics := .error p.site fault :: p.diagnostics }

/-- Records that the construct at the current token is not analysed. -/
def notify (p : Pass) : Pass :=
  { p with diagnostics := .notice p.site :: p.diagnostics }

/-- Settles the outcome: good if the end was reached without an error. -/
def settle (p : Pass) : Pass :=
  { p with verdict? := some (p.kind == .eof && p.valid) }

/-! ## Constructs that are not analysed -/

/-- How a token changes the number of open braces. -/
def braceStep : Kind → Int
  | .lbrace => 1
  | .rbrace => -1
  | _ => 0

def parenStep : Kind → Int
  | .lparen => 1
  | .rparen => -1
  | _ => 0

/-- Whether analysis can resume at a token of kind `k` outside all brackets: at
a switch, or at an identifier that starts a line. -/
def resumes (before k : Kind) : Bool :=
  k == .kwSwitch || (k == .identifier && before == .newline)

/-- The number of tokens to step over inside a construct that is not analysed,
given the open braces and parentheses and the kind of the token before. The
construct ends at an end mark, at a closing brace that it did not open, or
outside all its brackets where analysis can resume. Parentheses that close more
than they opened keep it from resuming. -/
def skipLength (braces parens : Int) (before : Kind) : List Token → Nat
  | [] => 0
  | t :: rest =>
    let braces := braces + braceStep t.kind
    let parens := parens + parenStep t.kind
    if t.kind = .eof ∨ braces < 0 ∨ (braces = 0 ∧ parens = 0 ∧ resumes before t.kind) then 0
    else skipLength braces parens t.kind rest + 1

/-- Steps over the construct that starts at the current token, with a notice.
A run that is no longer valid only passes the token itself. -/
def skipConstruct (p : Pass) : Pass :=
  let q := p.notify.advance
  if q.valid then
    { q with cursor := q.cursor.forward (skipLength 0 0 p.kind q.cursor.ahead) }
  else q

end Pass

end SwitchScript
