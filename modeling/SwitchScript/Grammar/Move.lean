import SwitchScript.Diagnostic

/-!
# Moves

The rules of the language are data: a rule stands for a *move*, and a move says
what a run does next. It may go to the next token, look at the kind of the
current one and choose, repeat, open a nested construct or follow another rule,
and it never looks further than the current token. What moves do to a run is
the matter of `SwitchScript.Grammar.Run`, what the rules stand for that of
`SwitchScript.Grammar.Rule`.
-/

namespace SwitchScript

/-- The rules of the language. -/
inductive Rule
  /-- The whole stream is a program; the outcome is settled once and kept. -/
  | verdict
  | program
  | statement
  | ignoredConstruct
  | switchStatement
  | caseClause
  | defaultClause
  | assignmentOrAccess
  | accessSuffixes
  | expression
  | logicalOr
  | logicalAnd
  | equality
  | comparison
  | term
  | factor
  | unary
  | primary
  | argumentList
  | expressionList
  deriving DecidableEq, Repr

/-- What a run does next. -/
inductive Move
  | stay
  | advance
  | skipNewlines
  /-- Step over a construct that is not analysed. -/
  | skipConstruct
  | report (fault : Fault)
  /-- Record an error and step over the token that it is about. -/
  | reject (fault : Fault)
  /-- Record an error unless the current kind passes the test. -/
  | demand (test : Kind → Bool) (fault : Fault)
  /-- Consume a token of the given kind and go on, or record an error. -/
  | require (kind : Kind) (fault : Fault) (next : Move)
  /-- Make two moves, one after the other, whether or not the first succeeds. -/
  | both (first second : Move)
  | peek (choose : Kind → Move)
  /-- Make a move if the run is valid and the current kind passes the test. -/
  | once (test : Kind → Bool) (body : Move)
  /-- Repeat a move as long as the run is valid and the current kind passes the
  test. -/
  | repeated (test : Kind → Bool) (body : Move)
  /-- Make a move one level deeper, unless the nesting limit is reached. -/
  | nest (inner : Move)
  /-- Settle the outcome by a move, unless it is settled already. -/
  | judge (body : Move)
  | follow (rule : Rule)

namespace Move

instance : AndThen Move := ⟨fun first second => both first (second ())⟩

theorem andThen_eq (first second : Move) : (first >> second) = both first second := rfl

/-- Consumes a token of the given kind, or records an error. -/
def expect (kind : Kind) (fault : Fault) : Move :=
  require kind fault stay

/-- Operands with operators between them. -/
def chain (operand : Move) (isOperator : Kind → Bool) : Move :=
  operand >> repeated isOperator (advance >> operand)

end Move

end SwitchScript
