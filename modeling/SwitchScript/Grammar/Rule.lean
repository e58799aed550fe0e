import SwitchScript.Grammar.Move

/-!
# The grammar

`Rule.script` gives the move that each rule stands for. Together the rules
accept these scripts, where line breaks may stand between statements, and
`SwitchScript.Pass.skipConstruct` says how far a construct reaches that is not
analysed:

    Program            ::= Statement*
    Statement          ::= Switch | AssignmentOrAccess | 'break' | 'continue' | 'pass'
                         | IgnoredConstruct
    Switch             ::= 'switch' '(' Expression ')'
                           '{' (CaseClause+ DefaultClause? | DefaultClause) '}'
    CaseClause         ::= 'case' Expression ':' Body
    DefaultClause      ::= 'default' ':' Body
    Body               ::= Statement* ['break'], with no 'break' among the statements
    AssignmentOrAccess ::= IDENTIFIER (('=' | '+=' | '-=') Expression | '++' | '--'
                                      | AccessSuffix*)
    Expression         ::= LogicalOr
    LogicalOr          ::= LogicalAnd ('or' LogicalAnd)*
    LogicalAnd         ::= Equality ('and' Equality)*
    Equality           ::= Comparison (('==' | '!=') Comparison)*
    Comparison         ::= Term (('<' | '<=' | '>' | '>=') Term)*
    Term               ::= Factor (('+' | '-') Factor)*
    Factor             ::= Unary (('*' | '/' | '%') Unary)*
    Unary              ::= ('!' | '-' | '++' | '--') Unary | Primary
    Primary            ::= Literal | IDENTIFIER AccessSuffix* | '(' Expression ')'
                         | '[' [ExpressionList] ']'
    AccessSuffix       ::= '.' IDENTIFIER | '[' Expression ']' | '(' ArgumentList ')'
    ArgumentList       ::= [ExpressionList]
    ExpressionList     ::= Expression (',' Expression)*

A run does not stop at an error. Repetitions end, though, as soon as the run is
not valid, so the cursor freezes soon after the first error, and only the first
error is sure to be one.
-/

namespace SwitchScript

namespace Move

/-- The statements of a clause, up to a kind at which the clause ends. A
`break` ends it as well, and is consumed. -/
def clauseBody (ends : Kind → Bool) : Move :=
  skipNewlines >>
  repeated (fun k => !ends k && k != .kwBreak) (follow .statement >> skipNewlines) >>
  once (fun k => !ends k && k == .kwBreak) (advance >> skipNewlines)

/-- How a statement goes on, given the kind of its first token. -/
def statementAt (k : Kind) : Move :=
  if k = .kwSwitch then nest (follow .switchStatement)
  else if k = .identifier then follow .assignmentOrAccess
  else if k.isSimpleStatement then advance >> skipNewlines
  else if k.opensIgnored then follow .ignoredConstruct
  else if k = .eof then stay
  else if k = .kwCase then reject .caseOutsideSwitch
  else if k = .kwDefault then reject .defaultOutsideSwitch
  else if k = .rbrace then reject .unmatchedBrace
  else reject .unrecognizedStatement

/-- How an assignment or an access goes on after its identifier. -/
def afterIdentifier (k : Kind) : Move :=
  if k.isAssignment then advance >> follow .expression
  else if k.isStep then advance
  else follow .accessSuffixes

/-- One suffix, given the kind of its first token. -/
def suffixAt (k : Kind) : Move :=
  if k = .dot then advance >> expect .identifier .missingMember
  else if k = .lbracket then
    advance >> nest (follow .expression) >> expect .rbracket .unclosedBracket
  else advance >> nest (follow .argumentList) >> expect .rparen .unclosedParen

/-- A primary expression, given the kind of its first token. -/
def primaryAt (k : Kind) : Move :=
  if k.isLiteral then advance
  else if k = .identifier then advance >> follow .accessSuffixes
  else if k = .lparen then
    advance >> nest (follow .expression) >> expect .rparen .unclosedParen
  else if k = .lbracket then
    advance >> peek (fun k => if k = .rbracket then stay else nest (follow .expressionList)) >>
      expect .rbracket .unclosedBracket
  else report .invalidExpression

def endsCase (k : Kind) : Bool :=
  k == .kwCase || k == .kwDefault || k == .rbrace || k == .eof

def endsDefault (k : Kind) : Bool :=
  k == .rbrace || k == .eof

end Move

open Move in
/-- The moves that a rule stands for. -/
def Rule.script : Rule → Move
  | verdict => judge (follow program)
  | program => skipNewlines >> repeated (· != .eof) (follow statement >> skipNewlines)
  | statement => skipNewlines >> peek statementAt
  | ignoredConstruct => skipConstruct
  | switchStatement =>
    require .kwSwitch .missingSwitch <|
    require .lparen .missingSwitchParen <|
    follow expression >>
    require .rparen .unclosedSwitchParen (
    require .lbrace .missingSwitchBrace <|
    skipNewlines >>
    demand (fun k => k == .kwCase || k == .kwDefault) .missingClause >>
    repeated (· == .kwCase) (follow caseClause) >>
    once (· == .kwDefault) (follow defaultClause) >>
    expect .rbrace .unclosedSwitchBrace)
  | caseClause =>
    require .kwCase .missingCase <|
    follow expression >>
    require .colon .missingCaseColon (clauseBody endsCase)
  | defaultClause =>
    require .kwDefault .missingDefault <|
    require .colon .missingDefaultColon (clauseBody endsDefault)
  | assignmentOrAccess => require .identifier .missingIdentifier (peek afterIdentifier)
  | accessSuffixes => repeated Kind.opensSuffix (peek suffixAt)
  | expression => follow logicalOr
  | logicalOr => chain (follow logicalAnd) (· == .kwOr)
  | logicalAnd => chain (follow equality) (· == .kwAnd)
  | equality => chain (follow comparison) Kind.isEquality
  | comparison => chain (follow term) Kind.isComparison
  | term => chain (follow factor) Kind.isAdditive
  | factor => chain (follow unary) Kind.isMultiplicative
  | unary =>
    peek fun k => if k.isUnary then advance >> nest (follow unary) else follow primary
  | primary => peek primaryAt
  | argumentList => peek fun k => if k = .rparen then stay else follow expressionList
  | expressionList => chain (follow expression) (· == .comma)

end SwitchScript
