import SwitchScript.Proofs.Language.Span

/-!
# The language of scripts

The rules in `SwitchScript.Grammar.Rule` say how a run reads a script. This
file says what a script is, with no run in sight: `Symbol.production` is a
grammar over kinds, and `Form.Derives` tells the words that it derives.

Two things go beyond a context-free grammar. A `nest` form opens a construct,
and a derivation with nesting `d` opens at most `d` of them inside each other;
the list that is empty opens nothing, all other brackets, calls, unary
operators and switches do. And a construct that is not analysed ends by what
comes after it, so a word is always derived *in front of* the rest of the
script.
-/

namespace SwitchScript

inductive Symbol
  | program
  | statement
  /-- A statement that may stand in a clause: a `break` would end the clause. -/
  | clauseStatement
  | switchBlock
  | caseClause
  | defaultClause
  | body
  | assignment
  | expression
  | logicalOr
  | logicalAnd
  | equality
  | comparison
  | term
  | factor
  | unary
  | primary
  | suffix
  | arguments
  deriving DecidableEq, Repr

/-- What may stand on the right of a production. -/
inductive Form
  | empty
  /-- One token of a kind that passes the test. -/
  | oneOf (test : Kind → Bool)
  | seq (first second : Form)
  | alt (left right : Form)
  | star (body : Form)
  /-- The same, one level deeper. -/
  | nest (inner : Form)
  /-- A construct that is not analysed. -/
  | skipped
  | symbol (s : Symbol)

namespace Form

instance : AndThen Form := ⟨fun first second => seq first (second ())⟩

instance : OrElse Form := ⟨fun left right => alt left (right ())⟩

theorem andThen_eq (f g : Form) : (f >> g) = seq f g := rfl

def token (k : Kind) : Form := oneOf (· == k)

def lines : Form := star (token .newline)

def opt (f : Form) : Form := f <|> empty

/-- Operands with operators between them. -/
def chain (operand : Form) (isOperator : Kind → Bool) : Form :=
  operand >> star (oneOf isOperator >> operand)

end Form

open Form in
/-- The productions of the grammar. -/
def Symbol.production : Symbol → Form
  | program => lines >> star (symbol statement >> lines)
  | statement => symbol clauseStatement <|> token .kwBreak
  | clauseStatement =>
    nest (symbol switchBlock) <|> symbol assignment <|> token .kwContinue <|> token .kwPass <|>
      skipped
  | switchBlock =>
    token .kwSwitch >> token .lparen >> symbol expression >> token .rparen >> token .lbrace >>
      lines >>
      ((symbol caseClause >> star (symbol caseClause) >> opt (symbol defaultClause)) <|>
        symbol defaultClause) >>
      token .rbrace
  | caseClause => token .kwCase >> symbol expression >> token .colon >> symbol body
  | defaultClause => token .kwDefault >> token .colon >> symbol body
  | body => lines >> star (symbol clauseStatement >> lines) >> opt (token .kwBreak >> lines)
  | assignment =>
    token .identifier >>
      ((oneOf Kind.isAssignment >> symbol expression) <|> oneOf Kind.isStep <|>
        star (symbol suffix))
  | expression => symbol logicalOr
  | logicalOr => chain (symbol logicalAnd) (· == .kwOr)
  | logicalAnd => chain (symbol equality) (· == .kwAnd)
  | equality => chain (symbol comparison) Kind.isEquality
  | comparison => chain (symbol term) Kind.isComparison
  | term => chain (symbol factor) Kind.isAdditive
  | factor => chain (symbol unary) Kind.isMultiplicative
  | unary => (oneOf Kind.isUnary >> nest (symbol unary)) <|> symbol primary
  | primary =>
    oneOf Kind.isLiteral <|>
      (token .identifier >> star (symbol suffix)) <|>
      (token .lparen >> nest (symbol expression) >> token .rparen) <|>
      (token .lbracket >> opt (nest (chain (symbol expression) (· == .comma))) >>
        token .rbracket)
  | suffix =>
    (token .dot >> token .identifier) <|>
      (token .lbracket >> nest (symbol expression) >> token .rbracket) <|>
      (token .lparen >> nest (symbol arguments) >> token .rparen)
  | arguments => opt (chain (symbol expression) (· == .comma))

namespace Form

/-- With nesting at most `d`, a form derives the word `u` in front of `y`. -/
inductive Derives : Form → Nat → List Kind → List Kind → Prop
  | empty {d y} : Derives empty d [] y
  | oneOf {test d k y} (h : test k = true) : Derives (oneOf test) d [k] y
  | seq {f g d u v y} (hf : Derives f d u (v ++ y)) (hg : Derives g d v y) :
      Derives (seq f g) d (u ++ v) y
  | left {f g d u y} (h : Derives f d u y) : Derives (alt f g) d u y
  | right {f g d u y} (h : Derives g d u y) : Derives (alt f g) d u y
  | done {f d y} : Derives (star f) d [] y
  | again {f d u v y} (hf : Derives f d u (v ++ y)) (hrest : Derives (star f) d v y) :
      Derives (star f) d (u ++ v) y
  | nest {f d u y} (h : Derives f d u y) : Derives (nest f) (d + 1) u y
  | skipped {d u y} (h : Skipped u y) : Derives skipped d u y
  | symbol {s d u y} (h : Derives s.production d u y) : Derives (symbol s) d u y

end Form

/-- The kinds make up a program whose constructs are nested at most `d` deep. -/
def IsProgram (d : Nat) (ks : List Kind) : Prop :=
  (Form.symbol .program).Derives d ks []

end SwitchScript
