/-!
# Token kinds

A script is read as a stream of tokens, and every decision about the stream is
a decision about the *kind* of the current token. This file lists the kinds,
their names and spellings, the classes that the grammar asks about, and the
three tables that turn a lexeme into a kind.
-/

namespace SwitchScript

/-- The kind of a token: all that the grammar ever looks at. -/
inductive Kind
  | kwSwitch | kwCase | kwDefault | kwBreak | kwContinue | kwPass
  | kwIf | kwWhile | kwFor | kwDef | kwClass
  | kwAnd | kwOr | kwNot
  | integer | float | string | boolean | benouadfel | yacine
  | identifier
  | assign | plusAssign | minusAssign | increment | decrement
  | plus | minus | multiply | divide | modulo
  | equal | notEqual | less | lessEqual | greater | greaterEqual
  | lparen | rparen | lbracket | rbracket | lbrace | rbrace
  | comma | dot | colon
  | newline | eof
  deriving DecidableEq, Inhabited, Repr

namespace Kind

def all : List Kind :=
  [kwSwitch, kwCase, kwDefault, kwBreak, kwContinue, kwPass,
    kwIf, kwWhile, kwFor, kwDef, kwClass, kwAnd, kwOr, kwNot,
    integer, float, string, boolean, benouadfel, yacine, identifier,
    assign, plusAssign, minusAssign, increment, decrement,
    plus, minus, multiply, divide, modulo,
    equal, notEqual, less, lessEqual, greater, greaterEqual,
    lparen, rparen, lbracket, rbracket, lbrace, rbrace,
    comma, dot, colon, newline, eof]

theorem mem_all (k : Kind) : k ∈ all := by
  cases k <;> decide

/-- The name under which a kind appears in token dumps and reports. -/
def name : Kind → String
  | kwSwitch => "SWITCH"
  | kwCase => "CASE"
  | kwDefault => "DEFAULT"
  | kwBreak => "BREAK"
  | kwContinue => "CONTINUE"
  | kwPass => "PASS"
  | kwIf => "IF"
  | kwWhile => "WHILE"
  | kwFor => "FOR"
  | kwDef => "DEF"
  | kwClass => "CLASS"
  | kwAnd => "AND"
  | kwOr => "OR"
  | kwNot => "NOT"
  | integer => "INTEGER"
  | float => "FLOAT"
  | string => "STRING"
  | boolean => "BOOLEAN"
  | benouadfel => "BENOUADFEL"
  | yacine => "YACINE"
  | identifier => "IDENTIFIER"
  | assign => "ASSIGN"
  | plusAssign => "PLUS_ASSIGN"
  | minusAssign => "MINUS_ASSIGN"
  | increment => "INCREMENT"
  | decrement => "DECREMENT"
  | plus => "PLUS"
  | minus => "MINUS"
  | multiply => "MULTIPLY"
  | divide => "DIVIDE"
  | modulo => "MODULO"
  | equal => "EQUAL"
  | notEqual => "NOT_EQUAL"
  | less => "LESS"
  | lessEqual => "LESS_EQUAL"
  | greater => "GREATER"
  | greaterEqual => "GREATER_EQUAL"
  | lparen => "LPAREN"
  | rparen => "RPAREN"
  | lbracket => "LBRACKET"
  | rbracket => "RBRACKET"
  | lbrace => "LBRACE"
  | rbrace => "RBRACE"
  | comma => "COMMA"
  | dot => "DOT"
  | colon => "COLON"
  | newline => "NEWLINE"
  | eof => "EOF"

/-- The canonical spelling of a kind: its lexeme where it has only one, and a
placeholder for the kinds whose lexemes vary. -/
def spelling : Kind → String
  | kwSwitch => "switch"
  | kwCase => "case"
  | kwDefault => "default"
  | kwBreak => "break"
  | kwContinue => "continue"
  | kwPass => "pass"
  | kwIf => "if"
  | kwWhile => "while"
  | kwFor => "for"
  | kwDef => "def"
  | kwClass => "class"
  | kwAnd => "and"
  | kwOr => "or"
  | kwNot => "not"
  | integer => "INTEGER"
  | float => "FLOAT"
  | string => "STRING"
  | boolean => "BOOLEAN"
  | benouadfel => "BENOUADFEL"
  | yacine => "Yacine"
  | identifier => "IDENTIFIER"
  | assign => "="
  | plusAssign => "+="
  | minusAssign => "-="
  | increment => "++"
  | decrement => "--"
  | plus => "+"
  | minus => "-"
  | multiply => "*"
  | divide => "/"
  | modulo => "%"
  | equal => "=="
  | notEqual => "!="
  | less => "<"
  | lessEqual => "<="
  | greater => ">"
  | greaterEqual => ">="
  | lparen => "("
  | rparen => ")"
  | lbracket => "["
  | rbracket => "]"
  | lbrace => "\x7b"
  | rbrace => "\x7d"
  | comma => ","
  | dot => "."
  | colon => ":"
  | newline => "NEWLINE"
  | eof => "EOF"

def ofName? (n : String) : Option Kind :=
  all.find? (·.name == n)

def ofSpelling? (s : String) : Option Kind :=
  all.find? (·.spelling == s)

theorem ofName?_name (k : Kind) : ofName? k.name = some k := by
  cases k <;> decide

theorem ofSpelling?_spelling (k : Kind) : ofSpelling? k.spelling = some k := by
  cases k <;> decide

/-! ## Classes of kinds -/

/-- Keywords whose constructs are stepped over without analysis. -/
def opensIgnored : Kind → Bool
  | kwIf | kwWhile | kwFor | kwDef | kwClass => true
  | _ => false

/-- Kinds that are an expression on their own. -/
def isLiteral : Kind → Bool
  | integer | float | string | boolean | benouadfel | yacine => true
  | _ => false

/-- Keywords that are a statement on their own. -/
def isSimpleStatement : Kind → Bool
  | kwBreak | kwContinue | kwPass => true
  | _ => false

/-- Operators that assign the expression after them. -/
def isAssignment : Kind → Bool
  | assign | plusAssign | minusAssign => true
  | _ => false

/-- Operators that step a variable up or down. -/
def isStep : Kind → Bool
  | increment | decrement => true
  | _ => false

/-- Operators that stand before their only operand. -/
def isUnary : Kind → Bool
  | kwNot | minus | increment | decrement => true
  | _ => false

/-- Openers of a member access, an index or a call. -/
def opensSuffix : Kind → Bool
  | dot | lbracket | lparen => true
  | _ => false

def isEquality : Kind → Bool
  | equal | notEqual => true
  | _ => false

def isComparison : Kind → Bool
  | less | lessEqual | greater | greaterEqual => true
  | _ => false

def isAdditive : Kind → Bool
  | plus | minus => true
  | _ => false

def isMultiplicative : Kind → Bool
  | multiply | divide | modulo => true
  | _ => false

/-! ## From lexemes to kinds -/

def keywords : List (String × Kind) :=
  [kwSwitch, kwCase, kwDefault, kwBreak, kwContinue, kwPass, kwIf, kwWhile, kwFor,
    kwDef, kwClass, kwAnd, kwOr, kwNot].map fun k => (k.spelling, k)

/-- Words that are constants by honour. -/
def honoraryConstants : List (String × Kind) :=
  [benouadfel, yacine].map fun k => (k.spelling, k)

def truthValues : List (String × Kind) :=
  [("True", boolean), ("False", boolean)]

/-- The kind of a word: its entry in one of the word tables, or an identifier. -/
def ofWord (w : String) : Kind :=
  (keywords.lookup w <|> honoraryConstants.lookup w <|> truthValues.lookup w).getD identifier

/-- Operators and punctuation. An exclamation mark is a second spelling of `not`. -/
def operators : List (List Char × Kind) :=
  [(['='], assign), (['+', '='], plusAssign), (['-', '='], minusAssign),
    (['+', '+'], increment), (['-', '-'], decrement),
    (['+'], plus), (['-'], minus), (['*'], multiply), (['/'], divide),
    (['%'], modulo), (['=', '='], equal), (['!', '='], notEqual),
    (['<'], less), (['<', '='], lessEqual), (['>'], greater),
    (['>', '='], greaterEqual), (['('], lparen), ([')'], rparen),
    (['['], lbracket), ([']'], rbracket), (['{'], lbrace), (['}'], rbrace),
    ([','], comma), (['.'], dot), ([':'], colon), (['!'], kwNot)]

/-- The kind of an operator lexeme, if it is one. -/
def ofOperator? (cs : List Char) : Option Kind :=
  operators.lookup cs

end Kind

end SwitchScript
