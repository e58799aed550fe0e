import SwitchScript.Check

/-!
# Reports

A report tells what a check found, line by line: the lexical errors, the table
of tokens if it is wanted, the notices and syntax errors, and the result.
-/

namespace SwitchScript.Report

def width : Nat := 60

def doubleLine : String := String.ofList (List.replicate width '=')

def singleLine : String := String.ofList (List.replicate width '-')

/-- A text with spaces before it, at least `n` characters wide. -/
def padLeft (n : Nat) (s : String) : String :=
  String.ofList (List.replicate (n - s.length) ' ') ++ s

/-- A text with spaces after it, at least `n` characters wide. -/
def padRight (n : Nat) (s : String) : String :=
  s ++ String.ofList (List.replicate (n - s.length) ' ')

def tokenLine (row : Nat) (t : Token) : String :=
  "  " ++ padLeft 3 (toString row) ++ ". " ++ padRight 20 t.kind.name ++ " : '" ++ t.text ++ "'"

/-- The tokens that the table shows: line breaks and the end mark are left
out. -/
def shownTokens (ts : List Token) : List Token :=
  ts.filter fun t => t.kind != .newline && t.kind != .eof

def tokenLines (row : Nat) : List Token → List String
  | [] => []
  | t :: ts => tokenLine row t :: tokenLines (row + 1) ts

def tokenTable (ts : List Token) : List String :=
  let shown := shownTokens ts
  ["", "Tokens:"] ++ tokenLines 1 shown ++ ["  Total: " ++ toString shown.length ++ " tokens"]

/-- Errors under a heading, or a line that there are none. -/
def errorList (heading none : String) (errors : List String) : List String :=
  if errors.isEmpty then [none] else heading :: errors.map ("  - " ++ ·)

def resultLines (c : Check) : List String :=
  if c.ok then ["  RESULT: OK - no errors detected"]
  else
    ["  RESULT: FAILED",
      "    lexical errors: " ++ toString c.lexicalErrors.length,
      "    syntax errors:  " ++ toString c.syntaxErrors.length,
      "  Total: " ++ toString c.errorCount ++ " error(s)"]

def lines (c : Check) (showTokens : Bool) : List String :=
  [doubleLine, "  CHECK: " ++ c.name, doubleLine, "", "[1/2] Lexical analysis", singleLine] ++
  errorList "Lexical errors:" "Lexical analysis OK" c.lexicalErrors ++
  (if showTokens then tokenTable c.tokens else []) ++
  ["", "[2/2] Syntax analysis", singleLine] ++
  c.notices.map ("  note: " ++ ·) ++
  errorList "Syntax errors:" "Syntax analysis OK" c.syntaxErrors ++
  ["", doubleLine] ++
  resultLines c ++
  [doubleLine]

/-- A report as one text. -/
def render (c : Check) (showTokens : Bool) : String :=
  "\n".intercalate (lines c showTokens)

end SwitchScript.Report
