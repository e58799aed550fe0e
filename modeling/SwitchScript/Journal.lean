import SwitchScript.Check

/-!
# The journal

On demand, the command tells what it does while it does it. An entry has a
level and names the part of the program that speaks.
-/

namespace SwitchScript.Journal

/-- How important an entry is. -/
inductive Level
  | debug
  | info
  deriving DecidableEq, Repr

def Level.name : Level → String
  | debug => "DEBUG"
  | info => "INFO"

/-- The parts of the program that keep a journal. -/
inductive Speaker
  | scan
  | grammar
  | command
  deriving DecidableEq, Repr

def Speaker.name : Speaker → String
  | scan => "lexer"
  | grammar => "switch_parser"
  | command => "switch_checker"

structure Entry where
  level : Level
  speaker : Speaker
  text : String
  deriving DecidableEq, Repr

def Entry.describe (e : Entry) : String :=
  e.level.name ++ " " ++ e.speaker.name ++ ": " ++ e.text

/-- What a scan tells: its errors, and how much it found. -/
def ofScan (s : Scan) : List Entry :=
  s.errors.map (fun e => ⟨.debug, .scan, "lexical error: " ++ e.describe⟩) ++
    [⟨.debug, .scan, "lexed " ++ toString s.tokens.length ++ " tokens, " ++
      toString s.errors.length ++ " lexical errors"⟩]

def ofDiagnostic : Diagnostic → Entry
  | d@(.error ..) => ⟨.debug, .grammar, "syntax error: " ++ d.describe⟩
  | d@(.notice _) => ⟨.info, .grammar, d.describe⟩

/-- What a run tells: its remarks in the order in which they were made, and the
outcome. -/
def ofPass (p : Pass) : List Entry :=
  p.diagnostics.reverse.map ofDiagnostic ++
    [⟨.info, .grammar, "syntax check " ++ (if p.verdict? = some true then "passed" else "failed") ++
      " (" ++ toString p.errors.length ++ " errors, " ++ toString p.notices.length ++
      " skipped constructs)"⟩]

def ofCheck (c : Check) : Entry :=
  ⟨.info, .command, c.name ++ ": " ++ (if c.ok then "OK" else "FAILED") ++ " (" ++
    toString c.lexicalErrors.length ++ " lexical, " ++ toString c.syntaxErrors.length ++
    " syntax errors)"⟩

end SwitchScript.Journal
