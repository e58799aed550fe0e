import SwitchScript.Scan
import SwitchScript.Grammar.Total

/-!
# Checks

A check scans a script, runs the grammar over its tokens whatever the scan
found, and keeps all that is worth telling. A script is in order if the scan
found no error and the run reached the end without one.
-/

namespace SwitchScript

/-- What a check found. The fields are plain texts, and a caller may put any
together. -/
structure Check where
  name : String
  tokens : List Token
  lexicalErrors : List String
  syntaxErrors : List String
  notices : List String
  ok : Bool
  deriving DecidableEq, Repr

namespace Check

/-- The name of a script that has none. -/
def defaultName : String := "<input>"

def errorCount (c : Check) : Nat := c.lexicalErrors.length + c.syntaxErrors.length

/-- What a scan and a run over its tokens found. -/
def ofRun (name : String) (scan : Scan) (pass : Pass) : Check where
  name := name
  tokens := scan.tokens
  lexicalErrors := scan.errors.map LexicalError.describe
  syntaxErrors := pass.errors.map Diagnostic.describe
  notices := pass.notices.map Diagnostic.describe
  ok := scan.errors.isEmpty && pass.verdict? == some true

def ofSource (source name : String) (limit : Int) : Check :=
  let scan := Scan.ofSource source
  ofRun name scan (Pass.ofStream scan.stream limit)

end Check

end SwitchScript
