import SwitchScript.Command.Arguments
import SwitchScript.Command.SourceTree
import SwitchScript.Journal
import SwitchScript.Report
import SwitchScript.Text.LineBreak
import SwitchScript.Text.Utf8

/-!
# Sessions

One call of the command: from the arguments, the standard input and a way to
read files to what is printed and the exit status. Everything is decided here,
without input or output.
-/

namespace SwitchScript.Command

/-- What a call leaves behind. -/
structure Outcome where
  exit : Nat
  stdout : String
  stderr : String
  deriving DecidableEq, Repr

/-- The exit status of a check that found nothing wrong. -/
def exitOk : Nat := 0

/-- The exit status of a check that found errors. -/
def exitFailed : Nat := 1

/-- The exit status where nothing could be checked. -/
def exitNoSource : Nat := 2

/-- Why a script could not be read. -/
inductive ReadFault
  | system (fault : SystemFault) (path : String)
  | encoding (fault : Text.Utf8.Fault)
  deriving DecidableEq, Repr

def ReadFault.message : ReadFault → String
  | system fault path => fault.message path
  | encoding fault => fault.message

/-- Why a call breaks off and leaves nothing behind. -/
inductive Breakdown
  /-- A path with a zero character in it, which no system call can be given. -/
  | unusablePath (path : String)
  /-- A script that nests something, and no limit to hold the depth against. -/
  | missingLimit
  deriving DecidableEq, Repr

def Breakdown.message : Breakdown → String
  | unusablePath _ => "embedded null byte"
  | missingLimit => "no nesting limit"

/-- The file argument that stands for the standard input. -/
def stdinFile : String := "-"

/-- The name under which a file argument is spoken of. -/
def sourceName (file : String) : String :=
  if file = stdinFile then "<stdin>" else file

/-- The script that bytes hold, in a stream that hands on the ends of its lines
this way. -/
def decodeSource (ends : Text.LineEnds) (bytes : Bytes) : Except ReadFault String :=
  match Text.Utf8.decode bytes with
  | .error fault => .error (.encoding fault)
  | .ok chars => .ok (String.ofList (ends.handOn chars))

/-- Lines, each with a line feed at its end. -/
def unlines (lines : List String) : String :=
  String.join (lines.map (· ++ "\n"))

def journalLines (o : Options) (entries : List Journal.Entry) : List String :=
  if o.verbose then entries.map Journal.Entry.describe else []

def lexicalErrorLines (errors : List String) : List String :=
  errors.map ("LexicalError: " ++ ·)

def syntaxErrorLines (errors : List String) : List String :=
  errors.map ("SyntaxError: " ++ ·)

def dump (o : Options) (source : String) : Outcome :=
  let scan := Scan.ofSource source
  { exit := exitOk
    stdout := unlines (scan.tokens.map Token.describe)
    stderr := unlines (journalLines o (Journal.ofScan scan) ++
      lexicalErrorLines (scan.errors.map LexicalError.describe)) }

/-- Checks a script within a nesting limit and tells the result, in full or only
what is wrong. -/
def tell (o : Options) (limit : Int) (source : String) : Outcome :=
  let scan := Scan.ofSource source
  let pass := Pass.ofStream scan.stream limit
  let check := Check.ofRun (sourceName o.file) scan pass
  let journal := journalLines o
    (Journal.ofScan scan ++ Journal.ofPass pass ++ [Journal.ofCheck check])
  let exit := if check.ok then exitOk else exitFailed
  if o.quiet then
    { exit
      stdout := unlines (if check.ok then ["OK"] else [])
      stderr := unlines (journal ++ lexicalErrorLines check.lexicalErrors ++
        syntaxErrorLines check.syntaxErrors) }
  else
    { exit
      stdout := unlines [Report.render check (!o.noTokens)]
      stderr := unlines journal }

/-- Whether the check of a script has to hold a depth against the limit. Where
nothing may be nested, it reports the first time that it does. -/
def needsLimit (source : String) : Bool :=
  (Pass.ofStream (Scan.ofSource source).stream 0).diagnostics.any fun d =>
    d.fault? == some .nestingTooDeep

/-- Checks a script without a nesting limit. The result of a check that needs
none is the same under every limit. -/
def tellUnlimited (o : Options) (source : String) : Except Breakdown Outcome :=
  if needsLimit source then .error .missingLimit else .ok (tell o 0 source)

/-- Answers a request for a script, once it was read. -/
def respond (o : Options) (source : Except ReadFault String) : Except Breakdown Outcome :=
  match source with
  | .error fault =>
    .ok
      { exit := exitNoSource
        stdout := ""
        stderr := unlines
          ["error: cannot read " ++ sourceName o.file ++ ": " ++ fault.message] }
  | .ok text =>
    if o.debug then .ok (dump o text)
    else
      match o.limit? with
      | some limit => .ok (tell o limit text)
      | none => tellUnlimited o text

/-- What a call needs before it can answer. -/
inductive Plan
  | done (outcome : Outcome)
  | stdin (options : Options)
  | file (options : Options)
  deriving DecidableEq, Repr

/-- What the arguments ask for. -/
def Plan.ofArguments (args : List String) : Plan :=
  match Request.ofArguments args with
  | .error misuse => .done ⟨exitNoSource, "", unlines misuse.lines⟩
  | .ok .help => .done ⟨exitOk, unlines helpLines, ""⟩
  | .ok (.check o) => if o.file = stdinFile then .stdin o else .file o

/-- The script that was read under a path. Files are opened so that each line
ends in a line feed. -/
def sourceOfFile (path : String) (content : Except SystemFault Bytes) :
    Except ReadFault String :=
  match content with
  | .error fault => .error (.system fault path)
  | .ok bytes => decodeSource .unified bytes

/-- One call of the command over files held in memory. The command does not open
the standard input itself, so what becomes of the line ends in it is up to the
caller. That of a process on a POSIX system keeps them; a stream of text that is
put in its place unifies them unless it is told not to. -/
def run (args : List String) (stdin : Bytes) (files : SourceTree)
    (ends : Text.LineEnds := .unified) : Except Breakdown Outcome :=
  match Plan.ofArguments args with
  | .done outcome => .ok outcome
  | .stdin o => respond o (decodeSource ends stdin)
  | .file o =>
    if '\x00' ∈ o.file.toList then .error (.unusablePath o.file)
    else respond o (sourceOfFile o.file (files.read o.file))

end SwitchScript.Command
