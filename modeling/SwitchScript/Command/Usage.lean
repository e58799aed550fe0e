import SwitchScript.Text.Quoted

/-!
# Usage

The options of the command, the text that explains them, and what can be wrong
with a command line.
-/

namespace SwitchScript.Command

inductive Flag
  | help
  | debug
  | noTokens
  | quiet
  | verbose
  deriving DecidableEq, Repr

/-- All options: the flags, and the nesting limit, which takes a value. -/
inductive Opt
  | flag (flag : Flag)
  | maxDepth
  deriving DecidableEq, Repr

namespace Opt

def all : List Opt :=
  [flag .help, flag .debug, maxDepth, flag .noTokens, flag .quiet, flag .verbose]

def name : Opt → String
  | flag .help => "--help"
  | flag .debug => "--debug"
  | flag .noTokens => "--no-tokens"
  | flag .quiet => "--quiet"
  | flag .verbose => "--verbose"
  | maxDepth => "--max-depth"

def title : Opt → String
  | flag .help => "-h/--help"
  | o => o.name

end Opt

/-- What can be wrong with a command line. -/
inductive Misuse
  /-- An abbreviation fits several options. -/
  | ambiguous (argument : String) (fits : List Opt)
  | ignoredValue (flag : Flag) (value : String)
  | missingValue
  | invalidInteger (value : String)
  | missingFile
  | unrecognized (arguments : List String)
  deriving DecidableEq, Repr

def Misuse.message : Misuse → String
  | ambiguous argument fits =>
    "ambiguous option: " ++ argument ++ " could match " ++ ", ".intercalate (fits.map Opt.name)
  | ignoredValue flag value =>
    "argument " ++ (Opt.flag flag).title ++ ": ignored explicit argument " ++ Text.quote value
  | missingValue => "argument " ++ Opt.maxDepth.title ++ ": expected one argument"
  | invalidInteger value =>
    "argument " ++ Opt.maxDepth.title ++ ": invalid int value: " ++ Text.quote value
  | missingFile => "the following arguments are required: file"
  | unrecognized arguments => "unrecognized arguments: " ++ " ".intercalate arguments

/-- The name under which the command is called. -/
def programName : String := "switch_checker.py"

def usageLines : List String :=
  ["usage: " ++ programName ++ " [-h] [--debug] [--max-depth MAX_DEPTH] [--no-tokens]",
    "                         [--quiet] [--verbose]",
    "                         file"]

def helpLines : List String :=
  usageLines ++
  ["",
    "switch/case syntax checker",
    "",
    "positional arguments:",
    "  file                  source file to check ('-' reads stdin)",
    "",
    "options:",
    "  -h, --help            show this help message and exit",
    "  --debug               dump token stream and exit",
    "  --max-depth MAX_DEPTH",
    "                        nesting limit for parens, brackets, calls and switches",
    "  --no-tokens           omit the token table from the report",
    "  --quiet               print only OK or the diagnostics",
    "  --verbose             enable debug logging"]

/-- The answer to a misuse. -/
def Misuse.lines (m : Misuse) : List String :=
  usageLines ++ [programName ++ ": error: " ++ m.message]

end SwitchScript.Command
