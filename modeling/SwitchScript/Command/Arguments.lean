import SwitchScript.Command.Usage
import SwitchScript.Pass
import SwitchScript.Text.Integer

/-!
# Command lines

A command line is read in two steps. First each argument up to a separator
`--` is classified by itself: as an option, perhaps with a value after an
equals sign, or as a plain argument. Long options may be abbreviated as long as
only one fits. Then the arguments are taken in order: the nesting limit takes
the next argument if it is plain, the first other plain argument is the file,
and whatever nothing takes is left over. Misuse is reported where it is met;
only a missing file and left-over arguments wait for the end.

A separator never counts as a value. Where it is all that the nesting limit was
given, there is no limit.
-/

namespace SwitchScript.Command

/-- What to do, and how to tell about it. -/
structure Options where
  file : String
  limit? : Option Int
  debug : Bool
  noTokens : Bool
  quiet : Bool
  verbose : Bool
  deriving DecidableEq, Repr

/-- What a command line asks for. -/
inductive Request
  | help
  | check (options : Options)
  deriving DecidableEq, Repr

/-- The argument after which everything is plain. -/
def separator : String := "--"

/-! ## Classifying arguments -/

/-- An argument by itself. -/
inductive Argument
  | plain (text : String)
  /-- An option, with the value after its equals sign if there is one. -/
  | option (option : Opt) (value? : Option String)
  /-- A short help option with characters glued to it. -/
  | helpCluster (glued : List Char)
  /-- What looks like an option but is none. -/
  | unknown (text : String)
  deriving DecidableEq, Repr

/-- The part before the first equals sign, and the part after it if there is
one. -/
def splitValue (cs : List Char) : List Char × Option String :=
  match cs.dropWhile (· != '=') with
  | [] => (cs, none)
  | _ :: value => (cs.takeWhile (· != '='), some (String.ofList value))

def allDecimal (cs : List Char) : Bool := cs.all Unicode.isDecimal

/-- Whether characters are a number without a sign: digits, or a point with
digits after it and perhaps before it. A line feed at the very end is let
pass. -/
def isNumber (cs : List Char) : Bool :=
  let cs := if cs.getLast? = some '\n' then cs.dropLast else cs
  match cs.dropWhile Unicode.isDecimal with
  | [] => !cs.isEmpty
  | '.' :: digits => !digits.isEmpty && allDecimal digits
  | _ => false

/-- Classifies an argument that starts with a minus sign and is no known
option. Negative numbers and texts with a space in them are plain. -/
def classifyOther (text : String) : Argument :=
  match text.toList with
  | '-' :: rest =>
    if rest.isEmpty || isNumber rest || rest.contains ' ' then .plain text else .unknown text
  | _ => .plain text

def classify (text : String) : Except Misuse Argument :=
  match text.toList with
  | '-' :: '-' :: _ =>
    let (name, value?) := splitValue text.toList
    match Opt.all.filter fun o => name.isPrefixOf o.name.toList with
    | [] => .ok (classifyOther text)
    | [o] => .ok (.option o value?)
    | fits => .error (.ambiguous text fits)
  | ['-', 'h'] => .ok (.option (.flag .help) none)
  | '-' :: 'h' :: '=' :: glued => .ok (.helpCluster glued)
  | '-' :: 'h' :: glued => .ok (.helpCluster glued)
  | _ => .ok (classifyOther text)

/-- Reads what is glued to a short help option, less an equals sign right after
it. Each character is a short option again, and help is the only one; whatever
else is there counts as a value, and so does nothing at all. -/
def readCluster (glued : List Char) : Except Misuse Unit :=
  let value := glued.dropWhile (· = 'h')
  if glued.isEmpty || !value.isEmpty then .error (.ignoredValue .help (String.ofList value))
  else .ok ()

/-! ## Taking arguments in order -/

/-- What was taken so far. -/
structure Taken where
  file? : Option String
  limit? : Option Int
  debug : Bool
  noTokens : Bool
  quiet : Bool
  verbose : Bool
  /-- What nothing took, the latest one first. -/
  leftOver : List String
  deriving DecidableEq, Repr

namespace Taken

def initial : Taken := ⟨none, some Pass.defaultLimit, false, false, false, false, []⟩

def leave (t : Taken) (texts : List String) : Taken :=
  { t with leftOver := texts.reverse ++ t.leftOver }

def setFlag (t : Taken) : Flag → Taken
  | .help => t
  | .debug => { t with debug := true }
  | .noTokens => { t with noTokens := true }
  | .quiet => { t with quiet := true }
  | .verbose => { t with verbose := true }

def setLimit (t : Taken) (value : String) : Except Misuse Taken :=
  if value = separator then .ok { t with limit? := none }
  else
    match Text.readInteger? value with
    | none => .error (.invalidInteger value)
    | some n => .ok { t with limit? := some n }

/-- The request, once all arguments were looked at. -/
def finish (t : Taken) : Except Misuse Request :=
  match t.file? with
  | none => .error .missingFile
  | some file =>
    if t.leftOver.isEmpty then
      .ok (.check ⟨file, t.limit?, t.debug, t.noTokens, t.quiet, t.verbose⟩)
    else .error (.unrecognized t.leftOver.reverse)

/-- Takes what follows the separator, where everything is plain. The separator
itself vanishes if the file is the last argument before it or the first one
after it. -/
def takeRest (t : Taken) (fileJustTaken : Bool) (rest : List String) : Taken :=
  match t.file?, rest with
  | none, [] => t.leave [separator]
  | none, file :: more => ({ t with file? := some file }).leave more
  | some _, rest => if fileJustTaken then t.leave rest else t.leave (separator :: rest)

end Taken

/-- Takes the arguments before the separator, then those after it, if there is
one. -/
def takeAll (rest? : Option (List String)) (fileJustTaken : Bool) (t : Taken) :
    List Argument → Except Misuse Request
  | [] =>
    match rest? with
    | none => t.finish
    | some rest => (t.takeRest fileJustTaken rest).finish
  | .plain text :: more =>
    match t.file? with
    | none => takeAll rest? true { t with file? := some text } more
    | some _ => takeAll rest? false (t.leave [text]) more
  | .unknown text :: more => takeAll rest? false (t.leave [text]) more
  | .helpCluster glued :: _ => (readCluster glued).map fun _ => .help
  | .option (.flag flag) (some value) :: _ => .error (.ignoredValue flag value)
  | .option (.flag flag) none :: more =>
    if flag = .help then .ok .help else takeAll rest? false (t.setFlag flag) more
  | .option .maxDepth (some value) :: more =>
    match t.setLimit value with
    | .error misuse => .error misuse
    | .ok t => takeAll rest? false t more
  | .option .maxDepth none :: .plain value :: more =>
    match t.setLimit value with
    | .error misuse => .error misuse
    | .ok t => takeAll rest? false t more
  | .option .maxDepth none :: _ => .error .missingValue

/-- The arguments before a separator, and those after it if there is one. -/
def splitSeparator : List String → List String × Option (List String)
  | [] => ([], none)
  | arg :: args =>
    if arg = separator then ([], some args)
    else
      let (before, after?) := splitSeparator args
      (arg :: before, after?)

/-- Reads a command line. -/
def Request.ofArguments (args : List String) : Except Misuse Request := do
  let (before, after?) := splitSeparator args
  takeAll after? false .initial (← before.mapM classify)

end SwitchScript.Command
