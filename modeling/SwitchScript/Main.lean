import SwitchScript.Command.Session

/-!
# The command

Reads what the session asks for and prints what it answers. The standard input is
that of the process, which hands on the ends of lines as they stand.
-/

namespace SwitchScript.Command

/-- Why the system did not open or read a file. The error number tells a
directory in the place of a file from a file in the place of a directory. -/
def systemFaultOf : IO.Error → SystemFault
  | .noFileOrDirectory .. => .noEntry
  | .permissionDenied .. => .permissionDenied
  | .inappropriateType _ code _ =>
    if code.toNat = SystemFault.isDirectory.number then .isDirectory else .notDirectory
  | .invalidArgument .. => .nameTooLong
  | e => ⟨0, toString e⟩

def readFile (path : String) : IO (Except SystemFault Bytes) := do
  try
    let content ← IO.FS.readBinFile path
    return .ok content.toList
  catch e =>
    return .error (systemFaultOf e)

def readStdin : IO Bytes := do
  let content ← (← IO.getStdin).readBinToEnd
  return content.toList

def Outcome.print (o : Outcome) : IO UInt32 := do
  (← IO.getStdout).putStr o.stdout
  (← IO.getStderr).putStr o.stderr
  return o.exit.toUInt32

/-- Prints the answer to a call, or why there is none. -/
def printAnswer : Except Breakdown Outcome → IO UInt32
  | .ok outcome => outcome.print
  | .error breakdown => do
    (← IO.getStderr).putStr (unlines [breakdown.message])
    return exitFailed.toUInt32

end SwitchScript.Command

open SwitchScript.Command in
def main (args : List String) : IO UInt32 := do
  match Plan.ofArguments args with
  | .done outcome => outcome.print
  | .stdin o => printAnswer (respond o (decodeSource .kept (← readStdin)))
  | .file o => printAnswer (respond o (sourceOfFile o.file (← readFile o.file)))
