import SwitchScript.Main
import SwitchScript.Proofs.Growth
import SwitchScript.Proofs.Language.Form
import SwitchScript.Proofs.Language.Derivation
import SwitchScript.Proofs.Language.Word
import SwitchScript.Proofs.Language.Reading
import SwitchScript.Proofs.Language.Sound
import SwitchScript.Proofs.Language.First
import SwitchScript.Proofs.Language.Taking
import SwitchScript.Proofs.Language.Complete
import SwitchScript.Proofs.Acceptance
import SwitchScript.Proofs.EndMark
import SwitchScript.Proofs.Failure
import SwitchScript.Proofs.Lockstep
import SwitchScript.Proofs.FirstError
import SwitchScript.Proofs.Price
import SwitchScript.Proofs.Aftermath
import SwitchScript.Proofs.Verdict
import SwitchScript.Proofs.Termination
import SwitchScript.Proofs.Remarks
import SwitchScript.Proofs.NestingLimit
import SwitchScript.Proofs.Pieces.Quoted
import SwitchScript.Proofs.Pieces.Number
import SwitchScript.Proofs.Pieces.Munch
import SwitchScript.Proofs.Pieces.Partition
import SwitchScript.Proofs.Pieces.Boundary
import SwitchScript.Proofs.Pieces.Findings
import SwitchScript.Proofs.Pieces.Places
import SwitchScript.Proofs.Pieces.Lines
import SwitchScript.Proofs.Pieces.Recovery
import SwitchScript.Proofs.Pieces.Rebuild
import SwitchScript.Proofs.Placed
import SwitchScript.Proofs.Alike
import SwitchScript.Proofs.KindsDecide
import SwitchScript.Proofs.BlankLines
import SwitchScript.Proofs.Sequel
import SwitchScript.Proofs.Pieces.Layout
import SwitchScript.Proofs.Construct
import SwitchScript.Proofs.Calls
import SwitchScript.Proofs.OneLine
import SwitchScript.Proofs.ReportContent
import SwitchScript.Proofs.Decoding
import SwitchScript.Proofs.Modes
import SwitchScript.Proofs.Precedence
import SwitchScript.Proofs.ConstructEnd
import SwitchScript.Proofs.FirstEnd
import SwitchScript.Proofs.Pieces.QuoteEnd
import SwitchScript.Proofs.Brackets
import SwitchScript.Proofs.RemarkOrder
import SwitchScript.Proofs.StatementProgress
