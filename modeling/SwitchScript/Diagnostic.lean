import SwitchScript.Token.Basic

/-!
# Diagnostics

A run over a token stream leaves two kinds of remarks: syntax errors, and
notices about constructs that were stepped over. Each remark is made at a
*site*, the token at the cursor together with its index. What a remark says
depends on its cause alone; the place and the lexeme shown are those of the
token at the site.
-/

namespace SwitchScript

/-- The cause of a syntax error. -/
inductive Fault
  | nestingTooDeep
  | caseOutsideSwitch
  | defaultOutsideSwitch
  | unmatchedBrace
  | unrecognizedStatement
  | missingSwitch
  | missingSwitchParen
  | unclosedSwitchParen
  | missingSwitchBrace
  | missingClause
  | unclosedSwitchBrace
  | missingCase
  | missingCaseColon
  | missingDefault
  | missingDefaultColon
  | missingIdentifier
  | missingMember
  | unclosedBracket
  | unclosedParen
  | invalidExpression
  /-- A cause in the words of a caller that drives the rules one by one. -/
  | other (words : String)
  deriving DecidableEq, Repr

def Fault.message : Fault → String
  | nestingTooDeep => "nesting too deep"
  | caseOutsideSwitch => "'case' outside a switch block or after 'default'"
  | defaultOutsideSwitch => "'default' outside a switch block or repeated"
  | unmatchedBrace => "unmatched '\x7d'"
  | unrecognizedStatement => "unrecognized statement"
  | missingSwitch => "'switch' expected"
  | missingSwitchParen => "'(' expected after 'switch'"
  | unclosedSwitchParen => "')' expected after the switch expression"
  | missingSwitchBrace => "'\x7b' expected to open the switch block"
  | missingClause => "at least one case/default expected"
  | unclosedSwitchBrace => "'\x7d' expected to close the switch block"
  | missingCase => "'case' expected"
  | missingCaseColon => "':' expected after the case value"
  | missingDefault => "'default' expected"
  | missingDefaultColon => "':' expected after 'default'"
  | missingIdentifier => "identifier expected"
  | missingMember => "identifier expected after '.'"
  | unclosedBracket => "']' expected"
  | unclosedParen => "')' expected"
  | invalidExpression => "invalid expression"
  | other words => words

/-- Where a remark is made: a token and its index in the stream. -/
structure Site where
  index : Nat
  token : Token
  deriving DecidableEq, Repr

/-- A remark about the token at a site. -/
inductive Diagnostic
  /-- The script breaks a rule. -/
  | error (site : Site) (fault : Fault)
  /-- A construct was stepped over without analysis. -/
  | notice (site : Site)
  deriving DecidableEq, Repr

namespace Diagnostic

def site : Diagnostic → Site
  | error site _ => site
  | notice site => site

def isError : Diagnostic → Bool
  | error .. => true
  | notice _ => false

def fault? : Diagnostic → Option Fault
  | error _ fault => some fault
  | notice _ => none

def describe : Diagnostic → String
  | error ⟨_, t⟩ fault =>
    t.position.label ++ ": " ++ fault.message ++ " (found '" ++ t.text ++ "')"
  | notice ⟨_, t⟩ =>
    t.position.label ++ ": '" ++ t.text ++ "' statement skipped (only switch/case is analysed)"

end Diagnostic

end SwitchScript
