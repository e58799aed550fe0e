import SwitchScript.Grammar.Rule
import SwitchScript.Pass

/-!
# Running the grammar

`Move.run` says what each move does to a pass. Rules call each other, and
repetitions go round, so a run is given a budget: the answer `none` means that
the budget was too small, never that the script is wrong. `Pass.perform?`
computes a budget from the tokens ahead.
-/

namespace SwitchScript

namespace Move

/-- Repeats a step, at most `n - 1` times, as long as the run is valid and the
current kind passes the test. -/
def loop (test : Kind → Bool) (body : Pass → Option Pass) : Nat → Pass → Option Pass
  | 0, _ => none
  | n + 1, p =>
    if p.valid && test p.kind then
      match body p with
      | none => none
      | some q => loop test body n q
    else some p

/-- What a move does, given what the rules do and how often to go round. -/
def run (call : Rule → Pass → Option Pass) (budget : Nat) : Move → Pass → Option Pass
  | stay, p => some p
  | advance, p => some p.advance
  | skipNewlines, p => some p.skipNewlines
  | skipConstruct, p => some p.skipConstruct
  | report fault, p => some (p.report fault)
  | reject fault, p => some (p.report fault).advance
  | demand test fault, p => some (if test p.kind then p else p.report fault)
  | require kind fault next, p =>
    if p.kind = kind then next.run call budget p.advance else some (p.report fault)
  | both first second, p =>
    match first.run call budget p with
    | none => none
    | some q => second.run call budget q
  | peek choose, p => (choose p.kind).run call budget p
  | once test body, p => if p.valid && test p.kind then body.run call budget p else some p
  | repeated test body, p => loop test (body.run call budget) budget p
  | nest inner, p =>
    if p.depth ≥ p.limit then some (p.report .nestingTooDeep)
    else
      match inner.run call budget { p with depth := p.depth + 1 } with
      | none => none
      | some q => some { q with depth := q.depth - 1 }
  | judge body, p =>
    match p.verdict? with
    | some _ => some p
    | none =>
      match body.run call budget p with
      | none => none
      | some q => some q.settle
  | follow rule, p => call rule p

end Move

/-- What a rule does: its script, with one unit of the budget spent. -/
def Rule.run : Nat → Rule → Pass → Option Pass
  | 0, _, _ => none
  | n + 1, rule, p => rule.script.run (Rule.run n) n p

namespace Pass

/-- A budget for any move. Between two tokens no more than a fixed number of
rules can be entered, since every way round the grammar consumes a token. -/
def budget (p : Pass) : Nat :=
  32 * (p.cursor.ahead.length + 2)

/-- Makes a move. There is no answer if the move goes round without end. -/
def perform? (m : Move) (p : Pass) : Option Pass :=
  m.run (Rule.run p.budget) p.budget p

end Pass

end SwitchScript
