import SwitchScript.Grammar.Budget

/-!
# Rules as functions

Since every rule has an answer from every state, rules are functions on passes.
The one that settles the outcome, applied to a fresh pass, runs a whole stream.
-/

namespace SwitchScript.Pass

def follow (rule : Rule) (p : Pass) : Pass :=
  (p.perform? (.follow rule)).get (p.perform?_rule_isSome rule)

theorem perform?_follow (rule : Rule) (p : Pass) :
    p.perform? (.follow rule) = some (p.follow rule) :=
  (Option.some_get _).symm

/-- The state after a run over a whole stream. -/
def ofStream (s : Stream) (limit : Int) : Pass :=
  (start s limit).follow .verdict

end SwitchScript.Pass
