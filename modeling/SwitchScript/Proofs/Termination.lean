import SwitchScript.Proofs.Moment

/-!
# Every run ends

`Pass.perform?` answers within a budget that it computes itself, and so it is
silent about runs that are left to themselves. Moments have no budget: a run
goes from one to the next for as long as something is left to do, and what has
to be shown is that it does not do so for ever (`Moment.Terminates`).

The measure is the one behind the budget. A rule that consumes nothing only
follows rules of a lower rank, every round of a loop consumes a token or makes
the run invalid, and no token comes back. So the budget is enough for an
answer, the answer is replayed moment by moment, and since a moment has at most
one next moment, no other run starts where this one does.

Two moves outside the rules end as well, on a condition that cannot be dropped:
the body of a clause has to end at an end mark, and an end mark must not be an
operator. `not_terminates_clauseBody` is a body that goes round for ever.

A moment takes the way over line breaks and the way over a construct for one
step each. Both are loops over tokens, and taken round by round they end where
the step leads (`Pass.runsTo_skipNewlines`, `Pass.runsTo_skipConstruct`), so they
do not go on for ever either (`RunsTo.acc`).
-/

namespace SwitchScript

/-! ## Runs of steps -/

/-- Steps lead from one state to another, and no step leads on from there. -/
structure RunsTo {σ : Type} (next? : σ → Option σ) (s q : σ) : Prop where
  reaches : Relation.ReflTransGen (fun s t => next? s = some t) s q
  stops : next? q = none

namespace RunsTo

variable {σ : Type} {next? : σ → Option σ} {s t q : σ}

theorem stop (h : next? s = none) : RunsTo next? s s := ⟨.refl, h⟩

theorem head (hnext : next? s = some t) (h : RunsTo next? t q) : RunsTo next? s q :=
  ⟨.head hnext h.reaches, h.stops⟩

/-- A run that can come to an end has no other way to go. -/
theorem acc (h : RunsTo next? s q) : Acc (fun t s => next? s = some t) s := by
  obtain ⟨hreaches, hstops⟩ := h
  induction hreaches using Relation.ReflTransGen.head_induction_on with
  | refl => exact Acc.intro _ fun t ht => absurd (hstops.symm.trans ht) (by simp)
  | @head s t hnext _ ih =>
      refine Acc.intro s fun t' ht' => ?_
      obtain rfl := Option.some.inj (hnext.symm.trans ht')
      exact ih

end RunsTo

namespace Moment

/-- No infinite run starts at the moment. -/
def Terminates (c : Moment) : Prop := Acc (fun d c => c.next? = some d) c

theorem Reaches.terminates {c : Moment} {q : Pass} (h : c.Reaches ⟨[], q⟩) : c.Terminates :=
  RunsTo.acc ⟨h, rfl⟩

theorem Terminates.of_reaches {c d : Moment} (hc : c.Terminates) (h : c.Reaches d) :
    d.Terminates := by
  induction h with
  | refl => exact hc
  | tail _ hnext ih => exact ih.inv hnext

/-- A run that comes back to where it was goes on for ever. -/
theorem not_terminates_of_cycle {c d : Moment} (hnext : c.next? = some d) (h : d.Reaches c) :
    ¬ c.Terminates := by
  intro hterm
  have hcycle : Relation.TransGen (fun d c : Moment => c.next? = some d) c c :=
    Relation.transGen_swap.mpr (Relation.TransGen.head' hnext h)
  have hacc := Acc.transGen hterm
  clear hterm hnext h
  induction hacc with
  | intro c _ ih => exact ih c hcycle hcycle

/-- A loop whose round changes nothing goes round for ever. -/
theorem not_terminates_repeated {test : Kind → Bool} {body : Move} {p : Pass} {ts : List Task}
    (hgo : (p.valid && test p.kind) = true) (h : body.Makes p p) :
    ¬ Terminates ⟨.make (.repeated test body) :: ts, p⟩ := by
  refine not_terminates_of_cycle rfl ?_
  simp only [Task.perform, hgo, if_true]
  exact h _

end Moment

open Moment

namespace Move

/-- A move ends: left to itself its run is finite, and the budget that is
computed for it suffices to find the last state. -/
structure Finishes (m : Move) (p : Pass) : Prop where
  terminates : Terminates ⟨[.make m], p⟩
  answers : ∃ q, p.perform? m = some q ∧ Reaches ⟨[.make m], p⟩ ⟨[], q⟩

theorem Ends.finishes {m : Move} {p : Pass}
    (h : Ends (Rule.run p.budget) p.budget p.size m) : m.Finishes p := by
  obtain ⟨q, hq, -⟩ := h p (Nat.le_refl _)
  have hreach : Reaches ⟨[.make m], p⟩ ⟨[], q⟩ :=
    makes_of_run (makes_of_ruleRun p.budget) hq []
  exact ⟨hreach.terminates, q, hq, hreach⟩

/-- The computed budget is what any rule needs. -/
theorem need_le_budget (rule : Rule) (p : Pass) : rule.need p.size ≤ p.budget := by
  have hrank : rule.rank ≤ 13 := by cases rule <;> decide
  simp only [Rule.need, Pass.size, Pass.budget]
  omega

theorem ends_follow (rule : Rule) (p : Pass) :
    Ends (Rule.run p.budget) p.budget p.size (follow rule) :=
  (suffices_all p.budget).ends rule p.size (need_le_budget rule p)

end Move

open Move

/-- From every state, every rule ends, and so do the body of a clause that ends
at an end mark and a chain of operands whose operators are no end marks. -/
theorem runs_finish (p : Pass) :
    (∀ rule : Rule, (follow rule).Finishes p) ∧
    (∀ ends : Kind → Bool, ends .eof = true → (clauseBody ends).Finishes p) ∧
    ∀ (rule : Rule) (isOperator : Kind → Bool), isOperator .eof = false →
      (chain (follow rule) isOperator).Finishes p := by
  have hrounds : p.size + 2 ≤ p.budget := by
    simp only [Pass.size, Pass.budget]
    omega
  refine ⟨fun rule => ?_, fun ends heof => ?_, fun rule isOperator heof => ?_⟩
  · exact (ends_follow rule p).finishes
  · exact ((suffices_all p.budget).ends_clauseBody (need_le_budget .statement p) heof).finishes
  · exact (ends_chain heof (ends_follow rule p) hrounds).finishes

/-- Two end marks after a brace that closes nothing. -/
def strayBrace : Pass :=
  ⟨⟨[], [⟨⟨"\x7d", ⟨1, 1⟩⟩, .rbrace⟩, ⟨⟨"", ⟨1, 2⟩⟩, .eof⟩], ⟨"", ⟨1, 2⟩⟩⟩, true, 0, 0, [], none⟩

theorem runs_finish_strayBrace :
    endsCase .eof = true ∧ (clauseBody endsCase).Finishes strayBrace ∧
      (Kind.eof == Kind.rbrace) = false ∧
      (chain (follow .statement) (· == .rbrace)).Finishes strayBrace := by
  have hends : endsCase .eof = true := rfl
  have hoperator : (Kind.eof == Kind.rbrace) = false := rfl
  exact ⟨hends, (runs_finish strayBrace).2.1 endsCase hends, hoperator,
    (runs_finish strayBrace).2.2 .statement (· == .rbrace) hoperator⟩

/-- At an end mark a statement is over before it has begun, so a body that does
not end there goes round for ever. -/
theorem not_terminates_clauseBody {p : Pass} (hvalid : p.valid = true) (hk : p.kind = .eof)
    {ends : Kind → Bool} (heof : ends .eof = false) :
    ¬ Terminates ⟨[.make (clauseBody ends)], p⟩ := by
  have hlines : skipNewlines.Makes p p := by
    have hskip : p.skipNewlines = p := Pass.skipNewlines_of_kind_ne (by rw [hk]; decide)
    intro ts
    apply Reaches.head
    show Reaches ⟨ts, p.skipNewlines⟩ _
    rw [hskip]
    exact Reaches.refl _
  have hstatement : (follow .statement).Makes p p := by
    refine makes_follow (hlines.both (makes_peek ?_))
    rw [hk]
    exact fun ts => Reaches.head (Reaches.refl _)
  have hgo : (p.valid && (!ends p.kind && p.kind != .kwBreak)) = true := by
    rw [hvalid, hk, heof]
    rfl
  intro hterm
  have hbody := hterm.of_reaches (Reaches.head (hlines _))
  exact not_terminates_repeated hgo (hstatement.both hlines)
    (hbody.of_reaches (Reaches.head (Reaches.refl _)))

/-! ## Steps that are loops -/

namespace Pass

/-- One round of the way over line breaks. -/
def newlineRound? (p : Pass) : Option Pass :=
  if p.kind = .newline then some p.advance else none

theorem skipNewlines_advance {p : Pass} (h : p.kind = .newline) :
    p.advance.skipNewlines = p.skipNewlines := by
  obtain ⟨⟨behind, ahead, stop⟩, valid, depth, limit, diagnostics, verdict?⟩ := p
  cases ahead with
  | nil => exact absurd h (by simp [kind, Cursor.kind, Cursor.current])
  | cons t rest =>
      have ht : t.isNewline = true := (Cursor.isNewline_iff rfl).mpr h
      have hlength : ((t :: rest).takeWhile Token.isNewline).length =
          1 + (rest.takeWhile Token.isNewline).length := by
        rw [List.takeWhile_cons_of_pos ht, List.length_cons, Nat.add_comm]
      simp only [skipNewlines, Cursor.skipNewlines, hlength, ← Cursor.forward_forward]
      rfl

/-- Round by round, the way over line breaks ends where the step over them leads. -/
theorem runsTo_skipNewlines (p : Pass) : RunsTo newlineRound? p p.skipNewlines := by
  by_cases hk : p.kind = .newline
  · have heof : p.kind ≠ .eof := by
      rw [hk]
      decide
    have hless : p.advance.size < p.size := size_advance_lt heof
    rw [← skipNewlines_advance hk]
    exact .head (if_pos hk) (runsTo_skipNewlines p.advance)
  · rw [skipNewlines_of_kind_ne hk]
    exact .stop (if_neg hk)
termination_by p.size

end Pass

/-- Where the way over a construct that is not analysed has got to, and how many
braces and parentheses are open there. -/
structure Search where
  pass : Pass
  braces : Int
  parens : Int

namespace Search

/-- The kind of the token before the current one. Before the first token it is
that of the last one. -/
def before (s : Search) : Kind := (s.pass.cursor.behind.headD s.pass.cursor.stop.asStop).kind

/-- The current token is counted. -/
def count (s : Search) : Search :=
  { s with
    braces := s.braces + Pass.braceStep s.pass.kind
    parens := s.parens + Pass.parenStep s.pass.kind }

/-- The way ends at the current token, which has been counted. -/
def Halts (s : Search) : Prop :=
  s.braces < 0 ∨ (s.braces = 0 ∧ s.parens = 0 ∧ Pass.resumes s.before s.pass.kind = true)

instance (s : Search) : Decidable s.Halts := inferInstanceAs (Decidable (_ ∨ _ ∧ _ ∧ _))

/-- One round: the current token is counted and passed over, unless the way ends
at it. -/
def round? (s : Search) : Option Search :=
  if s.pass.kind ≠ .eof ∧ s.pass.valid = true ∧ ¬ s.count.Halts then
    some { s.count with pass := s.pass.advance }
  else none

/-- What is left of the way is what `Pass.skipLength` says, given the token
before. -/
theorem exists_runsTo {ts : List Token} : ∀ {s : Search}, s.pass.cursor.ahead = ts →
    s.pass.valid = true → ∃ q, RunsTo round? s q ∧ q.pass = { s.pass with
      cursor := s.pass.cursor.forward (Pass.skipLength s.braces s.parens s.before ts) } := by
  induction ts with
  | nil =>
      intro s hahead _
      have hnone : s.round? = none := if_neg fun hgo => Cursor.ahead_ne_nil hgo.1 hahead
      exact ⟨s, .stop hnone, rfl⟩
  | cons t rest ih =>
      intro s hahead hvalid
      rw [Pass.skipLength, ← show s.pass.kind = t.kind from Cursor.kind_of_ahead hahead]
      split
      · rename_i hstop
        have hnone : s.round? = none := if_neg fun hgo => hstop.elim hgo.1 hgo.2.2
        exact ⟨s, .stop hnone, rfl⟩
      · rename_i hgo
        obtain ⟨heof, hhalts⟩ := not_or.mp hgo
        let next : Search := { s.count with pass := s.pass.advance }
        have hnext : s.round? = some next := if_pos ⟨heof, hvalid, hhalts⟩
        have hbefore : next.before = s.pass.kind := by
          rw [show s.pass.kind = t.kind from Cursor.kind_of_ahead hahead, before]
          show (((s.pass.cursor.ahead.take 1).reverse ++ _).headD _).kind = _
          rw [hahead]
          rfl
        obtain ⟨q, hruns, hq⟩ := ih (s := next) (congrArg (List.drop 1) hahead) hvalid
        refine ⟨q, .head hnext hruns, ?_⟩
        rw [hq, hbefore, Nat.add_comm _ 1, ← Cursor.forward_forward]
        rfl

end Search

/-- Round by round, the way over a construct ends where the step over it leads. -/
theorem Pass.runsTo_skipConstruct (p : Pass) :
    ∃ q, RunsTo Search.round? ⟨p.notify.advance, 0, 0⟩ q ∧ q.pass = p.skipConstruct := by
  cases hvalid : p.valid with
  | false =>
      have hinvalid : ¬ p.notify.advance.valid = true := by simp [advance, notify, hvalid]
      refine ⟨_, .stop (if_neg fun hgo => hinvalid hgo.2.1), ?_⟩
      rw [skipConstruct, if_neg hinvalid]
  | true =>
      obtain ⟨q, hruns, hq⟩ := Search.exists_runsTo (s := ⟨p.notify.advance, 0, 0⟩) rfl hvalid
      refine ⟨q, hruns, ?_⟩
      rw [skipConstruct, if_pos (show p.notify.advance.valid = true from hvalid), hq]
      -- the first look back is at the token that the step starts at
      obtain ⟨⟨behind, ahead, stop⟩, valid, depth, limit, diagnostics, verdict?⟩ := p
      cases ahead with
      | nil => rfl
      | cons t rest => rfl

end SwitchScript
