import SwitchScript.Proofs.Language.Sound
import SwitchScript.Proofs.Language.Taking

/-!
# The rules take the words of their forms

Every rule takes the words of the form that it reads. `Kind.pull` ranks the
kinds by how tightly they bind what is before them to what comes after, and an
operand is taken as a whole before any kind that pulls less than its own
operators do. That is the case wherever the grammar has an operand: what may
follow one is an operator of a lower rank, a bracket that closes, or the start
of the next statement.

Statements are taken together with the line breaks after them, so that a run
of statements finds the next one at once. The induction is on the budget, like
the one for reading.
-/

namespace SwitchScript

/-- How tightly a kind joins what is before it to what comes after. -/
def Kind.pull : Kind → Nat
  | dot | lbracket | lparen => 9
  | multiply | divide | modulo => 8
  | plus | minus => 7
  | less | lessEqual | greater | greaterEqual => 6
  | equal | notEqual => 5
  | kwAnd => 4
  | kwOr => 3
  | comma => 2
  | assign | plusAssign | minusAssign | increment | decrement => 1
  | _ => 0

/-- The kinds before which the words of a rule are taken as a whole. -/
def Rule.stops : Rule → Kind → Bool
  | verdict, _ | ignoredConstruct, _ | switchStatement, _ => true
  | program, k => k == .eof
  | statement, k => k != .newline && k.pull == 0
  | caseClause, k => Move.endsCase k
  | defaultClause, k => Move.endsDefault k
  | assignmentOrAccess, k => k.pull == 0
  | accessSuffixes, k | unary, k | primary, k => decide (k.pull < 9)
  | factor, k => decide (k.pull < 8)
  | term, k => decide (k.pull < 7)
  | comparison, k => decide (k.pull < 6)
  | equality, k => decide (k.pull < 5)
  | logicalAnd, k => decide (k.pull < 4)
  | logicalOr, k | expression, k => decide (k.pull < 3)
  | expressionList, k => decide (k.pull < 2)
  | argumentList, k => k == .rparen

namespace Move

theorem endsCase_of_opensClauseStatement : ∀ k : Kind, k.opensClauseStatement = true →
    endsCase k = false ∧ k ≠ .kwBreak ∧ Rule.statement.stops k = true := by
  decide

theorem stops_of_endsCase : ∀ k, endsCase k = true →
    Rule.statement.stops k = true ∧ k ≠ .newline := by
  decide

end Move

namespace Form

variable {d : Nat} {u y : List Kind}

/-- What the run makes of clauses covers all that there can be. -/
theorem derives_of_clauses (h : clauses.Derives d u y) :
    (star (symbol .caseClause) >> opt (symbol .defaultClause) >> token .rbrace).Derives d u y := by
  cases h with
  | seq hclauses hbrace =>
      cases hclauses with
      | left hcases =>
          cases hcases with
          | @seq _ _ _ u₁ _ _ hfirst hrest =>
              cases hrest with
              | @seq _ _ _ u₂ u₃ _ hcases hdefault =>
                  simp only [List.append_assoc] at hfirst hcases
                  rw [show u₁ ++ (u₂ ++ u₃) = (u₁ ++ u₂) ++ u₃ by rw [List.append_assoc],
                    List.append_assoc]
                  refine .seq (.again ?_ ?_) (.seq hdefault hbrace)
                  · simpa only [List.append_assoc] using hfirst
                  · simpa only [List.append_assoc] using hcases
      | right hdefault =>
          exact .seq (u := []) .done (.seq (.left hdefault) hbrace)

end Form

namespace Move

variable {b : Nat} {m : Move} {f g h : Form} {stop : Kind → Bool}

theorem Takes.follow {rule : Rule} (hm : Takes b stop rule.script f) :
    Takes (b + 1) stop (follow rule) f :=
  ⟨fun hrun => hm.taken hrun⟩

/-- A token, then a nested construct, then a token that closes it. -/
theorem Takes.enclosed {opener closer : Kind} {fault : Fault} {stop' : Kind → Bool}
    (hm : Takes b stop m f) (hcloser : stop closer = true) :
    Takes b stop' (advance >> m >> expect closer fault)
      (.token opener >> f >> .token closer) := by
  have hclose : Takes b stop' (expect closer fault) (.token closer) := takes_expect
  refine (hm.followed_by hclose (fun k hk => ?_) rfl).advance_both
  obtain rfl : k = closer := by simpa using hk
  exact hcloser

/-- What all rules take with a budget. -/
structure RulesTake (b : Nat) : Prop where
  rule : ∀ (rule : Rule) {f}, rule ≠ .statement → rule.form? = some f →
    Takes b rule.stops (follow rule) f
  statement : Takes b Rule.statement.stops (follow .statement >> skipNewlines)
    (.symbol .statement >> .lines)

namespace RulesTake

variable (ih : RulesTake b)

include ih

/-! ## Statements -/

theorem clauseBody {ends : Kind → Bool} (hends : ∀ k, ends k = true → endsCase k = true) :
    Takes b ends (clauseBody ends) (.symbol .body) := by
  have hnot (k : Kind) (hk : endsCase k = false) : ends k = false := by
    rw [Bool.eq_false_iff]
    intro hend
    exact absurd (hends k hend) (by simp [hk])
  have hround : Takes b Rule.statement.stops (follow .statement >> skipNewlines)
      (.symbol .clauseStatement >> .lines) :=
    ih.statement.imp fun _ _ _ hu =>
      hu.seq_imp fun _ _ _ => Form.derives_statement_of_clauseStatement
  have hstatements : Takes b (fun k => ends k || k == .kwBreak)
      (repeated (fun k => !ends k && k != .kwBreak) (follow .statement >> skipNewlines))
      (.star (.symbol .clauseStatement >> .lines)) := by
    refine hround.repeated (fun k hk => ?_) (fun k hk => ?_) (fun k hk => ?_)
    · obtain ⟨hcase, hne, -⟩ := endsCase_of_opensClauseStatement k (by simpa using hk)
      simp [hnot k hcase, hne]
    · exact (endsCase_of_opensClauseStatement k (by simpa using hk)).2.2
    · rcases (Bool.or_eq_true _ _).mp hk with hend | hbreak
      · exact ⟨(stops_of_endsCase k (hends k hend)).1, by simp [hend]⟩
      · rw [beq_iff_eq] at hbreak
        exact ⟨by rw [hbreak]; rfl, by simp [hbreak]⟩
  have hbreak : Takes b ends (advance >> skipNewlines) (.token .kwBreak >> .lines) :=
    (takes_skipNewlines (hnot _ rfl)).advance_both
  have hlast : Takes b ends (once (fun k => !ends k && k == .kwBreak) (advance >> skipNewlines))
      (.opt (.token .kwBreak >> .lines)) := by
    refine hbreak.once (fun k hk => ?_) (by simp) fun k hk => by simp [hk]
    obtain rfl : k = .kwBreak := by simpa using hk
    simp [hnot .kwBreak rfl]
  have hlines : Takes b (· != .newline) skipNewlines .lines := takes_skipNewlines rfl
  refine .symbol (hlines.both (hstatements.both hlast ?_ ?_) ?_ ?_)
  · exact fun k hk => by simp_all
  · exact fun _ k hk => by simp [hk]
  · decide
  · exact fun _ k hk => by simpa using (stops_of_endsCase k (hends k hk)).2

/-! ## Switch blocks -/

theorem clauses :
    Takes b stop (demand (fun k => k == .kwCase || k == .kwDefault) .missingClause >>
      repeated (· == .kwCase) (follow .caseClause) >>
      once (· == .kwDefault) (follow .defaultClause) >> expect .rbrace .unclosedSwitchBrace)
      .clauses := by
  have hcase : Takes b endsCase (follow .caseClause) (.symbol .caseClause) :=
    ih.rule .caseClause (by decide) rfl
  have hdefault : Takes b endsDefault (follow .defaultClause) (.symbol .defaultClause) :=
    ih.rule .defaultClause (by decide) rfl
  have hcases : Takes b (fun k => k == .kwDefault || k == .rbrace)
      (repeated (· == .kwCase) (follow .caseClause)) (.star (.symbol .caseClause)) := by
    exact hcase.repeated (by decide) (by decide) (by decide)
  have hlast : Takes b (· == .rbrace) (once (· == .kwDefault) (follow .defaultClause))
      (.opt (.symbol .defaultClause)) := by
    have hbrace : Takes b (· == .rbrace) (follow .defaultClause) (.symbol .defaultClause) :=
      hdefault.of_imp (by decide)
    exact hbrace.once (by decide) rfl (by decide)
  have hclose : Takes b stop (expect .rbrace .unclosedSwitchBrace) (.token .rbrace) := takes_expect
  have hall := hcases.followed_by (hlast.followed_by hclose (by decide) rfl) (by decide) rfl
  constructor
  intro p q u y hrun hp hword hu hy
  obtain ⟨r, hpr, hrq⟩ := gives_both.mp hrun
  obtain rfl := Option.some.inj hpr
  have hkind : (p.kind == .kwCase || p.kind == .kwDefault) = true := by
    rw [p.kind_eq_headD_word, hword]
    exact hu.before (fun k => k == .kwCase || k == .kwDefault) hy (by decide)
      fun hnull => absurd hnull (by decide)
  rw [if_pos hkind] at hrq
  exact hall.taken hrq hp hword (Form.derives_of_clauses hu) hy

theorem switchBlock : Takes b stop Rule.switchStatement.script (.symbol .switchBlock) := by
  have hexpression : Takes b Rule.expression.stops (follow .expression) (.symbol .expression) :=
    ih.rule .expression (by decide) rfl
  have hlines : Takes b (· != .newline) skipNewlines .lines := takes_skipNewlines rfl
  refine .symbol (Takes.require (Takes.require (hexpression.followed_by ?_ (by decide) rfl)))
  exact Takes.require (Takes.require (hlines.followed_by ih.clauses (by decide) rfl))

theorem caseClause : Takes b endsCase Rule.caseClause.script (.symbol .caseClause) := by
  have hexpression : Takes b Rule.expression.stops (follow .expression) (.symbol .expression) :=
    ih.rule .expression (by decide) rfl
  have hbody : Takes b endsCase (Move.clauseBody endsCase) (.symbol .body) :=
    ih.clauseBody (by decide)
  exact .symbol (Takes.require (hexpression.followed_by (Takes.require hbody) (by decide) rfl))

theorem defaultClause : Takes b endsDefault Rule.defaultClause.script (.symbol .defaultClause) := by
  have hbody : Takes b endsDefault (Move.clauseBody endsDefault) (.symbol .body) :=
    ih.clauseBody (by decide)
  exact .symbol hbody.require.require

/-! ## Expressions -/

theorem suffixes : Takes b Rule.accessSuffixes.stops Rule.accessSuffixes.script
    (.star (.symbol .suffix)) := by
  have hround : Takes b (fun _ => true) (peek suffixAt) (.symbol .suffix) := by
    refine .symbol (.alt ?_ (.alt ?_ ?_))
    · refine takes_peek_first rfl fun k hk => ?_
      obtain rfl : k = .dot := by simpa using hk
      exact takes_expect.advance_both
    · refine takes_peek_first rfl fun k hk => ?_
      obtain rfl : k = .lbracket := by simpa using hk
      exact (ih.rule .expression (by decide) rfl).nest.enclosed rfl
    · refine takes_peek_first rfl fun k hk => ?_
      obtain rfl : k = .lparen := by simpa using hk
      exact (ih.rule .argumentList (by decide) rfl).nest.enclosed rfl
  exact hround.repeated (by decide) (by decide) (by decide)

theorem assignment : Takes b Rule.assignmentOrAccess.stops Rule.assignmentOrAccess.script
    (.symbol .assignment) := by
  have hvalue : Takes b Rule.assignmentOrAccess.stops (advance >> follow .expression)
      (.oneOf Kind.isAssignment >> .symbol .expression) := by
    exact ((ih.rule .expression (by decide) rfl).of_imp (by decide)).advance_both
  have haccess : Takes b Rule.assignmentOrAccess.stops (follow .accessSuffixes)
      (.star (.symbol .suffix)) := by
    exact (ih.rule .accessSuffixes (by decide) rfl).of_imp (by decide)
  have hsuffix : ∀ k : Kind, k.opensSuffix = true ∨ k.pull = 0 →
      k.isAssignment = false ∧ k.isStep = false := by
    decide
  have hafter (k : Kind) (hk : k.opensSuffix = true ∨ k.pull = 0) :
      afterIdentifier k = follow .accessSuffixes := by
    obtain ⟨hassign, hstep⟩ := hsuffix k hk
    simp [afterIdentifier, hassign, hstep]
  refine .symbol (Takes.require (.alt ?_ (.alt ?_ ?_)))
  · refine takes_peek_first rfl fun k hk => ?_
    rw [afterIdentifier, if_pos (by simpa using hk)]
    exact hvalue
  · refine takes_peek_first rfl fun k hk => ?_
    cases k with
    | increment | decrement => exact takes_advance
    | _ => exact absurd hk (by decide)
  · refine takes_peek (fun k hk => ?_) fun _ k hk => ?_
    · rw [hafter k (.inl (by simpa using hk))]
      exact haccess
    · rw [hafter k (.inr (by simpa [Rule.stops] using hk))]
      exact haccess

theorem unary : Takes b Rule.unary.stops Rule.unary.script (.symbol .unary) := by
  refine .symbol (.alt ?_ ?_)
  · refine takes_peek_first rfl fun k hk => ?_
    rw [if_pos (by simpa using hk)]
    exact (ih.rule .unary (by decide) rfl).nest.advance_both
  · refine takes_peek_first rfl fun k hk => ?_
    have hprimary : ∀ k : Kind, k.opensPrimary = true → ¬ k.isUnary = true := by decide
    rw [if_neg (hprimary k (by simpa using hk))]
    exact ih.rule .primary (by decide) rfl

theorem primary : Takes b Rule.primary.stops Rule.primary.script (.symbol .primary) := by
  refine .symbol (.alt ?_ (.alt ?_ (.alt ?_ ?_)))
  · refine takes_peek_first rfl fun k hk => ?_
    rw [primaryAt, if_pos (by simpa using hk)]
    exact takes_advance
  · refine takes_peek_first rfl fun k hk => ?_
    obtain rfl : k = .identifier := by simpa using hk
    exact (ih.rule .accessSuffixes (by decide) rfl).advance_both
  · refine takes_peek_first rfl fun k hk => ?_
    obtain rfl : k = .lparen := by simpa using hk
    exact (ih.rule .expression (by decide) rfl).nest.enclosed rfl
  · refine takes_peek_first rfl fun k hk => ?_
    obtain rfl : k = .lbracket := by simpa using hk
    have hlist : Takes b (· == .rbracket)
        (peek fun k => if k = .rbracket then stay else nest (follow .expressionList))
        (.opt (.nest (.chain (.symbol .expression) (· == .comma)))) := by
      refine .alt (takes_peek_first rfl fun k hk => ?_)
        (takes_peek (fun k hk => ?_) fun _ k hk => ?_)
      · rw [if_neg]
        · exact (ih.rule .expressionList (by decide) rfl).nest.of_imp (by decide)
        · rintro rfl
          exact absurd hk (by decide)
      · exact absurd hk (by simp)
      · rw [if_pos (by simpa using hk)]
        exact takes_stay
    exact hlist.enclosed rfl

theorem arguments : Takes b Rule.argumentList.stops Rule.argumentList.script
    (.symbol .arguments) := by
  refine .symbol (.alt (takes_peek_first rfl fun k hk => ?_)
    (takes_peek (fun k hk => ?_) fun _ k hk => ?_))
  · rw [if_neg]
    · exact (ih.rule .expressionList (by decide) rfl).of_imp (by decide)
    · rintro rfl
      exact absurd hk (by decide)
  · exact absurd hk (by simp)
  · rw [if_pos (by simpa [Rule.stops] using hk)]
    exact takes_stay

/-- Operands that a rule takes, with operators between them that pull less. -/
theorem operands {rule rule' : Rule} {f : Form} {test : Kind → Bool} (hne : rule ≠ .statement)
    (hform : rule.form? = some f)
    (htest : ∀ k, (rule'.stops k = true → rule.stops k = true ∧ test k = false) ∧
      (test k = true → rule.stops k = true)) :
    Takes b rule'.stops (chain (follow rule) test) (f.chain test) :=
  (ih.rule rule hne hform).chain (fun k => (htest k).2) fun k => (htest k).1

/-! ## All rules -/

/-- A statement with what comes after it, which is lines unless it starts the
next statement. -/
theorem statementAt (hlines : Takes b stop skipNewlines f) (hnewline : stop .newline = false)
    (hstarts : ∀ k, f.starts k = true → k.pull = 0)
    (hnull : f.nullable = true → ∀ k, stop k = true → k.pull = 0) :
    Takes b stop (peek fun k => statementAt k >> skipNewlines) (.symbol .statement >> f) := by
  have hsimple (k : Kind) : Takes b stop ((advance >> skipNewlines) >> skipNewlines)
      (.token k >> f) :=
    hlines.advance_both.skipNewlines_again hnewline
  have hswitch : Takes b (fun _ => true) (nest (follow .switchStatement))
      (.nest (.symbol .switchBlock)) :=
    (ih.rule .switchStatement (by decide) rfl).nest
  have hassignment : Takes b Rule.assignmentOrAccess.stops (follow .assignmentOrAccess)
      (.symbol .assignment) :=
    ih.rule .assignmentOrAccess (by decide) rfl
  have hstops (k : Kind) (hk : k.pull = 0) : Rule.assignmentOrAccess.stops k = true :=
    beq_iff_eq.mpr hk
  have hskipped : Takes b (fun _ => true) (follow .ignoredConstruct) .skipped :=
    ih.rule .ignoredConstruct (by decide) rfl
  refine .seq_symbol (.seq_alt (.seq_symbol
    (.seq_alt ?_ (.seq_alt ?_ (.seq_alt ?_ (.seq_alt ?_ ?_))))) ?_)
  · refine takes_peek_first rfl fun k hk => ?_
    obtain rfl : k = .kwSwitch := by simpa using hk
    exact hswitch.both hlines (fun _ _ => rfl) fun _ _ _ => rfl
  · refine takes_peek_first rfl fun k hk => ?_
    obtain rfl : k = .identifier := by simpa using hk
    exact hassignment.both hlines (fun k hk => hstops k (hstarts k hk))
      fun hnullable k hk => hstops k (hnull hnullable k hk)
  · refine takes_peek_first rfl fun k hk => ?_
    obtain rfl : k = .kwContinue := by simpa using hk
    exact hsimple .kwContinue
  · refine takes_peek_first rfl fun k hk => ?_
    obtain rfl : k = .kwPass := by simpa using hk
    exact hsimple .kwPass
  · refine takes_peek_first rfl fun k hk => ?_
    have hignored : k.opensIgnored = true := by simpa [Form.nullable] using hk
    have hat : Move.statementAt k = follow .ignoredConstruct := by
      cases k with
      | kwIf | kwWhile | kwFor | kwDef | kwClass => rfl
      | _ => exact absurd hignored (by decide)
    rw [hat]
    exact hskipped.both hlines (fun _ _ => rfl) fun _ _ _ => rfl
  · refine takes_peek_first rfl fun k hk => ?_
    obtain rfl : k = .kwBreak := by simpa using hk
    exact hsimple .kwBreak

omit ih in
/-- Before a statement, no line breaks are skipped. -/
theorem statementScript (hat : Takes b stop
    (peek fun k => Move.statementAt k >> skipNewlines) (.symbol .statement >> f)) :
    Takes (b + 1) stop (follow .statement >> skipNewlines) (.symbol .statement >> f) := by
  constructor
  intro p q u y hrun hp hword hu hy
  obtain ⟨r, hpr, hrq⟩ := gives_both.mp hrun
  obtain ⟨o, hpo, hor⟩ := gives_both.mp (gives_follow.mp hpr)
  obtain rfl := Option.some.inj hpo
  have hk : p.kind ≠ .newline := by
    have hstarts : ∀ k, (Form.symbol .statement).starts k = true → (k != .newline) = true := by
      decide
    have hnext := hu.before (· != .newline) hy (fun k hk => hstarts k (by simpa using hk))
      fun hnull => absurd hnull (by simp)
    rw [p.kind_eq_headD_word, hword]
    simpa using hnext
  rw [Pass.skipNewlines_of_kind_ne hk] at hor
  have hrun' : Gives b (Move.statementAt p.kind >> skipNewlines) p q :=
    gives_both.mpr ⟨r, hor, hrq⟩
  exact hat.taken (show Gives b (peek _) p q from hrun') hp hword hu hy

/-- A statement before the next one. -/
theorem statement_lines : Takes (b + 1) Rule.statement.stops (follow .statement >> skipNewlines)
    (.symbol .statement >> .lines) :=
  statementScript (ih.statementAt (takes_skipNewlines rfl) rfl (by decide) fun _ => by decide)

/-- A statement that ends its line, whatever the next one starts with. -/
theorem statement_line : Takes (b + 1) (· != .newline) (follow .statement >> skipNewlines)
    (.symbol .statement >> .token .newline >> .lines) := by
  have hlines : Takes b (· != .newline) skipNewlines .lines := takes_skipNewlines rfl
  refine statementScript (ih.statementAt (hlines.imp fun d u y hu => ?_) rfl (by decide)
    fun hnull => absurd hnull (by decide))
  cases hu with
  | seq hfirst hrest => exact .again hfirst hrest

theorem script {rule : Rule} {f : Form} (hne : rule ≠ .statement) (hform : rule.form? = some f) :
    Takes b rule.stops rule.script f := by
  cases rule with
  | verdict => exact absurd hform (by simp [Rule.form?])
  | statement => exact absurd rfl hne
  | program =>
      obtain rfl := Option.some.inj hform
      have hlines : Takes b (· != .newline) skipNewlines .lines := takes_skipNewlines rfl
      have hstatements : Takes b (· == .eof)
          (repeated (· != .eof) (follow .statement >> skipNewlines))
          (.star (.symbol .statement >> .lines)) := by
        exact ih.statement.repeated (by decide) (by decide) (by decide)
      exact .symbol (hlines.both hstatements (by decide) fun _ => by decide)
  | ignoredConstruct =>
      obtain rfl := Option.some.inj hform
      exact takes_skipConstruct
  | switchStatement =>
      obtain rfl := Option.some.inj hform
      exact ih.switchBlock
  | caseClause =>
      obtain rfl := Option.some.inj hform
      exact ih.caseClause
  | defaultClause =>
      obtain rfl := Option.some.inj hform
      exact ih.defaultClause
  | assignmentOrAccess =>
      obtain rfl := Option.some.inj hform
      exact ih.assignment
  | accessSuffixes =>
      obtain rfl := Option.some.inj hform
      exact ih.suffixes
  | expression =>
      obtain rfl := Option.some.inj hform
      exact .symbol (ih.rule .logicalOr (by decide) rfl)
  | logicalOr =>
      obtain rfl := Option.some.inj hform
      exact .symbol (ih.operands (by decide) rfl (by decide))
  | logicalAnd =>
      obtain rfl := Option.some.inj hform
      exact .symbol (ih.operands (by decide) rfl (by decide))
  | equality =>
      obtain rfl := Option.some.inj hform
      exact .symbol (ih.operands (by decide) rfl (by decide))
  | comparison =>
      obtain rfl := Option.some.inj hform
      exact .symbol (ih.operands (by decide) rfl (by decide))
  | term =>
      obtain rfl := Option.some.inj hform
      exact .symbol (ih.operands (by decide) rfl (by decide))
  | factor =>
      obtain rfl := Option.some.inj hform
      exact .symbol (ih.operands (by decide) rfl (by decide))
  | unary =>
      obtain rfl := Option.some.inj hform
      exact ih.unary
  | primary =>
      obtain rfl := Option.some.inj hform
      exact ih.primary
  | argumentList =>
      obtain rfl := Option.some.inj hform
      exact ih.arguments
  | expressionList =>
      obtain rfl := Option.some.inj hform
      exact ih.operands (by decide) rfl (by decide)

end RulesTake

/-- Whatever the budget, the rules take the words of their forms. -/
theorem rulesTake_all (b : Nat) : RulesTake b := by
  induction b with
  | zero =>
      have none {rule : Rule} {p q : Pass} (hrun : Gives 0 (follow rule) p q) : False :=
        absurd (show (none : Option Pass) = some q from hrun) (by simp)
      refine ⟨fun rule f _ _ => ⟨fun hrun => (none hrun).elim⟩, ⟨fun hrun => ?_⟩⟩
      obtain ⟨r, hpr, -⟩ := gives_both.mp hrun
      exact (none hpr).elim
  | succ b ih =>
      exact ⟨fun rule f hne hform => (ih.script hne hform).follow, ih.statement_lines⟩

end Move

/-- A rule takes the words of its form. -/
theorem Pass.follow_takes {rule : Rule} {f : Form} {p : Pass} {u y : List Kind}
    (hne : rule ≠ .statement) (hform : rule.form? = some f) (hp : p.valid = true)
    (hword : p.word = u ++ y) (hu : f.Derives p.room u y) (hy : rule.stops (y.headD .eof) = true) :
    (p.follow rule).valid = true ∧ (p.follow rule).word = y :=
  ((Move.rulesTake_all p.budget).rule rule hne hform).taken (p.perform?_follow rule) hp hword hu hy

end SwitchScript
