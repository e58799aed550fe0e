import SwitchScript.Proofs.Language.Reading

/-!
# The rules read their productions

Every rule of the grammar reads a form, and here each script is held against
it. Most rules read a symbol and the script follows its production. A statement
is the exception: the run skips line breaks before and after it wherever it can,
so the rule reads a statement together with the line breaks after it, and it is
only asked to where there are none before. In a clause the current token is no
`break` besides, which is how the run and the grammar come to agree on what
ends a clause.

The induction is on the budget, as in `SwitchScript.Grammar.Budget`. What comes
out is `follow_read` and `follow_stuck`, without a budget.
-/

namespace SwitchScript

/-- The form that a rule reads. -/
def Rule.form? : Rule → Option Form
  | verdict => none
  | program => some (.symbol .program)
  | statement => some (.symbol .statement >> .lines)
  | ignoredConstruct => some .skipped
  | switchStatement => some (.symbol .switchBlock)
  | caseClause => some (.symbol .caseClause)
  | defaultClause => some (.symbol .defaultClause)
  | assignmentOrAccess => some (.symbol .assignment)
  | accessSuffixes => some (.star (.symbol .suffix))
  | expression => some (.symbol .expression)
  | logicalOr => some (.symbol .logicalOr)
  | logicalAnd => some (.symbol .logicalAnd)
  | equality => some (.symbol .equality)
  | comparison => some (.symbol .comparison)
  | term => some (.symbol .term)
  | factor => some (.symbol .factor)
  | unary => some (.symbol .unary)
  | primary => some (.symbol .primary)
  | argumentList => some (.symbol .arguments)
  | expressionList => some (.chain (.symbol .expression) (· == .comma))

/-- The kinds at which a rule is followed. -/
def Rule.entry : Rule → Kind → Prop
  | statement, k => k ≠ .newline ∧ k ≠ .eof
  | ignoredConstruct, k => k.opensIgnored = true
  | _, _ => True

namespace Form

variable {f : Form} {d : Nat} {u y : List Kind}

/-! ## Words to fill in -/

theorem Derives.chain_one {isOperator : Kind → Bool} (hf : f.Derives d u y) :
    (chain f isOperator).Derives d u y :=
  hf.seq_nil .done

theorem derives_identifier (d : Nat) (y : List Kind) :
    (symbol .expression).Derives d [.identifier] y := by
  have hname : (symbol .unary).Derives d [.identifier] y :=
    .symbol (.right (.symbol (.right (.left
      (.seq_nil (.oneOf (by decide)) .done)))))
  have hfactor : (symbol .factor).Derives d [.identifier] y := .symbol hname.chain_one
  have hterm : (symbol .term).Derives d [.identifier] y := .symbol hfactor.chain_one
  have hcomparison : (symbol .comparison).Derives d [.identifier] y := .symbol hterm.chain_one
  have hequality : (symbol .equality).Derives d [.identifier] y := .symbol hcomparison.chain_one
  have hand : (symbol .logicalAnd).Derives d [.identifier] y := .symbol hequality.chain_one
  exact .symbol (.symbol hand.chain_one)

theorem fillable_primary : (symbol .primary).Fillable :=
  ⟨[.identifier], fun _ _ _ => .symbol (.right (.left (.seq_nil (.oneOf (by decide)) .done)))⟩

theorem derives_body_nil (d : Nat) (y : List Kind) : (symbol .body).Derives d [] y :=
  .symbol (.seq_nil .done (.seq_nil .done (.right .empty)))

theorem fillable_body : (symbol .body).Fillable := ⟨[], fun d y _ => derives_body_nil d y⟩

theorem derives_default (d : Nat) (y : List Kind) :
    (symbol .defaultClause).Derives d [.kwDefault, .colon] y :=
  .symbol (.seq (u := [.kwDefault]) (.oneOf (by decide))
    (.seq_nil (.oneOf (by decide)) (derives_body_nil d y)))

/-- The clauses of a switch block, with the brace that closes it. -/
def clauses : Form :=
  ((symbol .caseClause >> star (symbol .caseClause) >> opt (symbol .defaultClause)) <|>
      symbol .defaultClause) >>
    token .rbrace

theorem fillable_clauses : clauses.Fillable :=
  ⟨[.kwDefault, .colon, .rbrace], fun d _ _ =>
    .seq (u := [.kwDefault, .colon]) (.right (derives_default d _)) (.oneOf (by decide))⟩

/-- What the run makes of the clauses: any number of cases and then a default
clause or none. That is right if there is one at all. -/
theorem derives_clauses
    (h : (star (symbol .caseClause) >> opt (symbol .defaultClause) >> token .rbrace).Derives d u y)
    (hfirst : (u ++ y).headD .eof = .kwCase ∨ (u ++ y).headD .eof = .kwDefault) :
    clauses.Derives d u y := by
  cases h with
  | seq hcases hrest =>
      cases hrest with
      | @seq _ _ _ v w _ hdefault hbrace =>
          cases hcases with
          | done =>
              cases hdefault with
              | left hdefault =>
                  rw [List.nil_append]
                  exact .seq (.right hdefault) hbrace
              | right hempty =>
                  cases hempty
                  cases hbrace with
                  | oneOf hk =>
                      rw [beq_iff_eq] at hk
                      subst hk
                      exact absurd hfirst (by simp)
          | @again _ _ x z _ hcase hcases =>
              rw [show x ++ z ++ (v ++ w) = (x ++ (z ++ v)) ++ w by simp only [List.append_assoc]]
              refine .seq (.left (.seq ?_ (.seq ?_ hdefault))) hbrace
              · simpa only [List.append_assoc] using hcase
              · simpa only [List.append_assoc] using hcases

theorem fillable_block : (token .lbrace >> lines >> clauses).Fillable :=
  .token_seq (.seq_of_derives (fun _ _ => .done) fillable_clauses) _

theorem fillable_afterExpression :
    (token .rparen >> token .lbrace >> lines >> clauses).Fillable :=
  fillable_block.token_seq _

theorem fillable_statement : (symbol .clauseStatement >> lines).Fillable :=
  ⟨[.kwPass], fun _ _ _ =>
    .seq_nil (.symbol (.right (.right (.right (.left (.oneOf (by decide))))))) .done⟩

theorem derives_statement_of_clauseStatement (h : (symbol .clauseStatement).Derives d u y) :
    (symbol .statement).Derives d u y :=
  .symbol (.left h)

end Form

namespace Move

variable {b : Nat} {m : Move} {f g : Form} {t : Kind → Prop}

theorem Reads.follow {rule : Rule} (h : Reads b t rule.script f) :
    Reads (b + 1) t (follow rule) f :=
  ⟨fun hrun => h.sound hrun, fun hrun => h.stuck hrun⟩

theorem Reads.then_lines (h : Reads b t m f) : Reads b t m (f >> .lines) :=
  h.imp (fun hplain => (Form.isPlain_seq.mp hplain).1) fun _ _ _ hf => hf.seq_nil .done

/-- Where there are none, no line breaks are skipped. -/
theorem Reads.skipNewlines_idle (h : Reads b t m f) (ht : ∀ k, t k → k ≠ .newline) :
    Reads b t (skipNewlines >> m) f := by
  have hgives {p q : Pass} (hrun : Gives b (skipNewlines >> m) p q) (hk : t p.kind) :
      Gives b m p q := by
    obtain ⟨r, hpr, hrq⟩ := gives_both.mp hrun
    obtain rfl := Option.some.inj hpr
    rwa [Pass.skipNewlines_of_kind_ne (ht _ hk)] at hrq
  exact ⟨fun hrun hp hk => h.sound (hgives hrun hk) hp hk,
    fun hrun hp hk => h.stuck (hgives hrun hk) hp hk⟩

/-- A token, then a nested construct, then a token that closes it. -/
theorem Reads.enclosed {opener closer : Kind} {fault : Fault} (h : Reads b (fun _ => True) m f)
    (hopener : opener ≠ .eof) (hcloser : closer ≠ .eof) (hplain : f.isPlain = true) :
    Reads b (· = opener) (advance >> m >> expect closer fault)
      (.token opener >> f >> .token closer) := by
  have hfill : (Form.token closer).Fillable := ⟨[closer], fun _ _ _ => .oneOf (by simp)⟩
  exact (h.followed_by (reads_expect hcloser) (hfill.after hplain)).advance_both
    (by simp [Ne.symm hopener]) fun k hk => by simp [hk]

theorem Reads.chain {isOperator : Kind → Bool} (h : Reads b (fun _ => True) m f)
    (heof : isOperator .eof = false) :
    Reads b (fun _ => True) (chain m isOperator) (f.chain isOperator) :=
  h.followed_by ((h.advance_both heof fun _ hk => hk.2).repeated fun _ => trivial)
    (Form.fillableAfter_of_nil fun _ _ => .done)

/-- What all rules read with a budget. -/
structure RulesRead (b : Nat) : Prop where
  rule : ∀ (rule : Rule) {f}, rule.form? = some f → Reads b rule.entry (follow rule) f
  clause : Reads b (fun k => k ≠ .newline ∧ k ≠ .eof ∧ k ≠ .kwBreak) (follow .statement)
    (.symbol .clauseStatement >> .lines)

namespace RulesRead

variable (ih : RulesRead b)

include ih

/-- A rule that may be followed at any kind. -/
theorem always (rule : Rule) {f : Form} (hform : rule.form? = some f)
    (hentry : ∀ k, rule.entry k) : Reads b t (follow rule) f :=
  (ih.rule rule hform).of_imp fun k _ => hentry k

/-! ## Statements -/

theorem clauseStatementAt {k : Kind} (hnewline : k ≠ .newline) (heof : k ≠ .eof)
    (hbreak : k ≠ .kwBreak) :
    Reads b (· = k) (statementAt k) (.symbol .clauseStatement >> .lines) := by
  unfold statementAt
  split
  · exact Reads.then_lines (.symbol (.left (ih.always .switchStatement rfl fun _ => trivial).nest))
  split
  · exact Reads.then_lines
      (.symbol (.right (.left (ih.always .assignmentOrAccess rfl fun _ => trivial))))
  split
  · rename_i hsimple
    have hkind : k = .kwContinue ∨ k = .kwPass := by
      cases k with
      | kwBreak => exact absurd rfl hbreak
      | kwContinue => exact .inl rfl
      | kwPass => exact .inr rfl
      | _ => exact absurd hsimple (by decide)
    have hmove : Reads b (· = k) (advance >> skipNewlines) (.token k >> .lines) :=
      reads_skipNewlines.advance_both (by simp [Ne.symm heof]) fun k' hk' => by simp [hk']
    refine hmove.imp (fun _ => rfl) fun d u y hseq => hseq.seq_imp ?_
    intro d u y htoken
    rcases hkind with rfl | rfl
    · exact .symbol (.right (.right (.left htoken)))
    · exact .symbol (.right (.right (.right (.left htoken))))
  split
  · rename_i hignored
    refine Reads.then_lines (.symbol (.right (.right (.right (.right ?_)))))
    exact (ih.rule .ignoredConstruct rfl).of_imp fun k' hk' => by
      rw [hk']
      exact hignored
  split
  · exact reads_reject Form.fillable_statement
  split
  · exact reads_reject Form.fillable_statement
  split
  · exact reads_reject Form.fillable_statement
  · exact reads_reject Form.fillable_statement

theorem statementAt {k : Kind} (hnewline : k ≠ .newline) (heof : k ≠ .eof) :
    Reads b (· = k) (statementAt k) (.symbol .statement >> .lines) := by
  by_cases hbreak : k = .kwBreak
  · subst hbreak
    have hmove : Reads b (· = .kwBreak) (advance >> skipNewlines) (.token .kwBreak >> .lines) :=
      reads_skipNewlines.advance_both (by decide) fun k' hk' => by simp [hk']
    exact hmove.imp (fun _ => rfl) fun d u y hseq =>
      hseq.seq_imp fun _ _ _ htoken => .symbol (.right htoken)
  · exact (ih.clauseStatementAt hnewline heof hbreak).imp (fun hplain => hplain)
      fun d u y hseq => hseq.seq_imp fun _ _ _ => Form.derives_statement_of_clauseStatement

omit ih in
/-- A repetition of statements reads them with the line breaks between them. -/
theorem statements {s : Symbol} {test : Kind → Bool}
    (h : Reads b (fun k => k ≠ .newline ∧ test k = true) (.follow .statement)
      (.symbol s >> .lines)) :
    Reads b (· ≠ .newline) (repeated test (.follow .statement >> skipNewlines))
      (.star (.symbol s >> .lines)) := by
  have hlines : Reads b (fun _ => True) skipNewlines .lines := reads_skipNewlines
  have hround := h.followed_by hlines (Form.fillableAfter_of_nil fun _ _ => .done)
  refine (hround.imp (fun hplain => ?_) fun d u y hseq => ?_).repeated fun hrun => ?_
  · rw [Form.isPlain_seq]
    exact ⟨hplain, rfl⟩
  · -- the line breaks of both are one run of line breaks
    cases hseq with
    | @seq _ _ _ u w _ hfirst hsecond =>
        cases hfirst with
        | seq hs hl =>
            rw [List.append_assoc]
            exact .seq (by rwa [List.append_assoc]) (hl.star_append hsecond)
  · obtain ⟨r, -, hskip⟩ := gives_both.mp hrun
    exact kind_ne_of_gives_skipNewlines hskip

theorem clauseBody {ends : Kind → Bool} (heof : ends .eof = true) :
    Reads b t (clauseBody ends) (.symbol .body) := by
  refine .symbol (Reads.skipNewlines_both (Reads.followed_by ?_ ?_
    (Form.fillableAfter_of_nil fun _ _ => .right .empty)))
  · refine statements (ih.clause.of_imp fun k hk => ⟨hk.1, ?_, ?_⟩)
    · rintro rfl
      simp [heof] at hk
    · rintro rfl
      simp at hk
  · have hmove : Reads b (fun k => True ∧ (!ends k && k == .kwBreak) = true)
        (advance >> skipNewlines) (.token .kwBreak >> .lines) :=
      reads_skipNewlines.advance_both rfl fun k hk => (Bool.and_eq_true_iff.mp hk.2).2
    exact hmove.once

/-! ## Switch blocks -/

theorem clauses :
    Reads b t (demand (fun k => k == .kwCase || k == .kwDefault) .missingClause >>
      repeated (· == .kwCase) (follow .caseClause) >>
      once (· == .kwDefault) (follow .defaultClause) >> expect .rbrace .unclosedSwitchBrace)
      .clauses := by
  have hcases : Reads b (fun _ => True) (repeated (· == .kwCase) (follow .caseClause))
      (.star (.symbol .caseClause)) :=
    Reads.repeated (ih.always .caseClause rfl fun _ => trivial) fun _ => trivial
  have hdefault : Reads b (fun _ => True) (once (· == .kwDefault) (follow .defaultClause))
      (Form.opt (.symbol .defaultClause)) :=
    Reads.once (ih.always .defaultClause rfl fun _ => trivial)
  have hbrace (d : Nat) (w : List Kind) : (Form.token .rbrace).Derives d [.rbrace] w :=
    .oneOf (by decide)
  have hclose : Reads b (fun _ => True) (expect .rbrace .unclosedSwitchBrace) (.token .rbrace) :=
    reads_expect (by decide)
  have hrest := hdefault.followed_by hclose (Form.fillableAfter_of_rbrace hbrace)
  have hall := hcases.followed_by hrest (Form.fillableAfter_of_rbrace fun d w =>
    .seq (u := []) (.right .empty) (hbrace d w))
  have hdemand {p q : Pass} {m : Move} {test : Kind → Bool} {fault : Fault}
      (hrun : Gives b (demand test fault >> m) p q) :
      Gives b m (if test p.kind then p else p.report fault) q := by
    obtain ⟨r, hpr, hrq⟩ := gives_both.mp hrun
    obtain rfl := Option.some.inj hpr
    exact hrq
  constructor
  · intro p q hrun hp _ hq
    have hrun' := hdemand hrun
    split at hrun'
    · rename_i hkind
      obtain ⟨u, hpass, hu⟩ := hall.sound hrun' hp trivial hq
      rw [p.kind_eq_headD_word, hpass.word, Bool.or_eq_true, beq_iff_eq, beq_iff_eq] at hkind
      exact ⟨u, hpass, Form.derives_clauses hu hkind⟩
    · have hreport := (Gives.makes hrun').extends.valid_of_valid hq
      exact absurd hreport (by simp [Pass.report])
  · intro p q hrun hp _ he hq
    have hrun' := hdemand hrun
    split at hrun'
    · rename_i hkind
      obtain ⟨u, y, site, fault, hword, herror, hindex, hviable⟩ :=
        hall.stuck hrun' hp trivial he hq
      refine ⟨u, y, site, fault, hword, herror, hindex, fun hne => ?_⟩
      by_cases hnil : u = []
      · rw [hnil]
        exact Form.fillable_clauses.viable _
      · obtain ⟨c, hc⟩ := hviable hne
        refine ⟨c, fun w hw => Form.derives_clauses (hc w (hw.imp_left ?_)) ?_⟩
        · exact fun hplain => absurd hplain (by decide)
        · obtain ⟨k, u', rfl⟩ := List.exists_cons_of_ne_nil hnil
          rw [p.kind_eq_headD_word, hword, Bool.or_eq_true, beq_iff_eq, beq_iff_eq] at hkind
          exact hkind
    · exact stuck_report he (fun _ => Form.fillable_clauses.viable _) (Gives.makes hrun').extends

theorem switchBlock : Reads b t Rule.switchStatement.script (.symbol .switchBlock) := by
  have hexpression : Reads b (fun _ => True) (follow .expression) (.symbol .expression) :=
    ih.always .expression rfl fun _ => trivial
  refine .symbol (Reads.require (Reads.require (hexpression.followed_by ?_
    (Form.fillable_afterExpression.after rfl)) (by decide) ?_) (by decide) ?_)
  · exact Reads.require (Reads.require (ih.clauses.skipNewlines_both) (by decide)
      (.seq_of_derives (fun _ _ => .done) Form.fillable_clauses)) (by decide) Form.fillable_block
  · exact .seq_of_derives Form.derives_identifier Form.fillable_afterExpression
  · exact (Form.Fillable.seq_of_derives Form.derives_identifier
      Form.fillable_afterExpression).token_seq _

theorem caseClause : Reads b t Rule.caseClause.script (.symbol .caseClause) := by
  have hexpression : Reads b (fun _ => True) (follow .expression) (.symbol .expression) :=
    ih.always .expression rfl fun _ => trivial
  have hbody : (Form.token .colon >> .symbol .body).Fillable := Form.fillable_body.token_seq _
  refine .symbol (Reads.require (hexpression.followed_by ?_ (hbody.after rfl)) (by decide) ?_)
  · exact Reads.require (ih.clauseBody rfl) (by decide) Form.fillable_body
  · exact .seq_of_derives Form.derives_identifier hbody

theorem defaultClause : Reads b t Rule.defaultClause.script (.symbol .defaultClause) :=
  .symbol (Reads.require (Reads.require (ih.clauseBody rfl) (by decide) Form.fillable_body)
    (by decide) (Form.fillable_body.token_seq _))

/-! ## Expressions -/

theorem assignment : Reads b t Rule.assignmentOrAccess.script (.symbol .assignment) := by
  have hafter : Reads b (fun _ => True) (peek afterIdentifier)
      ((.oneOf Kind.isAssignment >> .symbol .expression) <|> .oneOf Kind.isStep <|>
        .star (.symbol .suffix)) := by
    refine reads_peek fun k _ => ?_
    unfold afterIdentifier
    split
    · rename_i hk
      exact ((ih.always .expression rfl fun _ => trivial).advance_both rfl
        fun k' hk' => by rw [hk', hk]).left
    split
    · rename_i hk
      exact (reads_advance rfl fun k' hk' => by rw [hk', hk]).left.right
    · exact (ih.always .accessSuffixes rfl fun _ => trivial).right.right
  exact .symbol (hafter.require (by decide) ⟨[], fun _ _ _ => .right (.right .done)⟩)

theorem suffixes : Reads b t Rule.accessSuffixes.script (.star (.symbol .suffix)) := by
  refine Reads.repeated (t := fun _ => True) (.symbol (reads_peek fun k hk => ?_))
    (fun _ => trivial) |>.of_imp fun _ _ => trivial
  unfold suffixAt
  split
  · rename_i hdot
    exact ((reads_expect (by decide)).advance_both rfl fun k' hk' => by simp [hk', hdot]).left
  split
  · rename_i hbracket
    subst hbracket
    exact ((ih.always .expression rfl fun _ => trivial).nest.enclosed (by decide) (by decide)
      rfl).left.right
  · have hparen : k = .lparen := by
      cases k <;> simp_all [Kind.opensSuffix]
    subst hparen
    exact ((ih.always .argumentList rfl fun _ => trivial).nest.enclosed (by decide) (by decide)
      rfl).right.right

theorem unary : Reads b t Rule.unary.script (.symbol .unary) := by
  refine .symbol (reads_peek fun k _ => ?_)
  split
  · rename_i hk
    exact ((ih.always .unary rfl fun _ => trivial).nest.advance_both rfl
      fun k' hk' => by rw [hk', hk]).left
  · exact (ih.always .primary rfl fun _ => trivial).right

theorem primary : Reads b t Rule.primary.script (.symbol .primary) := by
  refine reads_peek fun k _ => ?_
  unfold primaryAt
  split
  · rename_i hk
    exact .symbol (reads_advance rfl fun k' hk' => by rw [hk', hk]).left
  split
  · rename_i hk
    exact .symbol ((ih.always .accessSuffixes rfl fun _ => trivial).advance_both rfl
      fun k' hk' => by simp [hk', hk]).left.right
  split
  · rename_i hk
    subst hk
    exact .symbol ((ih.always .expression rfl fun _ => trivial).nest.enclosed (by decide)
      (by decide) rfl).left.right.right
  split
  · rename_i hk
    subst hk
    have hlist : Reads b (fun _ => True)
        (peek fun k => if k = .rbracket then stay else nest (.follow .expressionList))
        (.opt (.nest (.chain (.symbol .expression) (· == .comma)))) := by
      refine reads_peek fun k _ => ?_
      split
      · exact reads_stay.right
      · exact (ih.always .expressionList rfl fun _ => trivial).nest.left
    exact .symbol (hlist.enclosed (by decide) (by decide) rfl).right.right.right
  · exact reads_report Form.fillable_primary

theorem arguments : Reads b t Rule.argumentList.script (.symbol .arguments) := by
  refine .symbol (reads_peek fun k _ => ?_)
  split
  · exact reads_stay.right
  · exact (ih.always .expressionList rfl fun _ => trivial).left

/-- Operands that a rule reads, with operators between them. -/
theorem operands (rule : Rule) {f : Form} (hform : rule.form? = some f)
    (hentry : ∀ k, rule.entry k) {isOperator : Kind → Bool} (heof : isOperator .eof = false) :
    Reads b t (chain (follow rule) isOperator) (f.chain isOperator) :=
  ((ih.always rule hform hentry).chain heof).of_imp fun _ _ => trivial

/-! ## All rules -/

omit ih in
theorem statementScript {s : Symbol}
    (h : ∀ k, t k → Reads b (· = k) (Move.statementAt k) (.symbol s >> .lines))
    (ht : ∀ k, t k → k ≠ .newline) :
    Reads b t Rule.statement.script (.symbol s >> .lines) :=
  (reads_peek h).skipNewlines_idle ht

theorem script {rule : Rule} {f : Form} (hform : rule.form? = some f) :
    Reads b rule.entry rule.script f := by
  cases rule with
  | verdict => exact absurd hform (by simp [Rule.form?])
  | program =>
      obtain rfl := Option.some.inj hform
      refine .symbol (Reads.skipNewlines_both (statements ((ih.rule .statement rfl).of_imp ?_)))
      intro k hk
      exact ⟨hk.1, by simpa using hk.2⟩
  | statement =>
      obtain rfl := Option.some.inj hform
      exact statementScript (fun k hk => ih.statementAt hk.1 hk.2) fun k hk => hk.1
  | ignoredConstruct =>
      obtain rfl := Option.some.inj hform
      exact reads_skipConstruct fun k hk => hk
  | switchStatement =>
      obtain rfl := Option.some.inj hform
      exact ih.switchBlock
  | caseClause =>
      obtain rfl := Option.some.inj hform
      exact ih.caseClause
  | defaultClause =>
      obtain rfl := Option.some.inj hform
      exact ih.defaultClause
  | assignmentOrAccess =>
      obtain rfl := Option.some.inj hform
      exact ih.assignment
  | accessSuffixes =>
      obtain rfl := Option.some.inj hform
      exact ih.suffixes
  | expression =>
      obtain rfl := Option.some.inj hform
      exact .symbol (ih.always .logicalOr rfl fun _ => trivial)
  | logicalOr =>
      obtain rfl := Option.some.inj hform
      exact .symbol (ih.operands .logicalAnd rfl (fun _ => trivial) rfl)
  | logicalAnd =>
      obtain rfl := Option.some.inj hform
      exact .symbol (ih.operands .equality rfl (fun _ => trivial) rfl)
  | equality =>
      obtain rfl := Option.some.inj hform
      exact .symbol (ih.operands .comparison rfl (fun _ => trivial) rfl)
  | comparison =>
      obtain rfl := Option.some.inj hform
      exact .symbol (ih.operands .term rfl (fun _ => trivial) rfl)
  | term =>
      obtain rfl := Option.some.inj hform
      exact .symbol (ih.operands .factor rfl (fun _ => trivial) rfl)
  | factor =>
      obtain rfl := Option.some.inj hform
      exact .symbol (ih.operands .unary rfl (fun _ => trivial) rfl)
  | unary =>
      obtain rfl := Option.some.inj hform
      exact ih.unary
  | primary =>
      obtain rfl := Option.some.inj hform
      exact ih.primary
  | argumentList =>
      obtain rfl := Option.some.inj hform
      exact ih.arguments
  | expressionList =>
      obtain rfl := Option.some.inj hform
      exact ih.operands .expression rfl (fun _ => trivial) rfl

end RulesRead

/-- Whatever the budget, the rules read their forms. -/
theorem rulesRead_all (b : Nat) : RulesRead b := by
  induction b with
  | zero =>
      have none {rule : Rule} {p q : Pass} (hrun : Gives 0 (follow rule) p q) : False :=
        absurd (show (none : Option Pass) = some q from hrun) (by simp)
      exact ⟨fun _ _ _ => ⟨fun hrun => (none hrun).elim, fun hrun => (none hrun).elim⟩,
        ⟨fun hrun => (none hrun).elim, fun hrun => (none hrun).elim⟩⟩
  | succ b ih =>
      exact ⟨fun rule f hform => (ih.script hform).follow,
        (RulesRead.statementScript (fun k hk => ih.clauseStatementAt hk.1 hk.2.1 hk.2.2)
          fun k hk => hk.1).follow⟩

end Move

namespace Pass

variable {rule : Rule} {f : Form} {p : Pass}

/-- A rule that stays valid has read its form. -/
theorem follow_read (hform : rule.form? = some f) (hp : p.valid = true) (hk : rule.entry p.kind)
    (hq : (p.follow rule).valid = true) : p.Read f (p.follow rule) :=
  ((Move.rulesRead_all p.budget).rule rule hform).sound (p.perform?_follow rule) hp hk hq

/-- A rule that makes the first error has passed over a viable word. -/
theorem follow_stuck (hform : rule.form? = some f) (hp : p.valid = true) (hk : rule.entry p.kind)
    (he : p.errors = []) (hq : (p.follow rule).valid = false) : p.Stuck f (p.follow rule) :=
  ((Move.rulesRead_all p.budget).rule rule hform).stuck (p.perform?_follow rule) hp hk he hq

end Pass

end SwitchScript
