import Mathlib.Order.Bounds.Basic
import SwitchScript.Proofs.Language.First
import SwitchScript.Proofs.Language.Sound
import SwitchScript.Proofs.Placed
import SwitchScript.Proofs.Termination

/-!
# A statement gets on

The loops over statements, of a program and of a clause, go round for as long as
the run is valid and not at the end. They rest on what one statement does, from
wherever it starts: it passes over the first token that is not a line break, or it
makes the run invalid, or it comes to an end mark (`statement_gets_on`).

The budget that is computed for a run already counts on this, for a statement that
starts right at its first token (`Suffices.getsOn_statementAt`), in terms of how
many tokens are left. What is added here is the way over the line breaks before
the statement, where their end is told without the step that finds it
(`isLeast_skipNewlines`). At a token that no statement starts with, more can be
said: it is reported once, stepped over, and nothing else happens. Which tokens
these are is a matter of the grammar (`Kind.BeginsStatement`), and the choices of
the rule agree with it.
-/

namespace SwitchScript

/-! ## Tokens that begin a statement -/

/-- Some statement of the grammar, nested somehow and in front of something,
begins with a token of this kind. -/
def Kind.BeginsStatement (k : Kind) : Prop :=
  ∃ d u y, (Form.symbol .statement).Derives d (k :: u) y

namespace Form

theorem derives_switchBlock (d : Nat) (y : List Kind) :
    (symbol .switchBlock).Derives d
      [.kwSwitch, .lparen, .identifier, .rparen, .lbrace, .kwDefault, .colon, .rbrace] y := by
  have hclauses : clauses.Derives d [.kwDefault, .colon, .rbrace] y :=
    .seq (u := [.kwDefault, .colon]) (.right (derives_default d _)) (.oneOf (by decide))
  refine .symbol (.seq (u := [.kwSwitch]) (.oneOf (by decide)) ?_)
  refine .seq (u := [.lparen]) (.oneOf (by decide)) ?_
  refine .seq (derives_identifier d _) ?_
  refine .seq (u := [.rparen]) (.oneOf (by decide)) ?_
  refine .seq (u := [.lbrace]) (.oneOf (by decide)) ?_
  exact .seq .done hclauses

/-- A construct may end right behind its keyword, at the end of the script. -/
theorem skipped_keyword {k : Kind} (hk : k.opensIgnored = true) : Skipped [k] [] where
  opens := hk
  ends := .inl rfl
  least := by
    intro j hpos hlt
    rw [List.length_singleton] at hlt
    omega

end Form

open Form in
/-- The kinds with which a statement may start are those with which one does. -/
theorem Kind.beginsStatement_iff {k : Kind} :
    k.BeginsStatement ↔ (symbol .statement).starts k = true := by
  constructor
  · rintro ⟨d, u, y, h⟩
    rcases h.first with ⟨hnil, -⟩ | ⟨k', v, heq, hstarts⟩
    · exact absurd hnil (by simp)
    · rwa [(List.cons.inj heq).1]
  · intro h
    simp only [starts_symbol, Symbol.starts, Bool.or_eq_true, beq_iff_eq, opensClauseStatement]
      at h
    rcases h with rfl | (((rfl | rfl) | rfl) | rfl) | hk
    · exact ⟨0, [], [], .symbol (.right (.oneOf rfl))⟩
    · exact ⟨1, _, [], .symbol (.left (.symbol (.left (.nest (derives_switchBlock 0 [])))))⟩
    · have hname : (symbol .assignment).Derives 0 [.identifier] [] :=
        .symbol (.seq_nil (.oneOf rfl) (.right (.right .done)))
      exact ⟨0, [], [], .symbol (.left (.symbol (.right (.left hname))))⟩
    · exact ⟨0, [], [], .symbol (.left (.symbol (.right (.right (.left (.oneOf rfl))))))⟩
    · exact ⟨0, [], [], .symbol (.left (.symbol (.right (.right (.right (.left (.oneOf rfl)))))))⟩
    · have hskipped := skipped_keyword hk
      exact ⟨0, [], [],
        .symbol (.left (.symbol (.right (.right (.right (.right (.skipped hskipped)))))))⟩

/-- Clauses and the end of a block are told apart from statements by one token. -/
theorem Kind.not_beginsStatement {k : Kind} (h : k = .kwCase ∨ k = .kwDefault ∨ k = .rbrace) :
    ¬ k.BeginsStatement := by
  rw [beginsStatement_iff]
  rcases h with rfl | rfl | rfl <;> decide

/-- What is wrong with a token at which a statement should begin. -/
def Kind.misplacement : Kind → Fault
  | kwCase => .caseOutsideSwitch
  | kwDefault => .defaultOutsideSwitch
  | rbrace => .unmatchedBrace
  | _ => .unrecognizedStatement

/-- Any token that begins no statement is rejected where one should begin. -/
theorem Move.statementAt_eq_reject {k : Kind} (h : ¬ k.BeginsStatement) (heof : k ≠ .eof)
    (hnewline : k ≠ .newline) : statementAt k = reject k.misplacement := by
  rw [Kind.beginsStatement_iff] at h
  cases k with
  | eof => exact absurd rfl heof
  | newline => exact absurd rfl hnewline
  | kwSwitch | identifier | kwBreak | kwContinue | kwPass | kwIf | kwWhile | kwFor | kwDef
  | kwClass => exact absurd rfl h
  | _ => rfl

/-! ## Line breaks before a statement -/

/-- What is passed over as line breaks are line breaks. -/
theorem Cursor.isNewline_of_lt {c : Cursor} {j : Nat} {t : Token} (hle : c.index ≤ j)
    (hlt : j < c.skipNewlines.index) (ht : c.stream.toList[j]? = some t) : t.isNewline = true := by
  have hbreaks := List.takeWhile_prefix Token.isNewline (l := c.ahead)
  rw [skipNewlines, index_forward] at hlt
  have hj : j - c.index < (c.ahead.takeWhile Token.isNewline).length := by omega
  have hahead : c.stream.toList[j]? = c.ahead[j - c.index]? := by
    have hbehind : c.behind.reverse.length ≤ j := by rwa [List.length_reverse]
    rw [stream, Stream.toList, List.append_assoc, List.getElem?_append_right hbehind,
      List.length_reverse, ← index, List.getElem?_append_left (by omega)]
  rw [hahead, List.prefix_iff_getElem?.mp hbreaks _ hj, Option.some.injEq] at ht
  exact List.all_eq_true.mp List.all_takeWhile t (ht ▸ List.getElem_mem hj)

namespace Pass

/-- What is passed over before a statement leads to the first token from the
cursor on that is no line break. -/
theorem isLeast_skipNewlines (p : Pass) :
    IsLeast {j | p.cursor.index ≤ j ∧ ∃ t, p.cursor.stream.toList[j]? = some t ∧
      t.kind ≠ .newline} p.skipNewlines.cursor.index := by
  have hon := p.extends_skipNewlines
  constructor
  · refine ⟨hon.index_le, p.skipNewlines.cursor.current, ?_, p.kind_skipNewlines_ne⟩
    rw [← hon.stream_eq]
    exact p.skipNewlines.cursor.getElem?_index
  · rintro j ⟨hle, t, ht, hkind⟩
    by_contra hlt
    have hnewline := Cursor.isNewline_of_lt hle (Nat.lt_of_not_le hlt) ht
    exact hkind (by simpa [Token.isNewline] using hnewline)

/-! ## From the first token on -/

/-- A statement is what its first token chooses, behind the line breaks. -/
theorem gives_statementAt (p : Pass) : ∃ b, Rule.statement.need p.size ≤ b + 1 ∧
    Move.Gives b (Move.statementAt p.skipNewlines.kind) p.skipNewlines (p.follow .statement) := by
  obtain ⟨b, hb, hscript⟩ := Move.gives_script .statement p
  obtain ⟨n, hlines, hat⟩ := Move.gives_both.mp hscript
  obtain rfl : p.skipNewlines = n := Option.some.inj hlines
  exact ⟨b, hb ▸ Move.need_le_budget .statement p, hat⟩

theorem index_add_size (p : Pass) : p.cursor.index + p.size = p.cursor.stream.tokens.length := by
  simp only [size, Cursor.index, Cursor.stream, List.length_append, List.length_reverse]

/-- In a valid state, a statement gets on from any token but an end mark. -/
theorem index_lt_statement {p : Pass} (hvalid : p.valid = true) (hk : p.skipNewlines.kind ≠ .eof) :
    p.skipNewlines.cursor.index < (p.follow .statement).cursor.index ∨
      (p.follow .statement).valid = false := by
  obtain ⟨b, hneed, hat⟩ := p.gives_statementAt
  obtain ⟨q, hq, -, hon⟩ := (suffices_all b).getsOn_statementAt hneed hk p.skipNewlines
    p.size_skipNewlines_le hvalid (beq_self_eq_true _)
  obtain rfl : q = p.follow .statement := Option.some.inj (hq.symm.trans hat)
  refine hon.imp_left fun hsize => ?_
  have hstream := (p.makes_follow .statement).extends.stream_eq
  have hbefore := p.skipNewlines.index_add_size
  have hafter := (p.follow .statement).index_add_size
  rw [p.extends_skipNewlines.stream_eq] at hbefore
  rw [hstream] at hafter
  omega

theorem follow_statement_of_eof {p : Pass} (hk : p.skipNewlines.kind = .eof) :
    p.follow .statement = p.skipNewlines := by
  obtain ⟨b, -, hat⟩ := p.gives_statementAt
  rw [hk] at hat
  exact (Option.some.inj hat).symm

/-- A token that begins no statement is reported and stepped over. -/
theorem follow_statement_of_not_begins {p : Pass} (heof : p.skipNewlines.kind ≠ .eof)
    (hk : ¬ p.skipNewlines.kind.BeginsStatement) : p.follow .statement =
      (p.skipNewlines.report p.skipNewlines.kind.misplacement).advance := by
  obtain ⟨b, -, hat⟩ := p.gives_statementAt
  rw [Move.statementAt_eq_reject hk heof p.kind_skipNewlines_ne] at hat
  exact (Option.some.inj hat).symm

/-- A statement gets on. From every valid state it comes to an end, further on than
the first token from the cursor on that is no line break, or not valid any more,
or at an end mark. If no statement begins with this token, as with the keywords of
clauses and with a closing brace, and it is no end mark, then the statement passes
over this one token behind the line breaks, and records one error, which is about
it, and nothing else. -/
theorem statement_gets_on {p : Pass} (hvalid : p.valid = true) :
    let s := p.cursor.stream
    let q := p.follow .statement
    Moment.Reaches ⟨[.make (.follow .statement)], p⟩ ⟨[], q⟩ ∧ q.cursor.stream = s ∧
      ∃ i t, IsLeast {j | p.cursor.index ≤ j ∧ ∃ t, s.toList[j]? = some t ∧ t.kind ≠ .newline} i ∧
        s.toList[i]? = some t ∧
        (i < q.cursor.index ∨ q.valid = false ∨ q.kind = .eof) ∧
        (t.kind ≠ .eof →
          t.kind = .kwCase ∨ t.kind = .kwDefault ∨ t.kind = .rbrace ∨ ¬ t.kind.BeginsStatement →
          q.cursor.index = i + 1 ∧ q.errors = p.errors ++ [.error ⟨i, t⟩ t.kind.misplacement] ∧
            q.notices = p.notices) := by
  intro s q
  have hmakes := p.makes_follow .statement
  have htoken := p.skipNewlines.cursor.getElem?_index
  rw [p.extends_skipNewlines.stream_eq] at htoken
  refine ⟨hmakes [], hmakes.extends.stream_eq, p.skipNewlines.cursor.index,
    p.skipNewlines.cursor.current, p.isLeast_skipNewlines, htoken, ?_, fun heof hkind => ?_⟩
  · by_cases heof : p.skipNewlines.kind = .eof
    · right
      right
      rw [show q = p.skipNewlines from follow_statement_of_eof heof]
      exact heof
    · exact (index_lt_statement hvalid heof).imp_right .inl
  · have hbegins : ¬ p.skipNewlines.kind.BeginsStatement := by
      rcases hkind with hcase | hdefault | hbrace | hbegins
      · exact Kind.not_beginsStatement (.inl hcase)
      · exact Kind.not_beginsStatement (.inr (.inl hdefault))
      · exact Kind.not_beginsStatement (.inr (.inr hbrace))
      · exact hbegins
    have hq : q = _ := follow_statement_of_not_begins heof hbegins
    refine ⟨?_, ?_, ?_⟩
    · rw [hq]
      exact Twin.index_advance (p := p.skipNewlines.report _) heof
    · rw [hq]
      exact p.skipNewlines.errors_report _
    · rw [hq]
      exact (Task.notices_perform (.make (.reject _)) p.skipNewlines).trans (List.append_nil _)

/-- A literal on a line of its own, in the middle of a script and deeper than the
limit allows. -/
def strayLiteral : Pass where
  cursor :=
    { behind := [⟨⟨":", ⟨1, 8⟩⟩, .colon⟩, ⟨⟨"default", ⟨1, 1⟩⟩, .kwDefault⟩]
      ahead := [⟨⟨"\\n", ⟨1, 9⟩⟩, .newline⟩, ⟨⟨"\\n", ⟨2, 1⟩⟩, .newline⟩,
        ⟨⟨"12", ⟨3, 1⟩⟩, .integer⟩, ⟨⟨"++", ⟨3, 3⟩⟩, .increment⟩]
      stop := ⟨"", ⟨3, 5⟩⟩ }
  valid := true
  depth := 1
  limit := 0
  diagnostics := []
  verdict? := none

theorem statement_gets_on_strayLiteral :
    strayLiteral.valid = true ∧ (strayLiteral.follow .statement).cursor.index = 5 ∧
      (strayLiteral.follow .statement).errors =
        [.error ⟨4, ⟨⟨"12", ⟨3, 1⟩⟩, .integer⟩⟩ .unrecognizedStatement] := by
  have hvalid : strayLiteral.valid = true := rfl
  obtain ⟨-, -, i, t, hleast, htoken, -, hreject⟩ := statement_gets_on hvalid
  obtain rfl : i = 4 := hleast.unique strayLiteral.isLeast_skipNewlines
  obtain rfl := Option.some.inj htoken
  have hbegins : ¬ Kind.integer.BeginsStatement := by
    rw [Kind.beginsStatement_iff]
    decide
  obtain ⟨hindex, herrors, -⟩ := hreject (by decide) (.inr (.inr (.inr hbegins)))
  exact ⟨hvalid, hindex, herrors⟩

end Pass

end SwitchScript
