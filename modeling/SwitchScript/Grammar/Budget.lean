import SwitchScript.Grammar.Run

/-!
# The budget suffices

A run is given a budget so that it is total by its form. This file shows that
the budget is bookkeeping: the one that `Pass.perform?` computes is enough for
every rule from every state.

The argument has two parts. Between two tokens, a rule only follows rules of a
lower `Rule.rank`, since the grammar is not left-recursive; once a token is
consumed, the tokens ahead pay for any rank. And a repetition consumes a token
each time round or makes the run invalid, so it ends before the tokens do. The
second part hangs on one rule alone, `Rule.statement`, which must get on from
every token but the end mark.

The main statement is `Rule.run_eq_some`; `Pass.perform?_rule_isSome` states it
for the computed budget.
-/

namespace SwitchScript

def Pass.size (p : Pass) : Nat := p.cursor.ahead.length

/-- How far a rule is from the next token: without consuming one, a rule only
follows rules of a lower rank. -/
def Rule.rank : Rule → Nat
  | verdict => 13
  | program => 12
  | statement => 1
  | ignoredConstruct => 0
  | switchStatement => 0
  | caseClause => 0
  | defaultClause => 0
  | assignmentOrAccess => 0
  | accessSuffixes => 0
  | primary => 1
  | unary => 2
  | factor => 3
  | term => 4
  | comparison => 5
  | equality => 6
  | logicalAnd => 7
  | logicalOr => 8
  | expression => 9
  | expressionList => 10
  | argumentList => 11

/-- A budget for a rule with `n` tokens ahead. -/
def Rule.need (rule : Rule) (n : Nat) : Nat := 16 * n + rule.rank + 3

/-! ## Steps and the tokens ahead -/

namespace Pass

@[simp] theorem size_report (fault : Fault) (p : Pass) : (p.report fault).size = p.size := rfl

@[simp] theorem size_settle (p : Pass) : p.settle.size = p.size := rfl

@[simp] theorem size_notify (p : Pass) : p.notify.size = p.size := rfl

@[simp] theorem kind_notify (p : Pass) : p.notify.kind = p.kind := rfl

theorem size_advance (p : Pass) : p.advance.size = p.size - 1 := by
  simp [advance, size, Cursor.advance, Cursor.forward]

theorem size_advance_le (p : Pass) : p.advance.size ≤ p.size := by
  rw [size_advance]
  omega

theorem size_pos {p : Pass} (h : p.kind ≠ .eof) : 0 < p.size :=
  List.length_pos_iff.mpr (Cursor.ahead_ne_nil h)

theorem size_advance_lt {p : Pass} (h : p.kind ≠ .eof) : p.advance.size < p.size := by
  have hpos := size_pos h
  rw [size_advance]
  omega

theorem size_skipNewlines_le (p : Pass) : p.skipNewlines.size ≤ p.size := by
  simp only [skipNewlines, size, Cursor.skipNewlines, Cursor.forward, List.length_drop]
  omega

/-- Line breaks at the cursor are passed over, so what is no line break now was
there before or comes after one. -/
theorem size_skipNewlines_lt {p : Pass} (h : p.kind = .newline) :
    p.skipNewlines.size < p.size := by
  obtain ⟨⟨behind, ahead, stop⟩, valid, depth, limit, diagnostics, verdict?⟩ := p
  cases ahead with
  | nil => simp [kind, Cursor.kind, Cursor.current] at h
  | cons t rest =>
    have ht : t.isNewline = true := (Cursor.isNewline_iff rfl).mpr h
    simp only [skipNewlines, size, Cursor.skipNewlines, Cursor.forward, List.takeWhile_cons, ht,
      if_true, List.length_cons, List.length_drop]
    omega

theorem skipNewlines_of_kind_ne {p : Pass} (h : p.kind ≠ .newline) : p.skipNewlines = p := by
  obtain ⟨⟨behind, ahead, stop⟩, valid, depth, limit, diagnostics, verdict?⟩ := p
  cases ahead with
  | nil => rfl
  | cons t rest =>
    have ht : ¬ t.isNewline = true := mt (Cursor.isNewline_iff rfl).mp h
    simp [skipNewlines, Cursor.skipNewlines, Cursor.forward, ht]

theorem size_skipConstruct_le_advance (p : Pass) : p.skipConstruct.size ≤ p.advance.size := by
  simp only [skipConstruct]
  split
  · simp only [size, Cursor.forward, List.length_drop]
    exact Nat.sub_le _ _
  · exact Nat.le_refl _

end Pass

namespace Move

/-! ## Moves that end -/

section

variable (call : Rule → Pass → Option Pass) (budget : Nat)

/-- From every state with at most `n` tokens ahead, the move has an answer and
gives no token back. -/
def Ends (n : Nat) (m : Move) : Prop :=
  ∀ p : Pass, p.size ≤ n → ∃ q, m.run call budget p = some q ∧ q.size ≤ p.size

/-- From every valid state with at most `n` tokens ahead where the current kind
passes the test, the move consumes a token or makes the run invalid. -/
def GetsOn (n : Nat) (t : Kind → Bool) (m : Move) : Prop :=
  ∀ p : Pass, p.size ≤ n → p.valid = true → t p.kind = true →
    ∃ q, m.run call budget p = some q ∧ q.size ≤ p.size ∧ (q.size < p.size ∨ q.valid = false)

/-- From every state with at most `n` tokens ahead where the current kind passes
the test, the move consumes a token. -/
def Consumes (n : Nat) (t : Kind → Bool) (m : Move) : Prop :=
  ∀ p : Pass, p.size ≤ n → t p.kind = true →
    ∃ q, m.run call budget p = some q ∧ q.size < p.size

variable {call budget} {n : Nat} {t : Kind → Bool} {m first second : Move}

theorem Consumes.getsOn (h : Consumes call budget n t m) : GetsOn call budget n t m := by
  intro p hp _ ht
  obtain ⟨q, hq, hlt⟩ := h p hp ht
  exact ⟨q, hq, by omega, .inl hlt⟩

theorem ends_stay : Ends call budget n stay :=
  fun p _ => ⟨p, rfl, Nat.le_refl _⟩

theorem ends_advance : Ends call budget n advance :=
  fun p _ => ⟨p.advance, rfl, p.size_advance_le⟩

theorem ends_skipNewlines : Ends call budget n skipNewlines :=
  fun p _ => ⟨p.skipNewlines, rfl, p.size_skipNewlines_le⟩

theorem ends_skipConstruct : Ends call budget n skipConstruct :=
  fun p _ => ⟨p.skipConstruct, rfl,
    Nat.le_trans p.size_skipConstruct_le_advance p.size_advance_le⟩

theorem ends_report (fault : Fault) : Ends call budget n (report fault) :=
  fun p _ => ⟨p.report fault, rfl, Nat.le_refl _⟩

theorem ends_reject (fault : Fault) : Ends call budget n (reject fault) :=
  fun p _ => ⟨(p.report fault).advance, rfl, (p.report fault).size_advance_le⟩

theorem ends_demand (fault : Fault) : Ends call budget n (demand t fault) := by
  intro p _
  refine ⟨_, rfl, ?_⟩
  split
  · exact Nat.le_refl _
  · exact Nat.le_refl _

theorem Ends.both (h₁ : Ends call budget n first) (h₂ : Ends call budget n second) :
    Ends call budget n (first >> second) := by
  intro p hp
  obtain ⟨q, hq, hle⟩ := h₁ p hp
  obtain ⟨r, hr, hle'⟩ := h₂ q (by omega)
  exact ⟨r, by simp [andThen_eq, run, hq, hr], by omega⟩

theorem ends_peek {choose : Kind → Move} (h : ∀ k, Ends call budget n (choose k)) :
    Ends call budget n (peek choose) :=
  fun p hp => h p.kind p hp

theorem Ends.once (h : Ends call budget n m) : Ends call budget n (once t m) := by
  intro p hp
  simp only [run]
  split
  · exact h p hp
  · exact ⟨p, rfl, Nat.le_refl _⟩

theorem Ends.nest (h : Ends call budget n m) : Ends call budget n (nest m) := by
  intro p hp
  simp only [run]
  split
  · exact ⟨_, rfl, Nat.le_refl _⟩
  · obtain ⟨q, hq, hle⟩ := h { p with depth := p.depth + 1 } hp
    rw [hq]
    exact ⟨_, rfl, hle⟩

theorem Ends.judge (h : Ends call budget n m) : Ends call budget n (judge m) := by
  intro p hp
  simp only [run]
  split
  · exact ⟨p, rfl, Nat.le_refl _⟩
  · obtain ⟨q, hq, hle⟩ := h p hp
    rw [hq]
    exact ⟨q.settle, rfl, hle⟩

/-- A repetition ends if each time round gets on, and goes round at most once
more than there are tokens. -/
theorem GetsOn.repeated (h : GetsOn call budget n t m) (hb : n + 2 ≤ budget) :
    Ends call budget n (repeated t m) := by
  have loops : ∀ (b : Nat) (p : Pass), p.size ≤ n →
      (if p.valid then p.size + 2 else 1) ≤ b →
      ∃ q, loop t (m.run call budget) b p = some q ∧ q.size ≤ p.size := by
    intro b
    induction b with
    | zero =>
      intro p _ hle
      split at hle <;> omega
    | succ b ih =>
      intro p hp hle
      rw [loop]
      split
      · rename_i hgo
        rw [Bool.and_eq_true] at hgo
        obtain ⟨q, hq, hsize, hon⟩ := h p hp hgo.1 hgo.2
        rw [hq]
        rw [if_pos hgo.1] at hle
        have hb' : (if q.valid then q.size + 2 else 1) ≤ b := by
          rcases hon with hlt | hinvalid
          · split <;> omega
          · rw [hinvalid, if_neg (by simp)]
            omega
        obtain ⟨r, hr, hrle⟩ := ih q (by omega) hb'
        exact ⟨r, hr, by omega⟩
      · exact ⟨p, rfl, Nat.le_refl _⟩
  intro p hp
  exact loops budget p hp (by split <;> omega)

/-! ## Moves that consume -/

/-- Past a token that is no end mark, fewer tokens are ahead. -/
theorem consumes_advance_both (ht : t .eof = false) (h : ∀ n' < n, Ends call budget n' second) :
    Consumes call budget n t (advance >> second) := by
  intro p hp hk
  have hlt := Pass.size_advance_lt (p := p) (by rintro heq; simp [heq, ht] at hk)
  obtain ⟨q, hq, hle⟩ := h p.advance.size (by omega) p.advance (Nat.le_refl _)
  exact ⟨q, by simp [andThen_eq, run, hq], by omega⟩

/-- Operands end if one does; the operators pay for all but the first. -/
theorem ends_chain {operand : Move} {isOperator : Kind → Bool} (ht : isOperator .eof = false)
    (h : Ends call budget n operand) (hb : n + 2 ≤ budget) :
    Ends call budget n (chain operand isOperator) :=
  h.both <| GetsOn.repeated
    (consumes_advance_both ht fun _ hlt p hp => h p (by omega)).getsOn hb

/-- A required token pays for what comes after it. -/
theorem ends_require {kind : Kind} {fault : Fault} (hk : kind ≠ .eof)
    (h : ∀ n' < n, Ends call budget n' m) : Ends call budget n (require kind fault m) := by
  intro p hp
  simp only [run]
  split
  · rename_i heq
    have hlt := Pass.size_advance_lt (p := p) (heq ▸ hk)
    obtain ⟨q, hq, hle⟩ := h p.advance.size (by omega) p.advance (Nat.le_refl _)
    exact ⟨q, hq, by omega⟩
  · exact ⟨_, rfl, Nat.le_refl _⟩

theorem consumes_require {kind : Kind} {fault : Fault} (hk : kind ≠ .eof)
    (h : ∀ n' < n, Ends call budget n' m) :
    Consumes call budget n (· == kind) (require kind fault m) := by
  intro p hp ht
  rw [beq_iff_eq] at ht
  have hlt := Pass.size_advance_lt (p := p) (ht ▸ hk)
  obtain ⟨q, hq, hle⟩ := h p.advance.size (by omega) p.advance (Nat.le_refl _)
  exact ⟨q, by simp only [run, ht, if_true, hq], by omega⟩

theorem ends_expect {kind : Kind} (hk : kind ≠ .eof) (fault : Fault) :
    Ends call budget n (expect kind fault) :=
  ends_require hk fun _ _ => ends_stay

end

end Move

/-! ## Rules that end -/

/-- The kind that a rule requires first, if it requires one. -/
def Rule.opener? : Rule → Option Kind
  | switchStatement => some .kwSwitch
  | caseClause => some .kwCase
  | defaultClause => some .kwDefault
  | assignmentOrAccess => some .identifier
  | _ => none

/-- The kinds at which a rule is sure to consume a token. -/
def Rule.starts (rule : Rule) (k : Kind) : Bool :=
  match rule with
  | ignoredConstruct => k != .eof
  | _ => rule.opener? == some k

/-- What a budget guarantees for all rules that do not need more. -/
structure Suffices (b : Nat) : Prop where
  ends : ∀ (rule : Rule) (n : Nat), rule.need n ≤ b →
    Move.Ends (Rule.run b) b n (.follow rule)
  consumes : ∀ (rule : Rule) (n : Nat), rule.need n ≤ b →
    Move.Consumes (Rule.run b) b n rule.starts (.follow rule)
  getsOn : ∀ n : Nat, Rule.statement.need n ≤ b →
    Move.GetsOn (Rule.run b) b n (· != .eof) (.follow .statement)

namespace Suffices

open Move

variable {b n : Nat}

theorem ends_clauseBody (h : Suffices b) (hn : Rule.statement.need n ≤ b)
    {isEnd : Kind → Bool} (hEof : isEnd .eof = true) :
    Ends (Rule.run b) b n (clauseBody isEnd) := by
  have hb : n + 2 ≤ b := by
    simp only [Rule.need, Rule.rank] at hn
    omega
  refine ends_skipNewlines.both (Ends.both (GetsOn.repeated ?_ hb) ?_)
  · intro p hp hvalid hk
    have hne : (p.kind != .eof) = true := by
      by_cases heq : p.kind = .eof
      · simp [heq, hEof] at hk
      · simp [heq]
    obtain ⟨q, hq, hle, hon⟩ := h.getsOn n hn p hp hvalid hne
    refine ⟨q.skipNewlines, by simp only [andThen_eq, run] at hq ⊢; rw [hq], ?_, ?_⟩
    · exact Nat.le_trans q.size_skipNewlines_le hle
    · rcases hon with hlt | hinvalid
      · exact .inl (Nat.lt_of_le_of_lt q.size_skipNewlines_le hlt)
      · exact .inr hinvalid
  · exact (ends_advance.both ends_skipNewlines).once

/-- A rule that requires a token first ends after that token. -/
theorem opened (h : Suffices b) {rule : Rule} (hn : rule.need n ≤ b + 1) {kind : Kind}
    (hopen : rule.opener? = some kind) :
    kind ≠ .eof ∧ ∃ fault m, rule.script = require kind fault m ∧
      ∀ n' < n, Ends (Rule.run b) b n' m := by
  have below (s : Rule) (n' : Nat) (hlt : n' < n) : Ends (Rule.run b) b n' (follow s) := by
    apply h.ends
    have hrank : s.rank ≤ 13 := by cases s <;> decide
    simp only [Rule.need] at hn ⊢
    omega
  have body (n' : Nat) (hlt : n' < n) {isEnd : Kind → Bool} (hEof : isEnd .eof = true) :
      Ends (Rule.run b) b n' (clauseBody isEnd) := by
    refine h.ends_clauseBody ?_ hEof
    simp only [Rule.need, Rule.rank] at hn ⊢
    omega
  cases rule with
  | switchStatement =>
    obtain rfl := Option.some.inj hopen
    refine ⟨by decide, _, _, rfl, fun n₁ h₁ => ends_require (by decide) fun n₂ h₂ =>
      (below .expression n₂ (by omega)).both ?_⟩
    refine ends_require (by decide) fun n₃ h₃ => ends_require (by decide) fun n₄ h₄ => ?_
    refine ends_skipNewlines.both (Ends.both (ends_demand _) ?_)
    refine Ends.both ?_ (Ends.both (below .defaultClause n₄ (by omega)).once
      (ends_expect (by decide) _))
    refine GetsOn.repeated (Consumes.getsOn ?_) (by
      simp only [Rule.need] at hn
      omega)
    intro p hp hk
    refine h.consumes .caseClause n₄ ?_ p hp ?_
    · simp only [Rule.need, Rule.rank] at hn ⊢
      omega
    · rw [beq_iff_eq] at hk
      simp [Rule.starts, Rule.opener?, hk]
  | caseClause =>
    obtain rfl := Option.some.inj hopen
    exact ⟨by decide, _, _, rfl, fun n₁ h₁ => (below .expression n₁ h₁).both <|
      ends_require (by decide) fun n₂ h₂ => body n₂ (by omega) rfl⟩
  | defaultClause =>
    obtain rfl := Option.some.inj hopen
    exact ⟨by decide, _, _, rfl, fun n₁ h₁ => ends_require (by decide) fun n₂ h₂ =>
      body n₂ (by omega) rfl⟩
  | assignmentOrAccess =>
    obtain rfl := Option.some.inj hopen
    refine ⟨by decide, _, _, rfl, fun n₁ h₁ => ends_peek fun k => ?_⟩
    unfold afterIdentifier
    split
    · exact ends_advance.both (below .expression n₁ h₁)
    split
    · exact ends_advance
    · exact below .accessSuffixes n₁ h₁
  | _ => simp [Rule.opener?] at hopen

/-- What is enough for a statement, less one unit, is enough for the rules that
a statement follows. -/
theorem need_le_of_rank {s : Rule} (hn : Rule.statement.need n ≤ b + 1) (hrank : s.rank = 0) :
    s.need n ≤ b := by
  have hone : Rule.statement.rank = 1 := rfl
  simp only [Rule.need, hrank] at hn ⊢
  omega

/-- Whatever a statement starts with, it ends. -/
theorem ends_statementAt (h : Suffices b) (hn : Rule.statement.need n ≤ b + 1) (k : Kind) :
    Ends (Rule.run b) b n (statementAt k) := by
  have same (s : Rule) (hrank : s.rank = 0) : Ends (Rule.run b) b n (follow s) :=
    h.ends s n (need_le_of_rank hn hrank)
  unfold statementAt
  split
  · exact (same .switchStatement rfl).nest
  split
  · exact same .assignmentOrAccess rfl
  split
  · exact ends_advance.both ends_skipNewlines
  split
  · exact same .ignoredConstruct rfl
  split
  · exact ends_stay
  split
  · exact ends_reject _
  split
  · exact ends_reject _
  split
  · exact ends_reject _
  · exact ends_reject _

/-- Whatever but an end mark a statement starts with, it gets on. -/
theorem getsOn_statementAt (h : Suffices b) (hn : Rule.statement.need n ≤ b + 1) {k : Kind}
    (hk : k ≠ .eof) : GetsOn (Rule.run b) b n (· == k) (statementAt k) := by
  have consumes (s : Rule) (hrank : s.rank = 0) (p : Pass) (hp : p.size ≤ n)
      (hstarts : s.starts p.kind = true) :
      ∃ q, (follow s).run (Rule.run b) b p = some q ∧ q.size ≤ p.size ∧
        (q.size < p.size ∨ q.valid = false) := by
    obtain ⟨q, hq, hlt⟩ := h.consumes s n (need_le_of_rank hn hrank) p hp hstarts
    exact ⟨q, hq, by omega, .inl hlt⟩
  have invalid (fault : Fault) : GetsOn (Rule.run b) b n (· == k) (reject fault) :=
    fun p _ _ _ => ⟨(p.report fault).advance, rfl, (p.report fault).size_advance_le, .inr rfl⟩
  intro p hp hvalid ht
  rw [beq_iff_eq] at ht
  unfold statementAt
  split
  · rename_i hswitch
    simp only [run]
    split
    · exact ⟨_, rfl, Nat.le_refl _, .inr rfl⟩
    · have hkind : ({ p with depth := p.depth + 1 } : Pass).kind = .kwSwitch := ht.trans hswitch
      obtain ⟨q, hq, hlt⟩ := h.consumes .switchStatement n (need_le_of_rank hn rfl)
        { p with depth := p.depth + 1 } hp (by simp [Rule.starts, Rule.opener?, hkind])
      rw [run] at hq
      rw [hq]
      exact ⟨_, rfl, Nat.le_of_lt hlt, .inl hlt⟩
  split
  · rename_i hid
    exact consumes .assignmentOrAccess rfl p hp (by simp [Rule.starts, Rule.opener?, ht, hid])
  split
  · have hlt := Pass.size_advance_lt (p := p) (ht ▸ hk)
    have hle := p.advance.size_skipNewlines_le
    exact ⟨p.advance.skipNewlines, rfl, by omega, .inl (by omega)⟩
  split
  · exact consumes .ignoredConstruct rfl p hp (by simp [Rule.starts, ht, hk])
  split
  · exact invalid _ p hp hvalid (by simp [ht])
  split
  · exact invalid _ p hp hvalid (by simp [ht])
  split
  · exact invalid _ p hp hvalid (by simp [ht])
  · exact invalid _ p hp hvalid (by simp [ht])

/-- One more unit of budget is enough for a rule's script. -/
theorem ends_script (h : Suffices b) {rule : Rule} (hn : rule.need n ≤ b + 1) :
    Ends (Rule.run b) b n rule.script := by
  have hb : n + 2 ≤ b := by
    simp only [Rule.need] at hn
    omega
  have below (s : Rule) (n' : Nat) (hlt : n' < n) : Ends (Rule.run b) b n' (follow s) := by
    apply h.ends
    have hrank : s.rank ≤ 13 := by cases s <;> decide
    simp only [Rule.need] at hn ⊢
    omega
  have same (s : Rule) (hlt : s.rank < rule.rank) : Ends (Rule.run b) b n (follow s) := by
    apply h.ends
    simp only [Rule.need] at hn ⊢
    omega
  have openedEnds {kind : Kind} (hopen : rule.opener? = some kind) :
      Ends (Rule.run b) b n rule.script := by
    obtain ⟨hk, fault, m, hscript, hm⟩ := h.opened hn hopen
    rw [hscript]
    exact ends_require hk hm
  cases rule with
  | verdict => exact (same .program (by decide)).judge
  | program =>
    refine ends_skipNewlines.both (GetsOn.repeated ?_ hb)
    intro p hp hvalid hk
    obtain ⟨q, hq, hle, hon⟩ := h.getsOn n (by
      simp only [Rule.need, Rule.rank] at hn ⊢
      omega) p hp hvalid hk
    refine ⟨q.skipNewlines, by simp only [andThen_eq, run] at hq ⊢; rw [hq], ?_, ?_⟩
    · exact Nat.le_trans q.size_skipNewlines_le hle
    · rcases hon with hlt | hinvalid
      · exact .inl (Nat.lt_of_le_of_lt q.size_skipNewlines_le hlt)
      · exact .inr hinvalid
  | statement => exact ends_skipNewlines.both (ends_peek (h.ends_statementAt hn))
  | ignoredConstruct => exact ends_skipConstruct
  | switchStatement => exact openedEnds rfl
  | caseClause => exact openedEnds rfl
  | defaultClause => exact openedEnds rfl
  | assignmentOrAccess => exact openedEnds rfl
  | accessSuffixes =>
    refine GetsOn.repeated (Consumes.getsOn ?_) hb
    have nested (s : Rule) {kind : Kind} (hkind : kind ≠ .eof) (fault : Fault) :
        Consumes (Rule.run b) b n Kind.opensSuffix
          (advance >> nest (follow s) >> expect kind fault) :=
      consumes_advance_both rfl fun n' h' => (below s n' h').nest.both (ends_expect hkind _)
    intro p hp hk
    show ∃ q, (suffixAt p.kind).run (Rule.run b) b p = some q ∧ q.size < p.size
    unfold suffixAt
    split
    · exact consumes_advance_both (t := Kind.opensSuffix) rfl
        (fun _ _ => ends_expect (by decide) _) p hp hk
    split
    · exact nested _ (by decide) _ p hp hk
    · exact nested _ (by decide) _ p hp hk
  | expression => exact same .logicalOr (by decide)
  | logicalOr => exact ends_chain rfl (same .logicalAnd (by decide)) hb
  | logicalAnd => exact ends_chain rfl (same .equality (by decide)) hb
  | equality => exact ends_chain rfl (same .comparison (by decide)) hb
  | comparison => exact ends_chain rfl (same .term (by decide)) hb
  | term => exact ends_chain rfl (same .factor (by decide)) hb
  | factor => exact ends_chain rfl (same .unary (by decide)) hb
  | unary =>
    intro p hp
    show ∃ q, (if p.kind.isUnary then advance >> nest (follow .unary) else follow .primary).run
      (Rule.run b) b p = some q ∧ q.size ≤ p.size
    split
    · rename_i hk
      obtain ⟨q, hq, hlt⟩ := consumes_advance_both (t := Kind.isUnary) rfl
        (fun n' h' => (below .unary n' h').nest) p hp hk
      exact ⟨q, hq, by omega⟩
    · exact same .primary (by decide) p hp
  | primary =>
    have consumed {k : Kind} (hk : k ≠ .eof) {m : Move}
        (hm : ∀ n' < n, Ends (Rule.run b) b n' m) (p : Pass) (hp : p.size ≤ n)
        (heq : p.kind = k) :
        ∃ q, (advance >> m).run (Rule.run b) b p = some q ∧ q.size ≤ p.size := by
      obtain ⟨q, hq, hlt⟩ := consumes_advance_both (t := (· == k)) (by simp [Ne.symm hk]) hm
        p hp (by simp [heq])
      exact ⟨q, hq, by omega⟩
    intro p hp
    show ∃ q, (primaryAt p.kind).run (Rule.run b) b p = some q ∧ q.size ≤ p.size
    unfold primaryAt
    split
    · exact ends_advance p hp
    split
    · rename_i hk
      exact consumed (by decide) (fun n' h' => below .accessSuffixes n' h') p hp hk
    split
    · rename_i hk
      exact consumed (by decide)
        (fun n' h' => (below .expression n' h').nest.both (ends_expect (by decide) _)) p hp hk
    split
    · rename_i hk
      refine consumed (by decide) (fun n' h' => Ends.both (ends_peek fun k => ?_)
        (ends_expect (by decide) _)) p hp hk
      split
      · exact ends_stay
      · exact (below .expressionList n' h').nest
    · exact ends_report _ p hp
  | argumentList =>
    refine ends_peek fun k => ?_
    split
    · exact ends_stay
    · exact same .expressionList (by decide)
  | expressionList => exact ends_chain rfl (same .expression (by decide)) hb

/-- Where a rule is sure to consume a token, its script does. -/
theorem consumes_script (h : Suffices b) {rule : Rule} (hn : rule.need n ≤ b + 1) :
    Consumes (Rule.run b) b n rule.starts rule.script := by
  have openedConsumes (hstarts : rule.starts = fun k => rule.opener? == some k) :
      Consumes (Rule.run b) b n rule.starts rule.script := by
    intro p hp hk
    rw [hstarts, beq_iff_eq] at hk
    obtain ⟨hne, fault, m, hscript, hm⟩ := h.opened hn hk
    rw [hscript]
    exact consumes_require hne hm p hp (by simp)
  cases rule with
  | ignoredConstruct =>
    intro p hp hk
    have hne : p.kind ≠ .eof := by simpa [Rule.starts] using hk
    exact ⟨p.skipConstruct, rfl,
      Nat.lt_of_le_of_lt p.size_skipConstruct_le_advance (Pass.size_advance_lt hne)⟩
  | _ => exact openedConsumes rfl

/-- A statement gets on from every token but the end mark. -/
theorem statement_getsOn (h : Suffices b) (hn : Rule.statement.need n ≤ b + 1) :
    GetsOn (Rule.run b) b n (· != .eof) Rule.statement.script := by
  intro p hp hvalid hk
  have hne : p.kind ≠ .eof := by simpa using hk
  by_cases hnewline : p.kind = .newline
  · have hlt := Pass.size_skipNewlines_lt hnewline
    obtain ⟨q, hq, hle⟩ := h.ends_statementAt hn p.skipNewlines.kind p.skipNewlines (by omega)
    exact ⟨q, hq, by omega, .inl (by omega)⟩
  · obtain ⟨q, hq, hon⟩ := h.getsOn_statementAt hn hne p hp hvalid (by simp)
    refine ⟨q, ?_, hon⟩
    show (statementAt p.skipNewlines.kind).run (Rule.run b) b p.skipNewlines = some q
    rw [Pass.skipNewlines_of_kind_ne hnewline]
    exact hq

end Suffices

/-- Every budget is enough for the rules that do not need more. -/
theorem suffices_all (b : Nat) : Suffices b := by
  induction b with
  | zero =>
    have none (rule : Rule) (n : Nat) : ¬ rule.need n ≤ 0 := by
      simp only [Rule.need]
      omega
    exact ⟨fun rule n hn => absurd hn (none rule n), fun rule n hn => absurd hn (none rule n),
      fun n hn => absurd hn (none _ n)⟩
  | succ b ih =>
    -- a rule with one unit more does what its script does
    exact ⟨fun rule n hn p hp => ih.ends_script hn p hp,
      fun rule n hn p hp => ih.consumes_script hn p hp,
      fun n hn p hp => ih.statement_getsOn hn p hp⟩

/-- A rule ends if the budget is what it needs. -/
theorem Rule.run_eq_some {b : Nat} (rule : Rule) (p : Pass) (h : rule.need p.size ≤ b) :
    ∃ q, Rule.run b rule p = some q ∧ q.size ≤ p.size :=
  (suffices_all b).ends rule p.size h p (Nat.le_refl _)

theorem Pass.perform?_rule_isSome (rule : Rule) (p : Pass) :
    (p.perform? (.follow rule)).isSome = true := by
  have hrank : rule.rank ≤ 13 := by cases rule <;> decide
  obtain ⟨q, hq, -⟩ := Rule.run_eq_some (b := p.budget) rule p (by
    simp only [Rule.need, Pass.size, Pass.budget]
    omega)
  exact Option.isSome_of_mem hq

end SwitchScript
