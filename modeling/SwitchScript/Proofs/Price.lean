import SwitchScript.Proofs.Failure

/-!
# The price of an error

When a run records its first error, the constructs that are open at that moment
are still to be wound down. Each may wait for its delimiters, consume them or
record that they are missing, and nothing else: what stands on the stack of a
failing run are moves that wind down (`Move.windsDown`).

How much of that there can be is a matter of counting, and as there are two
things to count, tokens and errors, the counting is done for any `Price`. Every
nested construct has a price of one, except for the switch that is innermost,
whose header and block wait for more, and for the construct that the nesting
limit has refused, which waits for its delimiter all the same. So the price of
everything that is open never exceeds the room that there was at the start, and
a constant (`Rule.allowance`). `Move.Within` says that this is so wherever in a
move the run may fail, `Rule.within_script` goes through the scripts, and
`Price.covers_perform` carries it through a run.
-/

namespace SwitchScript

/-- Kinds that an open construct waits for. -/
def Kind.isDelimiter : Kind → Bool
  | rparen | rbracket | lbrace | rbrace | colon => true
  | _ => false

namespace Fault

/-- Errors that may be the echo of an earlier one. -/
def isEcho : Fault → Bool
  | unclosedParen | unclosedBracket | unclosedSwitchParen | missingSwitchBrace | missingClause
  | unclosedSwitchBrace | missingCaseColon => true
  | _ => false

/-- Errors about a token with which no statement starts. -/
def isMisplaced : Fault → Bool
  | caseOutsideSwitch | defaultOutsideSwitch | unmatchedBrace | unrecognizedStatement => true
  | _ => false

end Fault

/-- What it costs to wind down: for a demand, for a delimiter that is waited
for before something else, and for a token that is stepped over with an error.
-/
structure Price where
  reject : Nat
  demand : Nat
  require : Nat → Nat
  require_zero : require 0 = 1
  two_le_header : 2 ≤ require (require (demand + require 0))
  reject_le_header : reject ≤ require (require (demand + require 0))

/-- The price of a switch whose header is being read. -/
def Price.header (c : Price) : Nat := c.require (c.require (c.demand + c.require 0))

namespace Move

/-- The move cannot fail. -/
def sure : Move → Bool
  | stay | advance | skipNewlines | skipConstruct => true
  | _ => false

/-- When the run is not valid any more, the move only waits for delimiters. -/
def windsDown : Move → Bool
  | stay | skipNewlines | once _ _ | repeated _ _ => true
  | demand _ fault => fault.isEcho
  | require kind fault next => kind.isDelimiter && fault.isEcho && next.windsDown
  | both first second => first.windsDown && second.windsDown
  | _ => false

/-- What a move costs that winds down. -/
def price (c : Price) : Move → Nat
  | demand _ _ => c.demand
  | require _ _ next => c.require (next.price c)
  | both first second => first.price c + second.price c
  | _ => 0

end Move

/-- What a rule may add to the price of what is open, besides the room. -/
def Rule.allowance (c : Price) : Rule → Nat
  | switchStatement => c.header + 1
  | verdict | program | statement | ignoredConstruct | caseClause | defaultClause => c.header
  | _ => 1

/-- Wherever the move fails, in a place with room for `r` constructs, what it
has left on the stack winds down at a price of at most `n`. -/
def Move.Within (c : Price) : Move → Nat → Int → Prop
  | reject fault, n, _ => fault.isMisplaced = true ∧ c.reject ≤ n
  | require _ _ next, n, r => next.Within c n r
  | both first second, n, r =>
    (first.sure = true ∨ second.windsDown = true ∧ second.price c ≤ n ∧
      first.Within c (n - second.price c) r) ∧ second.Within c n r
  | peek choose, n, r => ∀ k, (choose k).Within c n r
  | once _ body, n, r | repeated _ body, n, r | judge body, n, r => body.Within c n r
  | nest inner, n, r => r ≤ 0 ∨ inner.Within c n (r - 1)
  | follow rule, n, r => r.toNat + rule.allowance c ≤ n
  | _, _, _ => True

namespace Move

variable {c : Price} {m first second inner : Move} {n n' : Nat} {r : Int}

theorem Within.mono (h : m.Within c n r) (hle : n ≤ n') : m.Within c n' r := by
  induction m generalizing n n' r with
  | stay | advance | skipNewlines | skipConstruct | report | demand => trivial
  | reject fault => exact ⟨h.1, Nat.le_trans h.2 hle⟩
  | require kind fault next ih => exact ih h hle
  | both first second ihfirst ihsecond =>
      refine ⟨h.1.imp_right fun hfirst => ?_, ihsecond h.2 hle⟩
      obtain ⟨hdown, hprice, hwithin⟩ := hfirst
      exact ⟨hdown, Nat.le_trans hprice hle, ihfirst hwithin (Nat.sub_le_sub_right hle _)⟩
  | peek choose ih => exact fun k => ih k (h k) hle
  | once test body ih | repeated test body ih | judge body ih => exact ih h hle
  | nest inner ih => exact h.imp_right fun hinner => ih hinner hle
  | follow rule => exact Nat.le_trans h hle

/-! ## Ways to put moves together -/

/-- After a move that cannot fail, the rest counts alone. -/
theorem within_sure (hsure : first.sure = true) (h : second.Within c n r) :
    (first >> second).Within c n r :=
  ⟨.inl hsure, h⟩

/-- What winds down after a move is paid for in addition. -/
theorem within_both (hfirst : first.Within c n r) (hdown : second.windsDown = true)
    (hsecond : second.Within c (n + second.price c) r) :
    (first >> second).Within c (n + second.price c) r := by
  refine ⟨.inr ⟨hdown, Nat.le_add_left _ _, ?_⟩, hsecond⟩
  rwa [Nat.add_sub_cancel]

/-- A nested construct costs one, or is refused. -/
theorem within_enclosed {kind : Kind} {fault : Fault}
    (hinner : inner.Within c r.toNat r) (hkind : kind.isDelimiter = true)
    (hfault : fault.isEcho = true) :
    (advance >> inner >> expect kind fault).Within c (r.toNat + 1) r := by
  have hprice : (expect kind fault).price c = 1 := c.require_zero
  refine within_sure rfl ?_
  rw [← hprice]
  refine within_both hinner ?_ trivial
  simp [expect, windsDown, hkind, hfault]

theorem within_nest_follow {rule : Rule} (h : rule.allowance c ≤ n + 1) :
    (nest (follow rule)).Within c (r.toNat + n) r := by
  by_cases hr : r ≤ 0
  · exact .inl hr
  · refine .inr ?_
    show (r - 1).toNat + rule.allowance c ≤ r.toNat + n
    omega

theorem within_nest_operand {rule : Rule} (h : rule.allowance c ≤ 1) :
    (nest (follow rule)).Within c r.toNat r :=
  within_nest_follow h

theorem within_chain {operand : Move} {test : Kind → Bool} (h : operand.Within c n r) :
    (chain operand test).Within c n r :=
  within_both h rfl (within_sure rfl h)

/-! ## The scripts -/

theorem within_statementAt (k : Kind) : (statementAt k).Within c (r.toNat + c.header) r := by
  have htwo : 2 ≤ c.header := c.two_le_header
  have hreject : c.reject ≤ r.toNat + c.header :=
    Nat.le_trans c.reject_le_header (Nat.le_add_left _ _)
  unfold statementAt
  split
  · exact within_nest_follow (Nat.le_refl _)
  split
  · show r.toNat + 1 ≤ r.toNat + c.header
    omega
  split
  · exact within_sure rfl trivial
  split
  · exact Nat.le_refl _
  split
  · exact trivial
  split
  · exact ⟨rfl, hreject⟩
  split
  · exact ⟨rfl, hreject⟩
  split
  · exact ⟨rfl, hreject⟩
  · exact ⟨rfl, hreject⟩

theorem within_clauseBody (ends : Kind → Bool) :
    (clauseBody ends).Within c (r.toNat + c.header) r := by
  refine within_sure rfl ⟨.inr ⟨rfl, Nat.zero_le _, ?_⟩, within_sure rfl trivial⟩
  exact ⟨.inr ⟨rfl, Nat.zero_le _, Nat.le_refl _⟩, trivial⟩

theorem within_afterIdentifier (k : Kind) : (afterIdentifier k).Within c (r.toNat + 1) r := by
  unfold afterIdentifier
  split
  · exact within_sure rfl (Nat.le_refl _)
  split
  · exact trivial
  · exact Nat.le_refl _

theorem within_suffixAt (k : Kind) : (suffixAt k).Within c (r.toNat + 1) r := by
  unfold suffixAt
  split
  · exact within_sure rfl trivial
  split
  · exact within_enclosed (within_nest_operand (Nat.le_refl _)) rfl rfl
  · exact within_enclosed (within_nest_operand (Nat.le_refl _)) rfl rfl

theorem within_primaryAt (k : Kind) : (primaryAt k).Within c (r.toNat + 1) r := by
  unfold primaryAt
  split
  · exact trivial
  split
  · exact within_sure rfl (Nat.le_refl _)
  split
  · exact within_enclosed (within_nest_operand (Nat.le_refl _)) rfl rfl
  split
  · refine within_enclosed (fun k => ?_) rfl rfl
    show Within c (if k = .rbracket then stay else nest (follow .expressionList)) _ r
    split
    · exact trivial
    · exact within_nest_operand (Nat.le_refl _)
  · exact trivial

/-- The clauses of a switch leave its closing brace to wait for. -/
theorem within_clauses :
    (repeated (· == .kwCase) (follow .caseClause) >>
      once (· == .kwDefault) (follow .defaultClause) >>
      expect .rbrace .unclosedSwitchBrace).Within c (r.toNat + c.header + 1) r := by
  have hclose : (once (· == .kwDefault) (follow .defaultClause) >>
      expect .rbrace .unclosedSwitchBrace).price c = 1 := by
    simp [andThen_eq, price, expect, c.require_zero]
  have hbrace : (expect .rbrace .unclosedSwitchBrace).price c = 1 := c.require_zero
  have hcases : (repeated (· == .kwCase) (follow .caseClause)).Within c (r.toNat + c.header) r :=
    Nat.le_refl _
  have hdefault : (once (· == .kwDefault) (follow .defaultClause)).Within c
      (r.toNat + c.header) r := Nat.le_refl _
  rw [← hclose]
  refine within_both hcases rfl ?_
  rw [hclose, ← hbrace]
  exact within_both hdefault rfl trivial

/-- While its header is read, a switch waits for the rest of the header, a
clause and the closing brace. -/
theorem within_switchStatement :
    Rule.switchStatement.script.Within c (r.toNat + Rule.switchStatement.allowance c) r := by
  have hclauses : (repeated (· == .kwCase) (follow .caseClause) >>
      once (· == .kwDefault) (follow .defaultClause) >>
      expect .rbrace .unclosedSwitchBrace).price c = 1 := by
    simp [andThen_eq, price, expect, c.require_zero]
  have hheader : c.require (c.require (0 + (c.demand + (0 + (0 + c.require 0))))) = c.header := by
    simp only [Nat.zero_add, Price.header]
  refine ⟨.inr ⟨rfl, ?_, ?_⟩, within_sure rfl ⟨.inr ⟨rfl, ?_, trivial⟩, within_clauses⟩⟩
  · show c.require _ ≤ r.toNat + (c.header + 1)
    rw [← hheader]
    exact Nat.le_trans (Nat.le_succ _) (Nat.le_add_left _ _)
  · show r.toNat + 1 ≤ r.toNat + (c.header + 1) - c.require (c.require
      (0 + (c.demand + (0 + (0 + c.require 0)))))
    rw [hheader]
    omega
  · rw [hclauses]
    exact Nat.le_add_left _ _

end Move

open Move

theorem Rule.within_script (c : Price) (rule : Rule) (r : Int) :
    rule.script.Within c (r.toNat + rule.allowance c) r := by
  have hcolon (ends : Kind → Bool) (fault : Fault) :
      (require .colon fault (clauseBody ends)).price c = 1 := c.require_zero
  have htwo : 2 ≤ c.header := c.two_le_header
  cases rule with
  | verdict | expression => exact Nat.le_refl _
  | program =>
      exact within_sure rfl ⟨.inr ⟨rfl, Nat.zero_le _, Nat.le_refl _⟩, trivial⟩
  | statement => exact within_sure rfl within_statementAt
  | ignoredConstruct => exact trivial
  | switchStatement => exact within_switchStatement
  | caseClause =>
      refine ⟨.inr ⟨rfl, ?_, ?_⟩, within_clauseBody _⟩
      · rw [hcolon]
        show 1 ≤ r.toNat + c.header
        omega
      · rw [hcolon]
        show r.toNat + 1 ≤ r.toNat + c.header - 1
        omega
  | defaultClause => exact within_clauseBody _
  | assignmentOrAccess => exact within_afterIdentifier
  | accessSuffixes => exact within_suffixAt
  | logicalOr | logicalAnd | equality | comparison | term | factor | expressionList =>
      apply within_chain
      exact Nat.le_refl _
  | unary =>
      intro k
      show Within c (if k.isUnary then advance >> nest (follow unary) else follow primary) _ r
      split
      · exact within_sure rfl (within_nest_follow (Nat.le_succ _))
      · exact Nat.le_refl _
  | primary => exact within_primaryAt
  | argumentList =>
      intro k
      show Within c (if k = .rparen then stay else follow expressionList) _ r
      split
      · exact trivial
      · exact Nat.le_refl _

/-! ## The stack -/

namespace Task

/-- When the run is not valid any more, the task only waits for delimiters. -/
def windsDown : Task → Bool
  | make m => m.windsDown
  | leave | settle => true

def price (c : Price) : Task → Nat
  | make m => m.price c
  | leave | settle => 0

end Task

/-- What it costs to wind down all tasks of a stack. -/
def Price.total (c : Price) : List Task → Nat
  | [] => 0
  | t :: ts => t.price c + c.total ts

/-- Wherever a run fails that has these tasks to do, in a place with room for
`r` constructs, the rest of them winds down at a price of at most `n`. -/
def Price.Covers (c : Price) (n : Nat) : List Task → Int → Prop
  | [], _ => True
  | .leave :: ts, r => c.Covers n ts (r + 1)
  | .settle :: ts, r => c.Covers n ts r
  | .make m :: ts, r =>
    (m.sure = true ∨ (∀ t ∈ ts, t.windsDown = true) ∧ c.total ts ≤ n ∧
      m.Within c (n - c.total ts) r) ∧ c.Covers n ts r

namespace Price

variable {c : Price} {n : Nat} {ts : List Task}

@[simp] theorem total_nil : c.total [] = 0 := rfl

theorem total_cons (t : Task) : c.total (t :: ts) = t.price c + c.total ts := rfl

theorem total_append (ts us : List Task) : c.total (ts ++ us) = c.total ts + c.total us := by
  induction ts with
  | nil => exact (Nat.zero_add _).symm
  | cons t ts ih => rw [List.cons_append, total_cons, ih, total_cons, Nat.add_assoc]

theorem covers_cons {m : Move} {r : Int} (hdown : ∀ t ∈ ts, t.windsDown = true)
    (hprice : c.total ts ≤ n) (h : m.Within c (n - c.total ts) r) (hts : c.Covers n ts r) :
    c.Covers n (.make m :: ts) r :=
  ⟨.inr ⟨hdown, hprice, h⟩, hts⟩

theorem forall_cons {t : Task} (ht : t.windsDown = true) (hts : ∀ t ∈ ts, t.windsDown = true) :
    ∀ t' ∈ t :: ts, t'.windsDown = true :=
  List.forall_mem_cons.mpr ⟨ht, hts⟩

/-- What can be covered with a task on the stack that costs nothing. -/
theorem covers_free {t : Task} {m : Move} {r : Int} (ht : t.windsDown = true)
    (hfree : t.price c = 0) (hdown : ∀ t ∈ ts, t.windsDown = true) (hprice : c.total ts ≤ n)
    (h : m.Within c (n - c.total ts) r) (hts : c.Covers n (t :: ts) r) :
    c.Covers n (.make m :: t :: ts) r := by
  have htotal : c.total (t :: ts) = c.total ts := by rw [total_cons, hfree, Nat.zero_add]
  refine covers_cons (forall_cons ht hdown) ?_ ?_ hts
  · rwa [htotal]
  · rwa [htotal]

/-- Performing a task keeps the price of failing. -/
theorem covers_perform {t : Task} {p : Pass} (h : c.Covers n (t :: ts) (p.limit - p.depth)) :
    c.Covers n ((t.perform p).1 ++ ts) ((t.perform p).2.limit - (t.perform p).2.depth) := by
  cases t with
  | leave =>
      show c.Covers n ts (p.limit - (p.depth - 1))
      rw [show p.limit - (p.depth - 1) = p.limit - p.depth + 1 by omega]
      exact h
  | settle => exact h
  | make m =>
      obtain ⟨hm, hts⟩ := h
      cases m with
      | stay | advance | skipNewlines | report | reject => exact hts
      | skipConstruct =>
          simp only [Task.perform, Pass.skipConstruct]
          split
          · exact hts
          · exact hts
      | demand test fault =>
          simp only [Task.perform]
          split
          · exact hts
          · exact hts
      | require kind fault next =>
          obtain ⟨hdown, hprice, hnext⟩ := hm.resolve_left Bool.false_ne_true
          simp only [Task.perform]
          split
          · exact covers_cons hdown hprice hnext hts
          · exact hts
      | both first second =>
          obtain ⟨hdown, hprice, hfirst, hsecond⟩ := hm.resolve_left Bool.false_ne_true
          show c.Covers n (.make first :: .make second :: ts) (p.limit - p.depth)
          refine ⟨hfirst.imp_right fun hfirst => ?_, covers_cons hdown hprice hsecond hts⟩
          obtain ⟨hdown', hprice', hwithin⟩ := hfirst
          have htotal : c.total (.make second :: ts) = second.price c + c.total ts :=
            total_cons _
          refine ⟨forall_cons hdown' hdown, ?_, ?_⟩
          · rw [htotal]
            omega
          · rwa [htotal, Nat.add_comm, ← Nat.sub_sub]
      | peek choose =>
          obtain ⟨hdown, hprice, hchoose⟩ := hm.resolve_left Bool.false_ne_true
          exact covers_cons hdown hprice (hchoose p.kind) hts
      | once test body =>
          obtain ⟨hdown, hprice, hbody⟩ := hm.resolve_left Bool.false_ne_true
          simp only [Task.perform]
          split
          · exact covers_cons hdown hprice hbody hts
          · exact hts
      | repeated test body =>
          obtain ⟨hdown, hprice, hbody⟩ := hm.resolve_left Bool.false_ne_true
          simp only [Task.perform]
          split
          · exact covers_free rfl rfl hdown hprice hbody ⟨.inr ⟨hdown, hprice, hbody⟩, hts⟩
          · exact hts
      | nest inner =>
          obtain ⟨hdown, hprice, hinner⟩ := hm.resolve_left Bool.false_ne_true
          simp only [Task.perform]
          split
          · exact hts
          · rename_i hopen
            have hleave : c.Covers n (.leave :: ts) (p.limit - p.depth - 1) := by
              show c.Covers n ts (p.limit - p.depth - 1 + 1)
              rwa [Int.sub_add_cancel]
            show c.Covers n (.make inner :: .leave :: ts) (p.limit - (p.depth + 1))
            rw [show p.limit - (p.depth + 1) = p.limit - p.depth - 1 by omega]
            exact covers_free rfl rfl hdown hprice (hinner.resolve_left (by omega)) hleave
      | judge body =>
          obtain ⟨hdown, hprice, hbody⟩ := hm.resolve_left Bool.false_ne_true
          simp only [Task.perform]
          split
          · exact hts
          · exact covers_free rfl rfl hdown hprice hbody hts
      | follow rule =>
          obtain ⟨hdown, hprice, hrule⟩ := hm.resolve_left Bool.false_ne_true
          exact covers_cons hdown hprice ((Rule.within_script c rule _).mono hrule) hts

theorem covers_start (c : Price) (s : Stream) (limit : Int) :
    c.Covers (limit.toNat + c.header) (Moment.start s limit).todo
      ((Moment.start s limit).pass.limit - (Moment.start s limit).pass.depth) := by
  refine covers_cons (fun _ ht => absurd ht (by simp)) (Nat.zero_le _) ?_ trivial
  show (limit - 0).toNat + c.header ≤ limit.toNat + c.header - 0
  omega

/-- Where a run fails, the rest winds down at a price within the limit. -/
theorem covers_of_reaches {s : Stream} {limit : Int} {d : Moment}
    (h : (Moment.start s limit).Reaches d) :
    c.Covers (limit.toNat + c.header) d.todo (d.pass.limit - d.pass.depth) :=
  h.preserves (fun e => c.Covers (limit.toNat + c.header) e.todo (e.pass.limit - e.pass.depth))
    (fun _ _ _ hcovers => covers_perform hcovers) (c.covers_start s limit)


end Price

end SwitchScript
