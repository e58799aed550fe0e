import SwitchScript.Proofs.Calls
import SwitchScript.Proofs.Language.Reading

/-!
# Precedence does not decide what is accepted

An expression is read by six rules inside each other, one for each level of
precedence, and each of them is a loop over the operators of its level. As no
tree is built, the levels leave no trace: a single loop over all operators, with
the tightest operands between them, does the same to every state
(`precedence_flat`).

The heart of it is that a loop over operands which are loops themselves can be
flattened (`Chains.flatten`). An inner loop ends where the run is not valid any
more, and then all loops end, or where its operators end, and then the next
operator, if there is one, is one of the outer loop; so what the two do in turn
are rounds of one loop over both sets of operators. It does not matter whether
the sets have anything in common.
-/

namespace SwitchScript

/-- Every operator that stands between two operands, the loosest one first. -/
def Kind.binaryOperators : List Kind :=
  [kwOr] ++ [kwAnd] ++ [equal, notEqual] ++ [less, lessEqual, greater, greaterEqual] ++
    [plus, minus] ++ [multiply, divide, modulo]

theorem Kind.eof_notMem_binaryOperators : .eof ∉ binaryOperators := by decide

/-! ## Loops over operators -/

/-- As long as the run is valid and stands on an operator, it passes over the
operator and an operand. -/
inductive Links (operand : Pass → Pass → Prop) (test : Kind → Bool) : Pass → Pass → Prop
  | stop {p : Pass} (hstop : (p.valid && test p.kind) = false) : Links operand test p p
  | link {p q r : Pass} (hgo : (p.valid && test p.kind) = true) (hoperand : operand p.advance q)
      (hrest : Links operand test q r) : Links operand test p r

/-- An operand, and others behind operators. -/
def Chains (operand : Pass → Pass → Prop) (test : Kind → Bool) (p r : Pass) : Prop :=
  ∃ q, operand p q ∧ Links operand test q r

variable {operand operand' : Pass → Pass → Prop} {test inner outer : Kind → Bool} {p q r : Pass}

theorem Links.stops (h : Links operand test p q) : (q.valid && test q.kind) = false := by
  induction h with
  | stop hstop => exact hstop
  | link _ _ _ ih => exact ih

theorem Links.mono (h : Links operand test p q) (hle : ∀ p q, operand p q → operand' p q) :
    Links operand' test p q := by
  induction h with
  | stop hstop => exact .stop hstop
  | link hgo hoperand _ ih => exact .link hgo (hle _ _ hoperand) ih

theorem Chains.mono (h : Chains operand test p q) (hle : ∀ p q, operand p q → operand' p q) :
    Chains operand' test p q := by
  obtain ⟨o, hoperand, hlinks⟩ := h
  exact ⟨o, hle _ _ hoperand, hlinks.mono hle⟩

/-- Rounds of the inner loop are rounds of the flat one. -/
theorem Links.append (h : Links operand inner p q)
    (hrest : Links operand (fun k => inner k || outer k) q r) :
    Links operand (fun k => inner k || outer k) p r := by
  induction h with
  | stop _ => exact hrest
  | link hgo hoperand _ ih =>
      obtain ⟨hvalid, hinner⟩ := Bool.and_eq_true_iff.mp hgo
      refine .link ?_ hoperand (ih hrest)
      rw [hvalid, hinner]
      rfl

/-- From where the inner loop has ended, rounds of the outer one are rounds of
the flat one. -/
theorem Links.flatten (h : Links (Chains operand inner) outer p r)
    (hended : (p.valid && inner p.kind) = false) :
    Links operand (fun k => inner k || outer k) p r := by
  induction h with
  | stop hstop =>
      refine .stop ?_
      rw [Bool.and_or_distrib_left, hended, hstop]
      rfl
  | link hgo hoperand _ ih =>
      obtain ⟨o, ho, hlinks⟩ := hoperand
      refine .link ?_ ho (hlinks.append (ih hlinks.stops))
      rw [Bool.and_or_distrib_left, hgo, Bool.or_true]

/-- A chain of chains is one chain, with the operators of both. -/
theorem Chains.flatten (h : Chains (Chains operand inner) outer p r) :
    Chains operand (fun k => inner k || outer k) p r := by
  obtain ⟨q, ⟨o, ho, hinner⟩, houter⟩ := h
  exact ⟨o, ho, hinner.append (houter.flatten hinner.stops)⟩

/-! ## What a chain of the grammar does -/

namespace Move

variable {m : Move}

theorem links_of_loop {b : Nat} (n : Nat) : ∀ {p q : Pass},
    loop test ((advance >> m).run (Rule.run b) b) n p = some q → Links m.Makes test p q := by
  induction n with
  | zero =>
      intro p q h
      exact absurd h (by simp [loop])
  | succ n ih =>
      intro p q h
      rcases loop_eq_some h with ⟨rfl, hstop⟩ | ⟨i, r, hi, hgo, hround, hrest⟩
      · exact .stop hstop
      · obtain rfl := Nat.succ.inj hi
        obtain ⟨o, ho, hr⟩ := gives_both.mp hround
        obtain rfl := Option.some.inj ho
        exact .link hgo (Gives.makes hr) (ih hrest)

theorem chains_of_gives {b : Nat} (h : Gives b (chain m test) p r) : Chains m.Makes test p r := by
  obtain ⟨q, hq, hloop⟩ := gives_both.mp h
  exact ⟨q, hq.makes, links_of_loop b hloop⟩

theorem makes_of_links (h : Links m.Makes test p q) :
    (repeated test (advance >> m)).Makes p q := by
  induction h with
  | stop hstop => exact makes_repeated_stop hstop
  | link hgo hoperand _ ih =>
      refine makes_repeated hgo (Makes.both ?_ hoperand) ih
      exact fun ts => .head (.refl _)

theorem makes_of_chains (h : Chains m.Makes test p r) : (chain m test).Makes p r := by
  obtain ⟨q, hq, hlinks⟩ := h
  exact hq.both (makes_of_links hlinks)

/-- What a rule reads is a chain of the tightest operands with these operators
between them. -/
def Flat (rule : Rule) (test : Kind → Bool) : Prop :=
  ∀ p q, (follow rule).Makes p q → Chains (follow .unary).Makes test p q

/-- A rule whose script is a chain reads a chain. -/
theorem chains_of_script {rule operand : Rule} (hscript : rule.script = chain (follow operand) test)
    (h : (follow rule).Makes p q) : Chains (follow operand).Makes test p q := by
  obtain ⟨b, -, hrun⟩ := gives_script rule p
  rw [hscript, Pass.follow_eq_of_makes h] at hrun
  exact chains_of_gives hrun

/-- One level more: if the operands of a rule are flat, so is the rule. -/
theorem Flat.level {operand : Rule} (h : Flat operand inner) (rule : Rule)
    (hscript : rule.script = chain (follow operand) outer) :
    Flat rule fun k => inner k || outer k := by
  intro p q hmakes
  exact ((chains_of_script hscript hmakes).mono h).flatten

/-- All six levels, from the tightest operators to the loosest. -/
theorem flat_logicalOr : Flat .logicalOr Kind.binaryOperators.contains := by
  have hfactor : Flat .factor Kind.isMultiplicative := fun p q => chains_of_script rfl
  have hterm := hfactor.level .term rfl
  have hcomparison := hterm.level .comparison rfl
  have hequality := hcomparison.level .equality rfl
  have hand := hequality.level .logicalAnd rfl
  have hor := hand.level .logicalOr rfl
  have htest : Kind.binaryOperators.contains = fun k =>
      k.isMultiplicative || k.isAdditive || k.isComparison || k.isEquality || k == .kwAnd ||
        k == .kwOr := by
    funext k
    cases k <;> rfl
  rw [htest]
  exact hor

end Move

namespace Pass

theorem call_eq_of_makes {c : Call} (h : c.move.Makes p q) : p.call c = q :=
  Moment.Reaches.end_unique (p.makes_call c []) (h [])

/-- Precedence does not decide what is accepted. From every state, whatever is
ahead and however deep and valid the run is, reading an expression ends in the
same state as reading operands without binary operators in one flat loop over
all those operators. -/
theorem precedence_flat (p : Pass) :
    p.call (.follow .expression) = p.call (.chain (.follow .unary) Kind.binaryOperators
      Kind.eof_notMem_binaryOperators) := by
  have hor : (Move.follow .logicalOr).Makes p (p.follow .logicalOr) := p.makes_follow .logicalOr
  have hexpression : p.call (.follow .expression) = p.follow .logicalOr :=
    call_eq_of_makes (Move.makes_follow hor)
  rw [hexpression, eq_comm]
  apply call_eq_of_makes
  exact Move.makes_of_chains (Move.flat_logicalOr p _ hor)

end Pass

end SwitchScript
