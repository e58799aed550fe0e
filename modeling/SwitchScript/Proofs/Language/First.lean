import SwitchScript.Proofs.Language.Form

/-!
# How words start

A run never looks further than the current token, so wherever the grammar
leaves a choice, the kind of the next token has to settle it. `Form.starts` is
the set of kinds with which a word of a form may start and `Form.nullable` says
whether the empty word is one of them, as for any grammar that is read from
left to right. The sets of the symbols are written out, and `starts_production`
and `nullable_production` check them against the productions.

What a run needs from these is `Derives.before`: the kind that comes next, be
it from the word or from the rest of the script, is one that a previous part
may end before.
-/

namespace SwitchScript

namespace Kind

instance (P : Kind → Prop) [DecidablePred P] : Decidable (∀ k, P k) :=
  decidable_of_iff (∀ k ∈ all, P k) ⟨fun h k => h k (mem_all k), fun h k _ => h k⟩

/-- Kinds with which a primary expression starts. -/
def opensPrimary (k : Kind) : Bool :=
  k.isLiteral || k == identifier || k == lparen || k == lbracket

def opensExpression (k : Kind) : Bool :=
  k.isUnary || k.opensPrimary

/-- Kinds with which a statement starts that does not end a clause. -/
def opensClauseStatement (k : Kind) : Bool :=
  k == kwSwitch || k == identifier || k == kwContinue || k == kwPass || k.opensIgnored

end Kind

namespace Symbol

/-- The symbols that derive the empty word. -/
@[simp] def nullable : Symbol → Bool
  | program | body | arguments => true
  | _ => false

/-- The kinds with which the words of a symbol start. -/
@[simp] def starts : Symbol → Kind → Bool
  | program, k => k == .newline || k == .kwBreak || k.opensClauseStatement
  | statement, k => k == .kwBreak || k.opensClauseStatement
  | clauseStatement, k => k.opensClauseStatement
  | switchBlock, k => k == .kwSwitch
  | caseClause, k => k == .kwCase
  | defaultClause, k => k == .kwDefault
  | body, k => k == .newline || k == .kwBreak || k.opensClauseStatement
  | assignment, k => k == .identifier
  | primary, k => k.opensPrimary
  | suffix, k => k.opensSuffix
  | _, k => k.opensExpression

end Symbol

namespace Form

/-- The form may derive the empty word. -/
def nullable : Form → Bool
  | empty | star _ => true
  | oneOf _ | skipped => false
  | seq f g => f.nullable && g.nullable
  | alt f g => f.nullable || g.nullable
  | nest f => f.nullable
  | symbol s => s.nullable

/-- The kinds with which the words of a form may start. -/
def starts : Form → Kind → Bool
  | empty, _ => false
  | oneOf test, k => test k
  | seq f g, k => f.starts k || f.nullable && g.starts k
  | alt f g, k => f.starts k || g.starts k
  | star f, k | nest f, k => f.starts k
  | skipped, k => k.opensIgnored
  | symbol s, k => s.starts k

section

variable (f g : Form) (test : Kind → Bool) (s : Symbol) (k k' : Kind)

@[simp] theorem nullable_andThen : (f >> g).nullable = (f.nullable && g.nullable) := rfl

@[simp] theorem nullable_orElse : (f <|> g).nullable = (f.nullable || g.nullable) := rfl

@[simp] theorem nullable_oneOf : (oneOf test).nullable = false := rfl

@[simp] theorem nullable_token : (token k).nullable = false := rfl

@[simp] theorem nullable_star : (star f).nullable = true := rfl

@[simp] theorem nullable_lines : lines.nullable = true := rfl

@[simp] theorem nullable_chain : (chain f test).nullable = f.nullable := Bool.and_true _

@[simp] theorem nullable_opt : (opt f).nullable = true := Bool.or_true _

@[simp] theorem nullable_nest : (nest f).nullable = f.nullable := rfl

@[simp] theorem nullable_symbol : (symbol s).nullable = s.nullable := rfl

@[simp] theorem starts_empty : empty.starts k = false := rfl

@[simp] theorem starts_andThen :
    (f >> g).starts k = (f.starts k || f.nullable && g.starts k) := rfl

@[simp] theorem starts_orElse : (f <|> g).starts k = (f.starts k || g.starts k) := rfl

@[simp] theorem starts_oneOf : (oneOf test).starts k = test k := rfl

@[simp] theorem starts_token : (token k').starts k = (k == k') := rfl

@[simp] theorem starts_star : (star f).starts k = f.starts k := rfl

@[simp] theorem starts_lines : lines.starts k = (k == .newline) := rfl

@[simp] theorem starts_chain :
    (chain f test).starts k = (f.starts k || f.nullable && test k) := by
  simp [chain]

@[simp] theorem starts_opt : (opt f).starts k = f.starts k := Bool.or_false _

@[simp] theorem starts_nest : (nest f).starts k = f.starts k := rfl

@[simp] theorem starts_symbol : (symbol s).starts k = s.starts k := rfl

@[simp] theorem starts_skipped : skipped.starts k = k.opensIgnored := rfl

end

theorem nullable_production {s : Symbol} : s.production.nullable = true → s.nullable = true := by
  cases s <;> decide

theorem starts_production {s : Symbol} : ∀ k, s.production.starts k = true → s.starts k = true := by
  cases s <;> decide

variable {f : Form} {d : Nat} {u y : List Kind} {stop' : Kind → Bool}

/-- A word of a form starts as the form says. -/
theorem Derives.first (h : f.Derives d u y) :
    (u = [] ∧ f.nullable = true) ∨ ∃ k v, u = k :: v ∧ f.starts k = true := by
  induction h with
  | empty => exact .inl ⟨rfl, rfl⟩
  | oneOf h => exact .inr ⟨_, [], rfl, h⟩
  | seq _ _ ihf ihg =>
      simp only [nullable, starts, Bool.and_eq_true, Bool.or_eq_true]
      rcases ihf with ⟨rfl, hnull⟩ | ⟨k, v, rfl, hk⟩
      · rcases ihg with ⟨rfl, hnull'⟩ | ⟨k, v, rfl, hk⟩
        · exact .inl ⟨rfl, hnull, hnull'⟩
        · exact .inr ⟨k, v, rfl, .inr ⟨hnull, hk⟩⟩
      · exact .inr ⟨k, _, rfl, .inl hk⟩
  | left _ ih =>
      simp only [nullable, starts, Bool.or_eq_true]
      exact ih.imp (And.imp_right .inl) fun ⟨k, v, hu, hk⟩ => ⟨k, v, hu, .inl hk⟩
  | right _ ih =>
      simp only [nullable, starts, Bool.or_eq_true]
      exact ih.imp (And.imp_right .inr) fun ⟨k, v, hu, hk⟩ => ⟨k, v, hu, .inr hk⟩
  | done => exact .inl ⟨rfl, rfl⟩
  | again _ _ ihf ihrest =>
      rcases ihf with ⟨rfl, -⟩ | ⟨k, v, rfl, hk⟩
      · exact ihrest
      · exact .inr ⟨k, _, rfl, hk⟩
  | nest _ ih => exact ih
  | @skipped d u y h =>
      have hopens := h.opens
      cases u with
      | nil => exact absurd rfl h.ne_nil
      | cons k v => exact .inr ⟨k, v, rfl, by simpa using hopens⟩
  | symbol _ ih =>
      exact ih.imp (And.imp_right nullable_production)
        fun ⟨k, v, hu, hk⟩ => ⟨k, v, hu, starts_production k hk⟩

/-- The next token is one that starts the form, or one that comes after it. -/
theorem Derives.next (h : f.Derives d u y) :
    f.starts ((u ++ y).headD .eof) = true ∨ (u = [] ∧ f.nullable = true) := by
  rcases h.first with hnull | ⟨k, v, rfl, hk⟩
  · exact .inr hnull
  · exact .inl hk

/-- What stops before the form and before whatever may come next, stops. -/
theorem Derives.before (stop : Kind → Bool) (h : f.Derives d u y)
    (hstop : stop' (y.headD .eof) = true)
    (hstarts : ∀ k, f.starts k = true → stop k = true)
    (hnull : f.nullable = true → ∀ k, stop' k = true → stop k = true) :
    stop ((u ++ y).headD .eof) = true := by
  rcases h.next with hk | ⟨rfl, hnullable⟩
  · exact hstarts _ hk
  · exact hnull hnullable _ hstop

/-! ## End marks -/

/-- No token of the form is an end mark. -/
def avoidsEof : Form → Bool
  | empty | skipped | symbol _ => true
  | oneOf test => !test .eof
  | seq f g | alt f g => f.avoidsEof && g.avoidsEof
  | star f | nest f => f.avoidsEof

theorem avoidsEof_production (s : Symbol) : s.production.avoidsEof = true := by
  cases s <;> rfl

/-- There are no end marks in the words of the grammar. -/
theorem Derives.eof_notMem (h : f.Derives d u y) (hf : f.avoidsEof = true) : .eof ∉ u := by
  induction h with
  | empty | done => exact List.not_mem_nil
  | @oneOf d test k y hk =>
      intro hmem
      rw [List.mem_singleton] at hmem
      rw [avoidsEof, hmem, hk] at hf
      exact absurd hf (by simp)
  | seq _ _ ihf ihg =>
      rw [avoidsEof, Bool.and_eq_true] at hf
      rw [List.mem_append, not_or]
      exact ⟨ihf hf.1, ihg hf.2⟩
  | left _ ih =>
      rw [avoidsEof, Bool.and_eq_true] at hf
      exact ih hf.1
  | right _ ih =>
      rw [avoidsEof, Bool.and_eq_true] at hf
      exact ih hf.2
  | again _ _ ihf ihrest =>
      rw [List.mem_append, not_or]
      exact ⟨ihf hf, ihrest hf⟩
  | nest _ ih => exact ih hf
  | skipped h => exact h.eof_notMem
  | symbol _ ih => exact ih (avoidsEof_production _)

end Form

end SwitchScript
