import SwitchScript.Proofs.Moment

/-!
# No step over an end mark

The last token of a stream is an end mark, and nothing keeps a caller from
putting more of them before it. A run does not step over any of them: moves
that consume a token come after a choice that has ruled the end mark out.

`Move.Guarded` is what a move has to be for that when it is made at a token of
a given kind, and it asks the most of what is made later, when the kind is not
known any more. All scripts are guarded (`Rule.guarded_script`), which is where
the tests of the choices and repetitions are looked at, and performing a task
keeps a moment guarded.
-/

namespace SwitchScript

/-- Made at a kind, the move steps over no end mark. -/
def Move.Guarded : Move → Kind → Prop
  | stay, _ | skipNewlines, _ | report _, _ | demand _ _, _ => True
  | advance, k | reject _, k | skipConstruct, k => k ≠ .eof
  | require kind _ next, _ => kind ≠ .eof ∧ ∀ k, next.Guarded k
  | both first second, k => first.Guarded k ∧ ∀ k', second.Guarded k'
  | peek choose, k => (choose k).Guarded k
  | once test body, k => test k = true → body.Guarded k
  | repeated test body, _ => ∀ k, test k = true → body.Guarded k
  | nest inner, k | judge inner, k => inner.Guarded k
  | follow .ignoredConstruct, k => k ≠ .eof
  | follow _, _ => True

/-- The same for a task. -/
def Task.Guarded : Task → Kind → Prop
  | make m, k => m.Guarded k
  | leave, _ | settle, _ => True

/-- The next task is guarded where it is made, the later ones are anywhere. -/
def Moment.Guarded : Moment → Prop
  | ⟨[], _⟩ => True
  | ⟨t :: ts, p⟩ => t.Guarded p.kind ∧ ∀ t' ∈ ts, ∀ k, t'.Guarded k

namespace Move

theorem ne_eof_of_test {test : Kind → Bool} {k : Kind} (h : test k = true)
    (heof : test .eof = false) : k ≠ .eof := by
  rintro rfl
  rw [heof] at h
  exact absurd h (by simp)

theorem guarded_clauseBody (ends : Kind → Bool) (k : Kind) : (clauseBody ends).Guarded k := by
  refine ⟨trivial, fun _ => ⟨fun _ _ => ⟨trivial, fun _ => trivial⟩, fun k hk => ?_⟩⟩
  refine ⟨?_, fun _ => trivial⟩
  rintro rfl
  simp at hk

theorem guarded_chain {operand : Move} {test : Kind → Bool} (h : ∀ k, operand.Guarded k)
    (heof : test .eof = false) (k : Kind) : (chain operand test).Guarded k :=
  ⟨h k, fun _ _ hk => ⟨ne_eof_of_test hk heof, h⟩⟩

/-- A token, then a nested construct, then a token that closes it. -/
theorem guarded_enclosed {inner : Move} {kind k : Kind} {fault : Fault} (hk : k ≠ .eof)
    (hkind : kind ≠ .eof) (h : ∀ k, inner.Guarded k) :
    (advance >> inner >> expect kind fault).Guarded k :=
  ⟨hk, fun k' => ⟨h k', fun _ => ⟨hkind, fun _ => trivial⟩⟩⟩

theorem guarded_statementAt (k : Kind) : (statementAt k).Guarded k := by
  unfold statementAt
  split
  · exact trivial
  split
  · exact trivial
  split
  · rename_i hsimple
    exact ⟨ne_eof_of_test hsimple rfl, fun _ => trivial⟩
  split
  · rename_i hignored
    exact ne_eof_of_test hignored rfl
  split
  · exact trivial
  · rename_i heof
    split
    · exact heof
    split
    · exact heof
    split
    · exact heof
    · exact heof

theorem guarded_afterIdentifier (k : Kind) : (afterIdentifier k).Guarded k := by
  unfold afterIdentifier
  split
  · rename_i hassign
    exact ⟨ne_eof_of_test hassign rfl, fun _ => trivial⟩
  split
  · rename_i hstep
    exact ne_eof_of_test hstep rfl
  · exact trivial

theorem guarded_suffixAt {k : Kind} (hk : k.opensSuffix = true) : (suffixAt k).Guarded k := by
  have heof : k ≠ .eof := ne_eof_of_test hk rfl
  unfold suffixAt
  split
  · exact ⟨heof, fun _ => ⟨by decide, fun _ => trivial⟩⟩
  split
  · exact guarded_enclosed heof (by decide) fun _ => trivial
  · exact guarded_enclosed heof (by decide) fun _ => trivial

theorem guarded_primaryAt (k : Kind) : (primaryAt k).Guarded k := by
  unfold primaryAt
  split
  · rename_i hliteral
    exact ne_eof_of_test hliteral rfl
  split
  · rename_i hk
    have heof : k ≠ .eof := by rw [hk]; decide
    exact ⟨heof, fun _ => trivial⟩
  split
  · rename_i hk
    exact guarded_enclosed (by rw [hk]; decide) (by decide) fun _ => trivial
  split
  · rename_i hk
    refine guarded_enclosed (by rw [hk]; decide) (by decide) fun k' => ?_
    show Guarded (if k' = .rbracket then stay else nest (follow .expressionList)) k'
    split
    · exact trivial
    · exact trivial
  · exact trivial

end Move

open Move

theorem Rule.guarded_script {rule : Rule} {k : Kind} (h : (follow rule).Guarded k) :
    rule.script.Guarded k := by
  cases rule with
  | verdict | expression => exact trivial
  | program => exact ⟨trivial, fun _ _ _ => ⟨trivial, fun _ => trivial⟩⟩
  | statement => exact ⟨trivial, guarded_statementAt⟩
  | ignoredConstruct => exact h
  | switchStatement =>
      refine ⟨by decide, fun _ => ⟨by decide, fun _ => ⟨trivial, fun _ => ?_⟩⟩⟩
      refine ⟨by decide, fun _ => ⟨by decide, fun _ => ⟨trivial, fun _ => ⟨trivial, fun _ => ?_⟩⟩⟩⟩
      exact ⟨fun _ _ => trivial,
        fun _ => ⟨fun _ => trivial, fun _ => ⟨by decide, fun _ => trivial⟩⟩⟩
  | caseClause =>
      exact ⟨by decide, fun _ => ⟨trivial, fun _ => ⟨by decide, guarded_clauseBody _⟩⟩⟩
  | defaultClause => exact ⟨by decide, fun _ => ⟨by decide, guarded_clauseBody _⟩⟩
  | assignmentOrAccess => exact ⟨by decide, guarded_afterIdentifier⟩
  | accessSuffixes => exact fun _ hk => guarded_suffixAt hk
  | logicalOr | logicalAnd | equality | comparison | term | factor | expressionList =>
      apply guarded_chain
      · exact fun _ => trivial
      · rfl
  | unary =>
      show Guarded (if k.isUnary then advance >> nest (follow unary) else follow primary) k
      split
      · rename_i hunary
        exact ⟨ne_eof_of_test hunary rfl, fun _ => trivial⟩
      · exact trivial
  | primary => exact guarded_primaryAt k
  | argumentList =>
      show Guarded (if k = .rparen then stay else follow expressionList) k
      split
      · exact trivial
      · exact trivial

namespace Moment

/-- Tasks that are guarded anywhere may wait for their turn. -/
theorem guarded_of_forall {ts : List Task} {p : Pass} (h : ∀ t ∈ ts, ∀ k, t.Guarded k) :
    Guarded ⟨ts, p⟩ := by
  cases ts with
  | nil => exact trivial
  | cons t ts => exact ⟨h t (by simp) _, fun t' ht' => h t' (by simp [ht'])⟩

theorem guarded_cons {t : Task} {ts : List Task} {p : Pass} (ht : t.Guarded p.kind)
    (hts : ∀ t ∈ ts, ∀ k, t.Guarded k) : Guarded ⟨t :: ts, p⟩ := ⟨ht, hts⟩

theorem guarded_cons_cons {t u : Task} {ts : List Task} {p : Pass} (ht : t.Guarded p.kind)
    (hu : ∀ k, u.Guarded k) (hts : ∀ t ∈ ts, ∀ k, t.Guarded k) : Guarded ⟨t :: u :: ts, p⟩ :=
  guarded_cons ht (List.forall_mem_cons.mpr ⟨hu, hts⟩)

/-- The tasks in the place of a guarded one are guarded. -/
theorem guarded_perform {t : Task} {ts : List Task} {p : Pass} (h : Guarded ⟨t :: ts, p⟩) :
    Guarded ⟨(t.perform p).1 ++ ts, (t.perform p).2⟩ := by
  obtain ⟨ht, hts⟩ := h
  cases t with
  | leave | settle => exact guarded_of_forall hts
  | make m =>
      cases m with
      | stay | advance | skipNewlines | skipConstruct | report | reject | demand =>
          exact guarded_of_forall hts
      | require kind fault next =>
          simp only [Task.perform]
          split
          · exact guarded_cons (ht.2 _) hts
          · exact guarded_of_forall hts
      | both first second => exact guarded_cons_cons ht.1 ht.2 hts
      | peek choose => exact guarded_cons ht hts
      | once test body =>
          simp only [Task.perform]
          split
          · rename_i hgo
            exact guarded_cons (ht (Bool.and_eq_true_iff.mp hgo).2) hts
          · exact guarded_of_forall hts
      | repeated test body =>
          simp only [Task.perform]
          split
          · rename_i hgo
            exact guarded_cons_cons (ht _ (Bool.and_eq_true_iff.mp hgo).2) (fun _ => ht) hts
          · exact guarded_of_forall hts
      | nest inner =>
          simp only [Task.perform]
          split
          · exact guarded_of_forall hts
          · exact guarded_cons_cons ht (fun _ => trivial) hts
      | judge body =>
          simp only [Task.perform]
          split
          · exact guarded_of_forall hts
          · exact guarded_cons_cons ht (fun _ => trivial) hts
      | follow rule => exact guarded_cons (Rule.guarded_script ht) hts

theorem guarded_start (s : Stream) (limit : Int) : (start s limit).Guarded :=
  ⟨trivial, fun _ ht => absurd ht (by simp)⟩

end Moment

end SwitchScript
