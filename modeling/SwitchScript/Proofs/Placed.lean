import SwitchScript.Proofs.EndMark
import SwitchScript.Proofs.Lockstep
import SwitchScript.Proofs.Remarks

/-!
# Where moves are made

A line break is met in two ways only. It is passed over together with all the
line breaks around it, or it is a kind that does not fit, and then the end mark
would not have fitted either. A construct that is not analysed is stepped over
at the keyword that opens it, and nowhere else.

`Move.Placed` says this of a move that is made at a token of a given kind. It
differs from `Move.Guarded` in that it cannot ask for all kinds at which a later
move may be made: the loop over the statements would take a line break for a
statement, and only comes to none because all of them are passed over right
before it. So `Move.clears` keeps track of the moves that end behind all line
breaks. All scripts but the one that settles the outcome are well placed
(`Rule.placed_script`), and performing a task keeps a moment well placed.
-/

namespace SwitchScript

/-- Whatever is chosen at a line break is chosen at the end mark as well. -/
def Kind.Even {α : Type} (choose : Kind → α) (k : Kind) : Prop :=
  k = .newline → choose .newline = choose .eof

namespace Move

/-- After the move the run stands on no line break. -/
def clears : Move → Bool
  | skipNewlines => true
  | both _ second => second.clears
  | _ => false

/-- Made at a kind, the move steps over no line break unless it passes over all
of them, treats one like the end mark, and steps over a construct only where
one begins. -/
def Placed : Move → Kind → Prop
  | stay, _ | skipNewlines, _ | report _, _ => True
  | advance, k | reject _, k => k ≠ .newline
  | skipConstruct, k => k.opensIgnored = true
  | demand test _, k => k.Even test
  | require kind _ next, _ => kind ≠ .newline ∧ kind ≠ .eof ∧ ∀ k, next.Placed k
  | both first second, k =>
    first.Placed k ∧ ∀ k', (first.clears = true → k' ≠ .newline) → second.Placed k'
  | peek choose, k => k.Even choose ∧ (choose k).Placed k
  | once test body, k => k.Even test ∧ (test k = true → body.Placed k)
  | repeated test body, k =>
    (test .newline = test .eof ∨ k ≠ .newline ∧ body.clears = true) ∧
      ∀ k', test k' = true → body.Placed k'
  | nest inner, k => inner.Placed k
  | judge _, _ | follow .verdict, _ => False
  | follow .ignoredConstruct, k => k.opensIgnored = true
  | follow _, _ => True

end Move

namespace Task

def clears : Task → Bool
  | make m => m.clears
  | leave | settle => false

def Placed : Task → Kind → Prop
  | make m, k => m.Placed k
  | leave, _ => True
  | settle, _ => False

/-- Tasks to be done one after the other. Each may count on what the one before
it leaves, the first one on standing on no line break if it is told so. -/
def AllPlaced : Bool → List Task → Prop
  | _, [] => True
  | clear, t :: ts => (∀ k, (clear = true → k ≠ .newline) → t.Placed k) ∧ AllPlaced t.clears ts

theorem AllPlaced.weaken {clear : Bool} {ts : List Task} (h : AllPlaced false ts) :
    AllPlaced clear ts := by
  cases ts with
  | nil => exact trivial
  | cons t ts => exact ⟨fun k _ => h.1 k (fun hfalse => absurd hfalse (by simp)), h.2⟩

end Task

/-- The next task is well placed where it is made, the later ones where those
before them leave them. -/
def Moment.Placed : Moment → Prop
  | ⟨[], _⟩ => True
  | ⟨t :: ts, p⟩ => t.Placed p.kind ∧ Task.AllPlaced t.clears ts

namespace Kind

theorem even_of_ne {α : Type} {choose : Kind → α} {k : Kind} (h : k ≠ .newline) :
    k.Even choose := fun hk => absurd hk h

theorem ne_newline_of_test {test : Kind → Bool} {k : Kind} (h : test k = true)
    (hnewline : test .newline = false) : k ≠ .newline := by
  rintro rfl
  rw [hnewline] at h
  exact absurd h (by simp)

end Kind

namespace Move

theorem placed_clauseBody {ends : Kind → Bool} (k : Kind) : (clauseBody ends).Placed k := by
  refine ⟨trivial, fun k hk => ⟨⟨.inr ⟨hk rfl, rfl⟩, fun _ _ => ?_⟩, fun k _ => ⟨?_, ?_⟩⟩⟩
  · exact ⟨trivial, fun _ _ => trivial⟩
  · exact fun _ => (Bool.and_false _).trans (Bool.and_false _).symm
  · refine fun hbreak => ⟨?_, fun _ _ => trivial⟩
    rintro rfl
    simp at hbreak

theorem placed_chain {operand : Move} {test : Kind → Bool} (h : ∀ k, operand.Placed k)
    (hnewline : test .newline = false) (heof : test .eof = false) (k : Kind) :
    (chain operand test).Placed k := by
  refine ⟨h k, fun _ _ => ⟨.inl (hnewline.trans heof.symm), fun k hk => ?_⟩⟩
  exact ⟨Kind.ne_newline_of_test hk hnewline, fun k _ => h k⟩

theorem placed_enclosed {inner : Move} {kind k : Kind} {fault : Fault} (hk : k ≠ .newline)
    (hnewline : kind ≠ .newline) (heof : kind ≠ .eof) (h : ∀ k, inner.Placed k) :
    (advance >> inner >> expect kind fault).Placed k :=
  ⟨hk, fun k _ => ⟨h k, fun _ _ => ⟨hnewline, heof, fun _ => trivial⟩⟩⟩

theorem placed_statementAt {k : Kind} (hk : k ≠ .newline) : (statementAt k).Placed k := by
  unfold statementAt
  split
  · exact trivial
  split
  · exact trivial
  split
  · exact ⟨hk, fun _ _ => trivial⟩
  split
  · rename_i hignored
    exact hignored
  split
  · exact trivial
  split
  · exact hk
  split
  · exact hk
  split
  · exact hk
  · exact hk

theorem placed_afterIdentifier (k : Kind) : (afterIdentifier k).Placed k := by
  unfold afterIdentifier
  split
  · rename_i hassign
    exact ⟨Kind.ne_newline_of_test hassign rfl, fun _ _ => trivial⟩
  split
  · rename_i hstep
    exact Kind.ne_newline_of_test hstep rfl
  · exact trivial

theorem placed_suffixAt {k : Kind} (hk : k ≠ .newline) : (suffixAt k).Placed k := by
  unfold suffixAt
  split
  · exact ⟨hk, fun _ _ => ⟨by decide, by decide, fun _ => trivial⟩⟩
  split
  · exact placed_enclosed hk (by decide) (by decide) fun _ => trivial
  · exact placed_enclosed hk (by decide) (by decide) fun _ => trivial

theorem placed_primaryAt (k : Kind) : (primaryAt k).Placed k := by
  unfold primaryAt
  split
  · rename_i hliteral
    exact Kind.ne_newline_of_test hliteral rfl
  split
  · rename_i hk
    have hne : k ≠ .newline := by rw [hk]; decide
    exact ⟨hne, fun _ _ => trivial⟩
  split
  · rename_i hk
    exact placed_enclosed (by simp [hk]) (by decide) (by decide) fun _ => trivial
  split
  · rename_i hk
    refine placed_enclosed (by simp [hk]) (by decide) (by decide) fun k' => ⟨fun _ => rfl, ?_⟩
    show Placed (if k' = .rbracket then stay else nest (follow .expressionList)) k'
    split
    · exact trivial
    · exact trivial
  · exact trivial

end Move

open Move

theorem Rule.placed_script {rule : Rule} {k : Kind} (h : (follow rule).Placed k) :
    rule.script.Placed k := by
  cases rule with
  | verdict => exact h.elim
  | expression => exact trivial
  | program =>
      refine ⟨trivial, fun k hk => ⟨.inr ⟨hk rfl, rfl⟩, fun _ _ => ?_⟩⟩
      exact ⟨trivial, fun _ _ => trivial⟩
  | statement =>
      exact ⟨trivial, fun k hk => ⟨Kind.even_of_ne (hk rfl), placed_statementAt (hk rfl)⟩⟩
  | ignoredConstruct => exact h
  | switchStatement =>
      refine ⟨by decide, by decide, fun _ => ⟨by decide, by decide, fun _ => ⟨trivial, ?_⟩⟩⟩
      refine fun _ _ => ⟨by decide, by decide, fun _ => ⟨by decide, by decide, fun _ => ?_⟩⟩
      refine ⟨trivial, fun k hk => ⟨Kind.even_of_ne (hk rfl), fun _ _ => ?_⟩⟩
      refine ⟨⟨.inl rfl, fun _ _ => trivial⟩, fun _ _ => ⟨⟨fun _ => rfl, fun _ => trivial⟩, ?_⟩⟩
      exact fun _ _ => ⟨by decide, by decide, fun _ => trivial⟩
  | caseClause =>
      refine ⟨by decide, by decide, fun _ => ⟨trivial, fun _ _ => ⟨by decide, by decide, ?_⟩⟩⟩
      exact placed_clauseBody
  | defaultClause =>
      exact ⟨by decide, by decide, fun _ => ⟨by decide, by decide, placed_clauseBody⟩⟩
  | assignmentOrAccess =>
      exact ⟨by decide, by decide, fun k => ⟨fun _ => rfl, placed_afterIdentifier k⟩⟩
  | accessSuffixes =>
      refine ⟨.inl rfl, fun k hk => ?_⟩
      have hne : k ≠ .newline := Kind.ne_newline_of_test hk rfl
      exact ⟨Kind.even_of_ne hne, placed_suffixAt hne⟩
  | logicalOr | logicalAnd | equality | comparison | term | factor | expressionList =>
      apply placed_chain
      · exact fun _ => trivial
      · rfl
      · rfl
  | unary =>
      refine ⟨fun _ => rfl, ?_⟩
      show Placed (if k.isUnary then advance >> nest (follow unary) else follow primary) k
      split
      · rename_i hunary
        exact ⟨Kind.ne_newline_of_test hunary rfl, fun _ _ => trivial⟩
      · exact trivial
  | primary => exact ⟨fun _ => rfl, placed_primaryAt k⟩
  | argumentList =>
      refine ⟨fun _ => rfl, ?_⟩
      show Placed (if k = .rparen then stay else follow expressionList) k
      split
      · exact trivial
      · exact trivial

theorem Task.eq_of_skips {t : Task} (h : t.skips = true) : t = make .skipConstruct := by
  cases t with
  | leave | settle => exact absurd h (by simp [skips])
  | make m =>
      cases m with
      | skipConstruct => rfl
      | _ => exact absurd h (by simp [skips])

/-- At the least, the keyword is stepped over. -/
theorem Pass.index_lt_skipConstruct {p : Pass} (h : p.kind.opensIgnored = true) :
    p.cursor.index < p.skipConstruct.cursor.index := by
  have hadvance : p.notify.advance.cursor.index = p.cursor.index + 1 :=
    Twin.index_advance (ne_eof_of_test h rfl)
  rw [← Nat.succ_le_iff, Nat.succ_eq_add_one, ← hadvance]
  simp only [skipConstruct]
  split
  · exact Cursor.index_le_index_forward _ _
  · exact Nat.le_refl _

namespace Moment

variable {c d : Moment} {t : Task} {ts : List Task} {p : Pass}

theorem placed_of_allPlaced {clear : Bool} (h : Task.AllPlaced clear ts)
    (hp : clear = true → p.kind ≠ .newline) : Placed ⟨ts, p⟩ := by
  cases ts with
  | nil => exact trivial
  | cons t ts => exact ⟨h.1 p.kind hp, h.2⟩

/-- The tasks in the place of a well placed one are well placed. -/
theorem placed_perform (h : Placed ⟨t :: ts, p⟩) :
    Placed ⟨(t.perform p).1 ++ ts, (t.perform p).2⟩ := by
  obtain ⟨ht, hts⟩ := h
  have hlater (q : Pass) (hfalse : t.clears = false) : Placed ⟨ts, q⟩ :=
    placed_of_allPlaced hts (by rw [hfalse]; simp)
  cases t with
  | leave => exact hlater _ rfl
  | settle => exact ht.elim
  | make m =>
      cases m with
      | stay | advance | skipConstruct | report | reject | demand => exact hlater _ rfl
      | skipNewlines => exact placed_of_allPlaced hts fun _ => p.kind_skipNewlines_ne
      | require kind fault next =>
          simp only [Task.perform]
          split
          · exact ⟨ht.2.2 _, hts.weaken⟩
          · exact hlater _ rfl
      | both first second => exact ⟨ht.1, ht.2, hts⟩
      | peek choose => exact ⟨ht.2, hts.weaken⟩
      | once test body =>
          simp only [Task.perform]
          split
          · rename_i hgo
            exact ⟨ht.2 (Bool.and_eq_true_iff.mp hgo).2, hts.weaken⟩
          · exact hlater _ rfl
      | repeated test body =>
          simp only [Task.perform]
          split
          · rename_i hgo
            refine ⟨ht.2 _ (Bool.and_eq_true_iff.mp hgo).2, fun k hk => ⟨?_, ht.2⟩, hts⟩
            -- the next round is made where the body leaves the run
            exact ht.1.imp_right fun hclear => ⟨hk hclear.2, hclear.2⟩
          · exact hlater _ rfl
      | nest inner =>
          simp only [Task.perform]
          split
          · exact hlater _ rfl
          · exact ⟨ht, fun _ _ => trivial, hts⟩
      | judge body => exact ht.elim
      | follow rule => exact ⟨Rule.placed_script ht, hts.weaken⟩

/-! ## Notices -/

/-- A notice is about a keyword that opens a construct, and once it is made the
run has passed over this keyword. -/
theorem Reaches.notice_site (h : c.Reaches d) (hc : c.Placed) {e : Diagnostic}
    (he : e ∈ d.pass.notices) : e ∈ c.pass.notices ∨
      e.site.token.kind.opensIgnored = true ∧
      d.pass.cursor.stream.toList[e.site.index]? = some e.site.token ∧
      e.site.index < d.pass.cursor.index := by
  have hall := h.preserves (fun d => d.Placed ∧ ∀ e ∈ d.pass.notices, e ∈ c.pass.notices ∨
      e.site.token.kind.opensIgnored = true ∧
      d.pass.cursor.stream.toList[e.site.index]? = some e.site.token ∧
      e.site.index < d.pass.cursor.index) (fun t ts p hp => ?_) ⟨hc, fun e he => .inl he⟩
  · exact hall.2 e he
  · obtain ⟨hplaced, hsites⟩ := hp
    refine ⟨placed_perform hplaced, fun e he => ?_⟩
    have hon := t.extends_perform p
    simp only [hon.stream_eq]
    rw [t.notices_perform] at he
    rcases List.mem_append.mp he with hold | hnew
    · exact (hsites e hold).imp_right fun ⟨hk, htoken, hlt⟩ =>
        ⟨hk, htoken, Nat.lt_of_lt_of_le hlt hon.index_le⟩
    · right
      split at hnew
      · rename_i hskips
        obtain rfl := List.mem_singleton.mp hnew
        obtain rfl := Task.eq_of_skips hskips
        exact ⟨hplaced.1, p.cursor.getElem?_index, p.index_lt_skipConstruct hplaced.1⟩
      · exact absurd hnew (by simp)

end Moment

end SwitchScript
