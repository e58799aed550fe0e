import Mathlib.Logic.Relation
import SwitchScript.Grammar.Total

/-!
# A run, moment by moment

`Move.run` answers with the state after a whole move and is silent about the
way there. Here a run is cut into *moments*: a moment is a state together with
the tasks that are still to be done, and `Moment.next?` performs the first of
them. A move that is made of other moves puts those in its place, so the tasks
of a moment are the constructs that are open at it, the innermost one first.

Both readings agree. `Move.makes_of_run` replays an answer of `Move.run` moment by
moment, whatever tasks come after the move, and since a moment has at most one
next moment, the last state of a run is determined by its first moment. That
turns `Pass.ofStream` into the end of a run that starts at `Moment.start`
(`reaches_ofStream`), and what one task preserves into what a run preserves.
-/

namespace SwitchScript

/-- What a run still has to do. -/
inductive Task
  | make (move : Move)
  /-- Close the nested construct that was opened last. -/
  | leave
  | settle

/-- Performs a task: the tasks that take its place, and the state after it. -/
def Task.perform : Task → Pass → List Task × Pass
  | make .stay, p => ([], p)
  | make .advance, p => ([], p.advance)
  | make .skipNewlines, p => ([], p.skipNewlines)
  | make .skipConstruct, p => ([], p.skipConstruct)
  | make (.report fault), p => ([], p.report fault)
  | make (.reject fault), p => ([], (p.report fault).advance)
  | make (.demand test fault), p => ([], if test p.kind then p else p.report fault)
  | make (.require kind fault next), p =>
    if p.kind = kind then ([make next], p.advance) else ([], p.report fault)
  | make (.both first second), p => ([make first, make second], p)
  | make (.peek choose), p => ([make (choose p.kind)], p)
  | make (.once test body), p => (if p.valid && test p.kind then [make body] else [], p)
  | make (.repeated test body), p =>
    (if p.valid && test p.kind then [make body, make (.repeated test body)] else [], p)
  | make (.nest inner), p =>
    if p.depth ≥ p.limit then ([], p.report .nestingTooDeep)
    else ([make inner, leave], { p with depth := p.depth + 1 })
  | make (.judge body), p => (if p.verdict?.isSome then [] else [make body, settle], p)
  | make (.follow rule), p => ([make rule.script], p)
  | leave, p => ([], { p with depth := p.depth - 1 })
  | settle, p => ([], p.settle)

/-- A moment of a run. -/
structure Moment where
  /-- The tasks still to be done, the next one first. -/
  todo : List Task
  pass : Pass

namespace Moment

/-- The next moment, unless nothing is left to do. -/
def next? : Moment → Option Moment
  | ⟨[], _⟩ => none
  | ⟨t :: ts, p⟩ => some ⟨(t.perform p).1 ++ ts, (t.perform p).2⟩

/-- A run gets from one moment to another. -/
def Reaches : Moment → Moment → Prop :=
  Relation.ReflTransGen fun c d => c.next? = some d

/-- The first moment of a run over a whole stream. -/
def start (s : Stream) (limit : Int) : Moment :=
  ⟨[.make (.follow .verdict)], .start s limit⟩

theorem Reaches.refl (c : Moment) : Reaches c c := Relation.ReflTransGen.refl

theorem Reaches.trans {c d e : Moment} (h₁ : Reaches c d) (h₂ : Reaches d e) : Reaches c e :=
  Relation.ReflTransGen.trans h₁ h₂

/-- One task is performed first. -/
theorem Reaches.head {t : Task} {ts : List Task} {p : Pass} {d : Moment}
    (h : Reaches ⟨(t.perform p).1 ++ ts, (t.perform p).2⟩ d) : Reaches ⟨t :: ts, p⟩ d :=
  Relation.ReflTransGen.head rfl h

/-- What every task preserves, a run preserves. -/
theorem Reaches.preserves (Inv : Moment → Prop) {c d : Moment} (h : Reaches c d)
    (hstep : ∀ t ts p, Inv ⟨t :: ts, p⟩ → Inv ⟨(t.perform p).1 ++ ts, (t.perform p).2⟩)
    (hc : Inv c) : Inv d := by
  induction h with
  | refl => exact hc
  | @tail d e _ hnext ih =>
      obtain ⟨ts, p⟩ := d
      cases ts with
      | nil => exact absurd hnext (by simp [next?])
      | cons t ts =>
          obtain rfl := Option.some.inj hnext
          exact hstep t ts p ih

/-- A run that ends passes through every moment that it reaches. -/
theorem Reaches.to_end {c d : Moment} {q : Pass} (hend : Reaches c ⟨[], q⟩) (h : Reaches c d) :
    Reaches d ⟨[], q⟩ := by
  have hunique : Relator.RightUnique fun c d : Moment => c.next? = some d :=
    fun _ _ _ h₁ h₂ => Option.some.inj (h₁.symm.trans h₂)
  rcases Relation.ReflTransGen.total_of_right_unique hunique hend h with hback | hon
  · rcases Relation.ReflTransGen.cases_head hback with rfl | ⟨e, hnext, -⟩
    · exact Reaches.refl _
    · exact absurd hnext (by simp [next?])
  · exact hon

theorem Reaches.end_unique {c : Moment} {q r : Pass} (hq : Reaches c ⟨[], q⟩)
    (hr : Reaches c ⟨[], r⟩) : q = r := by
  rcases Relation.ReflTransGen.cases_head (hq.to_end hr) with heq | ⟨e, hnext, -⟩
  · cases heq
    rfl
  · exact absurd hnext (by simp [next?])

end Moment

open Moment

namespace Move

/-- The move takes one state to another, whatever is to be done after it. -/
def Makes (m : Move) (p q : Pass) : Prop :=
  ∀ ts, Reaches ⟨.make m :: ts, p⟩ ⟨ts, q⟩

variable {m first second : Move} {p q r : Pass}

/-! ## How moves are put together -/

theorem makes_require {kind : Kind} {fault : Fault} (hk : p.kind = kind)
    (h : m.Makes p.advance q) : (require kind fault m).Makes p q := by
  intro ts
  apply Reaches.head
  simp only [Task.perform, hk, if_true]
  exact h ts

theorem Makes.both (h₁ : first.Makes p q) (h₂ : second.Makes q r) :
    (first >> second).Makes p r :=
  fun ts => Reaches.head ((h₁ (.make second :: ts)).trans (h₂ ts))

theorem makes_peek {choose : Kind → Move} (h : (choose p.kind).Makes p q) :
    (peek choose).Makes p q :=
  fun ts => Reaches.head (h ts)

theorem makes_once {test : Kind → Bool} (hgo : (p.valid && test p.kind) = true)
    (h : m.Makes p q) : (once test m).Makes p q := by
  intro ts
  apply Reaches.head
  simp only [Task.perform, hgo, if_true]
  exact h ts

theorem makes_once_pass {test : Kind → Bool} (hstop : (p.valid && test p.kind) = false) :
    (once test m).Makes p p := by
  intro ts
  apply Reaches.head
  simp only [Task.perform, hstop]
  exact Reaches.refl _

theorem makes_repeated {test : Kind → Bool} (hgo : (p.valid && test p.kind) = true)
    (h : m.Makes p q) (hrest : (repeated test m).Makes q r) : (repeated test m).Makes p r := by
  intro ts
  apply Reaches.head
  simp only [Task.perform, hgo, if_true]
  exact (h _).trans (hrest ts)

theorem makes_repeated_stop {test : Kind → Bool} (hstop : (p.valid && test p.kind) = false) :
    (repeated test m).Makes p p := by
  intro ts
  apply Reaches.head
  simp only [Task.perform, hstop]
  exact Reaches.refl _

theorem makes_nest (hlt : p.depth < p.limit) (h : m.Makes { p with depth := p.depth + 1 } q) :
    (nest m).Makes p { q with depth := q.depth - 1 } := by
  intro ts
  apply Reaches.head
  have hopen : ¬ p.depth ≥ p.limit := by omega
  simp only [Task.perform, if_neg hopen]
  exact (h _).trans (Reaches.head (Reaches.refl _))

theorem makes_nest_refused {m : Move} (hge : p.depth ≥ p.limit) :
    (nest m).Makes p (p.report .nestingTooDeep) := by
  intro ts
  apply Reaches.head
  simp only [Task.perform, if_pos hge]
  exact Reaches.refl _

theorem makes_judge (hnone : p.verdict? = none) (h : m.Makes p q) :
    (judge m).Makes p q.settle := by
  intro ts
  apply Reaches.head
  simp only [Task.perform, hnone]
  exact (h _).trans (Reaches.head (Reaches.refl _))

theorem makes_follow {rule : Rule} (h : rule.script.Makes p q) : (follow rule).Makes p q :=
  fun ts => Reaches.head (h ts)

/-! ## Answers are replayed -/

theorem makes_loop {test : Kind → Bool} {body : Pass → Option Pass}
    (hbody : ∀ p q, body p = some q → m.Makes p q) {n : Nat} :
    ∀ {p}, loop test body n p = some q → (repeated test m).Makes p q := by
  induction n with
  | zero =>
      intro p h
      exact absurd h (by simp [loop])
  | succ n ih =>
      intro p h
      rw [loop] at h
      split at h
      · rename_i hgo
        cases hq : body p with
        | none =>
            rw [hq] at h
            exact absurd h (by simp)
        | some r =>
            rw [hq] at h
            exact makes_repeated hgo (hbody p r hq) (ih h)
      · rename_i hstop
        obtain rfl := Option.some.inj h
        exact makes_repeated_stop (by simpa using hstop)

/-- An answer is replayed moment by moment if those of the rules are. -/
theorem makes_of_run {call : Rule → Pass → Option Pass} {budget : Nat}
    (hcall : ∀ rule p q, call rule p = some q → (follow rule).Makes p q) :
    ∀ {p q}, m.run call budget p = some q → m.Makes p q := by
  induction m with
  | stay | advance | skipNewlines | skipConstruct | report fault | reject fault =>
      intro p q h
      obtain rfl := Option.some.inj h
      exact fun ts => Reaches.head (Reaches.refl _)
  | demand test fault =>
      intro p q h
      obtain rfl := Option.some.inj h
      exact fun ts => Reaches.head (Reaches.refl _)
  | require kind fault next ih =>
      intro p q h
      rw [run] at h
      split at h
      · rename_i hk
        exact makes_require hk (ih h)
      · rename_i hk
        obtain rfl := Option.some.inj h
        intro ts
        apply Reaches.head
        simp only [Task.perform, if_neg hk]
        exact Reaches.refl _
  | both first second ih₁ ih₂ =>
      intro p q h
      rw [run] at h
      cases hr : first.run call budget p with
      | none =>
          rw [hr] at h
          exact absurd h (by simp)
      | some r =>
          rw [hr] at h
          exact Makes.both (ih₁ hr) (ih₂ h)
  | peek choose ih =>
      intro p q h
      exact makes_peek (ih p.kind h)
  | once test body ih =>
      intro p q h
      rw [run] at h
      split at h
      · rename_i hgo
        exact makes_once hgo (ih h)
      · rename_i hstop
        obtain rfl := Option.some.inj h
        exact makes_once_pass (by simpa using hstop)
  | repeated test body ih =>
      intro p q h
      exact makes_loop (fun _ _ hr => ih hr) h
  | nest inner ih =>
      intro p q h
      rw [run] at h
      split at h
      · rename_i hge
        obtain rfl := Option.some.inj h
        exact makes_nest_refused hge
      · rename_i hlt
        cases hr : inner.run call budget { p with depth := p.depth + 1 } with
        | none =>
            rw [hr] at h
            exact absurd h (by simp)
        | some r =>
            rw [hr] at h
            obtain rfl := Option.some.inj h
            exact makes_nest (by omega) (ih hr)
  | judge body ih =>
      intro p q h
      rw [run] at h
      split at h
      · rename_i b hsome
        obtain rfl := Option.some.inj h
        intro ts
        apply Reaches.head
        simp only [Task.perform, hsome]
        exact Reaches.refl _
      · rename_i hnone
        cases hr : body.run call budget p with
        | none =>
            rw [hr] at h
            exact absurd h (by simp)
        | some r =>
            rw [hr] at h
            obtain rfl := Option.some.inj h
            exact makes_judge hnone (ih hr)
  | follow rule =>
      intro p q h
      exact hcall rule p q h

/-- Whatever the budget, an answer of a rule is replayed. -/
theorem makes_of_ruleRun (b : Nat) :
    ∀ rule p q, Rule.run b rule p = some q → (follow rule).Makes p q := by
  induction b with
  | zero =>
      intro rule p q h
      exact absurd h (by simp [Rule.run])
  | succ b ih =>
      intro rule p q h
      exact makes_follow (makes_of_run ih h)

end Move

open Move

namespace Pass

theorem makes_follow (rule : Rule) (p : Pass) : (Move.follow rule).Makes p (p.follow rule) :=
  makes_of_run (makes_of_ruleRun p.budget) (p.perform?_follow rule)

theorem follow_eq_of_makes {rule : Rule} {p q : Pass} (h : (Move.follow rule).Makes p q) :
    p.follow rule = q :=
  Reaches.end_unique (p.makes_follow rule []) (h [])

end Pass

/-- A run over a stream goes from its first moment to `Pass.ofStream`. -/
theorem reaches_ofStream (s : Stream) (limit : Int) :
    Reaches (Moment.start s limit) ⟨[], Pass.ofStream s limit⟩ :=
  (Pass.start s limit).makes_follow .verdict []

end SwitchScript
