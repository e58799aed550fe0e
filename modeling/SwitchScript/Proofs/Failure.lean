import SwitchScript.Proofs.Growth

/-!
# Where a run fails

A task records at most one error, and always at the current token.
`Task.fault?` says which one, before the task is performed. So a run that
starts valid and ends invalid has a moment at which it *fails*: the last one at
which it is valid, with a task at hand that has a fault. The error recorded
there is the first one of the run.
-/

namespace SwitchScript

/-- The error that performing a task records, if it records one. -/
def Task.fault? : Task → Pass → Option Fault
  | make (.report fault), _ | make (.reject fault), _ => some fault
  | make (.demand test fault), p => if test p.kind then none else some fault
  | make (.require kind fault _), p => if p.kind = kind then none else some fault
  | make (.nest _), p => if p.depth ≥ p.limit then some .nestingTooDeep else none
  | _, _ => none

namespace Task

variable (t : Task) (p : Pass)

theorem errors_perform :
    (t.perform p).2.errors = p.errors ++ ((t.fault? p).map (.error p.site)).toList := by
  have hsame : p.errors = p.errors ++ [] := (List.append_nil _).symm
  cases t with
  | leave | settle => exact hsame
  | make m =>
      cases m with
      | report fault | reject fault => exact p.errors_report fault
      | demand test fault =>
          simp only [perform, fault?]
          split
          · exact hsame
          · exact p.errors_report fault
      | require kind fault next =>
          simp only [perform, fault?]
          split
          · exact hsame
          · exact p.errors_report fault
      | nest inner =>
          simp only [perform, fault?]
          split
          · exact p.errors_report _
          · exact hsame
      | skipConstruct =>
          have hnotify : p.notify.errors = p.errors := by
            rw [Pass.errors, Pass.notify, List.filter_cons_of_neg (by simp [Diagnostic.isError])]
            rfl
          have hskip : p.skipConstruct.errors = p.notify.errors := by
            simp only [Pass.skipConstruct]
            split <;> rfl
          exact (hskip.trans hnotify).trans hsame
      | _ => exact hsame

theorem valid_perform : (t.perform p).2.valid = (p.valid && (t.fault? p).isNone) := by
  have hsame : p.valid = (p.valid && true) := (Bool.and_true _).symm
  have hlost : false = (p.valid && false) := (Bool.and_false _).symm
  cases t with
  | leave | settle => exact hsame
  | make m =>
      cases m with
      | report fault | reject fault => exact hlost
      | demand test fault =>
          simp only [perform, fault?]
          split
          · exact hsame
          · exact hlost
      | require kind fault next =>
          simp only [perform, fault?]
          split
          · exact hsame
          · exact hlost
      | nest inner =>
          simp only [perform, fault?]
          split
          · exact hlost
          · exact hsame
      | skipConstruct =>
          simp only [perform, Pass.skipConstruct]
          split
          · exact hsame
          · exact hsame
      | _ => exact hsame

end Task

namespace Moment

/-- A run comes to its first error: up to a moment it is valid, and the task
that it performs next has a fault. -/
structure Fails (c : Moment) (t : Task) (ts : List Task) (p : Pass) (fault : Fault)
    (d : Moment) : Prop where
  before : c.Reaches ⟨t :: ts, p⟩
  valid : p.valid = true
  fault : t.fault? p = some fault
  after : Reaches ⟨(t.perform p).1 ++ ts, (t.perform p).2⟩ d

theorem Reaches.fails {c d : Moment} (h : c.Reaches d) (hc : c.pass.valid = true)
    (hd : d.pass.valid = false) : ∃ t ts p fault, c.Fails t ts p fault d := by
  induction h with
  | refl => exact absurd hc (by simp [hd])
  | @tail d e hreach hnext ih =>
      cases hvalid : d.pass.valid with
      | false =>
          obtain ⟨t, ts, p, fault, hfails⟩ := ih hvalid
          exact ⟨t, ts, p, fault, hfails.before, hfails.valid, hfails.fault,
            hfails.after.tail hnext⟩
      | true =>
          obtain ⟨ts, p⟩ := d
          cases ts with
          | nil => exact absurd hnext (by simp [next?])
          | cons t ts =>
              obtain rfl := Option.some.inj hnext
              have hnone : (t.perform p).2.valid = (p.valid && (t.fault? p).isNone) :=
                t.valid_perform p
              rw [show (t.perform p).2.valid = false from hd, show p.valid = true from hvalid,
                Bool.true_and, eq_comm, Option.isNone_eq_false_iff, Option.isSome_iff_exists]
                at hnone
              obtain ⟨fault, hfault⟩ := hnone
              exact ⟨t, ts, p, fault, hreach, hvalid, hfault, Reaches.refl _⟩

/-- Performing the task that fails records the first error. -/
theorem Fails.errors_perform {c d : Moment} {t : Task} {ts : List Task} {p : Pass} {fault : Fault}
    (h : c.Fails t ts p fault d) (hc : c.pass.errors = []) :
    (t.perform p).2.errors = [.error p.site fault] := by
  have hp : p.errors = [] := by
    rw [h.before.extends.errors_eq_of_valid h.valid, hc]
  rw [t.errors_perform, hp, h.fault]
  rfl

/-- The first error of a run is the one that it fails with. -/
theorem Fails.head?_errors {c d : Moment} {t : Task} {ts : List Task} {p : Pass} {fault : Fault}
    (h : c.Fails t ts p fault d) (hc : c.pass.errors = []) :
    d.pass.errors.head? = some (.error p.site fault) := by
  apply h.after.extends.head?_errors
  show (t.perform p).2.errors.head? = _
  rw [h.errors_perform hc]
  rfl

end Moment

/-- A run that has recorded an error has failed somewhere. -/
theorem Pass.fails_of_errors {s : Stream} {limit : Int} (h : (ofStream s limit).errors ≠ []) :
    ∃ t ts p fault, (Moment.start s limit).Fails t ts p fault ⟨[], ofStream s limit⟩ := by
  have hrun := reaches_ofStream s limit
  refine hrun.fails rfl ?_
  rw [← Bool.not_eq_true, hrun.valid_iff]
  exact h

end SwitchScript
