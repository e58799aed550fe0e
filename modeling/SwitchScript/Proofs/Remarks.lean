import SwitchScript.Proofs.Aftermath

/-!
# Where remarks are made

A remark is about the token on which the run stands when it makes it, and a run
never goes back. So whatever is recorded after a moment is about a token no
earlier than the one of that moment (`Moment.Reaches.index_le_site`).

Notices come from one task only, the one that steps over a construct
(`Task.notices_perform`), and that is none of the tasks that are left once a run
has failed. After the first error there are only echoes
(`Moment.Fails.errors_eq`) and no more notices (`Moment.Fails.notices_eq`).
-/

namespace SwitchScript

theorem Pass.Extends.notices_prefix {p q : Pass} (h : p.Extends q) : p.notices <+: q.notices := by
  obtain ⟨new, hnew, -⟩ := h.remarks
  refine ⟨(new.filter fun d => !d.isError).reverse, ?_⟩
  rw [notices, notices, hnew, List.filter_append, List.reverse_append]

namespace Task

/-- The task steps over a construct that is not analysed. -/
def skips : Task → Bool
  | make .skipConstruct => true
  | _ => false

theorem notices_perform (t : Task) (p : Pass) :
    (t.perform p).2.notices = p.notices ++ if t.skips then [.notice p.site] else [] := by
  have hsame : p.notices = p.notices ++ [] := (List.append_nil _).symm
  have hreport (fault : Fault) : (p.report fault).notices = p.notices := by
    rw [Pass.notices, Pass.report, List.filter_cons_of_neg (by simp [Diagnostic.isError])]
    rfl
  cases t with
  | leave | settle => exact hsame
  | make m =>
      cases m with
      | report fault | reject fault => exact (hreport fault).trans hsame
      | demand test fault =>
          simp only [perform]
          split
          · exact hsame
          · exact (hreport fault).trans hsame
      | require kind fault next =>
          simp only [perform]
          split
          · exact hsame
          · exact (hreport fault).trans hsame
      | nest inner =>
          simp only [perform]
          split
          · exact (hreport _).trans hsame
          · exact hsame
      | skipConstruct =>
          have hskip : p.skipConstruct.notices = p.notify.notices := by
            simp only [Pass.skipConstruct]
            split <;> rfl
          refine hskip.trans ?_
          rw [Pass.notices, Pass.notify, List.filter_cons_of_pos (by simp [Diagnostic.isError]),
            List.reverse_cons]
          rfl
      | _ => exact hsame

theorem skips_of_windsDown {t : Task} (h : t.windsDown = true) : t.skips = false := by
  cases t with
  | leave | settle => rfl
  | make m =>
      cases m with
      | skipConstruct => exact absurd h (by simp [windsDown, Move.windsDown])
      | _ => rfl

end Task

namespace Moment

/-- Whatever is recorded from a moment on is about a token that was still ahead
of it. -/
theorem Reaches.index_le_site {c d : Moment} (h : c.Reaches d) {e : Diagnostic}
    (he : e ∈ d.pass.errors) : e ∈ c.pass.errors ∨ c.pass.cursor.index ≤ e.site.index := by
  have hall := h.preserves (fun d => c.pass.cursor.index ≤ d.pass.cursor.index ∧
    ∀ e ∈ d.pass.errors, e ∈ c.pass.errors ∨ c.pass.cursor.index ≤ e.site.index)
    (fun t ts p hp => ?_) ⟨Nat.le_refl _, fun e he => .inl he⟩
  · exact hall.2 e he
  · obtain ⟨hle, hsites⟩ := hp
    refine ⟨Nat.le_trans hle (t.extends_perform p).index_le, fun e he => ?_⟩
    rw [t.errors_perform] at he
    rcases List.mem_append.mp he with hold | hnew
    · exact hsites e hold
    · right
      rw [Option.mem_toList, Option.map_eq_some_iff] at hnew
      obtain ⟨fault, -, rfl⟩ := hnew
      exact hle

/-- A run that winds down makes no more notices. -/
theorem Reaches.notices_eq {c d : Moment} (h : c.Reaches d) (hc : c.WindsDown) :
    d.pass.notices = c.pass.notices := by
  have hall := h.preserves (fun e => e.WindsDown ∧ e.pass.notices = c.pass.notices)
    (fun t ts p hp => ?_) ⟨hc, rfl⟩
  · exact hall.2
  · obtain ⟨hdown, hnotices⟩ := hp
    refine ⟨windsDown_perform hdown, ?_⟩
    show (t.perform p).2.notices = _
    rw [t.notices_perform, Task.skips_of_windsDown (hdown.tasks t (by simp))]
    exact (List.append_nil _).trans hnotices

variable {s : Stream} {limit : Int} {t : Task} {ts : List Task} {p q : Pass} {fault : Fault}

/-- The first error is the one that the run fails with, the others are echoes. -/
theorem Fails.errors_eq (h : (start s limit).Fails t ts p fault ⟨[], q⟩) :
    ∃ later, q.errors = .error p.site fault :: later ∧
      ∀ e ∈ later, ∃ site echo, e = .error site echo ∧ echo.isEcho = true := by
  obtain ⟨later, herrors, hecho, -⟩ := h.unwinding.echoes h.windsDown
  refine ⟨later, ?_, fun e he => ?_⟩
  · rw [← List.singleton_append, ← h.errors_perform rfl]
    exact herrors
  · obtain ⟨echo, hfault, hisEcho⟩ := hecho e he
    cases e with
    | error site fault' =>
        obtain rfl := Option.some.inj hfault
        exact ⟨site, fault', rfl, hisEcho⟩
    | notice site => exact absurd hfault (by simp [Diagnostic.fault?])

/-- All notices were made before the run failed. -/
theorem Fails.notices_eq (h : (start s limit).Fails t ts p fault ⟨[], q⟩) :
    q.notices = p.notices := by
  have hafter : q.notices = (t.perform p).2.notices := h.unwinding.notices_eq h.windsDown
  have hskips : t.skips = false := by
    obtain ⟨⟨m, rfl, hsure⟩, -⟩ := Task.perform_of_fault h.fault
    cases m with
    | skipConstruct => exact absurd hsure (by simp [Move.sure])
    | _ => rfl
  rw [hafter, t.notices_perform, hskips]
  exact List.append_nil _

end Moment

end SwitchScript
