import SwitchScript.Proofs.Moment

/-!
# What a run keeps

No rule gives a token back, takes a remark back or forgets an error. Each of
these is a fact about a single task, and `Pass.Extends` collects them: the
later state stands further on in the same stream, under the same limit, and its
remarks are the earlier ones with new ones added, among which there is an error
exactly if the validity was lost on the way.

Depth is the one field that goes up and down. It moves together with the number
of constructs still to be closed, so the difference of the two is kept
(`Moment.base`), and a move as a whole leaves the depth as it was.
-/

namespace SwitchScript

namespace Pass

/-- A state goes on from another one. -/
structure Extends (p q : Pass) : Prop where
  forward : ∃ n, q.cursor = p.cursor.forward n
  limit : q.limit = p.limit
  remarks : ∃ new, q.diagnostics = new ++ p.diagnostics ∧
    q.valid = (p.valid && new.all fun d => !d.isError)

variable {p q r : Pass}

theorem Extends.refl (p : Pass) : p.Extends p :=
  ⟨⟨0, rfl⟩, rfl, ⟨[], rfl, by simp⟩⟩

theorem Extends.trans (h₁ : p.Extends q) (h₂ : q.Extends r) : p.Extends r := by
  obtain ⟨m, hm⟩ := h₁.forward
  obtain ⟨n, hn⟩ := h₂.forward
  obtain ⟨new, hnew, hvalid⟩ := h₁.remarks
  obtain ⟨newer, hnewer, hvalid'⟩ := h₂.remarks
  refine ⟨⟨m + n, ?_⟩, h₂.limit.trans h₁.limit, ⟨newer ++ new, ?_, ?_⟩⟩
  · rw [hn, hm, Cursor.forward_forward]
  · rw [hnewer, hnew, List.append_assoc]
  · rw [hvalid', hvalid, List.all_append, Bool.and_assoc, Bool.and_comm (newer.all _)]

theorem Extends.of_cursor {n : Nat} (hcursor : q.cursor = p.cursor.forward n)
    (hlimit : q.limit = p.limit) (hvalid : q.valid = p.valid)
    (hdiagnostics : q.diagnostics = p.diagnostics) : p.Extends q :=
  ⟨⟨n, hcursor⟩, hlimit, ⟨[], hdiagnostics, by simp [hvalid]⟩⟩

/-! ## Steps -/

theorem extends_advance (p : Pass) : p.Extends p.advance :=
  .of_cursor rfl rfl rfl rfl

theorem extends_skipNewlines (p : Pass) : p.Extends p.skipNewlines :=
  .of_cursor rfl rfl rfl rfl

theorem extends_report (fault : Fault) (p : Pass) : p.Extends (p.report fault) :=
  ⟨⟨0, rfl⟩, rfl, ⟨[.error p.site fault], rfl, by simp [report, Diagnostic.isError]⟩⟩

theorem extends_notify (p : Pass) : p.Extends p.notify :=
  ⟨⟨0, rfl⟩, rfl, ⟨[.notice p.site], rfl, by simp [notify, Diagnostic.isError]⟩⟩

theorem extends_skipConstruct (p : Pass) : p.Extends p.skipConstruct := by
  refine (p.extends_notify.trans p.notify.extends_advance).trans ?_
  simp only [skipConstruct]
  split
  · exact .of_cursor rfl rfl rfl rfl
  · exact .refl _

end Pass

/-- Every task goes on from the state that it finds. -/
theorem Task.extends_perform (t : Task) (p : Pass) : p.Extends (t.perform p).2 := by
  cases t with
  | leave => exact .of_cursor (n := 0) rfl rfl rfl rfl
  | settle => exact .of_cursor (n := 0) rfl rfl rfl rfl
  | make m =>
      cases m with
      | stay | both | peek | once | repeated | judge | follow => exact .refl p
      | advance => exact p.extends_advance
      | skipNewlines => exact p.extends_skipNewlines
      | skipConstruct => exact p.extends_skipConstruct
      | report fault => exact p.extends_report fault
      | reject fault => exact (p.extends_report fault).trans (p.report fault).extends_advance
      | demand test fault =>
          simp only [perform]
          split
          · exact .refl p
          · exact p.extends_report fault
      | require kind fault next =>
          simp only [perform]
          split
          · exact p.extends_advance
          · exact p.extends_report fault
      | nest inner =>
          simp only [perform]
          split
          · exact p.extends_report _
          · exact .of_cursor (n := 0) rfl rfl rfl rfl

/-- A run goes on from every moment that it passes. -/
theorem Moment.Reaches.extends {c d : Moment} (h : c.Reaches d) : c.pass.Extends d.pass :=
  h.preserves (fun e => c.pass.Extends e.pass)
    (fun t _ p hp => hp.trans (t.extends_perform p)) (.refl _)

theorem Move.Makes.extends {m : Move} {p q : Pass} (h : m.Makes p q) : p.Extends q :=
  (h []).extends

/-! ## Errors -/

namespace Pass.Extends

variable {p q : Pass}

theorem errors_prefix (h : p.Extends q) : p.errors <+: q.errors := by
  obtain ⟨new, hnew, -⟩ := h.remarks
  refine ⟨(new.filter Diagnostic.isError).reverse, ?_⟩
  rw [errors, errors, hnew, List.filter_append, List.reverse_append]

/-- The first error stays the first one. -/
theorem head?_errors {e : Diagnostic} (h : p.Extends q) (he : p.errors.head? = some e) :
    q.errors.head? = some e := by
  obtain ⟨later, hlater⟩ := h.errors_prefix
  rw [← hlater, List.head?_append, he]
  rfl

/-- An invalid run does not become valid again. -/
theorem valid_of_valid (h : p.Extends q) (hq : q.valid = true) : p.valid = true := by
  obtain ⟨new, -, hvalid⟩ := h.remarks
  rw [hvalid, Bool.and_eq_true] at hq
  exact hq.1

theorem errors_eq_of_valid (h : p.Extends q) (hq : q.valid = true) : q.errors = p.errors := by
  obtain ⟨new, hnew, hvalid⟩ := h.remarks
  rw [hvalid, Bool.and_eq_true] at hq
  have hnone : new.filter Diagnostic.isError = [] := by
    rw [List.filter_eq_nil_iff]
    intro d hd
    have hd' := List.all_eq_true.mp hq.2 d hd
    simpa using hd'
  rw [errors, errors, hnew, List.filter_append, hnone, List.nil_append]

/-- Validity is lost together with an error. -/
theorem errors_ne_nil (h : p.Extends q) (hp : p.valid = true) (hq : q.valid = false) :
    q.errors ≠ [] := by
  obtain ⟨new, hnew, hvalid⟩ := h.remarks
  rw [hq, hp, Bool.true_and, eq_comm, List.all_eq_false] at hvalid
  obtain ⟨d, hd, hd'⟩ := hvalid
  have hmem : d ∈ q.errors := by
    rw [errors, List.mem_reverse, List.mem_filter, hnew]
    exact ⟨List.mem_append_left _ hd, by simpa using hd'⟩
  exact List.ne_nil_of_mem hmem

theorem stream_eq (h : p.Extends q) : q.cursor.stream = p.cursor.stream := by
  obtain ⟨n, hn⟩ := h.forward
  rw [hn, Cursor.stream_forward]

theorem index_le (h : p.Extends q) : p.cursor.index ≤ q.cursor.index := by
  obtain ⟨n, hn⟩ := h.forward
  rw [hn]
  exact Cursor.index_le_index_forward _ _

end Pass.Extends

theorem Pass.errors_report (fault : Fault) (p : Pass) :
    (p.report fault).errors = p.errors ++ [.error p.site fault] := by
  rw [errors, report, List.filter_cons_of_pos rfl, List.reverse_cons]
  rfl

/-- A run over a stream is valid as long as it has recorded no error. -/
theorem Moment.Reaches.valid_iff {s : Stream} {limit : Int} {c : Moment}
    (h : (Moment.start s limit).Reaches c) : c.pass.valid = true ↔ c.pass.errors = [] := by
  constructor
  · intro hvalid
    exact h.extends.errors_eq_of_valid hvalid
  · intro hnil
    cases hvalid : c.pass.valid with
    | true => rfl
    | false => exact absurd hnil (h.extends.errors_ne_nil rfl hvalid)

/-! ## Depth -/

/-- How many constructs are still to be closed. -/
def Task.levels : List Task → Int
  | [] => 0
  | .leave :: ts => levels ts + 1
  | .make _ :: ts | .settle :: ts => levels ts

/-- The depth outside the constructs that are still to be closed. -/
def Moment.base (c : Moment) : Int :=
  c.pass.depth - Task.levels c.todo

theorem Moment.base_perform (t : Task) (ts : List Task) (p : Pass) :
    base ⟨(t.perform p).1 ++ ts, (t.perform p).2⟩ = base ⟨t :: ts, p⟩ := by
  cases t with
  | leave =>
      show p.depth - 1 - Task.levels ts = p.depth - (Task.levels ts + 1)
      omega
  | settle => rfl
  | make m =>
      cases m with
      | nest inner =>
          simp only [base, Task.perform]
          split
          · rfl
          · show p.depth + 1 - (Task.levels ts + 1) = p.depth - Task.levels ts
            omega
      | skipConstruct =>
          simp only [base, Task.perform, Pass.skipConstruct]
          split <;> rfl
      | demand | require | once | repeated | judge =>
          simp only [base, Task.perform]
          split <;> rfl
      | _ => rfl

theorem Moment.Reaches.base_eq {c d : Moment} (h : c.Reaches d) : d.base = c.base :=
  h.preserves (fun e => e.base = c.base)
    (fun t ts p hp => (base_perform t ts p).trans hp) rfl

/-- A move leaves the depth as it was. -/
theorem Move.Makes.depth_eq {m : Move} {p q : Pass} (h : m.Makes p q) : q.depth = p.depth := by
  have hbase := (h []).base_eq
  simpa [Moment.base, Task.levels] using hbase

end SwitchScript
