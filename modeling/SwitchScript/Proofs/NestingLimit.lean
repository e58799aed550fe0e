import SwitchScript.Proofs.Lockstep
import SwitchScript.Proofs.Remarks
import SwitchScript.Proofs.Verdict

/-!
# A higher nesting limit

The limit is looked at in one place only, where a construct is to be opened, and
no step changes it. So a run under one limit is replayed task by task under a
higher one, up to the first construct that the lower limit refuses
(`Moment.Reaches.under`): what is opened under the lower limit may be opened
under the higher one as well.

If nothing is refused, the two runs are the same to the end (`ofStream_under`).
If something is, the lower run fails there. From then on it only winds down, and
the higher run has all that it does differently still before it
(`reaches_of_refused`).
-/

namespace SwitchScript

/-- The error is about a construct that would be nested too deep. -/
def Diagnostic.isTooDeep : Diagnostic → Bool
  | error _ fault => fault.message == "nesting too deep"
  | notice _ => false

namespace Pass

/-- The same state under another limit. -/
def under (limit : Int) (p : Pass) : Pass := { p with limit := limit }

/-- Nothing was refused so far. -/
def Roomy (p : Pass) : Prop := ∀ site, .error site .nestingTooDeep ∉ p.errors

theorem Extends.roomy {p q : Pass} (h : p.Extends q) (hq : q.Roomy) : p.Roomy :=
  fun site hmem => hq site (h.errors_prefix.subset hmem)

end Pass

variable {limit : Int}

/-- A task that refuses nothing does the same under a higher limit. -/
theorem Task.perform_under {t : Task} {p : Pass} (hle : p.limit ≤ limit)
    (hroomy : (t.perform p).2.Roomy) :
    (t.perform (p.under limit)).1 = (t.perform p).1 ∧
      (t.perform (p.under limit)).2 = (t.perform p).2.under limit := by
  cases t with
  | leave | settle => exact ⟨rfl, rfl⟩
  | make m =>
      cases m with
      | demand test fault =>
          refine ⟨rfl, ?_⟩
          show (if test p.kind then _ else _) = (if test p.kind then _ else _ : Pass).under limit
          split
          · rfl
          · rfl
      | require kind fault next =>
          simp only [perform, show (p.under limit).kind = p.kind from rfl]
          split
          · exact ⟨rfl, rfl⟩
          · exact ⟨rfl, rfl⟩
      | skipConstruct =>
          refine ⟨rfl, ?_⟩
          simp only [perform, Pass.skipConstruct]
          show (if p.notify.advance.valid then _ else _) = Pass.under limit
            (if p.notify.advance.valid then _ else _)
          split
          · rfl
          · rfl
      | nest inner =>
          by_cases hopen : p.depth ≥ p.limit
          · refine absurd ?_ (hroomy p.site)
            simp only [perform, if_pos hopen, Pass.errors_report]
            simp
          · have hopen' : ¬ (p.under limit).depth ≥ (p.under limit).limit := by
              show ¬ p.depth ≥ limit
              omega
            simp only [perform, if_neg hopen, if_neg hopen']
            exact ⟨trivial, rfl⟩
      | _ => exact ⟨rfl, rfl⟩

/-- A run that is refused nothing is the same under a higher limit. -/
theorem Moment.Reaches.under {c d : Moment} (h : c.Reaches d) (hc : c.Guarded)
    (hle : c.pass.limit ≤ limit) (hd : d.pass.Roomy) :
    Reaches ⟨c.todo, c.pass.under limit⟩ ⟨d.todo, d.pass.under limit⟩ := by
  have hstep (t : Task) (p p' : Pass) (_ : t.Guarded p.kind)
      (hR : p.limit ≤ limit ∧ p' = p.under limit) (hq : (t.perform p).2.Roomy) :
      (t.perform p').1 = (t.perform p).1 ∧
        (t.perform p).2.limit ≤ limit ∧ (t.perform p').2 = (t.perform p).2.under limit := by
    obtain ⟨hp, rfl⟩ := hR
    obtain ⟨htodo, hpass⟩ := Task.perform_under hp hq
    exact ⟨htodo, (t.extends_perform p).limit.trans_le hp, hpass⟩
  obtain ⟨q', hreach, -, rfl⟩ := h.lockstep (fun p p' => p.limit ≤ limit ∧ p' = p.under limit)
    Pass.Roomy hc (fun t p hq => (t.extends_perform p).roomy hq) hstep ⟨hle, rfl⟩ hd
  exact hreach

namespace Pass

variable {s : Stream} {d d' : Int}

/-- A run that is refused nothing ends in the same state under a higher limit. -/
theorem ofStream_under (h : d ≤ d') (hroomy : (ofStream s d).Roomy) :
    ofStream s d' = (ofStream s d).under d' :=
  (reaches_ofStream s d').end_unique
    ((reaches_ofStream s d).under (Moment.guarded_start s d) h hroomy)

/-- The first error is the only one that may be about nesting. -/
theorem errors_eq_cons (h : (ofStream s d).errors ≠ []) :
    ∃ e later, (ofStream s d).errors = e :: later ∧ later.any Diagnostic.isTooDeep = false := by
  obtain ⟨t, ts, p, fault, hfails⟩ := fails_of_errors h
  obtain ⟨later, herrors, hecho⟩ := hfails.errors_eq
  refine ⟨_, later, herrors, List.any_eq_false.mpr fun e he htooDeep => ?_⟩
  obtain ⟨site, echo, rfl, hisEcho⟩ := hecho e he
  have hmessage := message_of_isEcho hisEcho
  rw [Diagnostic.isTooDeep, beq_iff_eq] at htooDeep
  rw [htooDeep] at hmessage
  exact absurd hmessage (by decide)

/-- A run that is refused something fails there, and under a higher limit it
comes to this point, too. -/
theorem reaches_of_refused (h : d ≤ d') (hrefused : ¬ (ofStream s d).Roomy) :
    ∃ t ts p, (Moment.start s d).Fails t ts p .nestingTooDeep ⟨[], ofStream s d⟩ ∧
      Moment.Reaches ⟨t :: ts, p.under d'⟩ ⟨[], ofStream s d'⟩ := by
  obtain ⟨refused, hmem⟩ := not_forall_not.mp hrefused
  obtain ⟨t, ts, p, fault, hfails⟩ := fails_of_errors (List.ne_nil_of_mem hmem)
  obtain ⟨later, herrors, hecho⟩ := hfails.errors_eq
  obtain rfl : fault = .nestingTooDeep := by
    rw [herrors] at hmem
    rcases List.mem_cons.mp hmem with heq | hlater
    · cases heq
      rfl
    · obtain ⟨site, echo, heq, hisEcho⟩ := hecho _ hlater
      cases heq
      exact absurd hisEcho (by decide)
  have hp : p.errors = [] := hfails.before.extends.errors_eq_of_valid hfails.valid
  have hroomy : p.Roomy := fun site hsite => by simp [hp] at hsite
  have hreach := hfails.before.under (Moment.guarded_start s d) h hroomy
  exact ⟨t, ts, p, hfails, (reaches_ofStream s d').to_end hreach⟩

/-- A higher limit adds notices at the end, if any. -/
theorem notices_prefix (h : d ≤ d') : (ofStream s d).notices <+: (ofStream s d').notices := by
  by_cases hroomy : (ofStream s d).Roomy
  · rw [ofStream_under h hroomy]
    exact List.prefix_refl _
  · obtain ⟨t, ts, p, hfails, hreach⟩ := reaches_of_refused h hroomy
    rw [hfails.notices_eq]
    exact hreach.extends.notices_prefix

/-- Under a higher limit the first error comes no earlier. -/
theorem index_first_error_le (h : d ≤ d') {e e' : Diagnostic}
    (he : (ofStream s d).errors.head? = some e) (he' : (ofStream s d').errors.head? = some e') :
    e.site.index ≤ e'.site.index := by
  by_cases hroomy : (ofStream s d).Roomy
  · rw [ofStream_under h hroomy] at he'
    obtain rfl := Option.some.inj (he.symm.trans he')
    exact Nat.le_refl _
  · obtain ⟨t, ts, p, hfails, hreach⟩ := reaches_of_refused h hroomy
    obtain rfl := Option.some.inj ((hfails.head?_errors rfl).symm.trans he)
    rcases hreach.index_le_site (List.mem_of_head? he') with hold | hahead
    · have hp : p.errors = [] := hfails.before.extends.errors_eq_of_valid hfails.valid
      rw [show (p.under d').errors = p.errors from rfl, hp] at hold
      exact absurd hold (by simp)
    · exact hahead

/-- Raising the limit only removes errors about nesting. A run without such an
error has the same outcome, errors, notices and last place under any higher
limit. In a run with one, this is the first error and the only one of its kind;
under a higher limit there are the same notices, perhaps followed by others, and
the first error, if there is one, comes no earlier. In particular, what is
accepted stays accepted. -/
theorem limit_raised (s : Stream) {d d' : Int} (h : d ≤ d') :
    ((ofStream s d).errors.any Diagnostic.isTooDeep = false →
      (ofStream s d').verdict? = (ofStream s d).verdict? ∧
      (ofStream s d').errors = (ofStream s d).errors ∧
      (ofStream s d').notices = (ofStream s d).notices ∧
      (ofStream s d').cursor = (ofStream s d).cursor) ∧
    ((ofStream s d).errors.any Diagnostic.isTooDeep = true →
      ∃ e later, (ofStream s d).errors = e :: later ∧ e.isTooDeep = true ∧
        later.any Diagnostic.isTooDeep = false ∧
        (ofStream s d).notices <+: (ofStream s d').notices ∧
        ∀ e', (ofStream s d').errors.head? = some e' → e.site.index ≤ e'.site.index) ∧
    ((ofStream s d).verdict? = some true → (ofStream s d').verdict? = some true) := by
  have hsame (hnone : (ofStream s d).errors.any Diagnostic.isTooDeep = false) :
      ofStream s d' = (ofStream s d).under d' := by
    refine ofStream_under h fun site hmem => ?_
    exact List.any_eq_false.mp hnone _ hmem rfl
  refine ⟨fun hnone => ?_, fun hsome => ?_, fun haccepts => ?_⟩
  · rw [hsame hnone]
    exact ⟨rfl, rfl, rfl, rfl⟩
  · have hne : (ofStream s d).errors ≠ [] := by
      intro hnil
      rw [hnil] at hsome
      exact absurd hsome (by simp)
    obtain ⟨e, later, herrors, hlater⟩ := errors_eq_cons hne
    have hhead : (ofStream s d).errors.head? = some e := by rw [herrors, List.head?_cons]
    refine ⟨e, later, herrors, ?_, hlater, notices_prefix h, fun e' => index_first_error_le h hhead⟩
    rw [herrors, List.any_cons, hlater, Bool.or_false] at hsome
    exact hsome
  · have hnil : (ofStream s d).errors = [] := by
      rwa [verdict?_eq_isEmpty, Option.some.injEq, List.isEmpty_iff] at haccepts
    rw [hsame (by rw [hnil]; rfl)]
    exact haccepts

/-- Parentheses inside each other, a construct that is not analysed, and a brace
that closes nothing. -/
def nestedParens : Stream :=
  ⟨[⟨⟨"x", ⟨1, 1⟩⟩, .identifier⟩, ⟨⟨"=", ⟨1, 3⟩⟩, .assign⟩, ⟨⟨"(", ⟨1, 5⟩⟩, .lparen⟩,
    ⟨⟨"(", ⟨1, 6⟩⟩, .lparen⟩, ⟨⟨"1", ⟨1, 7⟩⟩, .integer⟩, ⟨⟨")", ⟨1, 8⟩⟩, .rparen⟩,
    ⟨⟨")", ⟨1, 9⟩⟩, .rparen⟩, ⟨⟨"if", ⟨1, 11⟩⟩, .kwIf⟩, ⟨⟨"\x7d", ⟨1, 14⟩⟩, .rbrace⟩],
    ⟨"", ⟨1, 15⟩⟩⟩

theorem limit_raised_nestedParens :
    ((ofStream nestedParens 2).errors.any Diagnostic.isTooDeep = false ∧
      (ofStream nestedParens 3).errors = (ofStream nestedParens 2).errors) ∧
    ((ofStream nestedParens 1).errors.any Diagnostic.isTooDeep = true ∧
      (ofStream nestedParens 1).notices <+: (ofStream nestedParens 2).notices) ∧
    (ofStream ⟨nestedParens.tokens.take 7, nestedParens.stop⟩ 2).verdict? = some true ∧
      (ofStream ⟨nestedParens.tokens.take 7, nestedParens.stop⟩ 3).verdict? = some true := by
  have hone : (1 : Int) ≤ 2 := by decide
  have htwo : (2 : Int) ≤ 3 := by decide
  have hnone : (ofStream nestedParens 2).errors.any Diagnostic.isTooDeep = false := by
    decide +kernel
  have hsome : (ofStream nestedParens 1).errors.any Diagnostic.isTooDeep = true := by
    decide +kernel
  have haccepts :
      (ofStream ⟨nestedParens.tokens.take 7, nestedParens.stop⟩ 2).verdict? = some true := by
    decide +kernel
  obtain ⟨e, later, -, -, -, hnotices, -⟩ := (limit_raised nestedParens hone).2.1 hsome
  exact ⟨⟨hnone, ((limit_raised nestedParens htwo).1 hnone).2.1⟩, ⟨hsome, hnotices⟩,
    haccepts, (limit_raised _ htwo).2.2 haccepts⟩

end Pass

end SwitchScript
