import SwitchScript.Check
import SwitchScript.Proofs.FirstError

/-!
# The verdict

The outcome of a run is read off its last state, from the place of the cursor
and from the validity, and the errors are kept in a list of their own. Nowhere
does the program compare the two, so that they agree is a matter of proof.

One half is kept by every step: validity is lost together with an error
(`Moment.Reaches.valid_iff`). The other half is about the loop over the
statements. A loop is only left where its guard fails, so a run that is still
valid when it leaves this one has come to an end mark (`Pass.kind_program`),
and a run without errors cannot be rejected for where it has stopped.
-/

namespace SwitchScript

/-- A repetition is left where its guard fails, and nowhere else. -/
theorem Move.loop_stop {test : Kind → Bool} {body : Pass → Option Pass} {q : Pass} {n : Nat} :
    ∀ {p : Pass}, loop test body n p = some q → (q.valid && test q.kind) = false := by
  induction n with
  | zero =>
      intro p h
      exact absurd h (by simp [loop])
  | succ n ih =>
      intro p h
      rcases loop_eq_some h with ⟨rfl, hstop⟩ | ⟨i, r, hi, -, -, hrest⟩
      · exact hstop
      · obtain rfl := Nat.succ.inj hi
        exact ih hrest

namespace Pass

/-- If a program is still valid after its last statement, then this is where
the script ends. -/
theorem kind_program {p : Pass} (h : (p.follow .program).valid = true) :
    (p.follow .program).kind = .eof := by
  obtain ⟨b, -, hscript⟩ := Move.gives_script .program p
  obtain ⟨r, -, hloop⟩ := Move.gives_both.mp hscript
  have hstop := Move.loop_stop hloop
  rw [h, Bool.true_and] at hstop
  simpa using hstop

variable {s : Stream} {limit : Int}

/-- A run without errors has come to the end of its stream. -/
theorem kind_ofStream (h : (ofStream s limit).errors = []) : (ofStream s limit).kind = .eof := by
  have hvalid := (reaches_ofStream s limit).valid_iff.mpr h
  rw [ofStream_eq] at hvalid ⊢
  exact kind_program hvalid

theorem accepts_of_errors (h : (ofStream s limit).errors = []) :
    (ofStream s limit).verdict? = some true := by
  have hvalid := (reaches_ofStream s limit).valid_iff.mpr h
  rw [ofStream_eq] at hvalid
  exact (verdict?_ofStream s limit).mpr ⟨kind_program hvalid, hvalid⟩

/-- The outcome is settled, and it is good exactly if there are no errors. -/
theorem verdict?_eq_isEmpty (s : Stream) (limit : Int) :
    (ofStream s limit).verdict? = some (ofStream s limit).errors.isEmpty := by
  by_cases h : (ofStream s limit).errors = []
  · rw [accepts_of_errors h, h]
    rfl
  · rw [rejects_of_errors h, List.isEmpty_eq_false_iff.mpr h]

end Pass

/-- A script is in order exactly if there is nothing to tell that is wrong with
it. -/
theorem Check.ok_eq (source name : String) (limit : Int) :
    (ofSource source name limit).ok =
      ((ofSource source name limit).lexicalErrors.isEmpty &&
        (ofSource source name limit).syntaxErrors.isEmpty) := by
  simp only [ofSource, ofRun, List.isEmpty_map, Pass.verdict?_eq_isEmpty]
  cases (Pass.ofStream (Scan.ofSource source).stream limit).errors.isEmpty <;> simp

/-- Verdicts and diagnostics agree. A check is in order exactly if it lists no
errors, lexical or other, whatever notices there are. A run accepts its stream
exactly if it has recorded no error, rejects it otherwise, and where it accepts
it stands on an end mark. -/
theorem verdict_iff_no_errors :
    (∀ (source name : String) (limit : Int),
      ((Check.ofSource source name limit).ok = true ↔
        (Check.ofSource source name limit).lexicalErrors = [] ∧
          (Check.ofSource source name limit).syntaxErrors = []) ∧
      ((Check.ofSource source name limit).ok = true ↔
        (Check.ofSource source name limit).errorCount = 0)) ∧
    ∀ (s : Stream) (limit : Int),
      ((Pass.ofStream s limit).verdict? = some true ↔ (Pass.ofStream s limit).errors = []) ∧
      ((Pass.ofStream s limit).verdict? = some false ↔ (Pass.ofStream s limit).errors ≠ []) ∧
      ((Pass.ofStream s limit).verdict? = some true →
        (Pass.ofStream s limit).cursor.current.kind = .eof) := by
  refine ⟨fun source name limit => ⟨?_, ?_⟩, fun s limit => ⟨?_, ?_, ?_⟩⟩
  · rw [Check.ok_eq, Bool.and_eq_true, List.isEmpty_iff, List.isEmpty_iff]
  · rw [Check.ok_eq, Bool.and_eq_true, List.isEmpty_iff, List.isEmpty_iff, Check.errorCount,
      Nat.add_eq_zero_iff, List.length_eq_zero_iff, List.length_eq_zero_iff]
  · rw [Pass.verdict?_eq_isEmpty, Option.some.injEq, List.isEmpty_iff]
  · rw [Pass.verdict?_eq_isEmpty, Option.some.injEq, List.isEmpty_eq_false_iff]
  · intro haccepts
    rw [Pass.verdict?_eq_isEmpty, Option.some.injEq, List.isEmpty_iff] at haccepts
    exact Pass.kind_ofStream haccepts

/-- A loop that is not analysed, and an assignment on the line after it. -/
def skippedLoop : Stream :=
  ⟨[⟨⟨"while", ⟨1, 1⟩⟩, .kwWhile⟩, ⟨⟨"(", ⟨1, 7⟩⟩, .lparen⟩, ⟨⟨")", ⟨1, 8⟩⟩, .rparen⟩,
    ⟨⟨"\\n", ⟨1, 9⟩⟩, .newline⟩, ⟨⟨"x", ⟨2, 1⟩⟩, .identifier⟩, ⟨⟨"=", ⟨2, 3⟩⟩, .assign⟩,
    ⟨⟨"1", ⟨2, 5⟩⟩, .integer⟩], ⟨"", ⟨2, 6⟩⟩⟩

theorem verdict_iff_no_errors_skippedLoop :
    (Pass.ofStream skippedLoop 0).notices.length = 1 ∧
      (Pass.ofStream skippedLoop 0).verdict? = some true ∧
      (Pass.ofStream skippedLoop 0).cursor.current.kind = .eof := by
  have hverdict : (Pass.ofStream skippedLoop 0).verdict? = some true := by decide +kernel
  exact ⟨by decide +kernel, hverdict, (verdict_iff_no_errors.2 skippedLoop 0).2.2 hverdict⟩

end SwitchScript
