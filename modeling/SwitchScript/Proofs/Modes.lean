import SwitchScript.Proofs.Decoding
import SwitchScript.Proofs.ReportContent

/-!
# All ways of telling agree

The command tells the result of a check in up to three ways: by the exit
status, by a report, and by a word or by the errors where a report is not
wanted. Each is worked out on its own, the status and the word from the outcome,
the errors from their lists, the report from both.

That they agree comes from two facts about checks. The outcome is good exactly
if there are no errors (`Check.ok_eq`), so a call that fails without a report
has an error to tell. And no error has a line feed (`Check.oneLine_ofSource`),
so each is told on one line. The name in a report may have line feeds, and what
follows them may look like a result. The result that counts is the last one
(`Report.resultLine?`).

This is said of every script that the command can read (`Reads`). There is none
that it cannot be given: a standard input that keeps the ends of lines hands on
whatever was written to it (`Reads.of_stdin`).
-/

namespace SwitchScript

/-! ## Lines that are put together -/

theorem lines_append_cons (s t : String) : lines (s ++ "\n" ++ t) = lines s ++ lines t := by
  rw [lines, String.toList_append, String.toList_append, List.append_assoc]
  exact List.splitOn_append_cons_self s.toList t.toList

theorem OneLine.lines_eq {s : String} (h : OneLine s) : lines s = [s.toList] :=
  List.splitOn_eq_singleton h

namespace Command

theorem unlines_cons (s : String) (ss : List String) :
    unlines (s :: ss) = s ++ "\n" ++ unlines ss := by
  rw [unlines, List.map_cons, String.join_cons, unlines]

theorem unlines_singleton (s : String) : unlines [s] = s ++ "\n" := by
  rw [unlines_cons]
  exact String.append_empty

/-- Each text gets its own lines, and nothing comes after the last line feed. -/
theorem lines_unlines (ss : List String) : lines (unlines ss) = ss.flatMap lines ++ [[]] := by
  induction ss with
  | nil => rfl
  | cons s ss ih =>
      rw [unlines_cons, lines_append_cons, ih, List.flatMap_cons, List.append_assoc]

theorem flatMap_lines {ss : List String} (h : ∀ s ∈ ss, OneLine s) :
    ss.flatMap lines = ss.map String.toList := by
  rw [List.flatMap_congr fun s hs => (h s hs).lines_eq, List.map_eq_flatMap]

/-- Lines that are joined by line feeds are ended by them but for the last. -/
theorem unlines_eq_intercalate {ss : List String} (h : ss ≠ []) :
    unlines ss = "\n".intercalate ss ++ "\n" := by
  induction ss with
  | nil => exact absurd rfl h
  | cons s ss ih =>
      by_cases hss : ss = []
      · rw [hss, unlines_singleton, String.intercalate_singleton]
      · rw [unlines_cons, ih hss, String.intercalate_cons_of_ne_nil hss]
        simp only [String.append_assoc]

end Command

/-! ## The result in a report -/

namespace Report

/-- A line that announces a result. -/
def isResult (line : List Char) : Bool := "  RESULT: ".toList.isPrefixOf line

/-- The last line of a text that announces a result. -/
def resultLine? (text : String) : Option String :=
  (((SwitchScript.lines text).filter isResult).getLast?).map String.ofList

theorem filter_resultLines (c : Check) :
    ((resultLines c ++ [doubleLine]).map String.toList).filter isResult =
      [(if c.ok then "  RESULT: OK - no errors detected" else "  RESULT: FAILED").toList] := by
  have hlexical (n : Nat) : isResult ("    lexical errors: " ++ toString n).toList = false := by
    rw [isResult, String.toList_append]
    rfl
  have hsyntactic (n : Nat) : isResult ("    syntax errors:  " ++ toString n).toList = false := by
    rw [isResult, String.toList_append]
    rfl
  have htotal (n : Nat) : isResult ("  Total: " ++ toString n ++ " error(s)").toList = false := by
    rw [isResult, String.append_assoc, String.toList_append]
    rfl
  have hfailed : isResult "  RESULT: FAILED".toList = true := by decide
  have hend : isResult doubleLine.toList = false := by decide
  rw [resultLines]
  split
  · decide
  · simp only [List.cons_append, List.nil_append, List.map_cons, List.map_nil, List.filter_cons,
      List.filter_nil, hfailed, hlexical, hsyntactic, htotal, hend, if_true, Bool.false_eq_true,
      if_false]

theorem resultLine?_render (c : Check) (showTokens : Bool) :
    resultLine? (render c showTokens ++ "\n") =
      some (if c.ok then "  RESULT: OK - no errors detected" else "  RESULT: FAILED") := by
  obtain ⟨front, hfront⟩ :
      ∃ front, lines c showTokens = front ++ (resultLines c ++ [doubleLine]) :=
    ⟨_, List.append_assoc _ _ _⟩
  have hback : ∀ s ∈ resultLines c ++ [doubleLine], OneLine s :=
    List.forall_mem_append.mpr ⟨oneLine_resultLines c, by decide⟩
  have hne : lines c showTokens ≠ [] := by simp [lines]
  have hlines : SwitchScript.lines (render c showTokens ++ "\n") =
      front.flatMap SwitchScript.lines ++
        ((resultLines c ++ [doubleLine]).map String.toList ++ [[]]) := by
    rw [render, ← Command.unlines_eq_intercalate hne, Command.lines_unlines, hfront,
      List.flatMap_append, Command.flatMap_lines hback, List.append_assoc]
  have hlast : [[]].filter isResult = [] := by decide
  rw [resultLine?, hlines, List.filter_append, List.filter_append, filter_resultLines, hlast,
    List.append_nil, List.getLast?_append, List.getLast?_singleton, Option.some_or,
    Option.map_some, String.ofList_toList]

end Report

namespace Command

/-! ## Errors line by line -/

/-- The lines that tell the errors of a check. -/
def errorLines (c : Check) : List String :=
  lexicalErrorLines c.lexicalErrors ++ syntaxErrorLines c.syntaxErrors

theorem errorLines_eq_nil {c : Check} :
    errorLines c = [] ↔ c.lexicalErrors = [] ∧ c.syntaxErrors = [] := by
  rw [errorLines, List.append_eq_nil_iff, lexicalErrorLines, syntaxErrorLines, List.map_eq_nil_iff,
    List.map_eq_nil_iff]

/-- The name has no part in the errors, so it may be any. -/
theorem oneLine_errorLines (source name : String) (limit : Int) :
    ∀ s ∈ errorLines (Check.ofSource source name limit), OneLine s := by
  have h := Check.oneLine_ofSource source (by decide : OneLine "") limit
  exact List.forall_mem_append.mpr
    ⟨List.forall_mem_map.mpr fun e he => oneLine_append.mpr ⟨by decide, h.lexicalErrors e he⟩,
      List.forall_mem_map.mpr fun e he => oneLine_append.mpr ⟨by decide, h.syntaxErrors e he⟩⟩

/-! ## Calls that check a script -/

/-- The arguments ask for the check of a script, and the script can be read: it
is the text that the standard input holds, with the ends of lines that it hands
on, or the file under the path. -/
structure Reads (args : List String) (stdin : Bytes) (files : SourceTree) (ends : Text.LineEnds)
    (o : Options) (text : String) : Prop where
  asks : Request.ofArguments args = .ok (.check o)
  holds : if o.file = stdinFile then decodeSource ends stdin = .ok text
    else '\x00' ∉ o.file.toList ∧ sourceOfFile o.file (files.read o.file) = .ok text

section

variable {args : List String} {stdin : Bytes} {files : SourceTree} {ends : Text.LineEnds}
  {o : Options} {text : String} {limit : Int}

/-- Every text can come from a standard input that keeps the ends of lines. -/
theorem Reads.of_stdin (hasks : Request.ofArguments args = .ok (.check o))
    (hfile : o.file = stdinFile) :
    Reads args (Text.Utf8.encode text.toList) files .kept o text := by
  refine ⟨hasks, ?_⟩
  rw [if_pos hfile, decodeSource_encode, Text.LineEnds.handOn, String.ofList_toList]

/-- Every text in which lines end in line feeds can come from a file. -/
theorem Reads.of_file (hasks : Request.ofArguments args = .ok (.check o))
    (hfile : o.file ≠ stdinFile) (hpath : '\x00' ∉ o.file.toList)
    (hread : files.read o.file = .ok (Text.Utf8.encode text.toList)) (htext : '\r' ∉ text.toList) :
    Reads args stdin files ends o text := by
  refine ⟨hasks, ?_⟩
  rw [if_neg hfile, hread]
  refine ⟨hpath, ?_⟩
  rw [sourceOfFile, decodeSource_encode, Text.LineEnds.handOn, Text.unifyBreaks_of_not_mem htext,
    String.ofList_toList]

/-- There are no other texts in files. -/
theorem Reads.notMem_of_file (h : Reads args stdin files ends o text) (hfile : o.file ≠ stdinFile) :
    '\r' ∉ text.toList := by
  have hholds := h.holds
  rw [if_neg hfile] at hholds
  exact sourceOfFile_notMem hholds.2

theorem Reads.run_eq (h : Reads args stdin files ends o text) :
    run args stdin files ends = respond o (.ok text) := by
  have hholds := h.holds
  rw [run, Plan.ofArguments, h.asks]
  by_cases hfile : o.file = stdinFile
  · rw [if_pos hfile] at hholds
    simp only [if_pos hfile, hholds]
  · rw [if_neg hfile] at hholds
    simp only [if_neg hfile, if_neg hholds.1, hholds.2]

theorem respond_eq_tell (hdebug : o.debug = false) (hlimit : o.limit? = some limit) :
    respond o (.ok text) = .ok (tell o limit text) := by
  simp only [respond, hdebug, hlimit, Bool.false_eq_true, if_false]

theorem exit_tell (o : Options) (limit : Int) (text : String) :
    (tell o limit text).exit =
      if (Check.ofSource text (sourceName o.file) limit).ok then exitOk else exitFailed := by
  rw [tell]
  split <;> rfl

theorem tell_of_quiet (limit : Int) (text : String) (hquiet : o.quiet = true)
    (hverbose : o.verbose = false) :
    let check := Check.ofSource text (sourceName o.file) limit
    (tell o limit text).stdout = unlines (if check.ok then ["OK"] else []) ∧
      (tell o limit text).stderr = unlines (errorLines check) := by
  intro check
  simp only [tell, hquiet, if_true, journalLines, hverbose, Bool.false_eq_true, if_false,
    List.nil_append]
  exact ⟨rfl, rfl⟩

theorem stdout_tell (limit : Int) (text : String) (hquiet : o.quiet = false) :
    (tell o limit text).stdout =
      Report.render (Check.ofSource text (sourceName o.file) limit) (!o.noTokens) ++ "\n" := by
  simp only [tell, hquiet, Bool.false_eq_true, if_false]
  exact unlines_singleton _

/-- All ways of telling the result of a check agree. Where a script is checked
within a limit, the call leaves an outcome. Its status is good exactly if the
check found no error.

If only the errors are wanted, and no journal, then a good call prints a word
and nothing else. One that is not good prints a line for each error and nothing
else, first for the lexical ones, and there is at least one.

If a report is wanted, then this is all that is printed to the standard output,
and its result is the one that the status tells. -/
theorem outcome_agrees (h : Reads args stdin files ends o text) (hdebug : o.debug = false)
    (hlimit : o.limit? = some limit) :
    let check := Check.ofSource text (sourceName o.file) limit
    let remarks := check.lexicalErrors.map ("LexicalError: " ++ ·) ++
      check.syntaxErrors.map ("SyntaxError: " ++ ·)
    ∃ outcome, run args stdin files ends = .ok outcome ∧
      outcome.exit = (if check.lexicalErrors = [] ∧ check.syntaxErrors = [] then 0 else 1) ∧
      (o.quiet = true → o.verbose = false →
        (outcome.exit = 0 → outcome.stdout = "OK\n" ∧ outcome.stderr = "") ∧
        (outcome.exit = 1 → outcome.stdout = "" ∧ outcome.stderr = unlines remarks ∧
          lines outcome.stderr = remarks.map String.toList ++ [[]] ∧ remarks ≠ [])) ∧
      (o.quiet = false →
        outcome.stdout = Report.render check (!o.noTokens) ++ "\n" ∧
          Report.resultLine? outcome.stdout = some (if outcome.exit = 0 then
            "  RESULT: OK - no errors detected" else "  RESULT: FAILED")) := by
  intro check remarks
  have hok : check.ok = true ↔ check.lexicalErrors = [] ∧ check.syntaxErrors = [] := by
    rw [Check.ok_eq, Bool.and_eq_true, List.isEmpty_iff, List.isEmpty_iff]
  have hexit : (tell o limit text).exit = if check.ok then 0 else 1 := exit_tell o limit text
  have hzero : (tell o limit text).exit = 0 ↔ check.ok = true := by
    rw [hexit]
    split <;> simp [*]
  refine ⟨tell o limit text, ?_, ?_, fun hquiet hverbose => ?_, fun hquiet => ?_⟩
  · rw [h.run_eq, respond_eq_tell hdebug hlimit]
  · rw [hexit]
    exact if_congr hok rfl rfl
  · obtain ⟨hstdout, hstderr⟩ := tell_of_quiet limit text hquiet hverbose
    refine ⟨fun hgood => ?_, fun hbad => ?_⟩
    · have hnone := errorLines_eq_nil.mpr (hok.mp (hzero.mp hgood))
      rw [hstdout, if_pos (hzero.mp hgood), hstderr]
      exact ⟨rfl, congrArg unlines hnone⟩
    · have hfailed : ¬ check.ok = true := fun hgood => by
        rw [hzero.mpr hgood] at hbad
        exact absurd hbad (by decide)
      rw [hstdout, if_neg hfailed, hstderr]
      refine ⟨rfl, rfl, ?_, fun hnone => hfailed (hok.mpr (errorLines_eq_nil.mp hnone))⟩
      rw [lines_unlines]
      exact congrArg (· ++ [[]]) (flatMap_lines (oneLine_errorLines text _ limit))
  · have hstdout := stdout_tell limit text hquiet
    refine ⟨hstdout, ?_⟩
    rw [hstdout, Report.resultLine?_render]
    exact congrArg some (if_congr hzero.symm rfl rfl)

end

/-- Two lines, with a carriage return and a stray sign on the first one. -/
def strayDollar : String := "x =\r$\n)"

theorem outcome_agrees_strayDollar :
    let stdin := Text.Utf8.encode strayDollar.toList
    (∃ outcome, run ["--quiet", "-"] stdin .empty .kept = .ok outcome ∧ outcome.exit = 1 ∧
      outcome.stdout = "" ∧ outcome.stderr =
        "LexicalError: line 1, column 5: unexpected character '$'\n" ++
          "SyntaxError: line 1, column 6: invalid expression (found '\\n')\n") ∧
    ∃ outcome, run ["--verbose", "--max-depth=0", "-"] stdin .empty .unified = .ok outcome ∧
      outcome.exit = 1 ∧ Report.resultLine? outcome.stdout = some "  RESULT: FAILED" := by
  intro stdin
  have hquiet : Reads ["--quiet", "-"] stdin .empty .kept
      ⟨"-", some Pass.defaultLimit, false, false, true, false⟩ strayDollar :=
    .of_stdin (by decide +kernel) rfl
  have hreport : Reads ["--verbose", "--max-depth=0", "-"] stdin .empty .unified
      ⟨"-", some 0, false, false, false, true⟩ "x =\n$\n)" :=
    ⟨by decide +kernel, by decide +kernel⟩
  constructor
  · obtain ⟨outcome, hrun, hexit, hremarks, -⟩ := outcome_agrees hquiet rfl rfl
    have hone := hexit.trans (if_neg (by decide +kernel))
    obtain ⟨hstdout, hstderr, -⟩ := (hremarks rfl rfl).2 hone
    exact ⟨outcome, hrun, hone, hstdout, hstderr.trans (by decide +kernel)⟩
  · obtain ⟨outcome, hrun, hexit, -, hresult⟩ := outcome_agrees hreport rfl rfl
    have hone := hexit.trans (if_neg (by decide +kernel))
    have hlast := (hresult rfl).2
    rw [hone] at hlast
    exact ⟨outcome, hrun, hone, hlast⟩

/-- A carriage return that is kept is a blank, and one that is made a line feed
ends the line. -/
example : let stdin := Text.Utf8.encode "x =\r1\n".toList
    (run ["--quiet", "-"] stdin .empty .kept).toOption.map Outcome.exit = some 0 ∧
      (run ["--quiet", "-"] stdin .empty .unified).toOption.map Outcome.exit = some 1 := by
  decide +kernel

end Command

end SwitchScript
