import SwitchScript.Report
import SwitchScript.Proofs.OneLine

/-!
# What can be read off a report

A report puts free texts into a single one: a name, errors, notices and the
values of tokens. Any of them may look like a heading or like a row of the
table, and a section may be missing. Still nothing is lost, as long as no text
has a line feed. The lines of the report are then known (`lines_render`), each
free text stands on a line of its own behind a fixed beginning, and each section
ends in a line that none of its items can be: the errors in an empty line, the
rows of the table in one that does not end in a quote mark, the notices in one
that does not begin with a space. Read from the top, every section is known
before the next one begins (`section_inj`).
-/

namespace SwitchScript

/-! ## The names of kinds -/

/-- A name is made of capital letters and low lines. -/
theorem Kind.isNameChar_of_mem (k : Kind) :
    ∀ c ∈ k.name.toList, (c.isUpper || c == '_') = true := by
  have hall : ∀ k ∈ Kind.all, (k.name.toList.all fun c => c.isUpper || c == '_') = true := by
    decide +kernel
  exact List.all_eq_true.mp (hall k k.mem_all)

theorem Kind.length_name_le (k : Kind) : k.name.length ≤ 20 := by
  have hall : ∀ k ∈ Kind.all, k.name.length ≤ 20 := by decide +kernel
  exact hall k k.mem_all

theorem Kind.name_injective : Function.Injective Kind.name := fun k k' h =>
  Option.some.inj (by rw [← ofName?_name k, ← ofName?_name k', h])

namespace Report

/-! ## Padding -/

theorem oneLine_padLeft {n : Nat} {s : String} (h : OneLine s) : OneLine (padLeft n s) :=
  oneLine_append.mpr ⟨oneLine_ofList.mpr fun hmem =>
    absurd (List.eq_of_mem_replicate hmem) (by decide), h⟩

theorem oneLine_padRight {n : Nat} {s : String} (h : OneLine s) : OneLine (padRight n s) :=
  oneLine_append.mpr ⟨h, oneLine_ofList.mpr fun hmem =>
    absurd (List.eq_of_mem_replicate hmem) (by decide)⟩

theorem length_padRight {n : Nat} {s : String} (h : s.length ≤ n) :
    (padRight n s).toList.length = n := by
  rw [padRight, String.toList_append, String.toList_ofList, List.length_append,
    List.length_replicate, String.length_toList]
  omega

/-- A text without spaces is known from its padded form. -/
theorem takeWhile_padRight {n : Nat} {s : String} (h : ∀ c ∈ s.toList, (c != ' ') = true) :
    (padRight n s).toList.takeWhile (· != ' ') = s.toList := by
  rw [padRight, String.toList_append, String.toList_ofList, List.takeWhile_append_of_pos h,
    List.takeWhile_replicate_eq_filter, List.filter_replicate_of_neg (by decide), List.append_nil]

/-! ## The lines of a report -/

variable {c c' : Check}

theorem oneLine_tokenLine {t : Token} (h : OneLine t.text) (row : Nat) :
    OneLine (tokenLine row t) := by
  have hname : OneLine t.kind.name := fun hmem =>
    absurd (t.kind.isNameChar_of_mem _ hmem) (by decide)
  simp only [tokenLine, oneLine_append]
  exact ⟨⟨⟨⟨⟨⟨by decide, oneLine_padLeft (oneLine_nat row)⟩, by decide⟩,
    oneLine_padRight hname⟩, by decide⟩, h⟩, by decide⟩

theorem oneLine_tokenLines {ts : List Token} (h : ∀ t ∈ ts, OneLine t.text) (row : Nat) :
    ∀ s ∈ tokenLines row ts, OneLine s := by
  induction ts generalizing row with
  | nil => exact fun s hs => absurd hs List.not_mem_nil
  | cons t ts ih =>
      obtain ⟨ht, hts⟩ := List.forall_mem_cons.mp h
      exact List.forall_mem_cons.mpr ⟨oneLine_tokenLine ht row, ih hts (row + 1)⟩

theorem oneLine_tokenTable {ts : List Token} (h : ∀ t ∈ ts, OneLine t.text) :
    ∀ s ∈ tokenTable ts, OneLine s := by
  have hshown : ∀ t ∈ shownTokens ts, OneLine t.text := fun t ht =>
    h t (List.mem_filter.mp ht).1
  have htotal : OneLine ("  Total: " ++ toString (shownTokens ts).length ++ " tokens") := by
    simp only [oneLine_append]
    exact ⟨⟨by decide, oneLine_nat _⟩, by decide⟩
  exact List.forall_mem_append.mpr ⟨List.forall_mem_append.mpr
    ⟨by decide, oneLine_tokenLines hshown 1⟩, List.forall_mem_singleton.mpr htotal⟩

theorem oneLine_errorList {errors : List String} (he : ∀ e ∈ errors, OneLine e)
    {heading none : String} (hh : OneLine heading) (hn : OneLine none) :
    ∀ s ∈ errorList heading none errors, OneLine s := by
  rw [errorList]
  split
  · exact List.forall_mem_singleton.mpr hn
  · exact List.forall_mem_cons.mpr ⟨hh, List.forall_mem_map.mpr fun e hmem =>
      oneLine_append.mpr ⟨by decide, he e hmem⟩⟩

theorem oneLine_resultLines (c : Check) : ∀ s ∈ resultLines c, OneLine s := by
  rw [resultLines]
  split
  · decide
  · simp only [List.forall_mem_cons, oneLine_append]
    exact ⟨by decide, ⟨by decide, oneLine_nat _⟩, ⟨by decide, oneLine_nat _⟩,
      ⟨⟨by decide, oneLine_nat _⟩, by decide⟩, fun s hs => absurd hs List.not_mem_nil⟩

theorem oneLine_lines (h : c.OnOneLine) (showTokens : Bool) :
    ∀ s ∈ lines c showTokens, OneLine s := by
  have hdouble : OneLine doubleLine := by decide
  have hsingle : OneLine singleLine := by decide
  have hname : OneLine ("  CHECK: " ++ c.name) := oneLine_append.mpr ⟨by decide, h.name⟩
  have htable : ∀ s ∈ if showTokens then tokenTable c.tokens else [], OneLine s := by
    split
    · exact oneLine_tokenTable h.tokens
    · exact fun s hs => absurd hs List.not_mem_nil
  have hnotices : ∀ s ∈ c.notices.map ("  note: " ++ ·), OneLine s :=
    List.forall_mem_map.mpr fun e he => oneLine_append.mpr ⟨by decide, h.notices e he⟩
  simp only [lines, List.forall_mem_append]
  refine ⟨⟨⟨⟨⟨⟨⟨⟨?_, ?_⟩, htable⟩, ?_⟩, hnotices⟩, ?_⟩, ?_⟩, oneLine_resultLines c⟩, ?_⟩
  · simp only [List.forall_mem_cons]
    exact ⟨hdouble, hname, hdouble, by decide, by decide, hsingle, List.forall_mem_nil _⟩
  · exact oneLine_errorList h.lexicalErrors (by decide) (by decide)
  · decide
  · exact oneLine_errorList h.syntaxErrors (by decide) (by decide)
  · decide
  · decide

/-- A report is read line by line. -/
theorem lines_render (h : c.OnOneLine) (showTokens : Bool) :
    SwitchScript.lines (render c showTokens) = (lines c showTokens).map String.toList := by
  have hne : (lines c showTokens).map String.toList ≠ [] := by simp [lines]
  rw [SwitchScript.lines, render, String.toList_intercalate]
  exact List.splitOn_intercalate '\n' (List.forall_mem_map.mpr (oneLine_lines h showTokens)) hne

theorem lines_inj (h : c.OnOneLine) (h' : c'.OnOneLine) {showTokens : Bool}
    (heq : render c showTokens = render c' showTokens) :
    lines c showTokens = lines c' showTokens := by
  refine (List.map_inj_right fun _ _ => String.toList_inj.mp).mp ?_
  rw [← lines_render h, ← lines_render h', heq]

/-! ## Sections -/

theorem takeWhile_section {test : String → Bool} {xs rest : List String}
    (hxs : ∀ s ∈ xs, test s = true) (hrest : ∃ s ∈ rest.head?, test s = false) :
    (xs ++ rest).takeWhile test = xs := by
  obtain ⟨s, hs, hfalse⟩ := hrest
  obtain ⟨more, rfl⟩ := List.head?_eq_some_iff.mp hs
  rw [List.takeWhile_append_of_pos hxs, List.takeWhile_cons_of_neg (by simp [hfalse]),
    List.append_nil]

/-- A section that ends before a line of some other sort is known, and so is the
rest. -/
theorem section_inj {test : String → Bool} {xs ys rest rest' : List String}
    (hxs : ∀ s ∈ xs, test s = true) (hrest : ∃ s ∈ rest.head?, test s = false)
    (hys : ∀ s ∈ ys, test s = true) (hrest' : ∃ s ∈ rest'.head?, test s = false)
    (h : xs ++ rest = ys ++ rest') : xs = ys ∧ rest = rest' := by
  obtain rfl : xs = ys := by rw [← takeWhile_section hxs hrest, h, takeWhile_section hys hrest']
  exact ⟨rfl, List.append_cancel_left h⟩

theorem map_append_inj {start : String} {xs ys : List String}
    (h : xs.map (start ++ ·) = ys.map (start ++ ·)) : xs = ys :=
  (List.map_inj_right fun _ _ => (String.append_right_inj start).mp).mp h

/-! ### Errors -/

section ErrorList

variable {heading none : String} {es es' rest rest' : List String}

theorem errorList_eq_cons (heading none : String) (es : List String) :
    errorList heading none es =
      (if es.isEmpty then none else heading) :: es.map ("  - " ++ ·) := by
  cases es <;> rfl

/-- Errors are listed on lines that are not empty. -/
theorem ne_of_mem_errorList (hh : heading ≠ "") (hn : none ≠ "") :
    ∀ s ∈ errorList heading none es, (s != "") = true := by
  have hitem (e : String) : "  - " ++ e ≠ "" := fun heq =>
    absurd (String.append_eq_empty_iff.mp heq).1 (by decide)
  rw [errorList_eq_cons]
  refine List.forall_mem_cons.mpr ⟨?_, List.forall_mem_map.mpr fun e _ => bne_iff_ne.mpr (hitem e)⟩
  split
  · exact bne_iff_ne.mpr hn
  · exact bne_iff_ne.mpr hh

theorem errors_inj (hh : heading ≠ "") (hn : none ≠ "") (hrest : rest.head? = some "")
    (hrest' : rest'.head? = some "")
    (h : errorList heading none es ++ rest = errorList heading none es' ++ rest') :
    es = es' ∧ rest = rest' := by
  obtain ⟨herrors, hsame⟩ := section_inj (ne_of_mem_errorList hh hn) ⟨"", hrest, by decide⟩
    (ne_of_mem_errorList hh hn) ⟨"", hrest', by decide⟩ h
  rw [errorList_eq_cons, errorList_eq_cons] at herrors
  exact ⟨map_append_inj (List.cons.inj herrors).2, hsame⟩

/-! ### Notices -/

/-- A notice stands behind spaces, a list of errors does not begin with one. -/
def isIndented (s : String) : Bool := s.toList.head? == some ' '

theorem notices_inj {ns ns' : List String} (hh : isIndented heading = false)
    (hn : isIndented none = false)
    (h : ns.map ("  note: " ++ ·) ++ (errorList heading none es ++ rest) =
      ns'.map ("  note: " ++ ·) ++ (errorList heading none es' ++ rest')) :
    ns = ns' ∧ errorList heading none es ++ rest = errorList heading none es' ++ rest' := by
  have hnotices (ns : List String) : ∀ s ∈ ns.map ("  note: " ++ ·), isIndented s = true :=
    List.forall_mem_map.mpr fun e _ => by
      rw [isIndented, String.toList_append]
      rfl
  have hrest (es rest : List String) :
      ∃ s ∈ (errorList heading none es ++ rest).head?, isIndented s = false := by
    rw [errorList_eq_cons]
    refine ⟨_, rfl, ?_⟩
    split
    · exact hn
    · exact hh
  obtain ⟨hsame, hlast⟩ :=
    section_inj (hnotices ns) (hrest es rest) (hnotices ns') (hrest es' rest') h
  exact ⟨map_append_inj hsame, hlast⟩

end ErrorList

/-! ### The table -/

/-- What the table tells of the tokens. -/
def rows (ts : List Token) : List (Kind × String) := (shownTokens ts).map fun t => (t.kind, t.text)

theorem tokenLine_inj {row : Nat} {t t' : Token} (h : tokenLine row t = tokenLine row t') :
    (t.kind, t.text) = (t'.kind, t'.text) := by
  have hname (k : Kind) : ∀ c ∈ k.name.toList, (c != ' ') = true := fun c hc =>
    bne_iff_ne.mpr fun heq => absurd (heq ▸ k.isNameChar_of_mem c hc) (by decide)
  have hlength := (length_padRight t.kind.length_name_le).trans
    (length_padRight t'.kind.length_name_le).symm
  simp only [tokenLine, String.append_assoc, String.append_right_inj] at h
  -- All names are padded to one length, so the two rows part at the same place.
  have hchars := congrArg String.toList h
  simp only [String.toList_append] at hchars
  obtain ⟨hpadded, hrest⟩ := List.append_inj hchars hlength
  have hkind : t.kind = t'.kind := by
    refine Kind.name_injective (String.toList_inj.mp ?_)
    rw [← takeWhile_padRight (hname t.kind), hpadded, takeWhile_padRight (hname t'.kind)]
  have htext : t.text = t'.text :=
    String.toList_inj.mp (List.append_cancel_right (List.append_cancel_left hrest))
  rw [hkind, htext]

theorem tokenLines_inj {row : Nat} {ts ts' : List Token}
    (h : tokenLines row ts = tokenLines row ts') :
    ts.map (fun t => (t.kind, t.text)) = ts'.map fun t => (t.kind, t.text) := by
  induction ts generalizing row ts' with
  | nil =>
      cases ts' with
      | nil => rfl
      | cons t' ts' => exact absurd h (List.cons_ne_nil _ _).symm
  | cons t ts ih =>
      cases ts' with
      | nil => exact absurd h (List.cons_ne_nil _ _)
      | cons t' ts' =>
          obtain ⟨hrow, hrows⟩ := List.cons.inj h
          rw [List.map_cons, List.map_cons, tokenLine_inj hrow, ih hrows]

/-- A row ends in a quote mark. -/
def isRow (s : String) : Bool := s.toList.getLast? == some '\''

theorem isRow_append {s t : String} (h : t.toList ≠ []) : isRow (s ++ t) = isRow t := by
  rw [isRow, isRow, String.toList_append, List.getLast?_append_of_ne_nil _ h]

theorem isRow_tokenLines (row : Nat) (ts : List Token) :
    ∀ s ∈ tokenLines row ts, isRow s = true := by
  induction ts generalizing row with
  | nil => exact fun s hs => absurd hs List.not_mem_nil
  | cons t ts ih =>
      refine List.forall_mem_cons.mpr ⟨?_, ih (row + 1)⟩
      rw [tokenLine, isRow_append (by decide)]
      decide

theorem table_inj {ts ts' : List Token} {rest rest' : List String}
    (h : tokenTable ts ++ rest = tokenTable ts' ++ rest') : rows ts = rows ts' ∧ rest = rest' := by
  have htotal (n : Nat) : isRow ("  Total: " ++ toString n ++ " tokens") = false := by
    rw [isRow_append (by decide)]
    decide
  simp only [tokenTable, List.append_assoc] at h
  obtain ⟨hrows, hrest⟩ := section_inj (isRow_tokenLines 1 _) ⟨_, rfl, htotal _⟩
    (isRow_tokenLines 1 _) ⟨_, rfl, htotal _⟩ (List.append_cancel_left h)
  exact ⟨tokenLines_inj hrows, (List.cons.inj hrest).2⟩

/-! ### The result -/

theorem result_inj (h : resultLines c = resultLines c') : c.ok = c'.ok := by
  have hfirst (c : Check) : (resultLines c).head? =
      some (if c.ok then "  RESULT: OK - no errors detected" else "  RESULT: FAILED") := by
    rw [resultLines]
    split <;> rfl
  have hdiffer : ∀ ok ok' : Bool,
      (if ok then "  RESULT: OK - no errors detected" else "  RESULT: FAILED") =
        (if ok' then "  RESULT: OK - no errors detected" else "  RESULT: FAILED") → ok = ok' := by
    decide
  have hsame := (hfirst c).symm.trans ((congrArg List.head? h).trans (hfirst c'))
  exact hdiffer _ _ (Option.some.inj hsame)

/-! ## Reading a report -/

theorem content_of_lines (h : lines c true = lines c' true) :
    c.name = c'.name ∧ c.lexicalErrors = c'.lexicalErrors ∧ rows c.tokens = rows c'.tokens ∧
      c.notices = c'.notices ∧ c.syntaxErrors = c'.syntaxErrors ∧ c.ok = c'.ok := by
  simp only [lines, if_true, List.append_assoc, List.cons_append, List.nil_append,
    List.cons.injEq, String.append_right_inj, true_and] at h
  obtain ⟨hname, h⟩ := h
  obtain ⟨hlexical, h⟩ := errors_inj (by decide) (by decide) rfl rfl h
  obtain ⟨hrows, h⟩ := table_inj h
  simp only [List.cons.injEq, true_and] at h
  obtain ⟨hnotices, h⟩ := notices_inj (by decide) (by decide) h
  obtain ⟨hsyntactic, h⟩ := errors_inj (by decide) (by decide) rfl rfl h
  simp only [List.cons.injEq, true_and] at h
  exact ⟨hname, hlexical, hrows, hnotices, hsyntactic, result_inj (List.append_cancel_right h)⟩

/-- A report loses nothing of what it is about. Whatever two checks say, as long
as no text has a line feed, they can only have the same report if they agree in
the name, the errors, the notices and the outcome, and if their tables have the
same rows. Checks of scripts have no line feed in any text but perhaps the
name. -/
theorem content_of_render :
    (∀ c c' : Check, c.OnOneLine → c'.OnOneLine → render c true = render c' true →
      c.name = c'.name ∧ c.lexicalErrors = c'.lexicalErrors ∧ rows c.tokens = rows c'.tokens ∧
        c.notices = c'.notices ∧ c.syntaxErrors = c'.syntaxErrors ∧ c.ok = c'.ok) ∧
    ∀ (source name : String) (limit : Int), OneLine name →
      (Check.ofSource source name limit).OnOneLine :=
  ⟨fun _ _ h h' heq => content_of_lines (lines_inj h h' heq),
    fun source _ limit hname => Check.oneLine_ofSource source hname limit⟩

/-- A check put together from texts that look like parts of a report. -/
def imposter : Check where
  name := ""
  tokens := [⟨⟨"' : '", ⟨1, 1⟩⟩, .string⟩, ⟨⟨"\\n", ⟨1, 6⟩⟩, .newline⟩, ⟨⟨"", ⟨2, 1⟩⟩, .eof⟩]
  lexicalErrors := ["Tokens:", ""]
  syntaxErrors := []
  notices := ["Syntax errors:", "  - "]
  ok := false

/-- The same check with a token at another place, and without those that the
table leaves out. -/
def barePart : Check :=
  { imposter with tokens := [⟨⟨"' : '", ⟨7, 2⟩⟩, .string⟩] }

theorem content_of_render_imposter :
    imposter.OnOneLine ∧ barePart.OnOneLine ∧ render imposter true = render barePart true ∧
      rows imposter.tokens = rows barePart.tokens ∧ OneLine Check.defaultName ∧
      (Check.ofSource "x = $\n'" Check.defaultName 5).OnOneLine := by
  have himposter : imposter.OnOneLine :=
    ⟨by decide, by decide, by decide, by decide, by decide⟩
  have hbare : barePart.OnOneLine := ⟨by decide, by decide, by decide, by decide, by decide⟩
  have heq : render imposter true = render barePart true := rfl
  have hname : OneLine Check.defaultName := by decide
  obtain ⟨hread, hchecks⟩ := content_of_render
  exact ⟨himposter, hbare, heq, (hread _ _ himposter hbare heq).2.2.1, hname, hchecks _ _ 5 hname⟩

end Report

end SwitchScript
