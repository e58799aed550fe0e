import Mathlib.Data.List.DropRight
import SwitchScript.Proofs.Alike

/-!
# Blank lines

How many line breaks there are in a row makes no difference to a run, as long as
there is one, and at the start and at the end of a stream it makes no difference
whether there is one at all (`blank_lines_free`).

A stream is compared with the one that has a single line break for every run of
them and none at its ends (`Stream.squeezed`). The cursors of both move in
lockstep: a line break is passed over together with those around it, and the
steps that count ahead count one run for the other
(`drop_skipLength_breakBefore`). Near the end mark the squeezed stream may have
come to it while the other stands on a line break, which is what likeness leaves
room for. Streams that differ in blank lines only are squeezed to the same one.

Indices are not kept, but what is between line breaks is, so a place is told by
the tokens before it that are none (`Stream.solidBefore`).
-/

namespace SwitchScript

/-- A line break of no particular place. -/
def lineBreak : Token := ⟨⟨"\\n", .origin⟩, .newline⟩

/-- Tokens after a line break: at the end of a stream it is dropped, and one
that is there already will do. -/
def breakBefore : List Token → List Token
  | [] => []
  | t :: ts => if t.isNewline then t :: ts else lineBreak :: t :: ts

/-- One line break for every run of them, and none at the end. -/
def squeeze : List Token → List Token
  | [] => []
  | t :: ts => if t.isNewline then breakBefore (squeeze ts) else t :: squeeze ts

/-- The tokens other than line breaks. -/
def solid (ts : List Token) : List Token := ts.filter fun t => !t.isNewline

namespace Stream

/-- The stream without blank lines. -/
def squeezed (s : Stream) : Stream := ⟨(squeeze s.tokens).dropWhile Token.isNewline, s.stop⟩

/-- The tokens before an index that are not line breaks. -/
def solidBefore (s : Stream) (i : Nat) : List Token := solid (s.toList.take i)

/-- One stream is the other with blank lines added or removed: with one run of
line breaks for another, or with line breaks added or removed at the start or
right before the end mark. -/
inductive Respaced : Stream → Stream → Prop
  | run (before after : List Token) (stop : Lexeme) {breaks breaks' : List Token}
      (h : ∀ t ∈ breaks, t.isNewline = true) (h' : ∀ t ∈ breaks', t.isNewline = true)
      (hne : breaks ≠ []) (hne' : breaks' ≠ []) :
      Respaced ⟨before ++ breaks ++ after, stop⟩ ⟨before ++ breaks' ++ after, stop⟩
  | start (ts : List Token) (stop : Lexeme) {breaks breaks' : List Token}
      (h : ∀ t ∈ breaks, t.isNewline = true) (h' : ∀ t ∈ breaks', t.isNewline = true) :
      Respaced ⟨breaks ++ ts, stop⟩ ⟨breaks' ++ ts, stop⟩
  | finish (ts : List Token) (stop : Lexeme) {breaks breaks' : List Token}
      (h : ∀ t ∈ breaks, t.isNewline = true) (h' : ∀ t ∈ breaks', t.isNewline = true) :
      Respaced ⟨ts ++ breaks, stop⟩ ⟨ts ++ breaks', stop⟩

end Stream

/-! ## Squeezing -/

variable {t : Token} {ts ts' breaks : List Token}

theorem squeeze_cons_of_isNewline (h : t.isNewline = true) :
    squeeze (t :: ts) = breakBefore (squeeze ts) := by
  rw [squeeze, if_pos h]

theorem squeeze_cons_of_not_isNewline (h : ¬ t.isNewline = true) :
    squeeze (t :: ts) = t :: squeeze ts := by
  rw [squeeze, if_neg h]

theorem breakBefore_idem (ts : List Token) : breakBefore (breakBefore ts) = breakBefore ts := by
  cases ts with
  | nil => rfl
  | cons t ts =>
      by_cases h : t.isNewline = true
      · rw [breakBefore, if_pos h, breakBefore, if_pos h]
      · rw [breakBefore, if_neg h, breakBefore, if_pos (by rfl)]

theorem breakBefore_cases (ts : List Token) :
    breakBefore ts = [] ∨ ∃ t ts', breakBefore ts = t :: ts' ∧ t.isNewline = true := by
  cases ts with
  | nil => exact .inl rfl
  | cons t ts =>
      rw [breakBefore]
      split
      · rename_i h
        exact .inr ⟨t, ts, rfl, h⟩
      · exact .inr ⟨lineBreak, t :: ts, rfl, rfl⟩

theorem squeeze_breaks (h : ∀ t ∈ breaks, t.isNewline = true) (hne : breaks ≠ []) :
    squeeze (breaks ++ ts) = breakBefore (squeeze ts) := by
  induction breaks with
  | nil => exact absurd rfl hne
  | cons t breaks ih =>
      rw [List.forall_mem_cons] at h
      rw [List.cons_append, squeeze_cons_of_isNewline h.1]
      by_cases hnil : breaks = []
      · rw [hnil, List.nil_append]
      · rw [ih h.2 hnil, breakBefore_idem]

theorem squeeze_eq_nil (h : ∀ t ∈ breaks, t.isNewline = true) : squeeze breaks = [] := by
  by_cases hnil : breaks = []
  · rw [hnil, squeeze]
  · rw [← List.append_nil breaks, squeeze_breaks h hnil, squeeze, breakBefore]

theorem squeeze_append_congr (before : List Token) (h : squeeze ts = squeeze ts') :
    squeeze (before ++ ts) = squeeze (before ++ ts') := by
  induction before with
  | nil => exact h
  | cons t before ih => rw [List.cons_append, List.cons_append, squeeze, squeeze, ih]

theorem dropWhile_breakBefore (ts : List Token) :
    (breakBefore ts).dropWhile Token.isNewline = ts.dropWhile Token.isNewline := by
  cases ts with
  | nil => rfl
  | cons t ts =>
      rw [breakBefore]
      split
      · rfl
      · exact List.dropWhile_cons_of_pos (by rfl)

theorem dropWhile_squeeze (ts : List Token) :
    (squeeze ts).dropWhile Token.isNewline = squeeze (ts.dropWhile Token.isNewline) := by
  induction ts with
  | nil => rfl
  | cons t ts ih =>
      by_cases h : t.isNewline = true
      · rw [squeeze_cons_of_isNewline h, dropWhile_breakBefore, ih, List.dropWhile_cons_of_pos h]
      · rw [squeeze_cons_of_not_isNewline h, List.dropWhile_cons_of_neg h,
          List.dropWhile_cons_of_neg h, squeeze_cons_of_not_isNewline h]

theorem solid_append (ts ts' : List Token) : solid (ts ++ ts') = solid ts ++ solid ts' :=
  List.filter_append ..

theorem solid_cons_of_isNewline (h : t.isNewline = true) : solid (t :: ts) = solid ts :=
  List.filter_cons_of_neg (by simp [h])

theorem solid_breakBefore (ts : List Token) : solid (breakBefore ts) = solid ts := by
  cases ts with
  | nil => rfl
  | cons t ts =>
      rw [breakBefore]
      split
      · rfl
      · exact solid_cons_of_isNewline rfl

theorem solid_squeeze (ts : List Token) : solid (squeeze ts) = solid ts := by
  induction ts with
  | nil => rfl
  | cons t ts ih =>
      by_cases h : t.isNewline = true
      · rw [squeeze_cons_of_isNewline h, solid_breakBefore, ih, solid_cons_of_isNewline h]
      · rw [squeeze_cons_of_not_isNewline h, ← List.singleton_append, solid_append, ih,
          ← solid_append, List.singleton_append]

theorem solid_dropWhile (ts : List Token) : solid (ts.dropWhile Token.isNewline) = solid ts := by
  have hbreaks : solid (ts.takeWhile Token.isNewline) = [] := by
    refine List.filter_eq_nil_iff.mpr fun t ht => ?_
    have hnewline := List.all_eq_true.mp List.all_takeWhile t ht
    simp [hnewline]
  have hsplit := solid_append (ts.takeWhile Token.isNewline) (ts.dropWhile Token.isNewline)
  rwa [List.takeWhile_append_dropWhile, hbreaks, List.nil_append, eq_comm] at hsplit

/-- Respaced streams are squeezed to the same stream. -/
theorem Stream.Respaced.squeezed_eq {s s' : Stream} (h : s.Respaced s') :
    s'.squeezed = s.squeezed := by
  cases h with
  | run before after stop h h' hne hne' =>
      rw [squeezed, squeezed, List.append_assoc, List.append_assoc]
      rw [squeeze_append_congr before ((squeeze_breaks h hne).trans (squeeze_breaks h' hne').symm)]
  | start ts stop h h' =>
      rw [squeezed, squeezed, dropWhile_squeeze, dropWhile_squeeze, List.dropWhile_append_of_pos h,
        List.dropWhile_append_of_pos h']
  | finish ts stop h h' =>
      rw [squeezed, squeezed,
        squeeze_append_congr ts ((squeeze_eq_nil h).trans (squeeze_eq_nil h').symm)]

/-! ## Counting ahead -/

theorem drop_newlines (ts : List Token) : ts.drop (newlines ts) = ts.dropWhile Token.isNewline := by
  have hdrop : (ts.takeWhile Token.isNewline ++ ts.dropWhile Token.isNewline).drop (newlines ts) =
      ts.dropWhile Token.isNewline := List.drop_left
  rwa [List.takeWhile_append_dropWhile] at hdrop

namespace Pass

variable {braces parens : Int} {before : Kind}

/-- Inside a construct that is not analysed, a line break is one more token. -/
theorem skipLength_cons_of_isNewline (hbraces : 0 ≤ braces) (h : t.isNewline = true) :
    skipLength braces parens before (t :: ts) = skipLength braces parens .newline ts + 1 := by
  have hkind : t.kind = .newline := by simpa [Token.isNewline] using h
  have hgo : ¬ braces < 0 := by omega
  rw [skipLength, hkind]
  simp [braceStep, parenStep, resumes, hgo]

/-- A line break before the tokens is stepped over as well, or it was the first
of them. -/
theorem drop_skipLength_breakBefore (hbraces : 0 ≤ braces) (ts : List Token) :
    (breakBefore ts).drop (skipLength braces parens before (breakBefore ts)) =
      ts.drop (skipLength braces parens .newline ts) := by
  cases ts with
  | nil => rfl
  | cons t ts =>
      rw [breakBefore]
      split
      · rename_i h
        rw [skipLength_cons_of_isNewline hbraces h, skipLength_cons_of_isNewline hbraces h]
      · rw [skipLength_cons_of_isNewline hbraces (by rfl), List.drop_succ_cons]

/-- A construct reaches equally far in the squeezed tokens. -/
theorem drop_skipLength_squeeze (hbraces : 0 ≤ braces) (ts : List Token) :
    (squeeze ts).drop (skipLength braces parens before (squeeze ts)) =
      squeeze (ts.drop (skipLength braces parens before ts)) := by
  induction ts generalizing braces parens before with
  | nil => rfl
  | cons t ts ih =>
      by_cases h : t.isNewline = true
      · rw [squeeze_cons_of_isNewline h, drop_skipLength_breakBefore hbraces, ih hbraces,
          skipLength_cons_of_isNewline hbraces h, List.drop_succ_cons]
      · rw [squeeze_cons_of_not_isNewline h, skipLength, skipLength]
        split
        · rw [List.drop_zero, List.drop_zero, squeeze_cons_of_not_isNewline h]
        · rename_i hgo
          have hstep : 0 ≤ braces + braceStep t.kind := by
            rw [not_or, not_or] at hgo
            exact Int.not_lt.mp hgo.2.1
          rw [List.drop_succ_cons, List.drop_succ_cons, ih hstep]

end Pass

/-! ## Likeness -/

namespace Cursor

/-- A cursor of a stream and one of the squeezed stream that have the same
ahead, but for blank lines. -/
structure Squeezed (s : Stream) (c c' : Cursor) : Prop where
  stream : c.stream = s
  stream' : c'.stream = s.squeezed
  ahead : c'.ahead = squeeze c.ahead

theorem stop_eq_stream (c : Cursor) : c.stop = c.stream.stop := rfl

theorem take_index (c : Cursor) : c.stream.toList.take c.index = c.behind.reverse := by
  have hindex : c.index = c.behind.reverse.length := (List.length_reverse).symm
  rw [stream, Stream.toList, List.append_assoc, hindex, List.take_left']
  rfl

variable {s : Stream} {c c' : Cursor}

namespace Squeezed

theorem stop (h : c.Squeezed s c') : c'.stop = c.stop := by
  rw [c'.stop_eq_stream, h.stream', c.stop_eq_stream, h.stream]
  rfl

theorem forward (h : c.Squeezed s c') {n n' : Nat}
    (hdrop : (squeeze c.ahead).drop n' = squeeze (c.ahead.drop n)) :
    (c.forward n).Squeezed s (c'.forward n') where
  stream := (c.stream_forward n).trans h.stream
  stream' := (c'.stream_forward n').trans h.stream'
  ahead := by
    show c'.ahead.drop n' = _
    rw [h.ahead, hdrop]
    rfl

theorem solidBefore_eq (h : c.Squeezed s c') :
    s.squeezed.solidBefore c'.index = s.solidBefore c.index := by
  have hwhole : solid c'.stream.tokens = solid c.stream.tokens := by
    rw [h.stream', h.stream]
    exact (solid_dropWhile _).trans (solid_squeeze _)
  have hahead : solid c'.ahead = solid c.ahead := by rw [h.ahead, solid_squeeze]
  rw [Cursor.stream, Cursor.stream, solid_append, solid_append, hahead] at hwhole
  rw [Stream.solidBefore, Stream.solidBefore, ← h.stream', ← h.stream, take_index, take_index]
  exact List.append_cancel_right hwhole

/-- Off the line breaks both cursors are on the same token. -/
theorem current_eq (h : c.Squeezed s c') (hk : c.kind ≠ .newline) : c'.current = c.current := by
  rw [current, current, h.ahead, h.stop]
  cases hahead : c.ahead with
  | nil => rfl
  | cons t ts =>
      have hsolid : ¬ t.isNewline = true := mt (isNewline_iff hahead).mp hk
      rw [squeeze_cons_of_not_isNewline hsolid]
      rfl

/-- On a line break the other cursor is on one, too, unless there are only line
breaks up to the end mark. -/
theorem kind_cases (h : c.Squeezed s c') :
    c'.kind = c.kind ∨ c.kind = .newline ∧ c'.kind = .eof := by
  by_cases hk : c.kind = .newline
  · have hne : c.kind ≠ .eof := by rw [hk]; decide
    obtain ⟨t, ts, hahead⟩ := List.exists_cons_of_ne_nil (Cursor.ahead_ne_nil hne)
    have hnewline : t.isNewline = true := (isNewline_iff hahead).mpr hk
    have hsqueezed : c'.ahead = breakBefore (squeeze ts) := by
      rw [h.ahead, hahead, squeeze_cons_of_isNewline hnewline]
    rcases breakBefore_cases (squeeze ts) with hnil | ⟨u, us, hcons, hu⟩
    · refine .inr ⟨hk, ?_⟩
      rw [kind, current, hsqueezed, hnil]
      rfl
    · left
      rw [hk, kind, current, hsqueezed, hcons]
      simpa [Token.isNewline] using hu
  · left
    rw [kind, h.current_eq hk]
    rfl

theorem advance (h : c.Squeezed s c') (hk : c.kind ≠ .newline) :
    c.advance.Squeezed s c'.advance := by
  apply h.forward
  cases hahead : c.ahead with
  | nil => rfl
  | cons t ts =>
      have hsolid : ¬ t.isNewline = true := mt (isNewline_iff hahead).mp hk
      rw [squeeze_cons_of_not_isNewline hsolid]
      rfl

theorem skipNewlines (h : c.Squeezed s c') : c.skipNewlines.Squeezed s c'.skipNewlines := by
  apply h.forward
  show (squeeze c.ahead).drop (newlines c'.ahead) = squeeze (c.ahead.drop (newlines c.ahead))
  rw [h.ahead, drop_newlines, drop_newlines, dropWhile_squeeze]

theorem skipConstruct (h : c.Squeezed s c') (hk : c.kind.opensIgnored = true) :
    c.skipConstruct.Squeezed s c'.skipConstruct := by
  have hne : c.kind ≠ .newline := Kind.ne_newline_of_test hk rfl
  have hnext := h.advance hne
  apply hnext.forward
  rw [hnext.ahead, kind, h.current_eq hne]
  exact Pass.drop_skipLength_squeeze (Int.le_refl 0) _

end Squeezed

end Cursor

/-- Two sites are at the same place, and what is shown there is the same unless
it is a line break. -/
structure Site.Squeezed (s : Stream) (x x' : Site) : Prop where
  place : s.squeezed.solidBefore x'.index = s.solidBefore x.index
  token : x.token.kind ≠ .newline → x'.token = x.token

theorem Cursor.Squeezed.likeness (s : Stream) : Likeness (Squeezed s) (Site.Squeezed s) where
  kind h := h.kind_cases
  site h := ⟨h.solidBefore_eq, h.current_eq⟩
  advance h := h.advance
  skipNewlines h := h.skipNewlines
  skipConstruct h := h.skipConstruct

/-! ## Runs -/

namespace Pass

/-- A run over a stream and one over the squeezed stream are alike. -/
theorem squeezed_program (s : Stream) (limit : Int) :
    ((start s limit).follow .program).Alike (Cursor.Squeezed s) (Site.Squeezed s)
      ((start s.squeezed limit).follow .program) := by
  refine alike_program (Cursor.Squeezed.likeness s) ⟨⟨?_, ?_, ?_⟩, rfl, rfl, rfl, .nil⟩
  · exact Cursor.stream_forward ..
  · exact Cursor.stream_forward ..
  · show s.squeezed.tokens.drop (newlines s.squeezed.tokens) =
      squeeze (s.tokens.drop (newlines s.tokens))
    rw [drop_newlines, drop_newlines, Stream.squeezed, List.dropWhile_idempotent, dropWhile_squeeze]

variable {s s' : Stream}

theorem errors_squeezed (s : Stream) (limit : Int) :
    (ofStream s.squeezed limit).errors.map
        (fun d => (d.fault?, s.squeezed.solidBefore d.site.index)) =
      (ofStream s limit).errors.map fun d => (d.fault?, s.solidBefore d.site.index) := by
  rw [errors_ofStream, errors_ofStream]
  refine map_eq_of_forall₂ (squeezed_program s limit).errors fun d d' hd => ?_
  obtain ⟨hlike, herror⟩ := hd
  cases hlike with
  | error fault hsite => exact congrArg (some fault, ·) hsite.place
  | notice => exact absurd herror (by simp [Diagnostic.isError])

theorem notices_squeezed (s : Stream) (limit : Int) :
    (ofStream s.squeezed limit).notices.map
        (fun d => (d.site.token, s.squeezed.solidBefore d.site.index)) =
      (ofStream s limit).notices.map fun d => (d.site.token, s.solidBefore d.site.index) := by
  rw [notices_ofStream, notices_ofStream]
  refine map_eq_of_forall₂ (squeezed_program s limit).notices fun d d' hd => ?_
  obtain ⟨hlike, hnotice⟩ := hd
  cases hlike with
  | error => exact absurd hnotice (by simp [Diagnostic.isError])
  | notice hsite hk =>
      have hne := Kind.ne_newline_of_test hk rfl
      exact congrArg₂ Prod.mk (hsite.token hne) hsite.place

/-- Blank lines make no difference. Over streams that differ in them only there
is the same verdict, there are notices about the same keywords, and there are
errors with the same messages in the same order, all at the same places. -/
theorem blank_lines_free (h : s.Respaced s') (limit : Int) :
    (ofStream s' limit).verdict? = (ofStream s limit).verdict? ∧
      (ofStream s' limit).notices.map (fun d => (d.site.token, s'.solidBefore d.site.index)) =
        (ofStream s limit).notices.map (fun d => (d.site.token, s.solidBefore d.site.index)) ∧
      (ofStream s' limit).errors.map (fun d => (d.fault?, s'.solidBefore d.site.index)) =
        (ofStream s limit).errors.map (fun d => (d.fault?, s.solidBefore d.site.index)) := by
  have herrors : (ofStream s' limit).errors.map (fun d => (d.fault?, s'.solidBefore d.site.index)) =
      (ofStream s limit).errors.map fun d => (d.fault?, s.solidBefore d.site.index) := by
    rw [← errors_squeezed s, ← errors_squeezed s', h.squeezed_eq]
  refine ⟨verdict?_congr ?_, ?_, herrors⟩
  · simpa using congrArg List.length herrors
  · rw [← notices_squeezed s, ← notices_squeezed s', h.squeezed_eq]

/-- A loop that is not analysed, and an assignment of nothing after it. -/
def looseLoop (breaks : List Token) : Stream :=
  ⟨[⟨⟨"while", ⟨1, 1⟩⟩, .kwWhile⟩] ++ breaks ++
    [⟨⟨"x", ⟨2, 1⟩⟩, .identifier⟩, ⟨⟨"=", ⟨2, 3⟩⟩, .assign⟩], ⟨"", ⟨2, 4⟩⟩⟩

theorem blank_lines_free_looseLoop :
    (looseLoop [lineBreak]).Respaced (looseLoop (List.replicate 3 lineBreak)) ∧
      (ofStream (looseLoop [lineBreak]) 2).verdict? = some false ∧
      (ofStream (looseLoop (List.replicate 3 lineBreak)) 2).verdict? = some false ∧
      (ofStream (looseLoop (List.replicate 3 lineBreak)) 2).notices.length = 1 := by
  have hone : ∀ t ∈ [lineBreak], t.isNewline = true := by decide
  have hthree : ∀ t ∈ List.replicate 3 lineBreak, t.isNewline = true := by decide
  have h : (looseLoop [lineBreak]).Respaced (looseLoop (List.replicate 3 lineBreak)) :=
    .run _ _ _ hone hthree (by decide) (by decide)
  obtain ⟨hverdict, hnotices, -⟩ := blank_lines_free h 2
  have hrejects : (ofStream (looseLoop [lineBreak]) 2).verdict? = some false := by decide +kernel
  have hlength := congrArg List.length hnotices
  rw [List.length_map, List.length_map] at hlength
  exact ⟨h, hrejects, hverdict.trans hrejects, hlength.trans (by decide +kernel)⟩

end Pass

end SwitchScript
