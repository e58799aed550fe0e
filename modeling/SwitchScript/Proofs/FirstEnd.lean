import SwitchScript.Proofs.Lockstep

/-!
# The first end mark ends a run

A stream may have end marks before its last token. A run never gets past the
first of them, so that whatever comes after it might as well not be there
(`first_end_ends`).

No task steps over an end mark, whether or not the run is still valid: all that
is stepped over is a word, which ends at the end mark by its definition
(`Task.passes_perform`). So the whole run takes place at indices up to that of
the first end mark, and up to there the stream and the one that is cut off
behind the end mark agree. Runs over the two are twins.
-/

namespace SwitchScript

/-! ## Cutting off a stream -/

/-- A token of this kind is an end mark with its lexeme. -/
theorem Token.asStop_toLexeme {t : Token} (h : t.kind = .eof) : t.toLexeme.asStop = t := by
  rw [Lexeme.asStop, ← h]

namespace Stream

/-- The index of the first end mark. -/
def firstEnd (s : Stream) : Nat := s.toList.findIdx fun t => t.kind == .eof

/-- The stream up to its first end mark. -/
def upToEnd (s : Stream) : Stream where
  tokens := s.tokens.takeWhile fun t => t.kind != .eof
  stop := ((s.tokens.find? fun t => t.kind == .eof).getD s.stop.asStop).toLexeme

theorem firstEnd_cons_of_eof {t : Token} (h : t.kind = .eof) (tokens : List Token)
    (stop : Lexeme) : firstEnd ⟨t :: tokens, stop⟩ = 0 := by
  rw [firstEnd, toList, List.cons_append, List.findIdx_cons, beq_iff_eq.mpr h, cond_true]

theorem firstEnd_cons_of_ne {t : Token} (h : t.kind ≠ .eof) (tokens : List Token)
    (stop : Lexeme) : firstEnd ⟨t :: tokens, stop⟩ = firstEnd ⟨tokens, stop⟩ + 1 := by
  rw [firstEnd, toList, List.cons_append, List.findIdx_cons, beq_false_of_ne h, cond_false]
  rfl

theorem toList_upToEnd (s : Stream) : s.upToEnd.toList = s.toList.take (s.firstEnd + 1) := by
  obtain ⟨tokens, stop⟩ := s
  induction tokens with
  | nil => rfl
  | cons t tokens ih =>
      by_cases heof : t.kind = .eof
      · rw [firstEnd_cons_of_eof heof]
        simp [upToEnd, toList, heof, Token.asStop_toLexeme heof]
      · rw [firstEnd_cons_of_ne heof]
        simp only [upToEnd, toList] at ih ⊢
        rw [List.takeWhile_cons_of_pos (by simpa using heof),
          List.find?_cons_of_neg (by simpa using heof), List.cons_append, List.cons_append, ih,
          List.take_succ_cons]

/-- The tokens before the first end mark are those of the word. -/
theorem length_word (s : Stream) : s.word.length = s.firstEnd := by
  obtain ⟨tokens, stop⟩ := s
  induction tokens with
  | nil => rfl
  | cons t tokens ih =>
      by_cases heof : t.kind = .eof
      · rw [firstEnd_cons_of_eof heof, word, List.map_cons,
          List.takeWhile_cons_of_neg (by simpa using heof), List.length_nil]
      · rw [firstEnd_cons_of_ne heof, ← ih, word, List.map_cons,
          List.takeWhile_cons_of_pos (by simpa using heof), List.length_cons, word]

end Stream

/-! ## No task steps over an end mark -/

namespace Pass

variable {p q : Pass}

theorem Passes.of_cursor (h : q.cursor = p.cursor) : p.Passes [] q := by
  refine ⟨?_, ?_⟩
  · rw [List.nil_append, Pass.word, Pass.word, h]
  · rw [List.length_nil, Nat.add_zero, h]

/-- Begun anywhere but at an end mark, a construct is stepped over up to the
first end mark at most, whatever its first token is. -/
theorem passes_skipConstruct_of_ne (h : p.kind ≠ .eof) : ∃ u, p.Passes u p.skipConstruct := by
  have hnotify : p.Passes [] p.notify := .of_cursor rfl
  have hfirst := hnotify.trans (p.notify.passes_advance h)
  simp only [skipConstruct]
  split
  · have hle : skipLength 0 0 p.kind p.notify.advance.cursor.ahead ≤
        p.notify.advance.word.length := skipLength_le _ _ _ _
    exact ⟨_, hfirst.trans (passes_forward hle rfl)⟩
  · exact ⟨_, hfirst⟩

end Pass

/-- A task that is guarded passes over a word. -/
theorem Task.passes_perform {t : Task} {p : Pass} (h : t.Guarded p.kind) :
    ∃ u, p.Passes u (t.perform p).2 := by
  have hsame {q : Pass} (hq : q.cursor = p.cursor) : ∃ u, p.Passes u q := ⟨[], .of_cursor hq⟩
  cases t with
  | leave | settle => exact hsame rfl
  | make m =>
      cases m with
      | stay | both | peek | once | repeated | judge | follow | report => exact hsame rfl
      | advance => exact ⟨_, p.passes_advance h⟩
      | reject fault =>
          have hreport : p.Passes [] (p.report fault) := .of_cursor rfl
          exact ⟨_, hreport.trans ((p.report fault).passes_advance h)⟩
      | skipNewlines => exact ⟨_, p.passes_skipNewlines⟩
      | skipConstruct => exact Pass.passes_skipConstruct_of_ne h
      | demand test fault =>
          simp only [perform]
          split
          · exact hsame rfl
          · exact hsame rfl
      | require kind fault next =>
          simp only [perform]
          split
          · rename_i hk
            exact ⟨_, p.passes_advance (by rw [hk]; exact h.1)⟩
          · exact hsame rfl
      | nest inner =>
          simp only [perform]
          split
          · exact hsame rfl
          · exact hsame rfl

/-- So does a whole run, errors or not. -/
theorem Moment.Reaches.passes {c d : Moment} (h : c.Reaches d) (hc : c.Guarded) :
    ∃ u, c.pass.Passes u d.pass := by
  have hall := h.preserves (fun d => d.Guarded ∧ ∃ u, c.pass.Passes u d.pass)
    (fun t ts p hp => ?_) ⟨hc, [], .refl _⟩
  · exact hall.2
  · obtain ⟨hguard, u, hu⟩ := hp
    obtain ⟨v, hv⟩ := Task.passes_perform hguard.1
    exact ⟨guarded_perform hguard, u ++ v, hu.trans hv⟩

namespace Pass

/-- A run over a stream ends at the first end mark at the latest. -/
theorem index_le_firstEnd (s : Stream) (limit : Int) :
    (ofStream s limit).cursor.index ≤ s.firstEnd := by
  obtain ⟨u, hu⟩ := (reaches_ofStream s limit).passes (Moment.guarded_start s limit)
  have hword : s.word = u ++ (ofStream s limit).word := hu.word
  have hindex : (ofStream s limit).cursor.index = 0 + u.length := hu.index
  rw [hindex, Nat.zero_add, ← s.length_word, hword, List.length_append]
  exact Nat.le_add_right _ _

/-- The run over the stream that is cut off behind its first end mark is a twin. -/
theorem twin_upToEnd (s : Stream) (limit : Int) :
    (ofStream s limit).Twin s.firstEnd (ofStream s.upToEnd limit) := by
  have hagree : s.upToEnd.toList.take (s.firstEnd + 1) = s.toList.take (s.firstEnd + 1) := by
    rw [s.toList_upToEnd, List.take_take, Nat.min_self]
  obtain ⟨q, hreach, htwin⟩ := (reaches_ofStream s limit).lockstep (Twin s.firstEnd)
    (fun q => q.cursor.index ≤ s.firstEnd) (Moment.guarded_start s limit)
    (fun t q hq => Nat.le_trans (t.extends_perform q).index_le hq)
    (fun t q q' hguard => Task.twin_perform hguard)
    (twin_start limit hagree) (index_le_firstEnd s limit)
  rwa [Moment.Reaches.end_unique (reaches_ofStream s.upToEnd limit) hreach]

/-- No run gets past the first end mark of its stream. It ends there or before,
and with the same outcome, errors, notices and cursor as a run over the stream
that is cut off right after this end mark. -/
theorem first_end_ends (s : Stream) (limit : Int) :
    let whole := ofStream s limit
    let part := ofStream s.upToEnd limit
    s.upToEnd.toList = s.toList.take (s.firstEnd + 1) ∧
      whole.cursor.index ≤ s.firstEnd ∧
      whole.verdict? = part.verdict? ∧ whole.errors = part.errors ∧
      whole.notices = part.notices ∧
      (whole.cursor.index = part.cursor.index ∧ whole.cursor.current = part.cursor.current) := by
  intro whole part
  have hindex : whole.cursor.index ≤ s.firstEnd := index_le_firstEnd s limit
  have htwin : whole.Twin s.firstEnd part := twin_upToEnd s limit
  refine ⟨s.toList_upToEnd, hindex, ?_, ?_, ?_, htwin.cursor.index_eq.symm,
    (htwin.cursor.current_eq hindex).symm⟩
  · rw [htwin.rest]
  · rw [htwin.rest]
    rfl
  · rw [htwin.rest]
    rfl

end Pass

end SwitchScript
