import SwitchScript.Proofs.Alike

/-!
# Only kinds decide

The text of a token and its place are kept for the remarks about it and for
nothing else. Two streams that have the same kinds in the same order have runs
that do the same at every index (`parallel_program`): cursors at the same index
of such streams are alike, and what they leave behind is the token to be shown.

So the runs agree in their verdict and in the place where they end, and their
remarks correspond one by one (`kinds_decide`). If one stream is the other with
its tokens changed by a function that keeps kinds, then its remarks are those of
the other with their tokens changed by it (`errors_of_map`).
-/

namespace SwitchScript

namespace Cursor

/-- Two cursors stand at the same index of two streams, and the kinds ahead are
the same. -/
structure Parallel (s s' : Stream) (c c' : Cursor) : Prop where
  stream : c.stream = s
  stream' : c'.stream = s'
  index : c'.index = c.index
  kinds : c'.ahead.map Token.kind = c.ahead.map Token.kind

variable {s s' : Stream} {c c' : Cursor}

theorem Parallel.forward (h : Parallel s s' c c') (n : Nat) :
    Parallel s s' (c.forward n) (c'.forward n) where
  stream := (c.stream_forward n).trans h.stream
  stream' := (c'.stream_forward n).trans h.stream'
  index := by
    have hlength := congrArg List.length h.kinds
    rw [List.length_map, List.length_map] at hlength
    rw [index_forward, index_forward, h.index, hlength]
  kinds := by
    show (c'.ahead.drop n).map Token.kind = (c.ahead.drop n).map Token.kind
    rw [List.map_drop, List.map_drop, h.kinds]

end Cursor

/-- Two sites at the same index, each with the token that its stream has there. -/
structure Site.Parallel (s s' : Stream) (x x' : Site) : Prop where
  index : x'.index = x.index
  token : s.toList[x.index]? = some x.token
  token' : s'.toList[x.index]? = some x'.token

theorem Cursor.Parallel.site {s s' : Stream} {c c' : Cursor} (h : Parallel s s' c c') :
    Site.Parallel s s' c.site c'.site where
  index := h.index
  token := by
    rw [← h.stream]
    exact c.getElem?_index
  token' := by
    rw [← h.stream', show c.site.index = c'.index from h.index.symm]
    exact c'.getElem?_index

theorem Cursor.Parallel.likeness (s s' : Stream) :
    Likeness (Parallel s s') (Site.Parallel s s') :=
  .of_forward (fun _ _ h => h.kinds) (fun _ _ h => h.site) fun _ _ n h => h.forward n

/-- Two remarks say the same about the token at the same index, each about that
of its own stream. -/
structure Diagnostic.Corresponds (s s' : Stream) (d d' : Diagnostic) : Prop where
  fault? : d'.fault? = d.fault?
  site : Site.Parallel s s' d.site d'.site

theorem Diagnostic.Like.corresponds {s s' : Stream} {d d' : Diagnostic}
    (h : Like (Site.Parallel s s') d d') : d.Corresponds s s' d' := by
  cases h with
  | error fault hsite => exact ⟨rfl, hsite⟩
  | notice hsite => exact ⟨rfl, hsite⟩

namespace Pass

variable {s s' : Stream}

theorem parallel_program (h : s'.toList.map Token.kind = s.toList.map Token.kind) (limit : Int) :
    ((start s limit).follow .program).Alike (Cursor.Parallel s s') (Site.Parallel s s')
      ((start s' limit).follow .program) := by
  have hkinds : s'.tokens.map Token.kind = s.tokens.map Token.kind := by
    simpa [Stream.toList] using h
  have hstart :
      (start s limit).Alike (Cursor.Parallel s s') (Site.Parallel s s') (start s' limit) :=
    ⟨⟨rfl, rfl, rfl, hkinds⟩, rfl, rfl, rfl, .nil⟩
  have hL := Cursor.Parallel.likeness s s'
  exact alike_program hL (hstart.skipNewlines hL)

theorem errors_correspond (h : s'.toList.map Token.kind = s.toList.map Token.kind) (limit : Int) :
    List.Forall₂ (Diagnostic.Corresponds s s') (ofStream s limit).errors
      (ofStream s' limit).errors := by
  rw [errors_ofStream, errors_ofStream]
  exact (parallel_program h limit).errors.imp fun _ _ hlike => hlike.1.corresponds

theorem notices_correspond (h : s'.toList.map Token.kind = s.toList.map Token.kind)
    (limit : Int) :
    List.Forall₂ (Diagnostic.Corresponds s s') (ofStream s limit).notices
      (ofStream s' limit).notices := by
  rw [notices_ofStream, notices_ofStream]
  exact (parallel_program h limit).notices.imp fun _ _ hlike => hlike.1.corresponds

/-- A run reads nothing but kinds. Over two streams that have the same kinds in
the same order there is the same verdict, the cursor ends at the same index, and
the errors and the notices correspond one by one: with the same message, at the
same index, and about the token that each stream has there. -/
theorem kinds_decide (h : s'.toList.map Token.kind = s.toList.map Token.kind) (limit : Int) :
    (ofStream s' limit).verdict? = (ofStream s limit).verdict? ∧
      (ofStream s' limit).cursor.index = (ofStream s limit).cursor.index ∧
      List.Forall₂ (Diagnostic.Corresponds s s') (ofStream s limit).errors
        (ofStream s' limit).errors ∧
      List.Forall₂ (Diagnostic.Corresponds s s') (ofStream s limit).notices
        (ofStream s' limit).notices := by
  have herrors := errors_correspond h limit
  refine ⟨verdict?_congr herrors.length_eq.symm, ?_, herrors, notices_correspond h limit⟩
  rw [cursor_ofStream, cursor_ofStream]
  exact (parallel_program h limit).cursor.index

/-- A condition that is not analysed, and an assignment of nothing. -/
def emptyAssignment : Stream :=
  ⟨[⟨⟨"if", ⟨1, 1⟩⟩, .kwIf⟩, ⟨⟨"ready", ⟨1, 4⟩⟩, .identifier⟩, ⟨⟨"\\n", ⟨1, 9⟩⟩, .newline⟩,
    ⟨⟨"x", ⟨2, 1⟩⟩, .identifier⟩, ⟨⟨"=", ⟨2, 3⟩⟩, .assign⟩], ⟨"", ⟨2, 4⟩⟩⟩

/-- The same kinds, with nothing else said about the tokens. -/
def bareAssignment : Stream :=
  ⟨emptyAssignment.tokens.map fun t => ⟨⟨"?", .origin⟩, t.kind⟩, ⟨"?", .origin⟩⟩

theorem kinds_decide_emptyAssignment :
    (ofStream emptyAssignment 3).errors =
        [.error ⟨5, ⟨⟨"", ⟨2, 4⟩⟩, .eof⟩⟩ .invalidExpression] ∧
      (ofStream bareAssignment 3).verdict? = (ofStream emptyAssignment 3).verdict? ∧
      List.Forall₂ (Diagnostic.Corresponds emptyAssignment bareAssignment)
        (ofStream emptyAssignment 3).errors (ofStream bareAssignment 3).errors := by
  have hkinds : bareAssignment.toList.map Token.kind = emptyAssignment.toList.map Token.kind := by
    decide
  obtain ⟨hverdict, -, herrors, -⟩ := kinds_decide hkinds 3
  exact ⟨by decide +kernel, hverdict, herrors⟩

end Pass

/-! ## Tokens changed by a function -/

/-- The same remark about a changed token. -/
def Diagnostic.mapToken (f : Token → Token) : Diagnostic → Diagnostic
  | error site fault => error ⟨site.index, f site.token⟩ fault
  | notice site => notice ⟨site.index, f site.token⟩

variable {s s' : Stream} {f : Token → Token}

theorem Site.Parallel.eq_map {x x' : Site} (h : Parallel s s' x x')
    (hs : s'.toList = s.toList.map f) : x' = ⟨x.index, f x.token⟩ := by
  have htoken := h.token'
  rw [hs, List.getElem?_map, h.token, Option.map_some, Option.some.injEq] at htoken
  rw [htoken, ← h.index]

theorem Diagnostic.Corresponds.eq_mapToken {d d' : Diagnostic} (h : d.Corresponds s s' d')
    (hs : s'.toList = s.toList.map f) : d' = d.mapToken f := by
  have hsite := h.site.eq_map hs
  have hfault := h.fault?
  cases d with
  | error site fault =>
      cases d' with
      | error site' fault' =>
          obtain rfl := Option.some.inj hfault
          exact congrArg (Diagnostic.error · _) hsite
      | notice site' => exact absurd hfault (by simp [Diagnostic.fault?])
  | notice site =>
      cases d' with
      | error site' fault' => exact absurd hfault (by simp [Diagnostic.fault?])
      | notice site' => exact congrArg Diagnostic.notice hsite

namespace Pass

variable (hkind : ∀ t ∈ s.toList, (f t).kind = t.kind) (hs : s'.toList = s.toList.map f)

include hkind hs

theorem kinds_of_map : s'.toList.map Token.kind = s.toList.map Token.kind := by
  rw [hs, List.map_map]
  exact List.map_congr_left hkind

theorem errors_of_map (limit : Int) :
    (ofStream s' limit).errors = (ofStream s limit).errors.map (Diagnostic.mapToken f) :=
  eq_map_of_forall₂ (errors_correspond (kinds_of_map hkind hs) limit) fun _ _ hd =>
    hd.eq_mapToken hs

theorem notices_of_map (limit : Int) :
    (ofStream s' limit).notices = (ofStream s limit).notices.map (Diagnostic.mapToken f) :=
  eq_map_of_forall₂ (notices_correspond (kinds_of_map hkind hs) limit) fun _ _ hd =>
    hd.eq_mapToken hs

end Pass

end SwitchScript
