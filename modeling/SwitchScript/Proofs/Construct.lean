import Mathlib.Data.List.Infix
import SwitchScript.Proofs.Sequel

/-!
# What comes after a construct that is not analysed

A construct that is not analysed hides nothing but itself. If analysis resumes
behind it, at a switch or at an identifier that starts a line, then a run goes
on from there as if the script had started there, and all that is left of the
construct is the notice about it (`construct_free`).

`Encloses` says in counts of brackets what a construct holds, and
`Encloses.skipped` that it is then the one that the run steps over. Behind it
the run is alike to one over the rest of the script but for the index and for
the notice. The index is dealt with as for any script in front of another one.
As for the notice, remarks are written and never read: taking those made before
away from a state changes nothing in what a run does from it
(`Moment.Reaches.forgetting`).
-/

namespace SwitchScript

/-! ## What a construct holds -/

/-- As many braces and parentheses are opened as are closed. -/
structure Level (ks : List Kind) : Prop where
  braces : ks.count .lbrace = ks.count .rbrace
  parens : ks.count .lparen = ks.count .rparen

/-- Outside all brackets, analysis resumes at a token of this kind after these. -/
def Resumes (before : List Kind) (k : Kind) : Prop :=
  k = .kwSwitch ∨ k = .identifier ∧ before.getLast? = some .newline

/-- After the keyword of a construct that is not analysed come the kinds inside
it, and then the one at which analysis resumes. No brace is closed that was not
opened inside, and there is no token before at which analysis could resume. -/
structure Encloses (keyword : Kind) (inside : List Kind) (next : Kind) : Prop where
  opens : keyword.opensIgnored = true
  endless : .eof ∉ inside
  braces : ∀ front, front <+: inside → front.count .rbrace ≤ front.count .lbrace
  goesOn : ∀ i (h : i < inside.length), Level (inside.take i) →
    ¬ Resumes (keyword :: inside.take i) inside[i]
  level : Level inside
  resumes : Resumes (keyword :: inside) next

instance (ks : List Kind) : Decidable (Level ks) :=
  decidable_of_iff (ks.count .lbrace = ks.count .rbrace ∧ ks.count .lparen = ks.count .rparen)
    ⟨fun ⟨hbraces, hparens⟩ => ⟨hbraces, hparens⟩, fun h => ⟨h.braces, h.parens⟩⟩

instance (before : List Kind) (k : Kind) : Decidable (Resumes before k) :=
  inferInstanceAs (Decidable (_ ∨ _ ∧ _))

instance (keyword : Kind) (inside : List Kind) (next : Kind) :
    Decidable (Encloses keyword inside next) :=
  decidable_of_iff
    (keyword.opensIgnored = true ∧ .eof ∉ inside ∧
      (∀ front ∈ inside.inits, front.count .rbrace ≤ front.count .lbrace) ∧
      (∀ i (h : i < inside.length), Level (inside.take i) →
        ¬ Resumes (keyword :: inside.take i) inside[i]) ∧
      Level inside ∧ Resumes (keyword :: inside) next)
    ⟨fun ⟨hopens, hendless, hbraces, hgoesOn, hlevel, hresumes⟩ =>
        ⟨hopens, hendless, fun front h => hbraces front ((List.mem_inits _ _).mpr h), hgoesOn,
          hlevel, hresumes⟩,
      fun h => ⟨h.opens, h.endless,
        fun front hfront => h.braces front ((List.mem_inits _ _).mp hfront), h.goesOn, h.level,
        h.resumes⟩⟩

theorem Resumes.level_append {before : List Kind} {k : Kind} (h : Resumes before k)
    (ks : List Kind) : Level (ks ++ [k]) ↔ Level ks := by
  have hcount (bracket : Kind) (hne : k ≠ bracket) :
      (ks ++ [k]).count bracket = ks.count bracket := by
    rw [List.count_append, List.count_singleton, if_neg (by simpa using hne), Nat.add_zero]
  have hsame (hlbrace : k ≠ .lbrace) (hrbrace : k ≠ .rbrace) (hlparen : k ≠ .lparen)
      (hrparen : k ≠ .rparen) : Level (ks ++ [k]) ↔ Level ks := by
    constructor
    · rintro ⟨hbraces, hparens⟩
      rw [hcount _ hlbrace, hcount _ hrbrace] at hbraces
      rw [hcount _ hlparen, hcount _ hrparen] at hparens
      exact ⟨hbraces, hparens⟩
    · rintro ⟨hbraces, hparens⟩
      refine ⟨?_, ?_⟩
      · rw [hcount _ hlbrace, hcount _ hrbrace, hbraces]
      · rw [hcount _ hlparen, hcount _ hrparen, hparens]
  rcases h with rfl | ⟨rfl, -⟩
  · exact hsame (by decide) (by decide) (by decide) (by decide)
  · exact hsame (by decide) (by decide) (by decide) (by decide)

/-- Where a construct may end, told by the tokens up to there. -/
theorem endsAt_append_cons (keyword k : Kind) (inside rest : List Kind) :
    EndsAt ((keyword :: inside) ++ k :: rest) (inside.length + 1) ↔
      k = .eof ∨ (inside ++ [k]).count .lbrace < (inside ++ [k]).count .rbrace ∨
        Level (inside ++ [k]) ∧ Resumes (keyword :: inside) k := by
  have htake : (((keyword :: inside) ++ k :: rest).take (inside.length + 1 + 1)).tail =
      inside ++ [k] := by
    rw [List.cons_append, List.take_succ_cons, List.tail_cons, List.take_length_add_append]
    rfl
  have hget : ((keyword :: inside) ++ k :: rest)[inside.length + 1]? = some k := by
    rw [← List.length_cons (a := keyword), List.getElem?_append_right (Nat.le_refl _), Nat.sub_self]
    rfl
  have hlast : ((keyword :: inside) ++ k :: rest)[inside.length + 1 - 1]? =
      (keyword :: inside).getLast? := by
    rw [List.getLast?_eq_getElem?, List.length_cons, Nat.add_sub_cancel,
      List.getElem?_append_left (Nat.lt_succ_self _)]
  rw [EndsAt, htake, hlast, List.getD_eq_getElem?_getD, hget, Option.getD_some, Option.some.injEq,
    Option.some.injEq]
  refine or_congr Iff.rfl (or_congr Iff.rfl ?_)
  constructor
  · rintro ⟨hbraces, hparens, hresumes⟩
    exact ⟨⟨hbraces, hparens⟩, hresumes⟩
  · rintro ⟨⟨hbraces, hparens⟩, hresumes⟩
    exact ⟨hbraces, hparens, hresumes⟩

/-- What a construct holds is what is stepped over. -/
theorem Encloses.skipped {keyword next : Kind} {inside : List Kind}
    (h : Encloses keyword inside next) (rest : List Kind) :
    Skipped (keyword :: inside) (next :: rest) where
  opens := h.opens
  ends := (endsAt_append_cons _ _ _ _).mpr
    (.inr (.inr ⟨(h.resumes.level_append inside).mpr h.level, h.resumes⟩))
  least := by
    intro j hpos hlt
    obtain ⟨i, rfl⟩ : ∃ i, j = i + 1 := ⟨j - 1, by omega⟩
    have hi : i < inside.length := Nat.lt_of_succ_lt_succ hlt
    have hsplit : inside.take i ++ inside[i] :: inside.drop (i + 1) = inside := by
      rw [List.getElem_cons_drop, List.take_append_drop]
    have hfront : (inside.take i).length = i := List.length_take_of_le hi.le
    have hwhole : keyword :: inside ++ next :: rest =
        (keyword :: inside.take i) ++ inside[i] :: (inside.drop (i + 1) ++ next :: rest) := by
      refine (congrArg (keyword :: · ++ next :: rest) hsplit.symm).trans ?_
      rw [List.cons_append, List.cons_append, List.append_assoc, List.cons_append]
    have hends := endsAt_append_cons keyword inside[i] (inside.take i)
      (inside.drop (i + 1) ++ next :: rest)
    rw [hfront, ← hwhole] at hends
    rw [hends]
    rintro (heof | hbraces | ⟨hlevel, hresumes⟩)
    · exact h.endless (heof ▸ List.getElem_mem hi)
    · have hle := h.braces (inside.take i ++ [inside[i]])
        ⟨inside.drop (i + 1), by rw [List.append_assoc, List.singleton_append, hsplit]⟩
      omega
    · exact h.goesOn i hi ((hresumes.level_append _).mp hlevel) hresumes

/-! ## Remarks are not read -/

namespace Pass

/-- The same state with these remarks made before all others. -/
def recalling (old : List Diagnostic) (p : Pass) : Pass :=
  { p with diagnostics := p.diagnostics ++ old }

variable {old : List Diagnostic} {p : Pass}

theorem errors_recalling :
    (p.recalling old).errors = (old.filter Diagnostic.isError).reverse ++ p.errors := by
  rw [errors, recalling, List.filter_append, List.reverse_append, errors]

theorem notices_recalling :
    (p.recalling old).notices = (old.filter fun d => !d.isError).reverse ++ p.notices := by
  rw [notices, recalling, List.filter_append, List.reverse_append, notices]

end Pass

/-- A task does the same whatever remarks were made before. -/
theorem Task.perform_recalling (t : Task) (old : List Diagnostic) (p : Pass) :
    (t.perform (p.recalling old)).1 = (t.perform p).1 ∧
      (t.perform (p.recalling old)).2 = (t.perform p).2.recalling old := by
  have hkind : (p.recalling old).kind = p.kind := rfl
  cases t with
  | leave | settle => exact ⟨rfl, rfl⟩
  | make m =>
      cases m with
      | demand test fault =>
          simp only [perform, hkind]
          split
          · exact ⟨trivial, rfl⟩
          · exact ⟨trivial, rfl⟩
      | require kind fault next =>
          simp only [perform, hkind]
          split
          · exact ⟨rfl, rfl⟩
          · exact ⟨rfl, rfl⟩
      | skipConstruct =>
          have hvalid : (p.recalling old).valid = p.valid := rfl
          simp only [perform, Pass.skipConstruct_eq, hvalid]
          split
          · exact ⟨trivial, rfl⟩
          · exact ⟨trivial, rfl⟩
      | nest inner =>
          have hguard : (p.recalling old).depth ≥ (p.recalling old).limit ↔ p.depth ≥ p.limit :=
            Iff.rfl
          simp only [perform, hguard]
          split
          · exact ⟨rfl, rfl⟩
          · exact ⟨rfl, rfl⟩
      | _ => exact ⟨rfl, rfl⟩

/-- A run goes the same way without the remarks made before it. -/
theorem Moment.Reaches.forgetting {ts : List Task} {old : List Diagnostic} {p q : Pass}
    (h : Reaches ⟨ts, p.recalling old⟩ ⟨[], q⟩) :
    ∃ r, Reaches ⟨ts, p⟩ ⟨[], r⟩ ∧ q = r.recalling old := by
  refine h.alongside (fun _ => True) (fun q r => q = r.recalling old) (fun _ => True) trivial
    (fun _ _ _ _ => trivial) (fun _ _ _ => trivial) ?_ rfl trivial
  rintro t _ _ r - rfl -
  obtain ⟨htodo, hpass⟩ := t.perform_recalling old r
  exact ⟨htodo.symm, hpass⟩

/-! ## From behind the construct -/

open Move

theorem Move.statementAt_of_opensIgnored {k : Kind} (h : k.opensIgnored = true) :
    statementAt k = follow .ignoredConstruct := by
  cases k with
  | kwIf | kwWhile | kwFor | kwDef | kwClass => rfl
  | _ => exact absurd h (by decide)

/-- The first token of a stream is the first one of its word, if it is no end mark. -/
theorem Stream.word_eq_cons {s : Stream} {t : Token} {ts : List Token} (h : s.toList = t :: ts)
    (ht : t.kind ≠ .eof) : ∃ w, s.word = t.kind :: w := by
  cases htokens : s.tokens with
  | nil =>
      rw [toList, htokens, List.nil_append] at h
      obtain ⟨rfl, -⟩ := List.cons.inj h
      exact absurd rfl ht
  | cons t' ts' =>
      rw [toList, htokens, List.cons_append] at h
      obtain ⟨rfl, -⟩ := List.cons.inj h
      refine ⟨(ts'.map Token.kind).takeWhile (· != .eof), ?_⟩
      rw [word, htokens, List.map_cons, List.takeWhile_cons_of_pos (by simpa using ht)]

namespace Pass

variable {p : Pass} {Q : Stream} {keyword next : Token} {inside rest : List Token}

/-- A statement that begins with such a keyword is the whole construct. -/
theorem follow_statement_of_opensIgnored (h : p.kind.opensIgnored = true) :
    p.follow .statement = p.skipConstruct := by
  apply follow_eq_of_makes
  apply Move.makes_follow
  refine Makes.both (q := p) (fun ts => ?_) (makes_peek ?_)
  · apply Moment.Reaches.head
    show Moment.Reaches ⟨ts, p.skipNewlines⟩ _
    rw [skipNewlines_of_kind_ne (Kind.ne_newline_of_test h rfl)]
    exact .refl _
  · rw [statementAt_of_opensIgnored h]
    exact Move.makes_follow fun ts => .head (.refl _)

/-- One round of the loop steps over the construct, and over nothing else. -/
theorem round_construct (hp : p.valid = true) (hk : p.kind.opensIgnored = true) {u : List Kind}
    {k : Kind} {w : List Kind} (hword : p.word = u ++ k :: w) (hskipped : Skipped u (k :: w))
    (hnewline : k ≠ .newline) :
    p.round = p.skipConstruct ∧ p.Passes u p.skipConstruct ∧ p.skipConstruct.word = k :: w := by
  obtain ⟨v, hpass, hv⟩ := p.passes_skipConstruct hp hk
  have hrest : p.skipConstruct.word = k :: w := hv.unique hskipped (hpass.word.symm.trans hword)
  obtain rfl : v = u := by
    have hsplit := hpass.word.symm.trans hword
    rw [hrest] at hsplit
    exact List.append_cancel_right hsplit
  refine ⟨?_, hpass, hrest⟩
  rw [round, follow_statement_of_opensIgnored hk]
  apply skipNewlines_of_kind_ne
  rw [kind_eq_headD_word, hrest]
  exact hnewline

/-- Behind the construct the run comes to a state that, but for the notice, is
alike to the one in which a run over the rest starts. -/
theorem construct_begins (h : Encloses keyword.kind (inside.map Token.kind) next.kind)
    (hQ : Q.toList = next :: rest) (limit : Int) :
    ∃ q, Moment.Reaches
        ⟨[.make .rounds], (start (Q.prepend (keyword :: inside)) limit).skipNewlines⟩
        ⟨[.make .rounds], q.recalling [.notice ⟨0, keyword⟩]⟩ ∧
      (start Q limit).skipNewlines.Alike (Cursor.Offset (inside.length + 1))
        (fun x x' => x' = x.later (inside.length + 1)) q := by
  have hnext : next.kind ≠ .eof ∧ next.kind ≠ .newline := by
    rcases h.resumes with hk | ⟨hk, -⟩
    · rw [hk]
      decide
    · rw [hk]
      decide
  have heof : ∀ t ∈ keyword :: inside, t.kind ≠ .eof := by
    refine List.forall_mem_cons.mpr ⟨ne_eof_of_test h.opens rfl, fun t ht heq => ?_⟩
    exact h.endless (List.mem_map.mpr ⟨t, ht, heq⟩)
  obtain ⟨w, hw⟩ := Stream.word_eq_cons hQ hnext.1
  generalize hp : start (Q.prepend (keyword :: inside)) limit = p
  have hkind : p.kind.opensIgnored = true := by
    rw [← hp]
    exact h.opens
  have hvalid : p.valid = true := by
    rw [← hp]
    rfl
  have hword : p.word = (keyword :: inside).map Token.kind ++ next.kind :: w := by
    rw [← hp, ← hw, ← word_prepend heof]
    rfl
  obtain ⟨hround, hpass, hrest⟩ :=
    round_construct hvalid hkind hword (h.skipped w) hnext.2
  have hgo : (p.valid && p.kind != .eof) = true := by
    rw [hvalid, Bool.true_and, bne_iff_ne]
    exact ne_eof_of_test hkind rfl
  have hreach := reaches_round hgo []
  have hskip : p.skipConstruct = { p.notify with cursor := p.cursor.skipConstruct } := by
    rw [skipConstruct_eq, if_pos hvalid]
  have hdiagnostics : p.skipConstruct.diagnostics = [.notice ⟨0, keyword⟩] := by
    rw [hskip, ← hp]
    rfl
  rw [skipNewlines_of_kind_ne (Kind.ne_newline_of_test hkind rfl)]
  rw [hround] at hreach
  refine ⟨{ p.skipConstruct with diagnostics := [] }, ?_, ?_⟩
  · rw [recalling, List.nil_append, ← hdiagnostics]
    exact hreach
  · have hstream : p.skipConstruct.cursor.stream = Q.prepend (keyword :: inside) := by
      rw [p.extends_skipConstruct.stream_eq, ← hp]
      rfl
    have hlines : p.skipConstruct.word = Q.word.dropWhile (· == .newline) := by
      rw [hrest, hw, dropWhile_newline_cons hnext.2]
    have hstart : (start (Q.prepend (keyword :: inside)) limit).Passes
        ((keyword :: inside).map Token.kind) p.skipConstruct := by
      rw [hp]
      exact hpass
    have hoffset := (offset_of_passes heof hstart hstream hlines).2
    refine ⟨hoffset, ?_, ?_, ?_, .nil⟩
    · rw [hskip]
      exact hvalid
    · rw [hskip, ← hp]
      rfl
    · rw [hskip, ← hp]
      rfl

/-- A construct that is not analysed is transparent to what comes after it. If
analysis resumes behind it, then a run over the construct and the rest of the
script has the verdict and the errors of a run over the rest alone, and its
notices are the one about the keyword, followed by those of the other run. The
remarks and the end of the run are so many tokens later. -/
theorem construct_free (h : Encloses keyword.kind (inside.map Token.kind) next.kind)
    (hQ : Q.toList = next :: rest) (limit : Int) :
    let whole := ofStream (Q.prepend (keyword :: inside)) limit
    let skipped := inside.length + 1
    whole.verdict? = (ofStream Q limit).verdict? ∧
      whole.errors = (ofStream Q limit).errors.map (Diagnostic.later skipped) ∧
      whole.errors.map Diagnostic.describe = (ofStream Q limit).errors.map Diagnostic.describe ∧
      whole.notices = .notice ⟨0, keyword⟩ ::
        (ofStream Q limit).notices.map (Diagnostic.later skipped) ∧
      whole.notices.map Diagnostic.describe = (Diagnostic.notice ⟨0, keyword⟩).describe ::
        (ofStream Q limit).notices.map Diagnostic.describe ∧
      whole.cursor.index = (ofStream Q limit).cursor.index + skipped := by
  intro whole skipped
  obtain ⟨q, hreach, hq⟩ := construct_begins h hQ limit
  obtain ⟨r, hrun, hend⟩ := ((rounds_program _).to_end hreach).forgetting
  have halike := alike_of_reaches (Cursor.Offset.likeness skipped) (start Q limit).rounds_program
    hrun (placed_rounds (start Q limit).kind_skipNewlines_ne) hq
  have herrors : whole.errors = (ofStream Q limit).errors.map (Diagnostic.later skipped) := by
    rw [errors_ofStream, errors_ofStream, hend, errors_recalling]
    exact eq_map_of_forall₂ halike.errors fun _ _ hd => hd.1.eq_later
  have hnotices : whole.notices = .notice ⟨0, keyword⟩ ::
      (ofStream Q limit).notices.map (Diagnostic.later skipped) := by
    rw [notices_ofStream, notices_ofStream, hend, notices_recalling]
    exact congrArg (Diagnostic.notice ⟨0, keyword⟩ :: ·)
      (eq_map_of_forall₂ halike.notices fun _ _ hd => hd.1.eq_later)
  have hdescribe : Diagnostic.describe ∘ Diagnostic.later skipped = Diagnostic.describe :=
    funext (Diagnostic.describe_later _)
  refine ⟨verdict?_congr ?_, herrors, ?_, hnotices, ?_, ?_⟩
  · exact (congrArg List.length herrors).trans (List.length_map _)
  · rw [herrors, List.map_map, hdescribe]
  · rw [hnotices, List.map_cons, List.map_map, hdescribe]
  · rw [cursor_ofStream, cursor_ofStream, hend]
    exact halike.cursor.index

/-- A loop with an assignment in its block, and the line break after it. -/
def blockLoop : List Token :=
  [⟨⟨"while", ⟨1, 1⟩⟩, .kwWhile⟩, ⟨⟨"(", ⟨1, 7⟩⟩, .lparen⟩, ⟨⟨")", ⟨1, 8⟩⟩, .rparen⟩,
    ⟨⟨"\x7b", ⟨1, 10⟩⟩, .lbrace⟩, ⟨⟨"\\n", ⟨1, 11⟩⟩, .newline⟩, ⟨⟨"a", ⟨2, 1⟩⟩, .identifier⟩,
    ⟨⟨"=", ⟨2, 3⟩⟩, .assign⟩, ⟨⟨"\x7d", ⟨2, 5⟩⟩, .rbrace⟩, ⟨⟨"\\n", ⟨2, 6⟩⟩, .newline⟩]

/-- An access, a condition that is not analysed, and a brace that closes nothing. -/
def looseBrace : Stream :=
  ⟨[⟨⟨"x", ⟨3, 1⟩⟩, .identifier⟩, ⟨⟨"if", ⟨3, 3⟩⟩, .kwIf⟩, ⟨⟨"\x7d", ⟨3, 6⟩⟩, .rbrace⟩],
    ⟨"", ⟨3, 7⟩⟩⟩

theorem construct_free_blockLoop :
    Encloses .kwWhile (blockLoop.tail.map Token.kind) .identifier ∧
      looseBrace.toList.head? = some ⟨⟨"x", ⟨3, 1⟩⟩, .identifier⟩ ∧
      (ofStream looseBrace 0).errors = [.error ⟨2, ⟨⟨"\x7d", ⟨3, 6⟩⟩, .rbrace⟩⟩ .unmatchedBrace] ∧
      (ofStream (looseBrace.prepend blockLoop) 0).errors =
        [.error ⟨11, ⟨⟨"\x7d", ⟨3, 6⟩⟩, .rbrace⟩⟩ .unmatchedBrace] ∧
      (ofStream (looseBrace.prepend blockLoop) 0).notices =
        [.notice ⟨0, ⟨⟨"while", ⟨1, 1⟩⟩, .kwWhile⟩⟩, .notice ⟨10, ⟨⟨"if", ⟨3, 3⟩⟩, .kwIf⟩⟩] := by
  have hencloses : Encloses (Token.kind ⟨⟨"while", ⟨1, 1⟩⟩, .kwWhile⟩)
      (blockLoop.tail.map Token.kind) (Token.kind ⟨⟨"x", ⟨3, 1⟩⟩, .identifier⟩) := by decide
  have hnext : looseBrace.toList = ⟨⟨"x", ⟨3, 1⟩⟩, .identifier⟩ :: looseBrace.toList.tail := rfl
  have herrors : (ofStream looseBrace 0).errors =
      [.error ⟨2, ⟨⟨"\x7d", ⟨3, 6⟩⟩, .rbrace⟩⟩ .unmatchedBrace] := by decide +kernel
  have hnotices : (ofStream looseBrace 0).notices =
      [.notice ⟨1, ⟨⟨"if", ⟨3, 3⟩⟩, .kwIf⟩⟩] := by decide +kernel
  obtain ⟨-, hwhole, -, hwhole', -⟩ := construct_free hencloses hnext 0
  rw [herrors] at hwhole
  rw [hnotices] at hwhole'
  exact ⟨hencloses, rfl, herrors, hwhole, hwhole'⟩

end Pass

end SwitchScript
