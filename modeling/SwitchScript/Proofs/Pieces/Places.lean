import SwitchScript.Proofs.Pieces.Findings
import SwitchScript.Token.Cursor

/-!
# Places are exact

A scan keeps a line and a column and moves them on from piece to piece. What
they should be is a matter of the script alone: it has lines, and a token stands
somewhere in one of them. Here the two are compared.

Three facts make up the comparison. Places only grow, as each piece is longer
than nothing (`Findings.places_chain`). The line breaks, and the end of the
script, are where the lines end, as every line feed is a piece of its own and
yields a token (`Findings.newlines_append_stop`). And from the place of a token
the line can be found and the characters before it in that line counted off
(`exists_line`), so the token can be seen to be there.
-/

namespace SwitchScript

/-! ## Places only grow -/

/-- One place comes before another in a script. -/
def Position.Before (p q : Position) : Prop :=
  p.line < q.line ∨ p.line = q.line ∧ p.column < q.column

namespace Position

theorem Before.trans {p q r : Position} (h : p.Before q) (h' : q.Before r) : p.Before r := by
  unfold Before at *
  omega

instance : Trans Before Before Before := ⟨Before.trans⟩

theorem before_right {n : Nat} (h : 0 < n) (p : Position) : p.Before (p.right n) :=
  .inr ⟨rfl, Int.lt_add_of_pos_right p.column (Int.natCast_pos.mpr h)⟩

theorem before_nextLine (p : Position) : p.Before p.nextLine :=
  .inl (Int.lt_succ p.line)

theorem before_past {text : List Char} (h : text ≠ []) (p : Position) : p.Before (p.past text) := by
  induction text generalizing p with
  | nil => exact absurd rfl h
  | cons c text ih =>
      have hstep : p.Before (if c = '\n' then p.nextLine else p.right 1) := by
        split
        · exact p.before_nextLine
        · exact p.before_right Nat.one_pos
      by_cases htext : text = []
      · rw [htext]
        exact hstep
      · exact hstep.trans (ih htext _)

end Position

theorem map_filterMap_sublist {α β γ : Type} {f : α → Option β} {g : β → γ} {h : α → γ}
    (hfg : ∀ a, ∀ b ∈ f a, g b = h a) (xs : List α) :
    ((xs.filterMap f).map g).Sublist (xs.map h) := by
  induction xs with
  | nil => exact .slnil
  | cons a xs ih =>
      cases hfa : f a with
      | none =>
          rw [List.filterMap_cons_none hfa]
          exact ih.cons _
      | some b =>
          rw [List.filterMap_cons_some hfa, List.map_cons, hfg a b hfa]
          exact ih.cons_cons _

namespace Findings

/-- The places of the pieces of a text that starts after a place, and where it
stops. -/
theorem places_chain {p₀ p : Position} (h : p₀.Before p) (cs : List Char) :
    List.IsChain Position.Before
      (p₀ :: ((Piece.locate p (Piece.ofText cs)).map Prod.fst ++
        [Piece.stopAt p (Piece.ofText cs)])) := by
  -- the place before is part of the chain, so that the rest can be linked to its piece
  induction cs using Piece.cut_induction generalizing p₀ p with
  | nil => exact .cons_cons h (.singleton p)
  | cons c rest ih =>
      rw [Piece.ofText_cons, Piece.locate, Piece.stopAt, Piece.next_source]
      exact .cons_cons h (ih (p.before_past (Piece.cut_source_ne_nil c rest)))

theorem pairwise_places (p : Position) (cs : List Char) :
    ((Piece.locate p (Piece.ofText cs)).map Prod.fst ++
      [Piece.stopAt p (Piece.ofText cs)]).Pairwise Position.Before := by
  have hbefore : Position.Before ⟨p.line - 1, 0⟩ p := .inl (Int.sub_lt_self p.line Int.one_pos)
  exact (List.isChain_iff_pairwise.mp (places_chain hbefore cs)).of_cons

theorem pairwise_tokens (p : Position) (cs : List Char) :
    ((ofText p cs).closed.map (·.position)).Pairwise Position.Before := by
  rw [closed, List.map_append]
  refine (pairwise_places p cs).sublist (.append (map_filterMap_sublist ?_ _) (.refl _))
  rintro ⟨q, x⟩ t ht
  rw [← Piece.tokenAt?_yield] at ht
  obtain ⟨_, -, rfl⟩ := Option.map_eq_some_iff.mp ht
  rfl

theorem pairwise_errors (p : Position) (cs : List Char) :
    ((ofText p cs).errors.map (·.position)).Pairwise Position.Before := by
  refine (pairwise_places p cs).sublist
    ((map_filterMap_sublist ?_ _).trans (List.sublist_append_left _ _))
  rintro ⟨q, x⟩ e he
  obtain ⟨fault, -, rfl⟩ := Option.map_eq_some_iff.mp he
  rfl

end Findings

/-! ## Lines end where line breaks are -/

/-- The lines of a script. -/
def lines (source : String) : List (List Char) := source.toList.splitOn '\n'

theorem lines_ne_nil (source : String) : lines source ≠ [] := List.splitOn_ne_nil _ _

theorem modifyHead_nil_append (lines : List (List Char)) : lines.modifyHead ([] ++ ·) = lines := by
  cases lines with
  | nil => rfl
  | cons line lines => rfl

theorem splitOn_lineFeed (rest : List Char) :
    ('\n' :: rest).splitOn '\n' = [] :: rest.splitOn '\n' :=
  List.splitOn_append_cons_self [] rest

theorem splitOn_append_of_notMem {text : List Char} (h : '\n' ∉ text) (rest : List Char) :
    (text ++ rest).splitOn '\n' = (rest.splitOn '\n').modifyHead (text ++ ·) := by
  induction text with
  | nil => rw [List.nil_append, modifyHead_nil_append]
  | cons c text ih =>
      have hc : ¬ (c == '\n') = true := by simpa using (List.ne_of_not_mem_cons h).symm
      rw [List.cons_append, List.splitOn_cons_eq_if_modifyHead, if_neg hc,
        ih (List.not_mem_of_not_mem_cons h), List.modifyHead_modifyHead]
      rfl

theorem length_splitOn (cs : List Char) : (cs.splitOn '\n').length = cs.count '\n' + 1 := by
  induction cs with
  | nil => rfl
  | cons c cs ih =>
      rw [List.splitOn_cons_eq_if_modifyHead, List.count_cons]
      split
      · rw [List.length_cons, ih]
      · rw [List.length_modifyHead, ih, Nat.add_zero]

/-- The places right after the lines, if the first one starts at this place. -/
def lineEnds (p : Position) : List (List Char) → List Position
  | [] => []
  | line :: lines => p.right line.length :: lineEnds p.nextLine lines

theorem lineEnds_modifyHead (p : Position) (text : List Char) (lines : List (List Char)) :
    lineEnds p (lines.modifyHead (text ++ ·)) = lineEnds (p.right text.length) lines := by
  cases lines with
  | nil => rfl
  | cons line lines =>
      rw [List.modifyHead_cons, lineEnds, lineEnds, Position.right_right, List.length_append,
        Position.nextLine_right]

theorem lineEnds_eq_mapIdx (n : Nat) (lines : List (List Char)) :
    lineEnds ⟨n + 1, 1⟩ lines =
      lines.mapIdx fun k line => ⟨(n + k : Nat) + 1, line.length + 1⟩ := by
  induction lines generalizing n with
  | nil => rfl
  | cons line lines ih =>
      have hline : (⟨n + 1, 1⟩ : Position).nextLine = ⟨(n + 1 : Nat) + 1, 1⟩ := rfl
      rw [List.mapIdx_cons, lineEnds, hline, ih]
      simp only [Position.right, Nat.add_zero, Int.add_comm 1, Nat.add_assoc, Nat.add_comm 1]

/-! ## What a token shows -/

/-- A token of this kind has its value at the beginning of a text. The value of a
quoted text comes right after its mark. -/
def Shows (k : Kind) (value text : List Char) : Prop :=
  if k = .string then ∃ mark, isQuote mark = true ∧ mark :: value <+: text else value <+: text

theorem Shows.append {k : Kind} {value text : List Char} (h : Shows k value text)
    (rest : List Char) : Shows k value (text ++ rest) := by
  unfold Shows at *
  split at h
  · next hk =>
      obtain ⟨mark, hmark, hbegins⟩ := h
      rw [if_pos hk]
      exact ⟨mark, hmark, hbegins.trans (List.prefix_append text rest)⟩
  · next hk =>
      rw [if_neg hk]
      exact h.trans (List.prefix_append text rest)

theorem Shows.subset {k : Kind} {value text : List Char} (h : Shows k value text) :
    value ⊆ text := by
  unfold Shows at h
  split at h
  · obtain ⟨mark, -, hbegins⟩ := h
    exact fun c hc => hbegins.subset (List.mem_cons_of_mem mark hc)
  · exact h.subset

theorem shows_of_isVerbatim {k : Kind} (hk : k.isVerbatim = true) {value text : List Char}
    (h : value <+: text) : k ≠ .newline ∧ k ≠ .eof ∧ Shows k value text := by
  refine ⟨?_, ?_, ?_⟩
  · rintro rfl
    exact absurd hk (by decide)
  · rintro rfl
    exact absurd hk (by decide)
  · rw [Shows, if_neg]
    · exact h
    · rintro rfl
      exact absurd hk (by decide)

theorem shows_of_isQuote {mark : Char} (hmark : isQuote mark = true) {value text : List Char}
    (h : mark :: value <+: text) :
    Kind.string ≠ .newline ∧ Kind.string ≠ .eof ∧ Shows .string value text :=
  ⟨by decide, by decide, mark, hmark, h⟩

/-- A piece is a line break, or it stays on its line and its token shows a part
of it. -/
theorem Munch.token_cases {text rest : List Char} {y : Yield} (h : Munch text rest y) :
    text = ['\n'] ∧ y = ⟨some (.newline, "\\n"), none⟩ ∨
      '\n' ∉ text ∧ ∀ t ∈ y.token?, t.1 ≠ .newline ∧ t.1 ≠ .eof ∧ Shows t.1 t.2.toList text := by
  rcases h.lineFeed with rfl | hline
  · exact .inl ⟨rfl, (h.unique .lineBreak rfl).2.2⟩
  refine .inr ⟨hline, fun t ht => ?_⟩
  cases h with
  | comment | blank | stray => exact absurd ht (Option.not_mem_none t)
  | lineBreak => exact absurd List.mem_cons_self hline
  | number _ _ hnumeral =>
      obtain rfl := Option.some.inj ht
      refine shows_of_isVerbatim ?_ (by simpa using hnumeral.begins)
      dsimp only
      split <;> rfl
  | closed hmark | unclosed hmark =>
      obtain rfl := Option.some.inj ht
      exact shows_of_isQuote hmark (by simp)
  | word _ _ hkind =>
      obtain rfl := Option.some.inj ht
      exact shows_of_isVerbatim hkind.isVerbatim (by simp)
  | operator hentry _ =>
      obtain rfl := Option.some.inj ht
      exact shows_of_isVerbatim (Kind.isVerbatim_of_mem_operators hentry) (by simp)

namespace Findings

/-- The places of the line breaks, and the place where the script ends. -/
theorem newlines_append_stop (p : Position) (cs : List Char) :
    ((ofText p cs).tokens.filter Token.isNewline).map (·.position) ++ [(ofText p cs).stop] =
      lineEnds p (cs.splitOn '\n') := by
  induction cs using Munch.induction generalizing p with
  | nil => simp [lineEnds]
  | @piece text rest y h ih =>
      rw [ofText_munch h]
      rcases h.token_cases with ⟨rfl, rfl⟩ | ⟨hline, hy⟩
      · rw [List.singleton_append, splitOn_lineFeed, lineEnds, ← ih, List.length_nil,
          Position.right_zero]
        rfl
      · have hnone : (y.tokenAt? p).toList.filter Token.isNewline = [] := by
          unfold Yield.tokenAt?
          cases ht : y.token? with
          | none => rfl
          | some t => simp [Token.isNewline, (hy t ht).1]
        rw [splitOn_append_of_notMem hline, lineEnds_modifyHead, ← ih,
          ← Position.past_of_notMem hline, prepend, List.filter_append, hnone, List.nil_append]

/-- A token was cut off somewhere. -/
theorem exists_of_mem_tokens {p : Position} {cs : List Char} {t : Token}
    (h : t ∈ (ofText p cs).tokens) :
    ∃ before text rest y, cs = before ++ (text ++ rest) ∧ Munch text rest y ∧
      y.tokenAt? (p.past before) = some t := by
  induction cs using Munch.induction generalizing p with
  | nil => exact absurd h List.not_mem_nil
  | @piece text rest y hmunch ih =>
      rw [ofText_munch hmunch] at h
      rcases List.mem_append.mp h with h | h
      · exact ⟨[], text, rest, y, rfl, hmunch, Option.mem_toList.mp h⟩
      · obtain ⟨before, text', rest', y', rfl, hmunch', ht⟩ := ih h
        refine ⟨text ++ before, text', rest', y', (List.append_assoc _ _ _).symm, hmunch', ?_⟩
        rw [Position.past_append]
        exact ht

theorem kind_ne_eof {p : Position} {cs : List Char} {t : Token} (h : t ∈ (ofText p cs).tokens) :
    t.kind ≠ .eof := by
  obtain ⟨before, text, rest, y, -, hmunch, ht⟩ := exists_of_mem_tokens h
  obtain ⟨x, hx, rfl⟩ := Option.map_eq_some_iff.mp ht
  rcases hmunch.token_cases with ⟨-, rfl⟩ | ⟨-, hy⟩
  · obtain rfl := Option.some.inj hx
    exact Kind.noConfusion
  · exact (hy x hx).2.1

end Findings

/-! ## From a place to its line -/

/-- The place after a text tells which line it is in and what of this line is
before it. -/
theorem exists_line (before after : List Char) :
    ∃ k front, Position.origin.past before = ⟨(k : Nat) + 1, (front : List Char).length + 1⟩ ∧
      ((before ++ after).splitOn '\n').drop k = (after.splitOn '\n').modifyHead (front ++ ·) := by
  -- from the end, as it is the last line feed that counts
  induction before using List.reverseRecOn generalizing after with
  | nil => exact ⟨0, [], rfl, (modifyHead_nil_append _).symm⟩
  | append_singleton before c ih =>
      obtain ⟨k, front, hplace, hlines⟩ := ih (c :: after)
      rw [Position.past_append, hplace, List.append_assoc, List.singleton_append]
      by_cases hc : c = '\n'
      · subst hc
        rw [splitOn_lineFeed, List.modifyHead_cons] at hlines
        refine ⟨k + 1, [], rfl, ?_⟩
        rw [modifyHead_nil_append, ← List.drop_drop, hlines]
        rfl
      · have hline : '\n' ∉ [c] := fun hmem => hc (List.mem_singleton.mp hmem).symm
        have hsplit := splitOn_append_of_notMem hline after
        rw [List.singleton_append] at hsplit
        refine ⟨k, front ++ [c], ?_, ?_⟩
        · rw [Position.past_of_notMem hline, List.length_append]
          simp [Position.right]
        · rw [hlines, hsplit, List.modifyHead_modifyHead]
          simp only [Function.comp_def, List.append_assoc]

/-- What a token shows can be seen at its place in its line. -/
theorem Findings.exists_line {cs : List Char} {t : Token}
    (h : t ∈ (ofText .origin cs).tokens) (hk : t.kind ≠ .newline) :
    '\n' ∉ t.text.toList ∧ ∃ (k c : Nat) (line : List Char), (cs.splitOn '\n')[k]? = some line ∧
      t.position = ⟨k + 1, c + 1⟩ ∧ Shows t.kind t.text.toList (line.drop c) := by
  obtain ⟨before, text, rest, y, rfl, hmunch, ht⟩ := exists_of_mem_tokens h
  obtain ⟨x, hx, rfl⟩ := Option.map_eq_some_iff.mp ht
  rcases hmunch.token_cases with ⟨-, rfl⟩ | ⟨hline, hy⟩
  · obtain rfl := Option.some.inj hx
    exact absurd rfl hk
  obtain ⟨-, -, hshows⟩ := hy x hx
  obtain ⟨k, front, hplace, hlines⟩ := SwitchScript.exists_line before (text ++ rest)
  obtain ⟨line, lines, hrest⟩ := List.exists_cons_of_ne_nil (List.splitOn_ne_nil '\n' rest)
  rw [splitOn_append_of_notMem hline, hrest, List.modifyHead_cons, List.modifyHead_cons] at hlines
  refine ⟨fun hmem => hline (hshows.subset hmem), k, front.length, front ++ (text ++ line), ?_,
    hplace, ?_⟩
  · rw [← List.head?_drop, hlines, List.head?_cons]
  · rw [List.drop_left]
    exact hshows.append line

/-! ## The places of a scan -/

theorem length_lines (source : String) :
    (lines source).length = (lines source).dropLast.length + 1 := by
  have hpos := List.length_pos_iff.mpr (lines_ne_nil source)
  rw [List.length_dropLast]
  omega

/-- Line breaks stand after all lines but the last, and the script ends after
that one. -/
theorem Findings.line_ends (source : String) :
    ((ofText .origin source.toList).tokens.filter Token.isNewline).map (·.position) =
        (lines source).dropLast.mapIdx (fun k line => ⟨(k : Nat) + 1, line.length + 1⟩) ∧
      (ofText .origin source.toList).stop =
        ⟨(lines source).length, ((lines source).getLast (lines_ne_nil source)).length + 1⟩ := by
  have hends := newlines_append_stop .origin source.toList
  have hlines := List.dropLast_append_getLast (lines_ne_nil source)
  have hplaces : lineEnds .origin (source.toList.splitOn '\n') =
      (lines source).mapIdx fun k line => ⟨(k : Nat) + 1, line.length + 1⟩ := by
    have h := lineEnds_eq_mapIdx 0 (lines source)
    simp only [Nat.zero_add] at h
    exact h
  rw [hplaces, ← hlines, List.mapIdx_concat] at hends
  obtain ⟨hnewlines, hstop⟩ := List.append_inj' hends rfl
  refine ⟨hnewlines, (List.cons.inj hstop).1.trans ?_⟩
  rw [length_lines]
  rfl

theorem Findings.filter_closed (f : Findings) :
    f.closed.filter Token.isNewline = f.tokens.filter Token.isNewline := by
  rw [closed, List.filter_append]
  exact List.append_nil _

namespace Scan

/-- Places are exact, and no line break is lost. A scan ends in one end mark,
which stands after the last line, and has one line break for each line feed,
which stands after its line. Every other token is on one line, and its value
can be read there at the column of the token, or right after the quotation mark
at that column. The places of the tokens only grow, and so do those of the
errors. -/
theorem places_exact (source : String) :
    (∃ front, (ofSource source).tokens =
        front ++ [⟨⟨"", ⟨(lines source).length,
          ((lines source).getLast (lines_ne_nil source)).length + 1⟩⟩, .eof⟩] ∧
      ∀ t ∈ front, t.kind ≠ .eof) ∧
    ((ofSource source).tokens.countP Token.isNewline = source.toList.count '\n' ∧
      ((ofSource source).tokens.filter Token.isNewline).map (·.position) =
        (lines source).dropLast.mapIdx fun k line => ⟨(k : Nat) + 1, line.length + 1⟩) ∧
    (∀ t ∈ (ofSource source).tokens, t.kind ≠ .newline → t.kind ≠ .eof →
      '\n' ∉ t.text.toList ∧
        ∃ (k c : Nat) (line : List Char), (lines source)[k]? = some line ∧
          t.position = ⟨k + 1, c + 1⟩ ∧ Shows t.kind t.text.toList (line.drop c)) ∧
    ((ofSource source).tokens.map (·.position)).Pairwise Position.Before ∧
    ((ofSource source).errors.map (·.position)).Pairwise Position.Before := by
  rw [Findings.tokens_ofSource, Findings.errors_ofSource]
  obtain ⟨hnewlines, hstop⟩ := Findings.line_ends source
  refine ⟨⟨(Findings.ofText .origin source.toList).tokens, ?_, fun t ht => Findings.kind_ne_eof ht⟩,
    ⟨?_, ?_⟩, fun t ht hnewline heof => ?_,
    Findings.pairwise_tokens _ _, Findings.pairwise_errors _ _⟩
  · rw [Findings.closed, hstop]
    rfl
  · have hlength := congrArg List.length hnewlines
    rw [List.length_map, List.length_mapIdx] at hlength
    have hcount := length_splitOn source.toList
    rw [List.countP_eq_length_filter, Findings.filter_closed, hlength]
    exact Nat.succ.inj ((length_lines source).symm.trans hcount)
  · rw [Findings.filter_closed, hnewlines]
  · rcases List.mem_append.mp ht with ht | ht
    · exact Findings.exists_line ht hnewline
    · rw [List.mem_singleton.mp ht] at heof
      exact absurd rfl heof

/-- A quoted text without its closing mark, and a line after it. -/
def openQuote : String := "x = 'a\n12"

theorem places_exact_openQuote :
    (⟨⟨"a", ⟨1, 5⟩⟩, .string⟩ : Token) ∈ (ofSource openQuote).tokens ∧
      ∃ (k c : Nat) (line : List Char), (lines openQuote)[k]? = some line ∧
        (⟨1, 5⟩ : Position) = ⟨k + 1, c + 1⟩ ∧ Shows .string "a".toList (line.drop c) := by
  have hmem : (⟨⟨"a", ⟨1, 5⟩⟩, .string⟩ : Token) ∈ (ofSource openQuote).tokens := by
    decide +kernel
  exact ⟨hmem, ((places_exact openQuote).2.2.1 _ hmem (by decide) (by decide)).2⟩

end Scan

end SwitchScript
