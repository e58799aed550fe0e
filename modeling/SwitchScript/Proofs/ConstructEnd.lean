import Mathlib.Order.Bounds.Basic
import SwitchScript.Proofs.Sequel

/-!
# Where the step over a construct stops

A construct that is not analysed is stepped over by a scan that keeps two
running balances and the kind of the token before. What it looks for can be said
without any of them: the first index at which the tokens behind the keyword have
closed a brace too many, or at which they leave no bracket open and analysis can
resume (`HaltsAt`). That is where the scan stops, whatever token it starts at
and however the brackets are interleaved (`scan_stops`).

`EndsAt` says the same of a word that begins with the keyword, and the agreement
of the balances with the counts is settled there. What is left is to find the
word in the stream (`haltsAt_iff_endsAt`), and to show that the kind which the
scan takes along is that of the token before, from the keyword on
(`Surveys.before`).
-/

namespace SwitchScript

/-- A scan that starts behind index `i` may stop at index `j`: at an end mark,
at a brace that nothing behind `i` has opened, or outside all brackets at a
switch or at an identifier that starts a line. -/
def HaltsAt (ks : List Kind) (i j : Nat) : Prop :=
  let inside := (ks.take (j + 1)).drop (i + 1)
  ks[j]? = some .eof ∨
  inside.count .lbrace < inside.count .rbrace ∨
  (inside.count .lbrace = inside.count .rbrace ∧ inside.count .lparen = inside.count .rparen) ∧
    (ks[j]? = some .kwSwitch ∨ ks[j]? = some .identifier ∧ ks[j - 1]? = some .newline)

/-! ## From the stream to the word -/

theorem exists_append_eof (ks : List Kind) :
    ∃ rest, ks ++ [.eof] = ks.takeWhile (· != .eof) ++ .eof :: rest := by
  induction ks with
  | nil => exact ⟨[], rfl⟩
  | cons k ks ih =>
      by_cases hk : k = .eof
      · exact ⟨ks ++ [.eof], by rw [hk]; rfl⟩
      · obtain ⟨rest, hrest⟩ := ih
        refine ⟨rest, ?_⟩
        rw [List.takeWhile_cons_of_pos (by simpa using hk), List.cons_append, List.cons_append,
          hrest]

/-- Up to the first end mark, only the word counts. -/
theorem endsAt_append_eof {ks : List Kind} {d : Nat}
    (hd : d ≤ (ks.takeWhile (· != .eof)).length) :
    EndsAt (ks ++ [.eof]) d ↔ EndsAt (ks.takeWhile (· != .eof)) d := by
  obtain ⟨rest, hrest⟩ := exists_append_eof ks
  rw [hrest]
  rcases Nat.lt_or_eq_of_le hd with hlt | rfl
  · refine endsAt_congr ?_
    rw [List.take_append_of_le_length hlt]
  · refine iff_of_true (.inl ?_) (.inl ?_)
    · rw [List.getD_eq_getElem?_getD, List.getElem?_append_right (Nat.le_refl _), Nat.sub_self]
      rfl
    · rw [List.getD_eq_getElem?_getD, List.getElem?_eq_none_iff.mpr (Nat.le_refl _)]
      rfl

/-- Counting from index `i` on is counting from the beginning of what is there. -/
theorem haltsAt_add {ks : List Kind} {i d : Nat} (hd : 0 < d) (hlt : i + d < ks.length) :
    HaltsAt ks i (i + d) ↔ EndsAt (ks.drop i) d := by
  have hinside : (ks.take (i + d + 1)).drop (i + 1) = ((ks.drop i).take (d + 1)).tail := by
    rw [← List.drop_one, List.drop_take, List.drop_take, List.drop_drop]
    congr 1
    omega
  have hget : (ks.drop i)[d]? = some ks[i + d] := by
    rw [List.getElem?_drop, List.getElem?_eq_getElem hlt]
  have hlast : (ks.drop i)[d - 1]? = ks[i + d - 1]? := by
    rw [List.getElem?_drop]
    congr 1
    omega
  rw [HaltsAt, EndsAt, hinside, List.getD_eq_getElem?_getD, hget, hlast,
    List.getElem?_eq_getElem hlt, Option.getD_some, Option.some.injEq, and_assoc]

namespace Pass

variable {p : Pass}

/-- The kinds from the cursor on are those ahead and that of the last token. -/
theorem drop_kinds (p : Pass) :
    (p.cursor.stream.toList.map Token.kind).drop p.cursor.index =
      p.cursor.ahead.map Token.kind ++ [.eof] := by
  rw [Cursor.stream, Stream.toList, List.append_assoc, List.map_append, List.map_append]
  exact List.drop_left' (by rw [List.length_map, List.length_reverse]; rfl)

/-- Where a scan from the cursor on may stop, told by the word ahead. -/
theorem haltsAt_iff_endsAt {d : Nat} (hd : 0 < d) (hle : d ≤ p.word.length) :
    HaltsAt (p.cursor.stream.toList.map Token.kind) p.cursor.index (p.cursor.index + d) ↔
      EndsAt p.word d := by
  have hlength := congrArg List.length p.drop_kinds
  have hahead := p.cursor.length_word_le
  rw [List.length_drop, List.length_append, List.length_map, List.length_map,
    List.length_singleton] at hlength
  have hword : p.word.length ≤ p.cursor.ahead.length := hahead
  rw [haltsAt_add hd (by rw [List.length_map]; omega), drop_kinds]
  exact endsAt_append_eof hle

/-! ## The scan stops at the first such index -/

/-- To follow the rule is to make the step. -/
theorem follow_ignoredConstruct (p : Pass) : p.follow .ignoredConstruct = p.skipConstruct := by
  apply follow_eq_of_makes
  exact Move.makes_follow fun ts => .head (.refl _)

theorem word_eq_cons (h : p.kind ≠ .eof) : p.word = p.kind :: p.advance.word :=
  (p.passes_advance h).word

/-- The number of tokens that the scan steps over behind the first one. -/
def scanned (p : Pass) : Nat := skipLength 0 0 p.kind p.advance.cursor.ahead

theorem scanned_le (p : Pass) : p.scanned ≤ p.advance.word.length := skipLength_le _ _ _ _

theorem index_skipConstruct (hvalid : p.valid = true) (hk : p.kind ≠ .eof) :
    p.skipConstruct.cursor.index = p.cursor.index + (p.scanned + 1) := by
  have hskip : p.skipConstruct.cursor = p.advance.cursor.forward p.scanned := by
    simp only [skipConstruct]
    rw [if_pos (show p.notify.advance.valid = true from hvalid)]
    rfl
  have hfirst := (p.passes_advance hk).index
  rw [hskip, Cursor.index_forward_of_le p.scanned_le, hfirst, List.length_singleton]
  omega

theorem isLeast_haltsAt (hvalid : p.valid = true) (hk : p.kind ≠ .eof) :
    IsLeast {j | p.cursor.index < j ∧
        HaltsAt (p.cursor.stream.toList.map Token.kind) p.cursor.index j}
      p.skipConstruct.cursor.index := by
  have hle := p.scanned_le
  have hlength : p.word.length = p.advance.word.length + 1 := by
    rw [word_eq_cons hk, List.length_cons]
  rw [index_skipConstruct hvalid hk]
  constructor
  · refine ⟨by omega, (haltsAt_iff_endsAt (Nat.succ_pos _) (by omega)).mpr ?_⟩
    rw [word_eq_cons hk, endsAt_cons_succ]
    exact stopsAt_skipLength
  · rintro j ⟨hlt, hhalts⟩
    obtain ⟨n, rfl⟩ : ∃ n, j = p.cursor.index + (n + 1) := ⟨j - p.cursor.index - 1, by omega⟩
    by_contra hless
    have hn : n < p.scanned := by omega
    rw [haltsAt_iff_endsAt (Nat.succ_pos n) (by omega), word_eq_cons hk, endsAt_cons_succ] at hhalts
    exact not_stopsAt_of_lt_skipLength hn hhalts

end Pass

/-! ## What the scan looks back at -/

/-- A scan that starts at these tokens, behind one of kind `first`, comes to the
rest of them with these balances and with this kind before. -/
inductive Surveys (first : Kind) (ts : List Token) : Int → Int → Kind → List Token → Prop
  | start : Surveys first ts 0 0 first ts
  | next {braces parens : Int} {before : Kind} {t : Token} {rest : List Token}
      (h : Surveys first ts braces parens before (t :: rest))
      (hgo : ¬ (t.kind = .eof ∨ braces + Pass.braceStep t.kind < 0 ∨
        (braces + Pass.braceStep t.kind = 0 ∧ parens + Pass.parenStep t.kind = 0 ∧
          Pass.resumes before t.kind = true))) :
      Surveys first ts (braces + Pass.braceStep t.kind) (parens + Pass.parenStep t.kind) t.kind rest

/-- The scan has come so many tokens further, what is left of it is the scan of
the rest, and the kind that it has taken along is that of the token before. -/
theorem Surveys.before {first before : Kind} {ts rest : List Token} {braces parens : Int}
    (h : Surveys first ts braces parens before rest) :
    ∃ n, rest = ts.drop n ∧
      n + Pass.skipLength braces parens before rest = Pass.skipLength 0 0 first ts ∧
      (first :: ts.map Token.kind)[n]? = some before := by
  induction h with
  | start => exact ⟨0, rfl, Nat.zero_add _, rfl⟩
  | @next braces parens before t rest _ hgo ih =>
      obtain ⟨n, hrest, hlength, -⟩ := ih
      refine ⟨n + 1, ?_, ?_, ?_⟩
      · rw [← List.drop_drop, ← hrest]
        rfl
      · rw [Pass.skipLength, if_neg hgo] at hlength
        omega
      · have hget : ts[n]? = some t := by
          rw [← List.head?_drop, ← hrest]
          rfl
        rw [List.getElem?_cons_succ, List.getElem?_map, hget]
        rfl

namespace Pass

variable {p : Pass}

theorem kinds_ahead (hk : p.kind ≠ .eof) :
    p.cursor.ahead.map Token.kind = p.kind :: p.advance.cursor.ahead.map Token.kind := by
  obtain ⟨⟨behind, ahead, stop⟩, valid, depth, limit, diagnostics, verdict?⟩ := p
  cases ahead with
  | nil => exact absurd rfl hk
  | cons t ts => rfl

/-- Every look back is at a token from the keyword on and before the place where
the scan stops. -/
theorem looks_back (hvalid : p.valid = true) (hk : p.kind ≠ .eof) {before : Kind}
    {rest : List Token} {braces parens : Int}
    (h : Surveys p.kind p.advance.cursor.ahead braces parens before rest) :
    ∃ k, p.cursor.index ≤ k ∧ k < p.skipConstruct.cursor.index ∧
      rest = p.cursor.stream.tokens.drop (k + 1) ∧
      (p.cursor.stream.toList.map Token.kind)[k]? = some before := by
  obtain ⟨n, hrest, hlength, hbefore⟩ := h.before
  have hscanned : n ≤ p.scanned := Nat.le.intro hlength
  refine ⟨p.cursor.index + n, Nat.le_add_right _ _, ?_, ?_, ?_⟩
  · rw [index_skipConstruct hvalid hk]
    omega
  · rw [hrest, show p.advance.cursor.ahead = p.cursor.ahead.drop 1 from rfl,
      p.cursor.ahead_eq_drop, List.drop_drop, List.drop_drop]
    congr 1
    omega
  · rw [← kinds_ahead hk] at hbefore
    have hn := (List.getElem?_eq_some_iff.mp hbefore).1
    rw [← List.getElem?_drop, p.drop_kinds, List.getElem?_append_left hn]
    exact hbefore

/-- The step over a construct stops exactly where it should. From a valid state
at any token but an end mark, the cursor comes to rest at the first index behind
it at which a scan may stop. One notice is made, about the token at which the
step began, and no error; validity and depth stay as they are. And whenever the
scan looks back, it is at a token from the first one on that comes before the
one at which it stops. -/
theorem scan_stops (hvalid : p.valid = true) (hk : p.kind ≠ .eof) :
    let s := p.cursor.stream
    let i := p.cursor.index
    let q := p.follow .ignoredConstruct
    (IsLeast {j | i < j ∧ HaltsAt (s.toList.map Token.kind) i j} q.cursor.index ∧
      q.cursor.stream = s) ∧
    (∃ t, s.toList[i]? = some t ∧ q.notices = p.notices ++ [.notice ⟨i, t⟩] ∧
      q.notices.map Diagnostic.describe = p.notices.map Diagnostic.describe ++
        [t.position.label ++ ": '" ++ t.text ++
          "' statement skipped (only switch/case is analysed)"]) ∧
    (q.errors = p.errors ∧ q.valid = true ∧ q.depth = p.depth) ∧
    ∀ braces parens before rest, Surveys p.kind p.advance.cursor.ahead braces parens before rest →
      ∃ k, i ≤ k ∧ k < q.cursor.index ∧ rest = s.tokens.drop (k + 1) ∧
        (s.toList.map Token.kind)[k]? = some before := by
  intro s i q
  have hq : q = p.skipConstruct := p.follow_ignoredConstruct
  have hon : p.Extends q := hq ▸ p.extends_skipConstruct
  have hnotices : q.notices = p.notices ++ [.notice p.site] := by
    rw [hq]
    exact Task.notices_perform (.make .skipConstruct) p
  have herrors : q.errors = p.errors := by
    rw [hq]
    exact (Task.errors_perform (.make .skipConstruct) p).trans (List.append_nil _)
  have hstays : q.valid = true := by
    rw [hq]
    exact (Task.valid_perform (.make .skipConstruct) p).trans (by rw [hvalid]; rfl)
  refine ⟨⟨?_, hon.stream_eq⟩, ⟨p.cursor.current, p.cursor.getElem?_index, hnotices, ?_⟩,
    ⟨herrors, hstays, (p.makes_follow .ignoredConstruct).depth_eq⟩, ?_⟩
  · rw [hq]
    exact isLeast_haltsAt hvalid hk
  · rw [hnotices, List.map_append]
    rfl
  · intro braces parens before rest h
    rw [hq]
    exact looks_back hvalid hk h

/-- A condition on the second line, with a parenthesis that is closed before it
is opened and a block that ends inside another parenthesis. -/
def crossedBrackets : Pass where
  cursor :=
    { behind := [⟨⟨"\\n", ⟨1, 1⟩⟩, .newline⟩]
      ahead := [⟨⟨"if", ⟨2, 1⟩⟩, .kwIf⟩, ⟨⟨")", ⟨2, 4⟩⟩, .rparen⟩, ⟨⟨"\x7b", ⟨2, 6⟩⟩, .lbrace⟩,
        ⟨⟨"\\n", ⟨2, 7⟩⟩, .newline⟩, ⟨⟨"x", ⟨3, 1⟩⟩, .identifier⟩, ⟨⟨"(", ⟨3, 2⟩⟩, .lparen⟩,
        ⟨⟨"\x7d", ⟨3, 3⟩⟩, .rbrace⟩, ⟨⟨"\\n", ⟨3, 4⟩⟩, .newline⟩, ⟨⟨"y", ⟨4, 1⟩⟩, .identifier⟩]
      stop := ⟨"", ⟨4, 2⟩⟩ }
  valid := true
  depth := 2
  limit := 1
  diagnostics := []
  verdict? := none

theorem scan_stops_crossedBrackets :
    crossedBrackets.valid = true ∧ crossedBrackets.kind ≠ .eof ∧
      IsLeast {j | 1 < j ∧
        HaltsAt (crossedBrackets.cursor.stream.toList.map Token.kind) 1 j} 9 ∧
      (crossedBrackets.follow .ignoredConstruct).errors = [] ∧
      ∃ k, 1 ≤ k ∧ k < 9 ∧
        (crossedBrackets.cursor.stream.toList.map Token.kind)[k]? = some .rparen := by
  have hvalid : crossedBrackets.valid = true := rfl
  have hk : crossedBrackets.kind ≠ .eof := by decide
  have hindex : (crossedBrackets.follow .ignoredConstruct).cursor.index = 9 := by decide +kernel
  obtain ⟨⟨hleast, -⟩, -, ⟨herrors, -⟩, hlooks⟩ := scan_stops hvalid hk
  obtain ⟨k, hle, hlt, -, hbefore⟩ := hlooks _ _ _ _ (.next .start (by decide))
  rw [hindex] at hleast hlt
  exact ⟨hvalid, hk, hleast, herrors, k, hle, hlt, hbefore⟩

end Pass

end SwitchScript
