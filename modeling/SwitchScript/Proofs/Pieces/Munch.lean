import SwitchScript.Proofs.Pieces.Number
import SwitchScript.Proofs.Pieces.Quoted
import SwitchScript.Scan

/-!
# Maximal munch

What the first piece of a text is can be said without cutting it off.
`Munch text rest y` tells that `text` is the first piece of `text ++ rest`, and
that `y` is what it yields: a token, an error, both or neither. It has a
constructor for each class of pieces, which says by what such a piece is known
and why it is no longer than it is.

`Piece.munch_cut` and `Munch.cutsOff` show that this describes `Piece.cut` and
nothing else, so that a text has exactly one first piece. The classes of the
first characters are disjoint, which is all that the order of the questions in
`Piece.cut` amounts to.
-/

namespace SwitchScript

/-- What a piece adds to the tokens and to the errors, places aside. -/
structure Yield where
  token? : Option (Kind × String)
  fault? : Option LexicalFault
  deriving DecidableEq

/-! ## The tables -/

namespace Kind

/-- The words with a kind of their own. -/
def words : List (String × Kind) := keywords ++ honoraryConstants ++ truthValues

/-- The kind of a word: that of its entry, and an identifier if it has none. -/
def IsOfWord (w : String) (k : Kind) : Prop :=
  (w, k) ∈ words ∨ k = identifier ∧ ∀ k', (w, k') ∉ words

/-- The operators of two characters. -/
def pairs : List (List Char) :=
  [['=', '='], ['!', '='], ['<', '='], ['>', '='], ['+', '='], ['-', '='], ['+', '+'], ['-', '-']]

/-- In a table without a second entry for anything, an entry is what a look-up finds. -/
theorem lookup_eq_some_iff_mem {α β : Type} [BEq α] [LawfulBEq α] {table : List (α × β)}
    (h : (table.map Prod.fst).Nodup) {a : α} {b : β} :
    table.lookup a = some b ↔ (a, b) ∈ table := by
  induction table with
  | nil => simp
  | cons x xs ih =>
      obtain ⟨key, value⟩ := x
      obtain ⟨hkey, hxs⟩ := List.nodup_cons.mp h
      rw [List.lookup_cons, List.mem_cons, Prod.mk.injEq]
      by_cases ha : a = key
      · subst ha
        have hnone : (a, b) ∉ xs := fun hmem => hkey (List.mem_map.mpr ⟨_, hmem, rfl⟩)
        simp only [BEq.rfl, Option.some.injEq, true_and, hnone, or_false]
        exact eq_comm
      · rw [beq_false_of_ne ha]
        simp only [ha, false_and, false_or]
        exact ih hxs

theorem ofWord_eq_iff {w : String} {k : Kind} : ofWord w = k ↔ IsOfWord w k := by
  have hnodup : (words.map Prod.fst).Nodup := by decide
  have heq : ofWord w = (words.lookup w).getD identifier := by
    rw [ofWord, words, List.lookup_append, List.lookup_append, Option.or_assoc,
      Option.orElse_eq_orElse, Option.orElse_eq_or, Option.orElse_eq_or]
  rw [heq, IsOfWord, ← lookup_eq_some_iff_mem hnodup]
  simp only [← lookup_eq_some_iff_mem hnodup]
  cases words.lookup w with
  | none => simp [eq_comm]
  | some k' => simp

theorem ofOperator?_eq_some_iff {cs : List Char} {k : Kind} :
    ofOperator? cs = some k ↔ (cs, k) ∈ operators := by
  have hnodup : (operators.map Prod.fst).Nodup := by decide
  exact lookup_eq_some_iff_mem hnodup

theorem ofOperator?_eq_none_iff {cs : List Char} :
    ofOperator? cs = none ↔ ∀ k, (cs, k) ∉ operators := by
  simp only [← ofOperator?_eq_some_iff, Option.eq_none_iff_forall_ne_some, ne_eq]

theorem length_operator {cs : List Char} {k : Kind} (h : (cs, k) ∈ operators) :
    cs.length = 1 ∨ cs.length = 2 :=
  (by decide : ∀ e ∈ operators, e.1.length = 1 ∨ e.1.length = 2) _ h

theorem mem_pairs_of_mem {cs : List Char} {k : Kind} (h : (cs, k) ∈ operators)
    (hlen : cs.length = 2) : cs ∈ pairs :=
  (by decide : ∀ e ∈ operators, e.1.length = 2 → e.1 ∈ pairs) _ h hlen

theorem exists_of_mem_pairs {cs : List Char} (h : cs ∈ pairs) :
    cs.length = 2 ∧ ∃ k, (cs, k) ∈ operators := by
  have hall : ∀ cs ∈ pairs, cs.length = 2 ∧ (ofOperator? cs).isSome = true := by decide
  obtain ⟨hlen, hsome⟩ := hall cs h
  obtain ⟨k, hk⟩ := Option.isSome_iff_exists.mp hsome
  exact ⟨hlen, k, ofOperator?_eq_some_iff.mp hk⟩

/-- An operator begins with one of one character. -/
theorem exists_of_cons {c : Char} {cs : List Char} {k : Kind} (h : (c :: cs, k) ∈ operators) :
    ∃ k', ([c], k') ∈ operators := by
  have hall : ∀ e ∈ operators, (ofOperator? (e.1.take 1)).isSome = true := by decide
  obtain ⟨k', hk'⟩ := Option.isSome_iff_exists.mp (hall _ h)
  exact ⟨k', ofOperator?_eq_some_iff.mp hk'⟩

end Kind

open Piece

/-- A character that does not belong to a comment, a blank, a line break, a
quoted text, a number or a word. -/
structure IsSign (c : Char) : Prop where
  notComment : c ≠ '#'
  notBlank : isBlank c = false
  notLineBreak : c ≠ '\n'
  notQuote : isQuote c = false
  notWord : isWordChar c = false

/-- The text is the first piece of itself and the rest, and yields this. -/
inductive Munch : List Char → List Char → Yield → Prop
  | comment {body rest : List Char} : Run (· != '\n') body rest →
      Munch ('#' :: body) rest ⟨none, none⟩
  | blank {c : Char} {more rest : List Char} : Run isBlank (c :: more) rest →
      Munch (c :: more) rest ⟨none, none⟩
  | lineBreak {rest : List Char} : Munch ['\n'] rest ⟨some (.newline, "\\n"), none⟩
  | number {c : Char} {more rest numeral : List Char} : Unicode.isDecimal c = true →
      Run isNumberTail (c :: more) rest → LongestNumeral numeral (c :: more) →
      Munch (c :: more) rest
        ⟨some (if '.' ∈ numeral then .float else .integer, String.ofList numeral),
          if numeral = c :: more then none else some (.malformedNumber (c :: more))⟩
  | closed {mark : Char} {body rest : List Char} : isQuote mark = true → Quotes mark body →
      ¬ Escaped body →
      Munch (mark :: body ++ [mark]) rest ⟨some (.string, String.ofList body), none⟩
  | unclosed {mark : Char} {body rest : List Char} : isQuote mark = true → Quotes mark body →
      AtLineEnd rest →
      Munch (mark :: body) rest ⟨some (.string, String.ofList body), some .unterminatedString⟩
  | word {c : Char} {more rest : List Char} {k : Kind} : Unicode.isDecimal c = false →
      Run isWordChar (c :: more) rest → Kind.IsOfWord (String.ofList (c :: more)) k →
      Munch (c :: more) rest ⟨some (k, String.ofList (c :: more)), none⟩
  | operator {text rest : List Char} {k : Kind} : (text, k) ∈ Kind.operators →
      (text.length = 2 ↔ (text ++ rest).take 2 ∈ Kind.pairs) →
      Munch text rest ⟨some (k, String.ofList text), none⟩
  | stray {c : Char} {rest : List Char} : IsSign c → (∀ k, ([c], k) ∉ Kind.operators) →
      Munch [c] rest ⟨none, some (.unexpectedCharacter c)⟩

/-- What a piece yields, read off its token and its fault. -/
def Piece.yield (x : Piece) : Yield :=
  ⟨(x.token? .origin).map fun t => (t.kind, t.text), x.fault?⟩

/-! ## The classes are disjoint -/

theorem eq_of_isBlank {c : Char} (h : isBlank c = true) :
    c = ' ' ∨ c = '\t' ∨ c = '\r' ∨ c = '\x0c' ∨ c = '\x0b' := by
  simpa [isBlank, or_assoc] using h

theorem eq_of_isQuote {c : Char} (h : isQuote c = true) : c = '"' ∨ c = '\'' := by
  simpa [isQuote] using h

theorem lineFeed_ne_of_isQuote {c : Char} (h : isQuote c = true) : '\n' ≠ c := by
  rintro rfl
  exact absurd h (by decide)

/-- A character of a word. -/
theorem not_of_isWordChar {c : Char} (h : isWordChar c = true) :
    c ≠ '#' ∧ isBlank c = false ∧ c ≠ '\n' ∧ isQuote c = false := by
  refine ⟨?_, ?_, ?_, ?_⟩
  · rintro rfl
    exact absurd h (by decide)
  · refine Bool.eq_false_iff.mpr fun hblank => ?_
    rcases eq_of_isBlank hblank with rfl | rfl | rfl | rfl | rfl <;> exact absurd h (by decide)
  · rintro rfl
    exact absurd h (by decide)
  · refine Bool.eq_false_iff.mpr fun hquote => ?_
    rcases eq_of_isQuote hquote with rfl | rfl <;> exact absurd h (by decide)

theorem isSign_of_operator {c : Char} {cs : List Char} {k : Kind}
    (h : (c :: cs, k) ∈ Kind.operators) : IsSign c := by
  have hall : ∀ e ∈ Kind.operators, e.1.head?.all (fun c =>
      c != '#' && !isBlank c && c != '\n' && !isQuote c && !isWordChar c) = true := by
    decide
  have hfirst := hall _ h
  simp only [List.head?_cons, Option.all_some, Bool.and_eq_true, bne_iff_ne,
    Bool.not_eq_true'] at hfirst
  obtain ⟨⟨⟨⟨hcomment, hblank⟩, hline⟩, hquote⟩, hword⟩ := hfirst
  exact ⟨hcomment, hblank, hline, hquote, hword⟩

namespace Piece

theorem cut_isBlank {c : Char} (h : isBlank c = true) (rest : List Char) :
    cut c rest = (blank (c :: rest.takeWhile isBlank), rest.dropWhile isBlank) := by
  have hcomment : c ≠ '#' := by
    rintro rfl
    exact absurd h (by decide)
  rw [cut, if_neg hcomment, if_pos h]

theorem cut_isWordChar {c : Char} (hdigit : Unicode.isDecimal c = false)
    (h : isWordChar c = true) (rest : List Char) :
    cut c rest = (word (c :: rest.takeWhile isWordChar), rest.dropWhile isWordChar) := by
  obtain ⟨hcomment, hblank, hline, hquote⟩ := not_of_isWordChar h
  simp [cut, hcomment, hblank, hline, hdigit, hquote, h]

theorem cut_isSign {c : Char} (h : IsSign c) (rest : List Char) :
    cut c rest = cutOperator c rest := by
  have hdigit : Unicode.isDecimal c = false :=
    Bool.eq_false_iff.mpr fun hc => Bool.eq_false_iff.mp h.notWord (isWordChar_of_isDecimal hc)
  simp [cut, h.notComment, h.notBlank, h.notLineBreak, hdigit, h.notQuote, h.notWord]

theorem cut_isDecimal {c : Char} (h : Unicode.isDecimal c = true) (rest : List Char) :
    cut c rest = cutNumber c rest := by
  obtain ⟨hcomment, hblank, hline, -⟩ := not_of_isWordChar (isWordChar_of_isDecimal h)
  simp [cut, hcomment, hblank, hline, h]

theorem cutOperator_single {c : Char} {rest : List Char}
    (h : (c :: rest).take 2 ∉ Kind.pairs) : cutOperator c rest = cutSingle c rest := by
  cases rest with
  | nil => rfl
  | cons d rest =>
      have hnone : Kind.ofOperator? [c, d] = none :=
        Kind.ofOperator?_eq_none_iff.mpr fun k hk => h (Kind.mem_pairs_of_mem hk rfl)
      rw [cutOperator, hnone]

theorem cutQuoted_closed {mark : Char} {body rest : List Char} (hquotes : Quotes mark body)
    (heven : ¬ Escaped body) :
    cutQuoted mark (body ++ mark :: rest) = (quoted mark body true, rest) := by
  have hsplit : splitQuoted mark (body ++ mark :: rest) = (body, mark :: rest) :=
    splitQuoted_eq_iff.mpr ⟨rfl, hquotes, .inr ⟨rfl, heven⟩⟩
  rw [cutQuoted, hsplit]
  exact if_pos rfl

theorem cutQuoted_unclosed {mark : Char} {body rest : List Char} (hmark : isQuote mark = true)
    (hquotes : Quotes mark body) (hend : AtLineEnd rest) :
    cutQuoted mark (body ++ rest) = (quoted mark body false, rest) := by
  have hsplit := splitQuoted_eq_iff.mpr ⟨rfl, hquotes, .inl hend⟩
  rw [cutQuoted, hsplit]
  cases rest with
  | nil => rfl
  | cons d rest =>
      obtain rfl : d = '\n' := hend d rfl
      exact if_neg (lineFeed_ne_of_isQuote hmark)

theorem cut_isQuote {c : Char} (h : isQuote c = true) (rest : List Char) :
    cut c rest = cutQuoted c rest := by
  rcases eq_of_isQuote h with rfl | rfl <;> rfl

/-! ## What is cut off is the first piece -/

theorem munch_cutNumber {c : Char} (hc : Unicode.isDecimal c = true) (rest : List Char) :
    Munch (cutNumber c rest).1.source (cutNumber c rest).2 (cutNumber c rest).1.yield := by
  obtain ⟨more, tail, after, hcut, hrun, hnumeral⟩ := cutNumber_spec hc rest
  have hmunch := Munch.number hc hrun hnumeral
  simp only [List.cons.injEq, true_and, List.self_eq_append_right] at hmunch
  rw [hcut]
  exact hmunch

theorem munch_cutQuoted {mark : Char} (hmark : isQuote mark = true) (rest : List Char) :
    Munch (cutQuoted mark rest).1.source (cutQuoted mark rest).2 (cutQuoted mark rest).1.yield := by
  have hquotes := quotes_splitQuoted mark rest
  have happ := splitQuoted_append mark rest
  rcases ends_splitQuoted mark rest with hend | ⟨hhead, heven⟩
  · rw [← happ, cutQuoted_unclosed hmark hquotes hend]
    simpa [source, yield, token?, fault?] using Munch.unclosed hmark hquotes hend
  · obtain ⟨after, hafter⟩ := List.head?_eq_some_iff.mp hhead
    rw [hafter] at happ
    rw [← happ, cutQuoted_closed hquotes heven]
    exact .closed hmark hquotes heven

theorem munch_cutSingle {c : Char} {rest : List Char} (hsign : IsSign c)
    (hpair : (c :: rest).take 2 ∉ Kind.pairs) :
    Munch (cutSingle c rest).1.source (cutSingle c rest).2 (cutSingle c rest).1.yield := by
  rw [cutSingle]
  cases hkind : Kind.ofOperator? [c] with
  | some k =>
      exact .operator (Kind.ofOperator?_eq_some_iff.mp hkind)
        (iff_of_false (Nat.succ_ne_self 1).symm hpair)
  | none => exact .stray hsign (Kind.ofOperator?_eq_none_iff.mp hkind)

theorem munch_cutOperator {c : Char} (hsign : IsSign c) (rest : List Char) :
    Munch (cutOperator c rest).1.source (cutOperator c rest).2 (cutOperator c rest).1.yield := by
  by_cases hpair : (c :: rest).take 2 ∈ Kind.pairs
  · obtain ⟨hlen, k, hentry⟩ := Kind.exists_of_mem_pairs hpair
    cases rest with
    | nil => exact absurd hlen (by simp)
    | cons d rest =>
        have hkind : Kind.ofOperator? [c, d] = some k := Kind.ofOperator?_eq_some_iff.mpr hentry
        rw [cutOperator, hkind]
        exact .operator hentry (iff_of_true rfl hpair)
  · rw [cutOperator_single hpair]
    exact munch_cutSingle hsign hpair

theorem munch_cut (c : Char) (rest : List Char) :
    Munch (cut c rest).1.source (cut c rest).2 (cut c rest).1.yield := by
  by_cases hcomment : c = '#'
  · subst hcomment
    exact .comment (Run.span _ rest)
  by_cases hblank : isBlank c = true
  · rw [cut_isBlank hblank]
    exact .blank ((Run.span _ rest).cons hblank)
  by_cases hline : c = '\n'
  · subst hline
    exact .lineBreak
  by_cases hdigit : Unicode.isDecimal c = true
  · rw [cut_isDecimal hdigit]
    exact munch_cutNumber hdigit rest
  by_cases hquote : isQuote c = true
  · rw [cut_isQuote hquote]
    exact munch_cutQuoted hquote rest
  by_cases hword : isWordChar c = true
  · have hfirst := Bool.eq_false_iff.mpr hdigit
    rw [cut_isWordChar hfirst hword]
    exact .word hfirst ((Run.span _ rest).cons hword)
      (Kind.ofWord_eq_iff.mp rfl)
  have hsign : IsSign c := ⟨hcomment, Bool.eq_false_iff.mpr hblank, hline,
    Bool.eq_false_iff.mpr hquote, Bool.eq_false_iff.mpr hword⟩
  rw [cut_isSign hsign]
  exact munch_cutOperator hsign rest

end Piece

/-! ## The first piece is what is cut off -/

/-- The text has a first character, and what is cut off there is this text with
this yield. -/
def CutsOff (text rest : List Char) (y : Yield) : Prop :=
  ∃ c cs x, text ++ rest = c :: cs ∧ cut c cs = (x, rest) ∧ x.source = text ∧ x.yield = y

theorem cutsOff_number {c : Char} {more rest numeral : List Char} (hc : Unicode.isDecimal c = true)
    (hrun : Run isNumberTail (c :: more) rest) (hnumeral : LongestNumeral numeral (c :: more)) :
    CutsOff (c :: more) rest
      ⟨some (if '.' ∈ numeral then .float else .integer, String.ofList numeral),
        if numeral = c :: more then none else some (.malformedNumber (c :: more))⟩ := by
  obtain ⟨more', tail, after, hcut, hrun', hnumeral'⟩ := cutNumber_spec hc (more ++ rest)
  have hsource := cutNumber_source c (more ++ rest)
  rw [hcut] at hsource
  obtain ⟨hwhole, rfl⟩ := hrun.unique hrun' hsource.symm
  rw [← hwhole] at hnumeral'
  obtain rfl := hnumeral.unique hnumeral'
  obtain ⟨-, rfl⟩ := List.cons.inj hwhole
  refine ⟨_, _, _, rfl, (cut_isDecimal hc _).trans hcut, rfl, ?_⟩
  simp only [List.cons.injEq, true_and, List.self_eq_append_right]
  rfl

theorem cutsOff_operator {text rest : List Char} {k : Kind} (hentry : (text, k) ∈ Kind.operators)
    (hpair : text.length = 2 ↔ (text ++ rest).take 2 ∈ Kind.pairs) :
    CutsOff text rest ⟨some (k, String.ofList text), none⟩ := by
  have hkind := Kind.ofOperator?_eq_some_iff.mpr hentry
  rcases Kind.length_operator hentry with hlen | hlen
  · obtain ⟨c, rfl⟩ := List.length_eq_one_iff.mp hlen
    have hsingle : (c :: rest).take 2 ∉ Kind.pairs := hpair.not.mp (by simp)
    refine ⟨c, rest, .operator k [c], rfl, ?_, rfl, rfl⟩
    rw [cut_isSign (isSign_of_operator hentry), cutOperator_single hsingle, cutSingle, hkind]
  · obtain ⟨c, d, rfl⟩ := List.length_eq_two.mp hlen
    refine ⟨c, d :: rest, .operator k [c, d], rfl, ?_, rfl, rfl⟩
    rw [cut_isSign (isSign_of_operator hentry), cutOperator, hkind]

theorem cutsOff_stray {c : Char} (hsign : IsSign c) (hno : ∀ k, ([c], k) ∉ Kind.operators)
    (rest : List Char) : CutsOff [c] rest ⟨none, some (.unexpectedCharacter c)⟩ := by
  have hsingle : (c :: rest).take 2 ∉ Kind.pairs := fun h => by
    obtain ⟨-, k, hentry⟩ := Kind.exists_of_mem_pairs h
    exact (Kind.exists_of_cons hentry).elim hno
  refine ⟨c, rest, .stray c, rfl, ?_, rfl, rfl⟩
  rw [cut_isSign hsign, cutOperator_single hsingle, cutSingle, Kind.ofOperator?_eq_none_iff.mpr hno]

theorem Munch.cutsOff {text rest : List Char} {y : Yield} (h : Munch text rest y) :
    CutsOff text rest y := by
  cases h with
  | @comment body _ hrun =>
      refine ⟨'#', body ++ rest, .comment ('#' :: body), rfl, ?_, rfl, rfl⟩
      rw [cut, if_pos rfl, hrun.takeWhile_eq, hrun.dropWhile_eq]
  | @blank c more _ hrun =>
      refine ⟨c, more ++ rest, .blank (c :: more), rfl, ?_, rfl, rfl⟩
      rw [cut_isBlank (hrun.inside c List.mem_cons_self), hrun.tail.takeWhile_eq,
        hrun.tail.dropWhile_eq]
  | lineBreak => exact ⟨_, _, .lineBreak, rfl, rfl, rfl, rfl⟩
  | number hc hrun hnumeral => exact cutsOff_number hc hrun hnumeral
  | @closed mark body _ hmark hquotes heven =>
      refine ⟨mark, body ++ mark :: rest, .quoted mark body true, by simp, ?_, rfl, rfl⟩
      rw [cut_isQuote hmark, cutQuoted_closed hquotes heven]
  | @unclosed mark body _ hmark hquotes hend =>
      refine ⟨mark, body ++ rest, .quoted mark body false, rfl, ?_, by simp [source], rfl⟩
      rw [cut_isQuote hmark, cutQuoted_unclosed hmark hquotes hend]
  | @word c more _ k hdigit hrun hkind =>
      rw [← Kind.ofWord_eq_iff.mpr hkind]
      refine ⟨c, more ++ rest, .word (c :: more), rfl, ?_, rfl, rfl⟩
      rw [cut_isWordChar hdigit (hrun.inside c List.mem_cons_self), hrun.tail.takeWhile_eq,
        hrun.tail.dropWhile_eq]
  | operator hentry hpair => exact cutsOff_operator hentry hpair
  | stray hsign hno => exact cutsOff_stray hsign hno _

/-- A text has one first piece. -/
theorem Munch.unique {text text' rest rest' : List Char} {y y' : Yield} (h : Munch text rest y)
    (h' : Munch text' rest' y') (heq : text ++ rest = text' ++ rest') :
    text = text' ∧ rest = rest' ∧ y = y' := by
  obtain ⟨c, cs, x, htext, hcut, rfl, rfl⟩ := h.cutsOff
  obtain ⟨c', cs', x', htext', hcut', rfl, rfl⟩ := h'.cutsOff
  rw [htext, htext'] at heq
  obtain ⟨rfl, rfl⟩ := List.cons.inj heq
  obtain ⟨rfl, rfl⟩ := Prod.mk.inj (hcut.symm.trans hcut')
  exact ⟨rfl, rfl, rfl⟩

end SwitchScript
