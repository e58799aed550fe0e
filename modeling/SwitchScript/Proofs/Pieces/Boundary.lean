import SwitchScript.Proofs.Pieces.Munch

/-!
# Where pieces meet

A piece is cut off with the rest of the text in view, but of this rest it only
sees the first character (`Munch.congr`). So a text can be changed behind a
piece as long as the piece does not come to meet a character that it would take
in.

Two kinds of neighbours are harmless. The end of a line stops every piece
(`Munch.atLineEnd`). A blank, a quotation mark or a number sign stops all but
the pieces that reach up to the end of their line or consist of blanks
themselves (`Munch.parted`): these are the characters that no number, no word
and no second half of an operator begins with.
-/

namespace SwitchScript

open Piece

/-- The rest of a text is empty or begins with a character that numbers, words
and operators never take in. -/
def Parted (rest : List Char) : Prop :=
  ∀ c ∈ rest.head?, isBlank c = true ∨ c = '\n' ∨ isQuote c = true ∨ c = '#'

theorem parted_cons {c : Char} (h : isBlank c = true ∨ c = '\n' ∨ isQuote c = true ∨ c = '#')
    (rest : List Char) : Parted (c :: rest) :=
  fun _ hd => Option.some.inj hd ▸ h

theorem parted_spaces {n : Nat} (h : 0 < n) (rest : List Char) :
    Parted (List.replicate n ' ' ++ rest) := by
  obtain ⟨m, rfl⟩ := Nat.exists_eq_add_one.mpr h
  exact parted_cons (.inl rfl) _

theorem Piece.AtLineEnd.parted {rest : List Char} (h : AtLineEnd rest) : Parted rest :=
  fun c hc => .inr (.inl (h c hc))

theorem Piece.AtLineEnd.stops {rest : List Char} (h : AtLineEnd rest) {test : Char → Bool}
    (htest : test '\n' = false) : ∀ c ∈ rest.head?, test c = false := by
  intro c hc
  rw [h c hc, htest]

theorem Parted.notWordChar {rest : List Char} (h : Parted rest) {c : Char} (hc : c ∈ rest.head?) :
    isWordChar c = false := by
  refine Bool.eq_false_iff.mpr fun hword => ?_
  obtain ⟨hcomment, hblank, hline, hquote⟩ := not_of_isWordChar hword
  rcases h c hc with h | h | h | h
  · exact Bool.eq_false_iff.mp hblank h
  · exact hline h
  · exact Bool.eq_false_iff.mp hquote h
  · exact hcomment h

theorem Parted.notNumberTail {rest : List Char} (h : Parted rest) {c : Char} (hc : c ∈ rest.head?) :
    isNumberTail c = false := by
  have hpoint : c ≠ '.' := by
    rintro rfl
    exact absurd (h '.' hc) (by decide)
  rw [isNumberTail, h.notWordChar hc, Bool.false_or, beq_eq_false_iff_ne]
  exact hpoint

theorem Parted.notMem_pairs {rest : List Char} (h : Parted rest) (c : Char) :
    (c :: rest).take 2 ∉ Kind.pairs := by
  have hall : ∀ e ∈ Kind.pairs, e.tail = ['='] ∨ e.tail = ['+'] ∨ e.tail = ['-'] := by decide
  intro hmem
  cases rest with
  | nil => exact absurd (Kind.exists_of_mem_pairs hmem).1 (by simp)
  | cons d rest =>
      have hd := h d rfl
      rcases hall _ hmem with htail | htail | htail <;>
        · obtain rfl := (List.cons.inj htail).1
          exact absurd hd (by decide)

/-! ## A piece sees one character of the rest -/

theorem Piece.Run.congr {test : Char → Bool} {text rest rest' : List Char} (h : Run test text rest)
    (hnext : rest'.head? = rest.head?) : Run test text rest' :=
  ⟨h.inside, fun c hc => h.stops c (hnext ▸ hc)⟩

/-- Whether an operator is one of two characters can be told from the first
character of the rest. -/
theorem take_two_append {text rest : List Char} (hlen : text ≠ []) :
    (text ++ rest).take 2 = (text ++ rest.head?.toList).take 2 := by
  obtain ⟨c, text, rfl⟩ := List.exists_cons_of_ne_nil hlen
  cases text with
  | nil =>
      cases rest with
      | nil => rfl
      | cons d rest => rfl
  | cons d text => rfl

theorem ne_nil_of_mem_operators {text : List Char} {k : Kind} (h : (text, k) ∈ Kind.operators) :
    text ≠ [] := by
  rintro rfl
  rcases Kind.length_operator h with hlen | hlen <;> exact absurd hlen (by simp)

theorem Munch.congr {text rest rest' : List Char} {y : Yield} (h : Munch text rest y)
    (hnext : rest'.head? = rest.head?) : Munch text rest' y := by
  cases h with
  | comment hrun => exact .comment (hrun.congr hnext)
  | blank hrun => exact .blank (hrun.congr hnext)
  | lineBreak => exact .lineBreak
  | number hc hrun hnumeral => exact .number hc (hrun.congr hnext) hnumeral
  | closed hmark hquotes heven => exact .closed hmark hquotes heven
  | unclosed hmark hquotes hend => exact .unclosed hmark hquotes fun c hc => hend c (hnext ▸ hc)
  | word hdigit hrun hkind => exact .word hdigit (hrun.congr hnext) hkind
  | operator hentry hpair =>
      have hne := ne_nil_of_mem_operators hentry
      refine .operator hentry ?_
      rw [take_two_append hne, hnext, ← take_two_append hne]
      exact hpair
  | stray hsign hno => exact .stray hsign hno

/-! ## Harmless neighbours -/

/-- A piece of this yield is neither layout nor a quoted text without its closing
mark, so it has an end of its own. -/
def Yield.EndsItself (y : Yield) : Prop :=
  y ≠ ⟨none, none⟩ ∧ y.fault? ≠ some .unterminatedString

theorem Munch.parted {text rest rest' : List Char} {y : Yield} (h : Munch text rest y)
    (hy : y.EndsItself) (hrest : Parted rest') : Munch text rest' y := by
  cases h with
  | comment | blank => exact absurd rfl hy.1
  | lineBreak => exact .lineBreak
  | number hc hrun hnumeral =>
      exact .number hc ⟨hrun.inside, fun c hc => hrest.notNumberTail hc⟩ hnumeral
  | closed hmark hquotes heven => exact .closed hmark hquotes heven
  | unclosed => exact absurd rfl hy.2
  | word hdigit hrun hkind =>
      exact .word hdigit ⟨hrun.inside, fun c hc => hrest.notWordChar hc⟩ hkind
  | operator hentry hpair =>
      refine .operator hentry ?_
      rcases Kind.length_operator hentry with hlen | hlen
      · obtain ⟨c, rfl⟩ := List.length_eq_one_iff.mp hlen
        exact iff_of_false (by simp) (hrest.notMem_pairs c)
      · obtain ⟨c, d, rfl⟩ := List.length_eq_two.mp hlen
        exact iff_of_true rfl (hpair.mp rfl)
  | stray hsign hno => exact .stray hsign hno

theorem Munch.atLineEnd {text rest rest' : List Char} {y : Yield} (h : Munch text rest y)
    (hrest : AtLineEnd rest') : Munch text rest' y := by
  by_cases hy : y.EndsItself
  · exact h.parted hy hrest.parted
  cases h with
  | comment hrun => exact .comment ⟨hrun.inside, hrest.stops rfl⟩
  | blank hrun => exact .blank ⟨hrun.inside, hrest.stops rfl⟩
  | unclosed hmark hquotes _ => exact .unclosed hmark hquotes hrest
  | _ => exact absurd ⟨by simp, by simp⟩ hy

/-- A text is changed without harm to pieces before it: it keeps its first
character or gets one that parts. -/
def Harmless (rest rest' : List Char) : Prop := rest'.head? = rest.head? ∨ Parted rest'

theorem Harmless.spaces {rest rest' : List Char} (h : Harmless rest rest') (n : Nat) :
    Harmless rest (List.replicate n ' ' ++ rest') := by
  rcases Nat.eq_zero_or_pos n with rfl | hn
  · exact h
  · exact .inr (parted_spaces hn rest')

theorem Harmless.notNumberTail {text rest rest' : List Char} (h : Harmless rest rest')
    (hrun : Run isNumberTail text rest) : ∀ c ∈ rest'.head?, isNumberTail c = false := by
  intro c hc
  rcases h with hnext | hparted
  · exact hrun.stops c (hnext ▸ hc)
  · exact hparted.notNumberTail hc

theorem Munch.change {text rest rest' : List Char} {y : Yield} (h : Munch text rest y)
    (hy : y.EndsItself) (hnext : Harmless rest rest') : Munch text rest' y :=
  hnext.elim h.congr (h.parted hy)

/-! ## Numerals apart from what was glued to them -/

theorem Piece.Numeral.exists_cons {cs : List Char} (h : Numeral cs) :
    ∃ c more, cs = c :: more ∧ Unicode.isDecimal c = true := by
  have hdigits {digits : List Char} (h : Digits digits) :
      ∃ c more, digits = c :: more ∧ Unicode.isDecimal c = true := by
    obtain ⟨c, more, rfl⟩ := List.exists_cons_of_ne_nil h.1
    exact ⟨c, more, rfl, h.2 c List.mem_cons_self⟩
  cases h with
  | whole h => exact hdigits h
  | pointed h _ =>
      obtain ⟨c, more, rfl, hc⟩ := hdigits h
      exact ⟨c, _, rfl, hc⟩

/-- The numeral in a number is a piece of its own where nothing is glued to it. -/
theorem Piece.LongestNumeral.munch {numeral text rest : List Char}
    (h : LongestNumeral numeral text) (hrest : ∀ c ∈ rest.head?, isNumberTail c = false) :
    Munch numeral rest
      ⟨some (if '.' ∈ numeral then .float else .integer, String.ofList numeral), none⟩ := by
  obtain ⟨tail, rfl⟩ := h.begins
  have hself := h.of_begins (List.prefix_refl numeral)
  obtain ⟨c, more, rfl, hc⟩ := h.numeral.exists_cons
  have hmunch := Munch.number hc ⟨h.numeral.isNumberTail, hrest⟩ hself
  rw [if_pos rfl] at hmunch
  exact hmunch

end SwitchScript
