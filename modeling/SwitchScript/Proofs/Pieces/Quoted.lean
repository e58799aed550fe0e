import Mathlib.Data.List.DropRight
import SwitchScript.Piece.Cut

/-!
# Where a quoted text ends

`Piece.splitQuoted` reads a quoted text from left to right and takes backslashes
in pairs with what follows them. Seen from the quotation mark at the end, all
that matters is how many backslashes stand right before it: `Piece.Escaped` asks
whether their number is odd, and looks at no other character.

The two agree (`splitQuoted_eq_iff`) because a pair of a
backslash and another character never changes the answer for what comes after
it, and a mark that is read as the second of a pair has just one backslash that
counts before it.
-/

namespace SwitchScript.Piece

/-- How many backslashes stand at the end of a text. -/
def trailingBackslashes (cs : List Char) : Nat := (cs.rtakeWhile (· == '\\')).length

/-- A quotation mark right after the text is escaped. -/
def Escaped (cs : List Char) : Prop := trailingBackslashes cs % 2 = 1

/-- A text that quotation marks can enclose: it stays on its line, and all such
marks in it are escaped. -/
structure Quotes (mark : Char) (body : List Char) : Prop where
  line : '\n' ∉ body
  escaped : ∀ before after, body = before ++ mark :: after → Escaped before

/-- The rest of a text is empty or begins with a line feed. -/
def AtLineEnd (rest : List Char) : Prop := ∀ c ∈ rest.head?, c = '\n'

/-- A quoted text ends before the rest: at the end of its line, or at a mark
that is not escaped. -/
def EndsQuote (mark : Char) (body rest : List Char) : Prop :=
  AtLineEnd rest ∨ rest.head? = some mark ∧ ¬ Escaped body

theorem atLineEnd_nil : AtLineEnd [] := fun c hc => absurd hc (Option.not_mem_none c)

theorem atLineEnd_lineFeed (rest : List Char) : AtLineEnd ('\n' :: rest) :=
  fun _ hc => (Option.some.inj hc).symm

theorem not_escaped_nil : ¬ Escaped [] := Nat.zero_ne_one

theorem escaped_backslash : Escaped ['\\'] := rfl

theorem trailingBackslashes_cons (c : Char) (cs : List Char) :
    trailingBackslashes (c :: cs) =
      if trailingBackslashes cs = cs.length ∧ c = '\\' then cs.length + 1
      else trailingBackslashes cs := by
  simp only [trailingBackslashes, List.rtakeWhile, List.reverse_cons, List.takeWhile_append,
    List.length_reverse]
  by_cases hall : (cs.reverse.takeWhile (· == '\\')).length = cs.length
  · rw [if_pos hall]
    by_cases hc : c = '\\'
    · simp [hall, hc]
    · simp [hall, hc]
  · rw [if_neg hall, if_neg fun h => hall h.1]

theorem trailingBackslashes_le (cs : List Char) : trailingBackslashes cs ≤ cs.length := by
  rw [trailingBackslashes]
  exact (List.rtakeWhile_suffix _ cs).length_le

theorem escaped_cons {c : Char} (hc : c ≠ '\\') (cs : List Char) :
    Escaped (c :: cs) ↔ Escaped cs := by
  rw [Escaped, trailingBackslashes_cons, if_neg fun h => hc h.2, Escaped]

/-- A backslash and the character after it change nothing. -/
theorem escaped_pair (d : Char) (cs : List Char) : Escaped ('\\' :: d :: cs) ↔ Escaped cs := by
  have hle := trailingBackslashes_le cs
  rw [Escaped, Escaped, trailingBackslashes_cons, trailingBackslashes_cons, List.length_cons]
  by_cases hall : trailingBackslashes cs = cs.length ∧ d = '\\'
  · rw [if_pos hall, if_pos ⟨rfl, rfl⟩, hall.1]
    omega
  · rw [if_neg hall, if_neg fun h => by omega]

/-! ## Reading from left to right -/

theorem Quotes.nil (mark : Char) : Quotes mark [] :=
  ⟨List.not_mem_nil, fun before after h => absurd h (by simp)⟩

theorem Quotes.cons {mark c : Char} {body : List Char} (h : Quotes mark body) (hmark : c ≠ mark)
    (hline : c ≠ '\n') (hc : c ≠ '\\') : Quotes mark (c :: body) where
  line := List.not_mem_cons_of_ne_of_not_mem hline.symm h.line
  escaped := by
    intro before after heq
    cases before with
    | nil => exact absurd (List.cons.inj heq).1 hmark
    | cons b before =>
        obtain ⟨rfl, hbody⟩ := List.cons.inj heq
        exact (escaped_cons hc before).mpr (h.escaped before after hbody)

theorem Quotes.pair {mark d : Char} {body : List Char} (h : Quotes mark body)
    (hmark : '\\' ≠ mark) (hline : d ≠ '\n') : Quotes mark ('\\' :: d :: body) where
  line := List.not_mem_cons_of_ne_of_not_mem (by decide)
    (List.not_mem_cons_of_ne_of_not_mem hline.symm h.line)
  escaped := by
    intro before after heq
    match before, heq with
    | [], heq => exact absurd (List.cons.inj heq).1 hmark
    | [b], heq =>
        obtain ⟨rfl, -⟩ := List.cons.inj heq
        exact escaped_backslash
    | b :: b' :: before, heq =>
        obtain ⟨rfl, htail⟩ := List.cons.inj heq
        obtain ⟨-, hbody⟩ := List.cons.inj htail
        exact (escaped_pair b' before).mpr (h.escaped before after hbody)

/-- A backslash that nothing follows on its line. -/
theorem quotes_backslash {mark : Char} (hmark : '\\' ≠ mark) : Quotes mark ['\\'] where
  line := by decide
  escaped := by
    intro before after heq
    match before, heq with
    | [], heq => exact absurd (List.cons.inj heq).1 hmark
    | b :: before, heq => simp at heq

theorem quotes_splitQuoted (mark : Char) (cs : List Char) :
    Quotes mark (splitQuoted mark cs).1 := by
  fun_induction splitQuoted mark cs with
  | case1 => exact Quotes.nil mark
  | case2 => exact Quotes.nil mark
  | case3 hmark => exact quotes_backslash fun h => hmark (.inl h)
  | case4 rest hmark => exact quotes_backslash fun h => hmark (.inl h)
  | case5 d rest hline body after heq hmark ih =>
      rw [heq] at ih
      exact ih.pair (fun h => hmark (.inl h)) hline
  | case6 c rest hstop hc body after heq ih =>
      rw [heq] at ih
      exact ih.cons (fun h => hstop (.inl h)) (fun h => hstop (.inr h)) hc

theorem ends_splitQuoted (mark : Char) (cs : List Char) :
    EndsQuote mark (splitQuoted mark cs).1 (splitQuoted mark cs).2 := by
  fun_induction splitQuoted mark cs with
  | case1 => exact .inl atLineEnd_nil
  | case2 c rest hstop =>
      rcases hstop with rfl | rfl
      · exact .inr ⟨rfl, not_escaped_nil⟩
      · exact .inl (atLineEnd_lineFeed rest)
  | case3 => exact .inl atLineEnd_nil
  | case4 rest => exact .inl (atLineEnd_lineFeed rest)
  | case5 d rest hline body after heq hmark ih =>
      rw [heq] at ih
      exact ih.imp_right fun h => ⟨h.1, fun he => h.2 ((escaped_pair d body).mp he)⟩
  | case6 c rest hstop hc body after heq ih =>
      rw [heq] at ih
      exact ih.imp_right fun h => ⟨h.1, fun he => h.2 ((escaped_cons hc body).mp he)⟩

/-! ## There is one place to end -/

/-- A quoted text does not reach beyond a place where it can end. -/
theorem Quotes.not_beyond {mark d : Char} {body more : List Char}
    (h : Quotes mark (body ++ d :: more)) (rest : List Char) :
    ¬ EndsQuote mark body (d :: rest) := by
  rintro (hend | ⟨hmark, heven⟩)
  · have hline : d = '\n' := hend d rfl
    exact h.line (hline ▸ List.mem_append_right body List.mem_cons_self)
  · obtain rfl : d = mark := Option.some.inj hmark
    exact heven (h.escaped body more rfl)

theorem Quotes.unique {mark : Char} {body body' rest rest' : List Char}
    (heq : body ++ rest = body' ++ rest') (h : Quotes mark body) (hend : EndsQuote mark body rest)
    (h' : Quotes mark body') (hend' : EndsQuote mark body' rest') :
    body = body' ∧ rest = rest' := by
  rcases List.append_eq_append_iff.mp heq with ⟨more, rfl, hrest⟩ | ⟨more, rfl, hrest⟩
  · cases more with
    | nil => exact ⟨(List.append_nil body).symm, hrest⟩
    | cons d more =>
        rw [hrest] at hend
        exact absurd hend (h'.not_beyond _)
  · cases more with
    | nil => exact ⟨List.append_nil body', hrest.symm⟩
    | cons d more =>
        rw [hrest] at hend'
        exact absurd hend' (h.not_beyond _)

/-- Reading from left to right finds the place that the backslashes tell. -/
theorem splitQuoted_eq_iff {mark : Char} {cs body rest : List Char} :
    splitQuoted mark cs = (body, rest) ↔
      cs = body ++ rest ∧ Quotes mark body ∧ EndsQuote mark body rest := by
  constructor
  · intro h
    have happ := splitQuoted_append mark cs
    have hquotes := quotes_splitQuoted mark cs
    have hend := ends_splitQuoted mark cs
    rw [h] at happ hquotes hend
    exact ⟨happ.symm, hquotes, hend⟩
  · rintro ⟨rfl, hquotes, hend⟩
    obtain ⟨hbody, hrest⟩ := (quotes_splitQuoted mark _).unique (splitQuoted_append mark _)
      (ends_splitQuoted mark _) hquotes hend
    exact Prod.ext hbody hrest

end SwitchScript.Piece
