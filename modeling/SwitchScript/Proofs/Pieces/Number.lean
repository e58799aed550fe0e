import Mathlib.Data.List.Infix
import Mathlib.Data.List.TakeWhile
import SwitchScript.Piece.Cut

/-!
# Runs of characters, and numbers

Most pieces are runs: all their characters pass a test, and the one after them
does not. `Piece.Run` says so without saying how to find one, and a text has at
most one run at its beginning.

A number is a run as well, of all the characters that are glued to its first
digit. What counts of it is its longest beginning that is a `Piece.Numeral`:
digits, or digits around a point. `cutNumber_spec` shows that reading digits, a
point with a digit after it, and digits again finds that beginning. A point
that no digit follows must not be taken along, and a second point never helps,
as a numeral has only one.
-/

namespace SwitchScript.Piece

/-- The text passes the test, and no longer one does. -/
structure Run (test : Char → Bool) (text rest : List Char) : Prop where
  inside : ∀ c ∈ text, test c = true
  stops : ∀ c ∈ rest.head?, test c = false

namespace Run

variable {test : Char → Bool} {text rest : List Char}

theorem span (test : Char → Bool) (cs : List Char) :
    Run test (cs.takeWhile test) (cs.dropWhile test) where
  inside := fun c hc => List.mem_takeWhile_imp hc
  stops := by
    intro c hc
    have h := List.head?_dropWhile_not test cs
    rw [hc] at h
    simpa using h

/-- What passes the test is no longer than the run. -/
theorem covers (h : Run test text rest) {cs : List Char} (hcs : ∀ c ∈ cs, test c = true)
    (hbegins : cs <+: text ++ rest) : cs <+: text := by
  have htext := List.prefix_append text rest
  rcases List.prefix_or_prefix_of_prefix hbegins htext with hle | ⟨more, rfl⟩
  · exact hle
  · cases more with
    | nil => rw [List.append_nil]
    | cons d more =>
        obtain ⟨tail, hrest⟩ := (List.prefix_append_right_inj text).mp hbegins
        have hfails := h.stops d (by rw [← hrest]; rfl)
        have hpasses := hcs d (List.mem_append_right text List.mem_cons_self)
        rw [hfails] at hpasses
        exact absurd hpasses Bool.false_ne_true

theorem unique (h : Run test text rest) {text' rest' : List Char} (h' : Run test text' rest')
    (heq : text ++ rest = text' ++ rest') : text = text' ∧ rest = rest' := by
  have hle := h'.covers h.inside (heq ▸ List.prefix_append text rest)
  have hge := h.covers h'.inside (heq ▸ List.prefix_append text' rest')
  have htext := hle.eq_of_length_le hge.length_le
  subst htext
  exact ⟨rfl, List.append_cancel_left heq⟩

theorem takeWhile_eq (h : Run test text rest) : (text ++ rest).takeWhile test = text :=
  ((span test _).unique h List.takeWhile_append_dropWhile).1

theorem dropWhile_eq (h : Run test text rest) : (text ++ rest).dropWhile test = rest :=
  ((span test _).unique h List.takeWhile_append_dropWhile).2

/-- A run with a character before it that passes, too. -/
theorem cons (h : Run test text rest) {c : Char} (hc : test c = true) :
    Run test (c :: text) rest where
  inside := List.forall_mem_cons.mpr ⟨hc, h.inside⟩
  stops := h.stops

theorem tail {c : Char} (h : Run test (c :: text) rest) : Run test text rest where
  inside := (List.forall_mem_cons.mp h.inside).2
  stops := h.stops

end Run

/-! ## Numerals -/

/-- One digit or more. -/
def Digits (cs : List Char) : Prop := cs ≠ [] ∧ ∀ c ∈ cs, Unicode.isDecimal c = true

/-- Digits, or digits around a point. -/
inductive Numeral : List Char → Prop
  | whole {digits : List Char} : Digits digits → Numeral digits
  | pointed {digits more : List Char} : Digits digits → Digits more →
      Numeral (digits ++ '.' :: more)

/-- A numeral with which the text begins, the longest of them. -/
structure LongestNumeral (cs text : List Char) : Prop where
  numeral : Numeral cs
  begins : cs <+: text
  longest : ∀ ds, Numeral ds → ds <+: text → ds <+: cs

theorem LongestNumeral.unique {cs ds text : List Char} (h : LongestNumeral cs text)
    (h' : LongestNumeral ds text) : cs = ds :=
  (h'.longest _ h.numeral h.begins).eq_of_length_le (h.longest _ h'.numeral h'.begins).length_le

theorem LongestNumeral.of_begins {cs text rest : List Char} (h : LongestNumeral cs (text ++ rest))
    (hbegins : cs <+: text) : LongestNumeral cs text where
  numeral := h.numeral
  begins := hbegins
  longest := fun ds hds hle => h.longest ds hds (hle.trans (List.prefix_append text rest))

theorem isNumberTail_of_isDecimal {c : Char} (h : Unicode.isDecimal c = true) :
    isNumberTail c = true := by
  rw [isNumberTail, isWordChar_of_isDecimal h, Bool.true_or]

theorem not_isDecimal_point : Unicode.isDecimal '.' = false := by decide

theorem Numeral.isNumberTail {cs : List Char} (h : Numeral cs) :
    ∀ c ∈ cs, isNumberTail c = true := by
  cases h with
  | whole h => exact fun c hc => isNumberTail_of_isDecimal (h.2 c hc)
  | pointed h hmore =>
      intro c hc
      rcases List.mem_append.mp hc with hc | hc
      · exact isNumberTail_of_isDecimal (h.2 c hc)
      · rcases List.mem_cons.mp hc with rfl | hc
        · rfl
        · exact isNumberTail_of_isDecimal (hmore.2 c hc)

/-- After the digits at the beginning, a numeral has nothing or a fraction. -/
theorem Numeral.begins_cases {digits after cs : List Char}
    (hrun : Run Unicode.isDecimal digits after) (h : Numeral cs)
    (hbegins : cs <+: digits ++ after) :
    cs <+: digits ∨ ∃ more, Digits more ∧ cs = digits ++ '.' :: more ∧ '.' :: more <+: after := by
  cases h with
  | whole h => exact .inl (hrun.covers h.2 hbegins)
  | @pointed whole more h hmore =>
      have hwhole : Run Unicode.isDecimal whole ('.' :: more) :=
        ⟨h.2, fun c hc => Option.some.inj hc ▸ not_isDecimal_point⟩
      obtain ⟨tail, heq⟩ := hbegins
      rw [List.append_assoc] at heq
      have hstops : Run Unicode.isDecimal whole ('.' :: more ++ tail) := ⟨h.2, hwhole.stops⟩
      obtain ⟨rfl, rfl⟩ := hstops.unique hrun heq
      exact .inr ⟨more, hmore, rfl, List.prefix_append _ tail⟩

/-! ## Reading a number -/

theorem digits_takeWhile {c : Char} (hc : Unicode.isDecimal c = true) (rest : List Char) :
    Digits (c :: rest.takeWhile Unicode.isDecimal) :=
  ⟨List.cons_ne_nil _ _, ((Run.span Unicode.isDecimal rest).cons hc).inside⟩

/-- A point with digits after it, at the beginning of a text. -/
theorem Digits.pointed_begins {more cs : List Char} (h : Digits more)
    (hbegins : '.' :: more <+: cs) :
    ∃ d rest, Unicode.isDecimal d = true ∧ cs = '.' :: d :: rest := by
  obtain ⟨tail, rfl⟩ := hbegins
  obtain ⟨d, more, rfl⟩ := List.exists_cons_of_ne_nil h.1
  exact ⟨d, more ++ tail, h.2 d List.mem_cons_self, rfl⟩

/-- A fraction is taken off exactly if there is one, and then as a whole. -/
theorem splitFraction_cases (cs : List Char) :
    ((splitFraction cs).1 = [] ∧ ∀ more, Digits more → ¬ '.' :: more <+: cs) ∨
      ∃ more, Digits more ∧ (splitFraction cs).1 = '.' :: more ∧
        Run Unicode.isDecimal more (splitFraction cs).2 := by
  fun_cases splitFraction cs with
  | case1 d rest hd => exact .inr ⟨_, digits_takeWhile hd rest, rfl, (Run.span _ rest).cons hd⟩
  | case2 d rest hd =>
      refine .inl ⟨rfl, fun more hmore hbegins => ?_⟩
      obtain ⟨d', rest', hd', heq⟩ := hmore.pointed_begins hbegins
      obtain ⟨rfl, -⟩ := List.cons.inj (List.cons.inj heq).2
      exact hd hd'
  | case3 rest hother =>
      refine .inl ⟨rfl, fun more hmore hbegins => ?_⟩
      obtain ⟨d, rest', -, heq⟩ := hmore.pointed_begins hbegins
      exact hother d rest' heq

/-- The numeral that is read from a text with a digit in front is the longest
with which the text begins. -/
theorem longestNumeral_splitFraction {digits after : List Char} (hdigits : Digits digits)
    (hrun : Run Unicode.isDecimal digits after) :
    LongestNumeral (digits ++ (splitFraction after).1) (digits ++ after) := by
  have happ := splitFraction_append after
  rcases splitFraction_cases after with ⟨hnone, hno⟩ | ⟨fraction, hfraction, heq, hstops⟩
  · rw [hnone, List.append_nil]
    refine ⟨.whole hdigits, List.prefix_append digits after, fun ds hds hbegins => ?_⟩
    rcases hds.begins_cases hrun hbegins with hle | ⟨more, hmore, -, hafter⟩
    · exact hle
    · exact absurd hafter (hno more hmore)
  · rw [heq] at happ ⊢
    refine ⟨.pointed hdigits hfraction, ?_, fun ds hds hbegins => ?_⟩
    · rw [← happ, ← List.append_assoc]
      exact List.prefix_append _ _
    rcases hds.begins_cases hrun hbegins with hle | ⟨more, hmore, rfl, hafter⟩
    · exact hle.trans (List.prefix_append digits _)
    · rw [← happ] at hafter
      have hle := hstops.covers hmore.2 (List.cons_prefix_cons.mp hafter).2
      exact (List.prefix_append_right_inj digits).mpr (List.cons_prefix_cons.mpr ⟨rfl, hle⟩)

/-- A number is cut off with all that is glued to it, and shows the longest
numeral in it. -/
theorem cutNumber_spec {c : Char} (hc : Unicode.isDecimal c = true) (rest : List Char) :
    ∃ more tail after, cutNumber c rest = (number (c :: more) tail, after) ∧
      Run isNumberTail (c :: (more ++ tail)) after ∧
      LongestNumeral (c :: more) (c :: (more ++ tail)) := by
  have hnumeral := longestNumeral_splitFraction (digits_takeWhile hc rest)
    ((Run.span Unicode.isDecimal rest).cons hc)
  have happ := splitFraction_append (rest.dropWhile Unicode.isDecimal)
  cases hsplit : splitFraction (rest.dropWhile Unicode.isDecimal) with
  | mk fraction after =>
      rw [hsplit] at hnumeral happ
      have htail := Run.span isNumberTail after
      have hcut : c :: rest.takeWhile Unicode.isDecimal ++ rest.dropWhile Unicode.isDecimal =
          (c :: rest.takeWhile Unicode.isDecimal ++ fraction ++ after.takeWhile isNumberTail) ++
            after.dropWhile isNumberTail := by
        rw [← happ, List.append_assoc _ (after.takeWhile isNumberTail),
          List.takeWhile_append_dropWhile, List.append_assoc]
      rw [hcut] at hnumeral
      have hlongest := hnumeral.of_begins (List.prefix_append _ _)
      have hrun : Run isNumberTail
          (c :: rest.takeWhile Unicode.isDecimal ++ fraction ++ after.takeWhile isNumberTail)
          (after.dropWhile isNumberTail) :=
        ⟨List.forall_mem_append.mpr ⟨hlongest.numeral.isNumberTail, htail.inside⟩, htail.stops⟩
      exact ⟨_, _, _, by rw [cutNumber, hsplit]; rfl, hrun, hlongest⟩

end SwitchScript.Piece
