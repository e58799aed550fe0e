import SwitchScript.Piece.Basic

/-!
# Cutting a script into pieces

`Piece.cut` takes one piece off a non-empty text. What the piece is depends on
its first character alone, and it reaches as far as its class allows: comments
and quoted texts end with their line at the latest, numbers and words are
maximal runs, an operator of two characters wins over its first character.

The main statements are `cut_source` (nothing is lost) and `flatMap_source`
(the pieces of a script, put together, are the script).
-/

namespace SwitchScript.Piece

/-- Splits the text after a quotation mark into the quoted text and what
follows it: the closing mark, the end of the line or nothing. A backslash takes
the character after it along, unless that is a line feed. -/
def splitQuoted (mark : Char) : List Char → List Char × List Char
  | [] => ([], [])
  | c :: rest =>
    if c = mark ∨ c = '\n' then ([], c :: rest)
    else if c = '\\' then
      match rest with
      | [] => ([c], [])
      | d :: rest' =>
        if d = '\n' then ([c], d :: rest')
        else
          let (body, after) := splitQuoted mark rest'
          (c :: d :: body, after)
    else
      let (body, after) := splitQuoted mark rest
      (c :: body, after)

def cutQuoted (mark : Char) (rest : List Char) : Piece × List Char :=
  match splitQuoted mark rest with
  | (body, []) => (quoted mark body false, [])
  | (body, c :: after) =>
    if c = mark then (quoted mark body true, after) else (quoted mark body false, c :: after)

/-- Splits off the fraction of a number: a point with a digit right after it,
and all digits that follow. -/
def splitFraction : List Char → List Char × List Char
  | '.' :: d :: rest =>
    if Unicode.isDecimal d then
      ('.' :: d :: rest.takeWhile Unicode.isDecimal, rest.dropWhile Unicode.isDecimal)
    else ([], '.' :: d :: rest)
  | rest => ([], rest)

/-- A number, from its first digit on, with all that is glued to it. -/
def cutNumber (c : Char) (rest : List Char) : Piece × List Char :=
  let whole := c :: rest.takeWhile Unicode.isDecimal
  let (fraction, after) := splitFraction (rest.dropWhile Unicode.isDecimal)
  (number (whole ++ fraction) (after.takeWhile isNumberTail), after.dropWhile isNumberTail)

/-- An operator of one character, or a stray character. -/
def cutSingle (c : Char) (rest : List Char) : Piece × List Char :=
  match Kind.ofOperator? [c] with
  | some kind => (operator kind [c], rest)
  | none => (stray c, rest)

/-- An operator, of two characters if they form one, or a stray character. -/
def cutOperator (c : Char) : List Char → Piece × List Char
  | [] => cutSingle c []
  | d :: rest =>
    match Kind.ofOperator? [c, d] with
    | some kind => (operator kind [c, d], rest)
    | none => cutSingle c (d :: rest)

/-- The first piece of the text `c :: rest`, and the text after it. -/
def cut (c : Char) (rest : List Char) : Piece × List Char :=
  if c = '#' then
    (comment (c :: rest.takeWhile (· != '\n')), rest.dropWhile (· != '\n'))
  else if isBlank c then
    (blank (c :: rest.takeWhile isBlank), rest.dropWhile isBlank)
  else if c = '\n' then
    (lineBreak, rest)
  else if Unicode.isDecimal c then
    cutNumber c rest
  else if isQuote c then
    cutQuoted c rest
  else if isWordChar c then
    (word (c :: rest.takeWhile isWordChar), rest.dropWhile isWordChar)
  else
    cutOperator c rest

/-! ## Nothing is lost -/

theorem splitQuoted_append (mark : Char) (cs : List Char) :
    (splitQuoted mark cs).1 ++ (splitQuoted mark cs).2 = cs := by
  fun_induction splitQuoted mark cs <;> simp_all

theorem cutQuoted_source (mark : Char) (rest : List Char) :
    (cutQuoted mark rest).1.source ++ (cutQuoted mark rest).2 = mark :: rest := by
  have h := splitQuoted_append mark rest
  unfold cutQuoted
  split
  · rename_i body heq
    rw [heq] at h
    simp_all [source]
  · rename_i body c after heq
    rw [heq] at h
    split <;> simp_all [source]

theorem splitFraction_append (cs : List Char) :
    (splitFraction cs).1 ++ (splitFraction cs).2 = cs := by
  unfold splitFraction
  split
  · split <;> simp [List.takeWhile_append_dropWhile]
  · rfl

theorem cutNumber_source (c : Char) (rest : List Char) :
    (cutNumber c rest).1.source ++ (cutNumber c rest).2 = c :: rest := by
  have h := splitFraction_append (rest.dropWhile Unicode.isDecimal)
  simp only [cutNumber, source, List.cons_append, List.append_assoc,
    List.takeWhile_append_dropWhile, h]

theorem cutSingle_source (c : Char) (rest : List Char) :
    (cutSingle c rest).1.source ++ (cutSingle c rest).2 = c :: rest := by
  unfold cutSingle
  split <;> rfl

theorem cutOperator_source (c : Char) (rest : List Char) :
    (cutOperator c rest).1.source ++ (cutOperator c rest).2 = c :: rest := by
  unfold cutOperator
  split
  · exact cutSingle_source c []
  · split
    · rfl
    · exact cutSingle_source c _

/-- A piece and the text after it make up the text it was cut from. -/
theorem cut_source (c : Char) (rest : List Char) :
    (cut c rest).1.source ++ (cut c rest).2 = c :: rest := by
  unfold cut
  split
  · simp [source, List.takeWhile_append_dropWhile]
  split
  · simp [source, List.takeWhile_append_dropWhile]
  split
  · simp_all [source]
  split
  · exact cutNumber_source c rest
  split
  · exact cutQuoted_source c rest
  split
  · simp [source, List.takeWhile_append_dropWhile]
  · exact cutOperator_source c rest

/-! ## Every piece is there -/

theorem cut_source_ne_nil (c : Char) (rest : List Char) : (cut c rest).1.source ≠ [] := by
  have quotedNe (mark : Char) (cs : List Char) : (cutQuoted mark cs).1.source ≠ [] := by
    unfold cutQuoted
    split
    · simp [source]
    · split <;> simp [source]
  have operatorNe (d : Char) (cs : List Char) : (cutOperator d cs).1.source ≠ [] := by
    have singleNe (ds : List Char) : (cutSingle d ds).1.source ≠ [] := by
      unfold cutSingle
      split <;> simp [source]
    unfold cutOperator
    split
    · exact singleNe []
    · split
      · simp [source]
      · exact singleNe _
  unfold cut
  split
  · simp [source]
  split
  · simp [source]
  split
  · simp [source]
  split
  · simp [cutNumber, source]
  split
  · exact quotedNe c rest
  split
  · simp [source]
  · exact operatorNe c rest

theorem length_cut_lt (c : Char) (rest : List Char) :
    (cut c rest).2.length < (c :: rest).length := by
  have h := congrArg List.length (cut_source c rest)
  have hne := List.length_pos_iff.mpr (cut_source_ne_nil c rest)
  rw [List.length_append] at h
  omega

/-! ## All pieces of a script -/

/-- At most `n` pieces of a text. -/
def firstPieces : Nat → List Char → List Piece
  | 0, _ => []
  | _ + 1, [] => []
  | n + 1, c :: rest => (cut c rest).1 :: firstPieces n (cut c rest).2

/-- The pieces of a text. A piece is never empty, so there are no more of them
than characters. -/
def ofText (cs : List Char) : List Piece :=
  firstPieces cs.length cs

theorem firstPieces_eq_ofText {n : Nat} {cs : List Char} (h : cs.length ≤ n) :
    firstPieces n cs = ofText cs := by
  suffices ∀ (m n : Nat) (cs : List Char), cs.length ≤ m → cs.length ≤ n →
      firstPieces m cs = firstPieces n cs from this n cs.length cs h (Nat.le_refl _)
  clear h n cs
  intro m
  induction m with
  | zero =>
    intro n cs hm _
    cases cs with
    | nil => cases n <;> rfl
    | cons c rest => simp at hm
  | succ m ih =>
    intro n cs hm hn
    cases cs with
    | nil => cases n <;> rfl
    | cons c rest =>
      cases n with
      | zero => simp at hn
      | succ n =>
        have hlt := length_cut_lt c rest
        simp only [firstPieces, List.cons.injEq, true_and]
        exact ih n _ (by omega) (by omega)

@[simp] theorem ofText_nil : ofText [] = [] := rfl

/-- The pieces of a text are its first piece and the pieces of the rest. -/
theorem ofText_cons (c : Char) (rest : List Char) :
    ofText (c :: rest) = (cut c rest).1 :: ofText (cut c rest).2 := by
  have hlt := length_cut_lt c rest
  simp only [List.length_cons] at hlt
  show (cut c rest).1 :: firstPieces rest.length (cut c rest).2 = _
  rw [firstPieces_eq_ofText (by omega)]

/-- The pieces of a text, put together, are the text. -/
theorem flatMap_source (cs : List Char) : (ofText cs).flatMap source = cs := by
  suffices ∀ (n : Nat) (cs : List Char), cs.length ≤ n → (ofText cs).flatMap source = cs from
    this cs.length cs (Nat.le_refl _)
  intro n
  induction n with
  | zero =>
    intro cs h
    cases cs with
    | nil => rfl
    | cons c rest => simp at h
  | succ n ih =>
    intro cs h
    cases cs with
    | nil => rfl
    | cons c rest =>
      have hlt := length_cut_lt c rest
      rw [ofText_cons, List.flatMap_cons, ih _ (by omega), cut_source]

end SwitchScript.Piece
