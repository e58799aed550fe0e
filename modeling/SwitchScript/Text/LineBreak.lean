/-!
# Line breaks

Texts end their lines in one of three ways: with a line feed, with a carriage
return, or with both. Whoever opens a stream of text says what becomes of that:
the ends are handed on as they stand, or each of them as one line feed.
-/

namespace SwitchScript.Text

/-- Replaces a carriage return, together with a line feed after it, by a line
feed. -/
def unifyBreaks : List Char → List Char
  | [] => []
  | '\r' :: '\n' :: rest => '\n' :: unifyBreaks rest
  | c :: rest => (if c = '\r' then '\n' else c) :: unifyBreaks rest

theorem not_mem_unifyBreaks (cs : List Char) : '\r' ∉ unifyBreaks cs := by
  fun_induction unifyBreaks cs with
  | case1 => simp
  | case2 rest ih => simp [ih]
  | case3 c rest _ ih =>
    by_cases h : c = '\r'
    · simp [h, ih]
    · simp [h, ih, Ne.symm h]

/-- Text without carriage returns stays as it is. -/
theorem unifyBreaks_of_not_mem {cs : List Char} (h : '\r' ∉ cs) : unifyBreaks cs = cs := by
  fun_induction unifyBreaks cs with
  | case1 => rfl
  | case2 rest ih => simp at h
  | case3 c rest _ ih =>
    simp only [List.mem_cons, not_or] at h
    simp [Ne.symm h.1, ih h.2]

/-- How a stream of text hands on the ends of its lines. -/
inductive LineEnds
  /-- As they stand. -/
  | kept
  /-- Each as one line feed. -/
  | unified
  deriving DecidableEq, Repr

def LineEnds.handOn : LineEnds → List Char → List Char
  | kept, cs => cs
  | unified, cs => unifyBreaks cs

end SwitchScript.Text
