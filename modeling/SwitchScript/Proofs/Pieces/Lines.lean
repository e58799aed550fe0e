import SwitchScript.Proofs.Pieces.Findings

/-!
# Lines are scanned apart

No piece reaches over a line feed, and what a scan knows at the beginning of a
line is the number of the line and nothing else. So what is found in two texts
with a line feed between them is what is found in each of them
(`Findings.ofText_lineFeed`), the second text being further down. How far down a
text stands makes no difference to anything but the lines of its places
(`Findings.ofText_down`).
-/

namespace SwitchScript

/-! ## Further down -/

/-- The same column, `n` lines further down. -/
def Position.down (n : Nat) (p : Position) : Position := ⟨p.line + n, p.column⟩

def Token.down (n : Nat) (t : Token) : Token := { t with position := t.position.down n }

def LexicalError.down (n : Nat) (e : LexicalError) : LexicalError :=
  { e with position := e.position.down n }

theorem Position.nextLine_down (n : Nat) (p : Position) :
    (p.down n).nextLine = p.nextLine.down n := by
  rw [nextLine, nextLine, down, down, Int.add_right_comm]

theorem Position.past_down (n : Nat) (p : Position) (text : List Char) :
    (p.down n).past text = (p.past text).down n := by
  induction text generalizing p with
  | nil => rfl
  | cons c text ih =>
      rw [past, past, ← ih]
      split
      · rw [nextLine_down]
      · rfl

/-- The place of the line after a script. -/
theorem Position.nextLine_past (text : List Char) :
    (origin.past text).nextLine = origin.down (1 + text.count '\n') := by
  rw [← after_nil, past_after, List.nil_append, after, nextLine, down, after_nil, origin]
  congr 1
  dsimp only
  omega

namespace Findings

def down (n : Nat) (f : Findings) : Findings where
  tokens := f.tokens.map (Token.down n)
  errors := f.errors.map (LexicalError.down n)
  stop := f.stop.down n

theorem prepend_down (n : Nat) (p : Position) (y : Yield) (f : Findings) :
    (f.down n).prepend (p.down n) y = (f.prepend p y).down n := by
  simp only [prepend, down, List.map_append, Yield.tokenAt?, Yield.errorAt?]
  cases y.token? <;> cases y.fault? <;> rfl

theorem ofText_down (n : Nat) (p : Position) (cs : List Char) :
    ofText (p.down n) cs = (ofText p cs).down n := by
  induction cs using Munch.induction generalizing p with
  | nil => rfl
  | piece h ih => rw [ofText_munch h, ofText_munch h, Position.past_down, ih, prepend_down]

end Findings

/-! ## Across a line feed -/

/-- A piece is the same if its text goes on after a line feed. -/
theorem Munch.append_lineFeed {text rest : List Char} {y : Yield}
    (h : Munch text rest y) (below : List Char) : Munch text (rest ++ '\n' :: below) y := by
  cases rest with
  | nil => exact h.atLineEnd (Piece.atLineEnd_lineFeed below)
  | cons d rest => exact h.congr rfl

namespace Findings

/-- What is found in a text, in the line feed after it, and in what follows. -/
def andBelow (f g : Findings) : Findings where
  tokens := f.tokens ++ ⟨⟨"\\n", f.stop⟩, .newline⟩ :: g.tokens
  errors := f.errors ++ g.errors
  stop := g.stop

theorem prepend_andBelow (p : Position) (y : Yield) (f g : Findings) :
    (f.prepend p y).andBelow g = (f.andBelow g).prepend p y := by
  simp only [prepend, andBelow, List.append_assoc]

theorem ofText_lineFeed (p : Position) (cs below : List Char) :
    ofText p (cs ++ '\n' :: below) =
      (ofText p cs).andBelow (ofText (p.past cs).nextLine below) := by
  induction cs using Munch.induction generalizing p with
  | nil => exact ofText_munch .lineBreak p
  | piece h ih =>
      rw [List.append_assoc, ofText_munch (h.append_lineFeed below), ofText_munch h, ih,
        prepend_andBelow, Position.past_append]

end Findings

/-- Lines are scanned apart. The tokens of two scripts with a line feed between
them are those of the first one, with a line break in place of its end mark, and
those of the second one, as many lines further down as the first one has and with
their columns unchanged. The same is true of the errors. -/
theorem Scan.lines_apart (a b : String) :
    (∃ front stop, (ofSource a).tokens = front ++ [⟨⟨"", stop⟩, .eof⟩] ∧
      (ofSource (a ++ "\n" ++ b)).tokens =
        front ++ ⟨⟨"\\n", stop⟩, .newline⟩ ::
          (ofSource b).tokens.map (Token.down (1 + a.toList.count '\n'))) ∧
    (ofSource (a ++ "\n" ++ b)).errors =
      (ofSource a).errors ++
        (ofSource b).errors.map (LexicalError.down (1 + a.toList.count '\n')) := by
  have hsource : (a ++ "\n" ++ b).toList = a.toList ++ '\n' :: b.toList := by
    simp
  have hfound := Findings.ofText_lineFeed .origin a.toList b.toList
  rw [Position.nextLine_past, Findings.ofText_down] at hfound
  simp only [Findings.tokens_ofSource, Findings.errors_ofSource, hsource, hfound]
  refine ⟨⟨(Findings.ofText .origin a.toList).tokens, _, rfl, ?_⟩, rfl⟩
  rw [Findings.closed, Findings.closed, List.map_append, Findings.andBelow, List.append_assoc]
  rfl

end SwitchScript
