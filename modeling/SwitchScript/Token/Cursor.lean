import SwitchScript.Token.Stream

/-!
# Cursors

A cursor is a place in a stream: the tokens behind it, nearest first, and the
tokens ahead of it. All movement is `forward`, which passes over a number of
tokens and parks on the end mark, so a cursor can neither leave its stream nor
move back.
-/

namespace SwitchScript

/-- A place in a stream. -/
structure Cursor where
  /-- The tokens passed over, the nearest one first. -/
  behind : List Token
  /-- The tokens from the cursor on, without the end mark. -/
  ahead : List Token
  /-- The end mark of the stream. -/
  stop : Lexeme
  deriving DecidableEq, Repr

def Token.isNewline (t : Token) : Bool := t.kind == .newline

namespace Cursor

/-- The cursor on the first token of a stream. -/
def start (s : Stream) : Cursor := ⟨[], s.tokens, s.stop⟩

/-- The stream that a cursor stands in. -/
def stream (c : Cursor) : Stream := ⟨c.behind.reverse ++ c.ahead, c.stop⟩

def index (c : Cursor) : Nat := c.behind.length

def current (c : Cursor) : Token := c.ahead.headD c.stop.asStop

def kind (c : Cursor) : Kind := c.current.kind

/-- The cursor `n` tokens further on, or on the end mark if there are fewer. -/
def forward (n : Nat) (c : Cursor) : Cursor :=
  ⟨(c.ahead.take n).reverse ++ c.behind, c.ahead.drop n, c.stop⟩

def advance (c : Cursor) : Cursor := c.forward 1

/-- The cursor after the line breaks that it stands on. -/
def skipNewlines (c : Cursor) : Cursor :=
  c.forward (c.ahead.takeWhile Token.isNewline).length

/-! ## Laws of movement -/

@[simp] theorem stream_start (s : Stream) : (start s).stream = s := rfl

@[simp] theorem index_start (s : Stream) : (start s).index = 0 := rfl

@[simp] theorem forward_zero (c : Cursor) : c.forward 0 = c := rfl

theorem forward_forward (c : Cursor) (m n : Nat) :
    (c.forward m).forward n = c.forward (m + n) := by
  simp only [forward, List.drop_drop, List.take_add, List.reverse_append, List.append_assoc]

@[simp] theorem stream_forward (c : Cursor) (n : Nat) : (c.forward n).stream = c.stream := by
  simp only [forward, stream, List.reverse_append, List.reverse_reverse, List.append_assoc,
    List.take_append_drop]

theorem index_forward (c : Cursor) (n : Nat) :
    (c.forward n).index = c.index + min n c.ahead.length := by
  simp only [forward, index, List.length_append, List.length_reverse, List.length_take]
  omega

theorem index_le_index_forward (c : Cursor) (n : Nat) : c.index ≤ (c.forward n).index := by
  rw [index_forward]
  omega

theorem index_lt_length (c : Cursor) : c.index < c.stream.toList.length := by
  simp only [index, stream, Stream.length_toList, List.length_append, List.length_reverse]
  omega

/-- The token at the cursor is the one at its index in the stream. -/
theorem getElem?_index (c : Cursor) : c.stream.toList[c.index]? = some c.current := by
  obtain ⟨behind, ahead, stop⟩ := c
  simp only [stream, Stream.toList, index, current, List.append_assoc]
  rw [List.getElem?_append_right (by simp)]
  cases ahead <;> simp

/-- The cursor is on the first token ahead. -/
theorem kind_of_ahead {c : Cursor} {t : Token} {ts : List Token} (h : c.ahead = t :: ts) :
    c.kind = t.kind := by
  rw [kind, current, h]
  rfl

theorem isNewline_iff {c : Cursor} {t : Token} {ts : List Token} (h : c.ahead = t :: ts) :
    t.isNewline = true ↔ c.kind = .newline := by
  rw [kind_of_ahead h, Token.isNewline, beq_iff_eq]

/-- Where the cursor is not on an end mark, there is a token ahead. -/
theorem ahead_ne_nil {c : Cursor} (h : c.kind ≠ .eof) : c.ahead ≠ [] := by
  intro hnil
  exact h (by simp [kind, current, hnil])

end Cursor

end SwitchScript
