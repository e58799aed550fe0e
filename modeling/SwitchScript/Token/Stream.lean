import SwitchScript.Token.Basic

/-!
# Token streams

A stream is a list of tokens with an end mark. The end mark is a field of its
own, so a stream has one by construction, and its kind is never in doubt; the
tokens before it may be of any kind.
-/

namespace SwitchScript

/-- Tokens and the lexeme of the end mark after them. -/
structure Stream where
  tokens : List Token
  stop : Lexeme
  deriving DecidableEq, Repr

/-- The end mark with its lexeme. -/
def Lexeme.asStop (x : Lexeme) : Token := ⟨x, .eof⟩

@[simp] theorem Lexeme.kind_asStop (x : Lexeme) : x.asStop.kind = .eof := rfl

namespace Stream

/-- All tokens, with the end mark as the last one. -/
def toList (s : Stream) : List Token :=
  s.tokens ++ [s.stop.asStop]

/-- A list of tokens as a stream, if it ends in an end mark. -/
def ofList? (ts : List Token) : Option Stream :=
  match ts.getLast? with
  | none => none
  | some last => if last.kind = .eof then some ⟨ts.dropLast, last.toLexeme⟩ else none

theorem length_toList (s : Stream) : s.toList.length = s.tokens.length + 1 := by
  simp [toList]

theorem ofList?_toList (s : Stream) : ofList? s.toList = some s := by
  simp [ofList?, toList, Lexeme.asStop]

theorem toList_injective : Function.Injective toList := fun s s' h => by
  rw [← Option.some.injEq, ← ofList?_toList s, h, ofList?_toList]

/-- The lists that are streams are the lists of streams. -/
theorem ofList?_eq_some_iff {ts : List Token} {s : Stream} :
    ofList? ts = some s ↔ ts = s.toList := by
  constructor
  · intro h
    unfold ofList? at h
    split at h
    · exact absurd h (by simp)
    · rename_i last hlast
      split at h
      · rename_i hkind
        obtain ⟨front, rfl⟩ := List.getLast?_eq_some_iff.mp hlast
        obtain rfl := Option.some.inj h
        simp [toList, Lexeme.asStop, ← hkind]
      · exact absurd h (by simp)
  · rintro rfl
    exact ofList?_toList s

end Stream

end SwitchScript
