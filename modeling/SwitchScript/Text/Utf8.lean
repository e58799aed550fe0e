import SwitchScript.Text.Quoted

/-!
# Reading UTF-8

Scripts are stored as UTF-8. Decoding is strict, and where it fails it names
the bytes that are at fault: a byte that can start no character, a begun
character that the next byte does not continue, or one that the text ends in.
-/

namespace SwitchScript.Text.Utf8

inductive Reason
  | invalidStart
  | invalidContinuation
  | unexpectedEnd
  deriving DecidableEq, Repr

def Reason.message : Reason → String
  | invalidStart => "invalid start byte"
  | invalidContinuation => "invalid continuation byte"
  | unexpectedEnd => "unexpected end of data"

/-- Bytes that are no character. They are never none, so the first one stands
apart. -/
structure Fault where
  offset : Nat
  first : UInt8
  /-- The number of bytes after the first one. -/
  more : Nat
  reason : Reason
  deriving DecidableEq, Repr

def Fault.message (f : Fault) : String :=
  let place :=
    if f.more = 0 then
      "byte 0x" ++ String.ofList (hexDigits 2 f.first.toNat) ++ " in position " ++
        toString f.offset
    else
      "bytes in position " ++ toString f.offset ++ "-" ++ toString (f.offset + f.more)
  "'utf-8' codec can't decode " ++ place ++ ": " ++ f.reason.message

structure Begun where
  /-- The index of its first byte. -/
  offset : Nat
  first : UInt8
  /-- The number of bytes read after the first one. -/
  more : Nat
  /-- The number of bytes still owed, less one. -/
  owed : Nat
  /-- The least and the greatest value of the next byte. -/
  low : Nat
  high : Nat
  /-- The code point so far. -/
  value : Nat
  deriving DecidableEq, Repr

def Begun.fault (b : Begun) (reason : Reason) : Fault :=
  ⟨b.offset, b.first, b.more, reason⟩

/-- The character that a byte above 127 begins. The range of the second byte is
narrowed where it would spell a code point that is too small, too large or a
surrogate. -/
def begin? (offset : Nat) (byte : UInt8) : Option Begun :=
  let n := byte.toNat
  if 0xC2 ≤ n ∧ n ≤ 0xDF then some ⟨offset, byte, 0, 0, 0x80, 0xBF, n - 0xC0⟩
  else if 0xE0 ≤ n ∧ n ≤ 0xEF then
    some ⟨offset, byte, 0, 1, if n = 0xE0 then 0xA0 else 0x80, if n = 0xED then 0x9F else 0xBF,
      n - 0xE0⟩
  else if 0xF0 ≤ n ∧ n ≤ 0xF4 then
    some ⟨offset, byte, 0, 2, if n = 0xF0 then 0x90 else 0x80, if n = 0xF4 then 0x8F else 0xBF,
      n - 0xF0⟩
  else none

/-- Decodes the bytes from index `offset` on, after a begun character if there
is one. The characters before them are held in reverse order. -/
def decodeFrom (offset : Nat) (begun : Option Begun) (before : List Char) :
    List UInt8 → Except Fault (List Char)
  | [] =>
    match begun with
    | none => .ok before.reverse
    | some b => .error (b.fault .unexpectedEnd)
  | byte :: rest =>
    match begun with
    | none =>
      if byte.toNat < 0x80 then
        decodeFrom (offset + 1) none (Char.ofNat byte.toNat :: before) rest
      else
        match begin? offset byte with
        | none => .error ⟨offset, byte, 0, .invalidStart⟩
        | some b => decodeFrom (offset + 1) (some b) before rest
    | some b =>
      if b.low ≤ byte.toNat ∧ byte.toNat ≤ b.high then
        let value := b.value * 0x40 + (byte.toNat - 0x80)
        match b.owed with
        | 0 => decodeFrom (offset + 1) none (Char.ofNat value :: before) rest
        | owed + 1 =>
          decodeFrom (offset + 1)
            (some { b with more := b.more + 1, owed, low := 0x80, high := 0xBF, value }) before rest
      else .error (b.fault .invalidContinuation)

/-- The characters that the bytes encode. -/
def decode (bytes : List UInt8) : Except Fault (List Char) :=
  decodeFrom 0 none [] bytes

end SwitchScript.Text.Utf8
