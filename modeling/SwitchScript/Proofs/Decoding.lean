import Mathlib.Algebra.Ring.Nat
import Mathlib.Tactic.SplitIfs
import SwitchScript.Command.Session

/-!
# Texts are read as they were written

Strict decoding refuses many lists of bytes, but none that spells a text: the
bytes of any characters are decoded to these characters (`Utf8.decode_encode`).
So a stream hands on every text that was written to it, up to the ends of its
lines (`decodeSource_encode`).

A character above 127 is spelled by a first byte and by trailing ones of six bits
each. Once it is begun, the trailing bytes complete its code point from the left,
and what they have to be is kept in one place (`Begun.Awaits`). The range of the
first of them may be narrowed. That it is in there is a matter of which code
points there are, and of their being spelled as briefly as possible.
-/

namespace SwitchScript

namespace Text.Utf8

/-- The bytes that spell characters. -/
def encode (cs : List Char) : List UInt8 := cs.flatMap String.utf8EncodeChar

/-- The last bytes of a character with this code point, so many of them. -/
def trailing (code : Nat) : Nat → List UInt8
  | 0 => []
  | n + 1 => UInt8.ofNat (code / 64 ^ n % 64 + 0x80) :: trailing code n

/-- The character with this code point is begun, and so many bytes and one more
are owed, the next of which is in range. -/
structure Begun.Awaits (b : Begun) (code n : Nat) : Prop where
  owed : b.owed = n
  value : b.value = code / 64 ^ (n + 1)
  low : b.low ≤ code / 64 ^ n % 64 + 0x80
  high : code / 64 ^ n % 64 + 0x80 ≤ b.high

variable {offset code n : Nat} {before : List Char} {rest : List UInt8} {b : Begun}

theorem decodeFrom_trailing (h : b.Awaits code n) :
    decodeFrom offset (some b) before (trailing code (n + 1) ++ rest) =
      decodeFrom (offset + (n + 1)) none (Char.ofNat code :: before) rest := by
  have hsix (m : Nat) : code / 64 ^ m % 64 < 64 := Nat.mod_lt _ (by decide)
  have hbyte (m : Nat) :
      (UInt8.ofNat (code / 64 ^ m % 64 + 0x80)).toNat = code / 64 ^ m % 64 + 0x80 :=
    UInt8.toNat_ofNat_of_lt' (Nat.lt_trans (Nat.add_lt_add_right (hsix m) _) (by decide))
  have hcode (m : Nat) : code / 64 ^ (m + 1) * 0x40 + code / 64 ^ m % 64 = code / 64 ^ m := by
    rw [Nat.pow_succ, ← Nat.div_div_eq_div_mul]
    omega
  induction n generalizing offset b with
  | zero =>
      rw [trailing, List.cons_append, decodeFrom, hbyte, if_pos ⟨h.low, h.high⟩, h.owed, h.value,
        Nat.add_sub_cancel, hcode, Nat.pow_zero, Nat.div_one]
      rfl
  | succ n ih =>
      rw [trailing, List.cons_append, decodeFrom, hbyte, if_pos ⟨h.low, h.high⟩, h.owed, h.value,
        Nat.add_sub_cancel, hcode, Nat.add_comm (n + 1) 1, ← Nat.add_assoc]
      refine ih ⟨rfl, rfl, Nat.le_add_left _ _, ?_⟩
      exact Nat.le_of_lt_succ (Nat.add_lt_add_right (hsix n) _)

theorem decodeFrom_begun {byte : UInt8} (hbyte : 0x80 ≤ byte.toNat)
    (h : ∃ b, begin? offset byte = some b ∧ b.Awaits code n) :
    decodeFrom offset none before (byte :: trailing code (n + 1) ++ rest) =
      decodeFrom (offset + (n + 2)) none (Char.ofNat code :: before) rest := by
  obtain ⟨b, hbegin, hawaits⟩ := h
  rw [List.cons_append, decodeFrom, if_neg (Nat.not_lt.mpr hbyte), hbegin,
    show offset + (n + 2) = offset + 1 + (n + 1) by omega]
  exact decodeFrom_trailing hawaits

/-! ## First bytes -/

theorem begin?_of_two {byte : UInt8} (hbyte : byte.toNat = code / 64 % 32 + 0xC0)
    (hlow : 0x80 ≤ code) (hhigh : code < 0x800) :
    ∃ b, begin? offset byte = some b ∧ b.Awaits code 0 := by
  rw [begin?, hbyte, if_pos (by omega)]
  refine ⟨_, rfl, rfl, ?_, Nat.le_add_left _ _, ?_⟩
  · show code / 64 % 32 + 0xC0 - 0xC0 = code / 64 ^ 1
    omega
  · show _ ≤ 0xBF
    omega

theorem begin?_of_three {byte : UInt8} (hbyte : byte.toNat = code / 4096 % 16 + 0xE0)
    (hlow : 0x800 ≤ code) (hhigh : code < 0x10000) (hvalid : code < 0xD800 ∨ 0xDFFF < code) :
    ∃ b, begin? offset byte = some b ∧ b.Awaits code 1 := by
  rw [begin?, hbyte, if_neg (by omega), if_pos (by omega)]
  refine ⟨_, rfl, rfl, ?_, ?_, ?_⟩
  · show code / 4096 % 16 + 0xE0 - 0xE0 = code / 64 ^ 2
    omega
  -- code points below 2048 have fewer bytes
  · show (if _ then 0xA0 else 0x80) ≤ _
    split <;> omega
  -- surrogates are no characters
  · show _ ≤ if _ then 0x9F else 0xBF
    split <;> omega

theorem begin?_of_four {byte : UInt8} (hbyte : byte.toNat = code / 262144 % 8 + 0xF0)
    (hlow : 0x10000 ≤ code) (hhigh : code < 0x110000) :
    ∃ b, begin? offset byte = some b ∧ b.Awaits code 2 := by
  rw [begin?, hbyte, if_neg (by omega), if_neg (by omega), if_pos (by omega)]
  refine ⟨_, rfl, rfl, ?_, ?_, ?_⟩
  · show code / 262144 % 8 + 0xF0 - 0xF0 = code / 64 ^ 3
    omega
  · show (if _ then 0x90 else 0x80) ≤ _
    split <;> omega
  · show _ ≤ if _ then 0x8F else 0xBF
    split <;> omega

/-! ## Characters -/

theorem encodeChar_eq (c : Char) : String.utf8EncodeChar c =
    if c.toNat ≤ 0x7F then [UInt8.ofNat c.toNat]
    else if c.toNat ≤ 0x7FF then UInt8.ofNat (c.toNat / 64 % 32 + 0xC0) :: trailing c.toNat 1
    else if c.toNat ≤ 0xFFFF then UInt8.ofNat (c.toNat / 4096 % 16 + 0xE0) :: trailing c.toNat 2
    else UInt8.ofNat (c.toNat / 262144 % 8 + 0xF0) :: trailing c.toNat 3 := by
  simp [String.utf8EncodeChar, trailing]

/-- A character is read from the bytes that spell it. -/
theorem decodeFrom_encodeChar (c : Char) : ∃ size,
    decodeFrom offset none before (String.utf8EncodeChar c ++ rest) =
      decodeFrom (offset + size) none (c :: before) rest := by
  have hchar : Char.ofNat c.toNat = c := Char.ofNat_toNat c
  have hvalid : c.toNat < 0xD800 ∨ 0xDFFF < c.toNat ∧ c.toNat < 0x110000 := c.valid
  have hbyte {n : Nat} (h : n < 0x100) : (UInt8.ofNat n).toNat = n := UInt8.toNat_ofNat_of_lt' h
  rw [encodeChar_eq]
  generalize c.toNat = code at hchar hvalid ⊢
  rw [← hchar]
  split_ifs with hone htwo hthree
  · refine ⟨1, ?_⟩
    rw [List.singleton_append, decodeFrom, hbyte (by omega), if_pos (by omega)]
  · have hfirst := hbyte (n := code / 64 % 32 + 0xC0) (by omega)
    exact ⟨2, decodeFrom_begun (by omega) (begin?_of_two hfirst (by omega) (by omega))⟩
  · have hfirst := hbyte (n := code / 4096 % 16 + 0xE0) (by omega)
    exact ⟨3, decodeFrom_begun (by omega)
      (begin?_of_three hfirst (by omega) (by omega) (by omega))⟩
  · have hfirst := hbyte (n := code / 262144 % 8 + 0xF0) (by omega)
    exact ⟨4, decodeFrom_begun (by omega) (begin?_of_four hfirst (by omega) (by omega))⟩

theorem decodeFrom_encode (cs : List Char) :
    decodeFrom offset none before (encode cs) = .ok (before.reverse ++ cs) := by
  induction cs generalizing offset before with
  | nil => rw [List.append_nil, encode, List.flatMap_nil, decodeFrom]
  | cons c cs ih =>
      obtain ⟨size, hchar⟩ : ∃ size,
          decodeFrom offset none before (String.utf8EncodeChar c ++ encode cs) =
            decodeFrom (offset + size) none (c :: before) (encode cs) := decodeFrom_encodeChar c
      rw [encode, List.flatMap_cons, ← encode, hchar, ih, List.reverse_cons, List.append_assoc]
      rfl

/-- Decoding undoes encoding. -/
theorem decode_encode (cs : List Char) : decode (encode cs) = .ok cs :=
  decodeFrom_encode cs

end Text.Utf8

namespace Command

/-- Every text can be read from a stream. If the stream keeps the ends of lines,
then it is handed on as it was written. -/
theorem decodeSource_encode (ends : Text.LineEnds) (text : String) :
    decodeSource ends (Text.Utf8.encode text.toList) =
      .ok (String.ofList (ends.handOn text.toList)) := by
  rw [decodeSource, Text.Utf8.decode_encode]

/-- A script that was read from a file has no carriage returns. -/
theorem sourceOfFile_notMem {path text : String} {content : Except SystemFault Bytes}
    (h : sourceOfFile path content = .ok text) : '\r' ∉ text.toList := by
  cases content with
  | error fault => exact absurd h (by simp [sourceOfFile])
  | ok bytes =>
      rw [sourceOfFile, decodeSource] at h
      split at h
      · exact absurd h (by simp)
      · obtain rfl := Except.ok.inj h
        rw [String.toList_ofList]
        exact Text.not_mem_unifyBreaks _

end Command

end SwitchScript
