import SwitchScript.Grammar.Budget
import SwitchScript.Proofs.Language.Span

/-!
# The word ahead

A run that is still valid never passes an end mark, so all it sees of its
stream is a word: the kinds of the tokens from the cursor on, up to the first
end mark. This file says what the steps of a run do to that word.
`Pass.Passes` relates two states between which the run has passed over a word;
the index tells how many tokens these are.
-/

namespace SwitchScript

/-- The kinds of the tokens before the first end mark. -/
def Stream.word (s : Stream) : List Kind := (s.tokens.map Token.kind).takeWhile (· != .eof)

/-- The kinds of the tokens ahead, up to the first end mark. -/
def Cursor.word (c : Cursor) : List Kind := (c.ahead.map Token.kind).takeWhile (· != .eof)

namespace Cursor

@[simp] theorem word_start (s : Stream) : (start s).word = s.word := rfl

theorem kind_eq_headD_word (c : Cursor) : c.kind = c.word.headD .eof := by
  obtain ⟨behind, ahead, stop⟩ := c
  cases ahead with
  | nil => rfl
  | cons t ts =>
      by_cases heof : t.kind = .eof
      · simp [kind, current, word, heof]
      · rw [word, List.map_cons, List.takeWhile_cons_of_pos (by simpa using heof)]
        rfl

theorem length_word_le (c : Cursor) : c.word.length ≤ c.ahead.length := by
  have hle := (List.takeWhile_sublist (p := (· != .eof)) (l := c.ahead.map Token.kind)).length_le
  rwa [List.length_map] at hle

theorem drop_takeWhile {α : Type _} {p : α → Bool} {n : Nat} :
    ∀ {l : List α}, n ≤ (l.takeWhile p).length →
      (l.drop n).takeWhile p = (l.takeWhile p).drop n := by
  induction n with
  | zero => exact fun _ => rfl
  | succ n ih =>
      intro l h
      cases l with
      | nil => rfl
      | cons x l =>
          rw [List.takeWhile_cons] at h ⊢
          split at h
          · rename_i hx
            rw [if_pos hx]
            exact ih (Nat.le_of_succ_le_succ h)
          · exact absurd h (by simp)

theorem word_forward {c : Cursor} {n : Nat} (h : n ≤ c.word.length) :
    (c.forward n).word = c.word.drop n := by
  rw [word, forward, List.map_drop, drop_takeWhile h]
  rfl

theorem index_forward_of_le {c : Cursor} {n : Nat} (h : n ≤ c.word.length) :
    (c.forward n).index = c.index + n := by
  have hle := c.length_word_le
  rw [index_forward]
  omega

/-- The line breaks at the cursor, counted in the word. -/
theorem length_takeWhile_isNewline (c : Cursor) :
    (c.ahead.takeWhile Token.isNewline).length = (c.word.takeWhile (· == .newline)).length := by
  obtain ⟨behind, ahead, stop⟩ := c
  simp only [word]
  induction ahead with
  | nil => rfl
  | cons t ts ih =>
      by_cases hnewline : t.kind = .newline
      · rw [List.takeWhile_cons_of_pos (by simpa [Token.isNewline] using hnewline), List.map_cons,
          List.takeWhile_cons_of_pos (by simp [hnewline]),
          List.takeWhile_cons_of_pos (by simpa using hnewline), List.length_cons, List.length_cons,
          ih]
      · rw [List.takeWhile_cons_of_neg (by simpa [Token.isNewline] using hnewline), List.map_cons,
          List.takeWhile_cons]
        split
        · rw [List.takeWhile_cons_of_neg (by simpa using hnewline)]
          rfl
        · rfl

end Cursor

namespace Pass

def word (p : Pass) : List Kind := p.cursor.word

/-- How many more constructs may be opened inside each other. -/
def room (p : Pass) : Nat := (p.limit - p.depth).toNat

/-- From one state to the other the run passes over a word. -/
structure Passes (p : Pass) (u : List Kind) (q : Pass) : Prop where
  word : p.word = u ++ q.word
  index : q.cursor.index = p.cursor.index + u.length

variable {p q r : Pass} {u v : List Kind}

theorem kind_eq_headD_word (p : Pass) : p.kind = p.word.headD .eof := p.cursor.kind_eq_headD_word

theorem Passes.refl (p : Pass) : p.Passes [] p := ⟨rfl, rfl⟩

theorem Passes.trans (h₁ : p.Passes u q) (h₂ : q.Passes v r) : p.Passes (u ++ v) r := by
  refine ⟨?_, ?_⟩
  · rw [h₁.word, h₂.word, List.append_assoc]
  · rw [h₂.index, h₁.index, List.length_append, Nat.add_assoc]

theorem passes_forward {n : Nat} (h : n ≤ p.word.length)
    (hq : q.cursor = p.cursor.forward n) : p.Passes (p.word.take n) q := by
  have hword : q.word = p.word.drop n := by
    rw [Pass.word, hq]
    exact Cursor.word_forward h
  refine ⟨?_, ?_⟩
  · rw [hword, List.take_append_drop]
  · rw [hq, Cursor.index_forward_of_le h, List.length_take, Nat.min_eq_left h]

theorem passes_advance (h : p.kind ≠ .eof) : p.Passes [p.kind] p.advance := by
  rw [kind_eq_headD_word] at h ⊢
  cases hw : p.word with
  | nil => exact absurd (by rw [hw]; rfl) h
  | cons k w =>
      have hpass := passes_forward (p := p) (q := p.advance) (n := 1)
        (by rw [hw]; exact Nat.succ_le_succ (Nat.zero_le _)) rfl
      rwa [hw] at hpass

theorem word_advance {k : Kind} {w : List Kind} (h : p.word = k :: w) : p.advance.word = w := by
  have hpass := passes_forward (p := p) (q := p.advance) (n := 1)
    (by rw [h]; exact Nat.succ_le_succ (Nat.zero_le _)) rfl
  have hword := hpass.word
  rw [h] at hword
  exact (List.cons.inj hword).2.symm

theorem passes_skipNewlines (p : Pass) :
    p.Passes (p.word.takeWhile (· == .newline)) p.skipNewlines := by
  have hpass := passes_forward (p := p) (q := p.skipNewlines)
    (List.takeWhile_sublist (p := (· == .newline)) (l := p.word)).length_le (by
      rw [skipNewlines, Cursor.skipNewlines, Cursor.length_takeWhile_isNewline]
      rfl)
  rwa [← List.prefix_iff_eq_take.mp (List.takeWhile_prefix _)] at hpass

theorem word_skipNewlines (p : Pass) :
    p.skipNewlines.word = p.word.dropWhile (· == .newline) := by
  exact (List.append_cancel_left
    (List.takeWhile_append_dropWhile.trans p.passes_skipNewlines.word)).symm

theorem kind_skipNewlines_ne (p : Pass) : p.skipNewlines.kind ≠ .newline := by
  rw [kind_eq_headD_word, word_skipNewlines]
  intro h
  cases hw : p.word.dropWhile (· == .newline) with
  | nil =>
      rw [hw] at h
      exact absurd h (by decide)
  | cons k w =>
      rw [hw, List.headD_cons] at h
      have hk := List.head_dropWhile_not (· == .newline) (l := p.word) (by rw [hw]; simp)
      simp [hw, h] at hk

/-- A construct that is not analysed is passed over as a whole. -/
theorem passes_skipConstruct (hvalid : p.valid = true) (hk : p.kind.opensIgnored = true) :
    ∃ u, p.Passes u p.skipConstruct ∧ Skipped u p.skipConstruct.word := by
  have hne : p.kind ≠ .eof := by
    intro h
    rw [h] at hk
    exact absurd hk (by decide)
  have hfirst := p.passes_advance hne
  have hle : skipLength 0 0 p.kind p.advance.cursor.ahead ≤ p.advance.word.length :=
    skipLength_le _ _ _ _
  have hskip : p.skipConstruct.cursor =
      p.advance.cursor.forward (skipLength 0 0 p.kind p.advance.cursor.ahead) := by
    simp only [skipConstruct]
    rw [if_pos (show p.notify.advance.valid = true from hvalid)]
    rfl
  have hrest := passes_forward hle hskip
  refine ⟨[p.kind] ++ _, hfirst.trans hrest, skipped_of_skipLength hk hrest.word ?_⟩
  show (p.advance.word.take _).length = _
  rw [List.length_take, Nat.min_eq_left hle]

end Pass

end SwitchScript
