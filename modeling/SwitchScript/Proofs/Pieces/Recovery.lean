import SwitchScript.Check
import SwitchScript.Proofs.Pieces.Findings

/-!
# Recovery is local

A character that starts no piece is reported and left out, and so is what is
glued to a number. Each of them could as well have been a space: with spaces in
their place (`mend`), a script has the same tokens at the same places, and of its
errors only the quoted texts without a closing mark are left.

The spaces stand where other characters stood, so a piece before them gets
another neighbour. That is harmless (`head?_mendText`): a space ends all that
ends by itself, and what only ends with its line is never followed by a reported
character.
-/

namespace SwitchScript

open Piece

/-! ## Spaces in the place of faults -/

namespace Yield

/-- The source of a piece, with spaces where it is at fault: for an unexpected
character, and for the tail of a number, which is what follows the numeral in the
run that was reported. -/
def mended (text : List Char) : Yield → List Char
  | ⟨_, some (.unexpectedCharacter _)⟩ => [' ']
  | ⟨some (_, numeral), some (.malformedNumber whole)⟩ =>
      numeral.toList ++ List.replicate (whole.length - numeral.toList.length) ' '
  | _ => text

/-- What is left to tell when a piece is mended. -/
def forgiven (y : Yield) : Yield :=
  ⟨y.token?, y.fault?.filter fun fault => fault = .unterminatedString⟩

end Yield

/-- A text with a space for each character that a scan of it reports as
unexpected or in the tail of a malformed number. -/
def mendText (cs : List Char) : List Char :=
  (parts cs).flatMap fun x => x.2.mended x.1

def mend (source : String) : String := String.ofList (mendText source.toList)

theorem mendText_append {text rest : List Char} {y : Yield} (h : Munch text rest y) :
    mendText (text ++ rest) = y.mended text ++ mendText rest := by
  have hparts := (Munches.cons h (munches_parts rest)).eq_parts
  rw [mendText, ← hparts, List.flatMap_cons, ← mendText]

example : mendText ['1', '.', '2', '.', 'x', '+', '$', '"', '$'] =
    ['1', '.', '2', ' ', ' ', '+', ' ', '"', '$'] := by
  decide

/-- In a number, faulty or not, what is glued to the numeral becomes spaces. -/
theorem mended_number (k : Kind) (numeral whole : List Char) :
    Yield.mended whole ⟨some (k, String.ofList numeral),
        if numeral = whole then none else some (.malformedNumber whole)⟩ =
      numeral ++ List.replicate (whole.length - numeral.length) ' ' := by
  by_cases h : numeral = whole
  · rw [if_pos h, h, Nat.sub_self]
    exact (List.append_nil whole).symm
  · rw [if_neg h]
    simp [Yield.mended]

theorem forgiven_number (t : Option (Kind × String)) (numeral whole : List Char) :
    Yield.forgiven ⟨t, if numeral = whole then none else some (.malformedNumber whole)⟩ =
      ⟨t, none⟩ := by
  split <;> rfl

/-- A text keeps its first character if it is mended, or gets a space where the
line goes on. -/
theorem head?_mendText (cs : List Char) :
    (mendText cs).head? = cs.head? ∨ Parted (mendText cs) ∧ ¬ AtLineEnd cs := by
  induction cs using Munch.induction with
  | nil => exact .inl rfl
  | @piece text rest y h _ =>
      rw [mendText_append h]
      cases h with
      | number _ _ hnumeral =>
          rw [mended_number]
          obtain ⟨d, digits, rfl, -⟩ := hnumeral.numeral.exists_cons
          obtain ⟨rfl, -⟩ := List.cons_prefix_cons.mp hnumeral.begins
          exact .inl rfl
      | @stray c _ hsign _ =>
          exact .inr ⟨parted_cons (.inl rfl) _, fun hend => hsign.notLineBreak (hend c rfl)⟩
      | operator hentry _ =>
          obtain ⟨c, more, rfl⟩ := List.exists_cons_of_ne_nil (ne_nil_of_mem_operators hentry)
          exact .inl rfl
      | _ => exact .inl rfl

theorem harmless_mendText (cs : List Char) : Harmless cs (mendText cs) :=
  (head?_mendText cs).imp_right And.left

theorem Piece.AtLineEnd.mendText {cs : List Char} (h : AtLineEnd cs) : AtLineEnd (mendText cs) :=
  (head?_mendText cs).elim (fun hnext c hc => h c (hnext ▸ hc)) fun hparted => absurd h hparted.2

namespace Findings

/-- Findings with nothing but quoted texts left open for errors. -/
def mended (f : Findings) : Findings :=
  { f with errors := f.errors.filter fun e => e.fault = .unterminatedString }

theorem mended_prepend (p : Position) (y : Yield) (f : Findings) :
    (f.prepend p y).mended = f.mended.prepend p y.forgiven := by
  have herrors : (y.errorAt? p).toList.filter (fun e => e.fault = .unterminatedString) =
      (y.forgiven.errorAt? p).toList := by
    simp only [Yield.errorAt?, Yield.forgiven]
    cases y.fault? with
    | none => rfl
    | some fault => cases fault <;> rfl
  rw [prepend, mended, prepend, mended, List.filter_append, herrors]
  rfl

/-- A mended piece yields what is left to tell of the piece. -/
theorem ofText_mended {text rest rest' : List Char} {y : Yield} (h : Munch text rest y)
    (hnext : Harmless rest rest') (hend : AtLineEnd rest → AtLineEnd rest') (p : Position) :
    ofText p (y.mended text ++ rest') = (ofText (p.past text) rest').prepend p y.forgiven := by
  have hself := h
  cases h with
  | comment hrun =>
      have hline : AtLineEnd rest := fun c hc => by simpa using hrun.stops c hc
      exact ofText_munch (hself.atLineEnd (hend hline)) p
  | unclosed _ _ hline => exact ofText_munch (hself.atLineEnd (hend hline)) p
  | blank hrun =>
      rw [Position.past_of_notMem (hrun.notMem rfl)]
      exact ofText_blanks hrun.inside p rest'
  | stray hsign _ =>
      rw [Position.past_of_notMem fun hmem => hsign.notLineBreak (List.mem_singleton.mp hmem).symm]
      exact ofText_spaces 1 p rest'
  | @number c more _ numeral _ hrun hnumeral =>
      have hstops := (hnext.spaces ((c :: more).length - numeral.length)).notNumberTail hrun
      rw [mended_number, forgiven_number, List.append_assoc, ofText_munch (hnumeral.munch hstops),
        ofText_spaces, hnumeral.past hrun]
  | lineBreak | closed | word | operator =>
      exact ofText_munch (hself.change ⟨by simp, by simp⟩ hnext) p

theorem ofText_mendText (p : Position) (cs : List Char) :
    ofText p (mendText cs) = (ofText p cs).mended := by
  induction cs using Munch.induction generalizing p with
  | nil => rfl
  | @piece text rest y h ih =>
      rw [mendText_append h, ofText_mended h (harmless_mendText rest) AtLineEnd.mendText,
        ofText_munch h, ih, mended_prepend]

end Findings

/-- Recovery is local. Where the reported characters of a script and the tails of
its malformed numbers are replaced by spaces, the scan has the same tokens at the
same places, and of the errors those about quoted texts that were left open. So a
check of either script makes the same remarks on its syntax. -/
theorem Scan.recovery_local (source : String) :
    (ofSource (mend source)).tokens = (ofSource source).tokens ∧
    (ofSource (mend source)).errors =
      (ofSource source).errors.filter (fun e => e.fault = .unterminatedString) ∧
    ∀ (name : String) (limit : Int),
      (Check.ofSource (mend source) name limit).syntaxErrors =
        (Check.ofSource source name limit).syntaxErrors ∧
      (Check.ofSource (mend source) name limit).notices =
        (Check.ofSource source name limit).notices := by
  have hfound := Findings.ofText_mendText .origin source.toList
  have htokens : (ofSource (mend source)).tokens = (ofSource source).tokens := by
    rw [Findings.tokens_ofSource, Findings.tokens_ofSource, mend, String.toList_ofList, hfound]
    rfl
  have hstream := Stream.toList_injective htokens
  refine ⟨htokens, ?_, fun name limit => ?_⟩
  · rw [Findings.errors_ofSource, Findings.errors_ofSource, mend, String.toList_ofList, hfound]
    rfl
  · simp only [Check.ofSource, Check.ofRun, hstream, and_self]

end SwitchScript
