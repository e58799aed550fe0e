import SwitchScript.Proofs.KindsDecide
import SwitchScript.Proofs.Pieces.Places

/-!
# Layout inside a line

Between two pieces there may be any blanks, and before the end of a line there
may be a comment. Layout that is put in there moves what comes after it on the
same line to the right, and this is all that it does to a check (`layout_free`).

Two facts about scans make this up. A text is read the same from any place, so
what is found from a place on and what is found from a moved place on differ by
that move (`Findings.ofText_moved`). And the piece before the layout is still
the same piece (`Findings.ofText_before_layout`): layout begins with a character
that no piece takes in, but for a comment or blanks, which may as well be longer,
and a quoted text that was left open, which is ruled out.

What is moved keeps its kind, so the rest is left to the fact that a run reads
nothing but kinds.
-/

namespace SwitchScript

/-! ## Moving to the right -/

/-- A place from `q` on that is on its line is moved to the right. -/
def Position.moved (p q : Position) (n : Nat) : Position :=
  if p.line = q.line ∧ q.column ≤ p.column then p.right n else p

def Token.moved (q : Position) (n : Nat) (t : Token) : Token :=
  { t with position := t.position.moved q n }

def LexicalError.moved (q : Position) (n : Nat) (e : LexicalError) : LexicalError :=
  { e with position := e.position.moved q n }

namespace Position

variable {n : Nat} {p q : Position}

theorem moved_self (q : Position) (n : Nat) : q.moved q n = q.right n :=
  if_pos ⟨rfl, Int.le_refl _⟩

theorem moved_of_before (h : p.Before q) : p.moved q n = p := by
  refine if_neg fun hon => ?_
  unfold Before at h
  omega

theorem moved_of_line_lt (h : q.line < p.line) : p.moved q n = p :=
  if_neg fun hon => by omega

/-- From a moved place a character leads to a moved place. -/
theorem past_moved (h : ¬ p.Before q) (text : List Char) :
    (p.moved q n).past text = (p.past text).moved q n ∧ ¬ (p.past text).Before q := by
  induction text generalizing p with
  | nil => exact ⟨rfl, h⟩
  | cons c text ih =>
      have hplace : q.line < p.line ∨ p.line = q.line ∧ q.column ≤ p.column := by
        unfold Before at h
        omega
      rw [past, past]
      split
      · -- on a later line nothing is moved
        have hlater : q.line < p.nextLine.line := by
          show q.line < p.line + 1
          omega
        have hnext : (p.moved q n).nextLine = p.nextLine.moved q n := by
          rw [moved_of_line_lt hlater, moved]
          split <;> rfl
        rw [hnext]
        refine ih fun hbefore => ?_
        unfold Before at hbefore
        omega
      · have hnext : (p.moved q n).right 1 = (p.right 1).moved q n := by
          rcases hplace with hline | ⟨hline, hcolumn⟩
          · rw [moved_of_line_lt hline, moved_of_line_lt (p := p.right 1) hline]
          · have hcolumn' : q.column ≤ (p.right 1).column := by
              show q.column ≤ p.column + 1
              omega
            rw [moved, moved, if_pos ⟨hline, hcolumn⟩, if_pos ⟨hline, hcolumn'⟩, right_right,
              right_right, Nat.add_comm]
        rw [hnext]
        refine ih fun hbefore => ?_
        simp only [Before, right] at hbefore
        omega

end Position

namespace Findings

def moved (q : Position) (n : Nat) (f : Findings) : Findings where
  tokens := f.tokens.map (Token.moved q n)
  errors := f.errors.map (LexicalError.moved q n)
  stop := f.stop.moved q n

variable {n : Nat} {p q : Position}

theorem prepend_moved (y : Yield) (f : Findings) :
    (f.moved q n).prepend (p.moved q n) y = (f.prepend p y).moved q n := by
  simp only [prepend, moved, List.map_append, Yield.tokenAt?, Yield.errorAt?]
  cases y.token? <;> cases y.fault? <;> rfl

/-- What is found from a moved place on is moved. -/
theorem ofText_moved (h : ¬ p.Before q) (cs : List Char) :
    ofText (p.moved q n) cs = (ofText p cs).moved q n := by
  induction cs using Munch.induction generalizing p with
  | nil => rfl
  | @piece text rest y hmunch ih =>
      obtain ⟨hpast, hplace⟩ := Position.past_moved h text
      rw [ofText_munch hmunch, ofText_munch hmunch, hpast, ih hplace, prepend_moved]

end Findings

/-! ## Layout -/

/-- What may be put before a text without a change to it: blanks, and a comment
if the line ends there. -/
def IsLayout (gap after : List Char) : Prop :=
  (∀ c ∈ gap, isBlank c = true) ∨ gap.head? = some '#' ∧ '\n' ∉ gap ∧ Piece.AtLineEnd after

namespace IsLayout

variable {gap after : List Char}

theorem notMem (h : IsLayout gap after) : '\n' ∉ gap := by
  rcases h with hblank | ⟨-, hline, -⟩
  · exact fun hmem => absurd (hblank _ hmem) (by decide)
  · exact hline

theorem parted (h : IsLayout gap after) (hne : gap ≠ []) : Parted (gap ++ after) := by
  obtain ⟨c, gap, rfl⟩ := List.exists_cons_of_ne_nil hne
  rcases h with hblank | ⟨hmark, -⟩
  · exact parted_cons (.inl (hblank c List.mem_cons_self)) _
  · exact parted_cons (.inr (.inr (.inr (Option.some.inj hmark)))) _

end IsLayout

namespace Findings

variable {p : Position} {gap after text : List Char} {y : Yield}

/-- A comment up to the end of the line, whatever is in it. -/
theorem ofText_comment (hline : '\n' ∉ text) (hmark : text.head? = some '#')
    (hend : Piece.AtLineEnd after) (p : Position) :
    ofText p (text ++ after) = ofText (p.right text.length) after := by
  obtain ⟨body, rfl⟩ := List.head?_eq_some_iff.mp hmark
  have hrun : Piece.Run (· != '\n') body after := by
    refine ⟨fun c hc => bne_iff_ne.mpr ?_, hend.stops rfl⟩
    rintro rfl
    exact List.not_mem_of_not_mem_cons hline hc
  rw [ofText_munch (.comment hrun), prepend_silent, Position.past_of_notMem hline]

/-- Layout does nothing but move the place. -/
theorem ofText_layout (h : IsLayout gap after) (p : Position) :
    ofText p (gap ++ after) = ofText (p.right gap.length) after := by
  rcases h with hblank | ⟨hmark, hline, hend⟩
  · exact ofText_blanks hblank p after
  · exact ofText_comment hline hmark hend p

/-- The piece before the layout stays the same, or is layout itself. -/
theorem ofText_before_layout (hmunch : Munch text after y)
    (hclosed : y.fault? ≠ some .unterminatedString) (hgap : IsLayout gap after) (p : Position) :
    ofText p (text ++ (gap ++ after)) = (ofText (p.past text) (gap ++ after)).prepend p y := by
  by_cases hnil : gap = []
  · rw [hnil, List.nil_append]
    exact ofText_munch hmunch p
  by_cases hy : y.EndsItself
  · exact ofText_munch (hmunch.parted hy (hgap.parted hnil)) p
  cases hmunch with
  | @comment body _ hrun =>
      have hend : Piece.AtLineEnd after := fun c hc => by simpa using hrun.stops c hc
      have hline : '\n' ∉ '#' :: body :=
        List.not_mem_cons_of_ne_of_not_mem (by decide) (hrun.notMem rfl)
      rw [prepend_silent, Position.past_of_notMem hline, ofText_layout hgap, ← List.append_assoc,
        ofText_comment (List.not_mem_append hline hgap.notMem) rfl hend, List.length_append,
        Position.right_right]
  | blank hrun =>
      rw [prepend_silent, Position.past_of_notMem (hrun.notMem rfl)]
      exact ofText_blanks hrun.inside p _
  | unclosed => exact absurd rfl hclosed
  | _ => exact absurd ⟨by simp, hclosed⟩ hy

end Findings

/-! ## Between two pieces -/

theorem Piece.source_ne_nil_of_mem {cs : List Char} {x : Piece} (hx : x ∈ ofText cs) :
    x.source ≠ [] := by
  have hpart : (x.source, x.yield) ∈ parts cs := List.mem_map_of_mem hx
  exact ne_nil_of_mem_parts hpart

/-- A piece is not changed by layout that is put in somewhere behind it. -/
theorem Findings.ofText_ahead {text rest gap : List Char} {y : Yield} {before after : List Piece}
    (hmunch : Munch text rest y) (hrest : Piece.ofText rest = before ++ after)
    (hclosed : before = [] → y.fault? ≠ some .unterminatedString)
    (hgap : IsLayout gap (after.flatMap Piece.source)) (p : Position) :
    ofText p (text ++ (before.flatMap Piece.source ++ (gap ++ after.flatMap Piece.source))) =
      (ofText (p.past text) (before.flatMap Piece.source ++
        (gap ++ after.flatMap Piece.source))).prepend p y := by
  have hsource := Piece.flatMap_source rest
  rw [hrest, List.flatMap_append] at hsource
  cases before with
  | nil =>
      rw [← hsource] at hmunch
      exact ofText_before_layout hmunch (hclosed rfl) hgap p
  | cons x before =>
      have hmem : x ∈ Piece.ofText rest := by
        rw [hrest]
        exact List.mem_cons_self
      have hne := Piece.source_ne_nil_of_mem hmem
      refine ofText_munch (hmunch.congr ?_) p
      rw [← hsource, List.flatMap_cons, List.append_assoc, List.append_assoc,
        List.head?_append_of_ne_nil _ hne, List.head?_append_of_ne_nil _ hne]

/-- Layout between two pieces of a text moves all that comes after it on the
same line. -/
theorem Findings.ofText_insert {cs gap : List Char} {before after : List Piece}
    (hpieces : Piece.ofText cs = before ++ after)
    (hclosed : ∀ x ∈ before.getLast?, x.fault? ≠ some .unterminatedString)
    (hgap : IsLayout gap (after.flatMap Piece.source)) (p : Position) :
    ofText p (before.flatMap Piece.source ++ (gap ++ after.flatMap Piece.source)) =
      (ofText p cs).moved (p.past (before.flatMap Piece.source)) gap.length := by
  induction before generalizing cs p with
  | nil =>
      have hcs := Piece.flatMap_source cs
      rw [hpieces, List.nil_append] at hcs
      have hself : ¬ p.Before p := by
        unfold Position.Before
        omega
      rw [List.flatMap_nil, List.nil_append, ofText_layout hgap, Position.past,
        ← Position.moved_self, ofText_moved hself, hcs]
  | cons x before ih =>
      cases cs with
      | nil => exact absurd hpieces (by simp)
      | cons c rest =>
          rw [Piece.ofText_cons, List.cons_append] at hpieces
          obtain ⟨rfl, hrest⟩ := List.cons.inj hpieces
          have hmunch := Piece.munch_cut c rest
          have hfirst := ofText_munch hmunch p
          rw [Piece.cut_source] at hfirst
          have hlast :
              before = [] → (Piece.cut c rest).1.yield.fault? ≠ some .unterminatedString := by
            rintro rfl
            exact hclosed _ rfl
          -- the place before the layout is a later one, so the piece itself is not moved
          have hbefore : p.Before (p.past ((Piece.cut c rest).1.source ++
              before.flatMap Piece.source)) :=
            Position.before_past (List.append_ne_nil_of_left_ne_nil
              (Piece.cut_source_ne_nil c rest) _) p
          rw [List.flatMap_cons, List.append_assoc, ofText_ahead hmunch hrest hlast hgap,
            ih hrest (fun y hy => hclosed y (List.mem_getLast?_cons hy)), hfirst,
            ← Position.past_append, ← prepend_moved, Position.moved_of_before hbefore]

/-- The text of two lists of pieces with a gap between them. -/
def withGap (before : List Piece) (gap : List Char) (after : List Piece) : String :=
  String.ofList (before.flatMap Piece.source ++ (gap ++ after.flatMap Piece.source))

theorem toList_withGap (before : List Piece) (gap : List Char) (after : List Piece) :
    (withGap before gap after).toList =
      before.flatMap Piece.source ++ (gap ++ after.flatMap Piece.source) :=
  String.toList_ofList

section

variable {source : String} {before after : List Piece} {gap : List Char}

/-- What is found in a script with a gap is moved. -/
theorem Findings.ofText_withGap (hpieces : Piece.ofText source.toList = before ++ after)
    (hclosed : ∀ x ∈ before.getLast?, x.fault? ≠ some .unterminatedString)
    (hgap : IsLayout gap (after.flatMap Piece.source)) :
    ofText .origin (withGap before gap after).toList =
      (ofText .origin source.toList).moved (.after (before.flatMap Piece.source)) gap.length := by
  have hinsert := ofText_insert hpieces hclosed hgap (.after [])
  rwa [Position.past_after, List.nil_append, Position.after_nil, ← toList_withGap] at hinsert

/-- Layout inside a line makes no difference. With layout put in between two
pieces of a script, but not after a quoted text that was left open, there are
the same tokens, lexical errors, syntax errors and notices, all about what they
were about; what comes after the layout on its line is moved by its length, and
nothing else is. -/
theorem Scan.layout_free (hpieces : Piece.ofText source.toList = before ++ after)
    (hclosed : ∀ x ∈ before.getLast?, x.fault? ≠ some .unterminatedString)
    (hgap : IsLayout gap (after.flatMap Piece.source)) :
    let move := Token.moved (.after (before.flatMap Piece.source)) gap.length
    let moveError := LexicalError.moved (.after (before.flatMap Piece.source)) gap.length
    let loose := withGap before gap after
    (ofSource loose).tokens = (ofSource source).tokens.map move ∧
      (ofSource loose).errors = (ofSource source).errors.map moveError ∧
      ∀ (name : String) (limit : Int),
        let found := Pass.ofStream (ofSource source).stream limit
        (Check.ofSource loose name limit).ok = (Check.ofSource source name limit).ok ∧
        (Check.ofSource loose name limit).notices.length =
          (Check.ofSource source name limit).notices.length ∧
        (Check.ofSource source name limit).syntaxErrors =
          found.errors.map Diagnostic.describe ∧
        (Check.ofSource loose name limit).syntaxErrors =
          (found.errors.map (.mapToken move)).map Diagnostic.describe := by
  have hfound := Findings.ofText_withGap hpieces hclosed hgap
  have htokens : (ofSource (withGap before gap after)).tokens = (ofSource source).tokens.map
      (.moved (.after (before.flatMap Piece.source)) gap.length) := by
    rw [Findings.tokens_ofSource, Findings.tokens_ofSource, hfound, Findings.closed,
      Findings.closed, List.map_append]
    rfl
  have herrors : (ofSource (withGap before gap after)).errors = (ofSource source).errors.map
      (.moved (.after (before.flatMap Piece.source)) gap.length) := by
    rw [Findings.errors_ofSource, Findings.errors_ofSource, hfound]
    rfl
  refine ⟨htokens, herrors, fun name limit => ?_⟩
  have hkind : ∀ t ∈ (ofSource source).stream.toList,
      (t.moved (.after (before.flatMap Piece.source)) gap.length).kind = t.kind := fun _ _ => rfl
  have hpass := Pass.errors_of_map hkind htokens limit
  have hnotices := Pass.notices_of_map hkind htokens limit
  have hverdict : (Pass.ofStream (ofSource (withGap before gap after)).stream limit).verdict? =
      (Pass.ofStream (ofSource source).stream limit).verdict? :=
    Pass.verdict?_congr (by rw [hpass, List.length_map])
  simp only [Check.ofSource, Check.ofRun, herrors, hverdict, hpass, hnotices, List.isEmpty_map,
    List.length_map, and_self]

end

/-- An assignment with a stray character, and nothing assigned on the next line. -/
def crampedLine : String := "x=2$\ny="

def crampedPieces : List Piece := Piece.ofText crampedLine.toList

theorem Scan.layout_free_crampedLine :
    withGap (crampedPieces.take 2) [' ', '\t'] (crampedPieces.drop 2) = "x= \t2$\ny=" ∧
      withGap (crampedPieces.take 4) ['#', '$'] (crampedPieces.drop 4) = "x=2$#$\ny=" ∧
      (ofSource "x= \t2$\ny=").errors = [⟨⟨1, 6⟩, .unexpectedCharacter '$'⟩] ∧
      (ofSource "x=2$#$\ny=").errors = [⟨⟨1, 4⟩, .unexpectedCharacter '$'⟩] ∧
      (Check.ofSource "x= \t2$\ny=" "" 1).syntaxErrors =
        ["line 2, column 3: invalid expression (found '')"] := by
  have hpieces : ∀ n, Piece.ofText crampedLine.toList =
      crampedPieces.take n ++ crampedPieces.drop n := fun n => (List.take_append_drop n _).symm
  have hblanks : IsLayout [' ', '\t'] ((crampedPieces.drop 2).flatMap Piece.source) :=
    .inl (List.all_eq_true.mp (by decide))
  have hbreak : (crampedPieces.drop 4).flatMap Piece.source = ['\n', 'y', '='] := by
    decide +kernel
  have hcomment : IsLayout ['#', '$'] ((crampedPieces.drop 4).flatMap Piece.source) := by
    rw [hbreak]
    exact .inr ⟨rfl, by decide, Piece.atLineEnd_lineFeed _⟩
  have hblanked := layout_free (hpieces 2) (by decide +kernel) hblanks
  have hcommented := layout_free (hpieces 4) (by decide +kernel) hcomment
  have hblankText : withGap (crampedPieces.take 2) [' ', '\t'] (crampedPieces.drop 2) =
      "x= \t2$\ny=" := by decide +kernel
  have hcommentText : withGap (crampedPieces.take 4) ['#', '$'] (crampedPieces.drop 4) =
      "x=2$#$\ny=" := by decide +kernel
  rw [hblankText] at hblanked
  rw [hcommentText] at hcommented
  refine ⟨hblankText, hcommentText, ?_, ?_, ?_⟩
  · exact hblanked.2.1.trans (by decide +kernel)
  · exact hcommented.2.1.trans (by decide +kernel)
  · exact (hblanked.2.2 "" 1).2.2.2.trans (by decide +kernel)

end SwitchScript
