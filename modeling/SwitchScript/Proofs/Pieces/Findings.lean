import SwitchScript.Proofs.Pieces.Boundary
import SwitchScript.Proofs.Pieces.Partition

/-!
# What a scan finds

A scan is a list of pieces, but two texts can be cut into different pieces and
still tell the same: a blank more or less before a token is a matter of places
only. `Findings` is what is left of a scan when the pieces are forgotten, its
tokens and errors and the place where it stops.

Findings are built from behind. What is found in a text is what its first piece
yields and what is found in the rest from the next place on
(`Findings.ofText_munch`), and blanks at the beginning do nothing but move that
place, whether or not they are all the blanks there are
(`Findings.ofText_blanks`). With these two equations, `Munch.induction` is all
that a proof about a scan needs.
-/

namespace SwitchScript

/-- What holds of the empty text, and of a text if it holds of what is left of
it after the first piece, holds of all texts. -/
@[elab_as_elim]
theorem Munch.induction {P : List Char → Prop} (nil : P [])
    (piece : ∀ {text rest : List Char} {y : Yield}, Munch text rest y → P rest → P (text ++ rest))
    (cs : List Char) : P cs := by
  induction cs using Piece.cut_induction with
  | nil => exact nil
  | cons c rest ih =>
      have h := piece (Piece.munch_cut c rest) ih
      rw [Piece.cut_source] at h
      exact h

theorem Munch.ne_nil {text rest : List Char} {y : Yield} (h : Munch text rest y) : text ≠ [] := by
  obtain ⟨c, cs, x, -, hcut, rfl, -⟩ := h.cutsOff
  have hne := Piece.cut_source_ne_nil c cs
  rw [hcut] at hne
  exact hne

/-- A piece without a token stays on its line. -/
theorem Munch.notMem_of_token?_eq_none {text rest : List Char} {y : Yield} (h : Munch text rest y)
    (hy : y.token? = none) : '\n' ∉ text := by
  refine h.lineFeed.resolve_left ?_
  rintro rfl
  rw [(h.unique .lineBreak rfl).2.2] at hy
  exact absurd hy (by simp)

/-- A number ends as far behind its numeral as its tail is long. -/
theorem Piece.LongestNumeral.past {numeral text rest : List Char} (h : LongestNumeral numeral text)
    (hrun : Run isNumberTail text rest) (p : Position) :
    p.past text = (p.past numeral).right (text.length - numeral.length) := by
  have htext : '\n' ∉ text := hrun.notMem (by decide)
  have hnumeral : '\n' ∉ numeral := fun hmem => htext (h.begins.subset hmem)
  rw [Position.past_of_notMem htext, Position.past_of_notMem hnumeral, Position.right_right,
    Nat.add_sub_cancel' h.begins.length_le]

namespace Kind

/-- Kinds whose tokens stand for the text that they show. -/
def isVerbatim : Kind → Bool
  | string | newline | eof => false
  | _ => true

theorem IsOfWord.isVerbatim {w : String} {k : Kind} (h : IsOfWord w k) : k.isVerbatim = true := by
  rcases h with hentry | ⟨rfl, -⟩
  · exact (by decide : ∀ e ∈ words, e.2.isVerbatim = true) _ hentry
  · rfl

theorem isVerbatim_of_mem_operators {cs : List Char} {k : Kind} (h : (cs, k) ∈ operators) :
    k.isVerbatim = true :=
  (by decide : ∀ e ∈ operators, e.2.isVerbatim = true) _ h

end Kind

/-- What a scan finds in a text, and the place where the text ends. -/
structure Findings where
  tokens : List Token
  errors : List LexicalError
  stop : Position

namespace Findings

/-- What is found in a text that starts at this place. -/
def ofText (p : Position) (cs : List Char) : Findings where
  tokens := (Piece.locate p (Piece.ofText cs)).filterMap fun x => x.2.token? x.1
  errors := (Piece.locate p (Piece.ofText cs)).filterMap fun x => x.2.error? x.1
  stop := Piece.stopAt p (Piece.ofText cs)

/-- The tokens, closed by an end mark. -/
def closed (f : Findings) : List Token := f.tokens ++ [(⟨"", f.stop⟩ : Lexeme).asStop]

theorem tokens_ofSource (source : String) :
    (Scan.ofSource source).tokens = (ofText .origin source.toList).closed := rfl

theorem errors_ofSource (source : String) :
    (Scan.ofSource source).errors = (ofText .origin source.toList).errors := rfl

/-- Puts in front what a piece yields at this place. -/
def prepend (p : Position) (y : Yield) (f : Findings) : Findings where
  tokens := (y.tokenAt? p).toList ++ f.tokens
  errors := (y.errorAt? p).toList ++ f.errors
  stop := f.stop

@[simp] theorem prepend_silent (p : Position) (f : Findings) :
    f.prepend p ⟨none, none⟩ = f := rfl

theorem closed_prepend (p : Position) (y : Yield) (f : Findings) :
    (f.prepend p y).closed = (y.tokenAt? p).toList ++ f.closed :=
  List.append_assoc _ _ _

/-! ## Piece by piece -/

@[simp] theorem ofText_nil (p : Position) : ofText p [] = ⟨[], [], p⟩ := rfl

theorem ofText_munch {text rest : List Char} {y : Yield} (h : Munch text rest y) (p : Position) :
    ofText p (text ++ rest) = (ofText (p.past text) rest).prepend p y := by
  obtain ⟨c, cs, x, heq, hcut, rfl, rfl⟩ := h.cutsOff
  have hnext := Piece.next_source c cs p
  rw [hcut] at hnext
  have hpieces : Piece.ofText (x.source ++ rest) = x :: Piece.ofText rest := by
    rw [heq, Piece.ofText_cons, hcut]
  simp only [ofText, prepend, hpieces, Piece.locate, Piece.stopAt, hnext,
    List.filterMap_eq_flatMap_toList, List.flatMap_cons, Piece.tokenAt?_yield]
  rfl

/-! ## Blanks -/

theorem ofText_run {text rest : List Char} (h : Piece.Run isBlank text rest) (p : Position) :
    ofText p (text ++ rest) = ofText (p.right text.length) rest := by
  cases text with
  | nil => simp
  | cons c more =>
      rw [ofText_munch (.blank h), prepend_silent, Position.past_of_notMem (h.notMem rfl)]

theorem ofText_blanks {text : List Char} (h : ∀ c ∈ text, isBlank c = true) (p : Position)
    (rest : List Char) : ofText p (text ++ rest) = ofText (p.right text.length) rest := by
  have hrun := Piece.Run.span isBlank rest
  have hlong : Piece.Run isBlank (text ++ rest.takeWhile isBlank) (rest.dropWhile isBlank) :=
    ⟨List.forall_mem_append.mpr ⟨h, hrun.inside⟩, hrun.stops⟩
  have hrest := ofText_run hrun (p.right text.length)
  rw [List.takeWhile_append_dropWhile, Position.right_right] at hrest
  have htext := ofText_run hlong p
  rw [List.append_assoc, List.takeWhile_append_dropWhile, List.length_append] at htext
  rw [htext, hrest]

theorem ofText_spaces (n : Nat) (p : Position) (rest : List Char) :
    ofText p (List.replicate n ' ' ++ rest) = ofText (p.right n) rest := by
  have hblank : ∀ c ∈ List.replicate n ' ', isBlank c = true := by
    intro c hc
    rw [List.eq_of_mem_replicate hc]
    rfl
  rw [ofText_blanks hblank, List.length_replicate]

end Findings

end SwitchScript
