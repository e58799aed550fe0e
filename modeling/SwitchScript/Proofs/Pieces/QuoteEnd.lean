import Mathlib.Order.Bounds.Basic
import Mathlib.Order.Nat
import SwitchScript.Proofs.Pieces.Findings

/-!
# A quoted text ends at its first mark that is not escaped

Wherever a scan comes to a quotation mark, the end of the quoted text can be
told from the script alone. It is the first such mark on the same line with an
even number of backslashes right before it, of which none is counted that stands
before the text (`ClosesQuote`). If there is no such mark, the text is all that
is left of the line, and this is an error (`Scan.quoted_ends`).

The text up to there is one that marks can enclose (`quotes_between`), so a quoted
piece with this text is what comes first in the rest of the script. That the scan
comes to the mark, and where it goes on, is a matter of offsets (`ComesTo`): what
is found in a script is what is found in the pieces before an offset and what is
found in the text from there on (`Findings.ofText_comesTo`).
-/

namespace SwitchScript

/-! ## From some piece on -/

/-- A text begins with the source of its first piece, and goes on with its other
pieces where that piece leads to. -/
theorem Piece.ofText_eq_cons {cs : List Char} {x : Piece} {xs : List Piece}
    (h : ofText cs = x :: xs) :
    ∃ rest, cs = x.source ++ rest ∧ ofText rest = xs ∧ ∀ p, x.next p = p.past x.source := by
  cases cs with
  | nil => exact absurd h (by simp)
  | cons c rest =>
      rw [ofText_cons] at h
      obtain ⟨rfl, hrest⟩ := List.cons.inj h
      exact ⟨_, (cut_source c rest).symm, hrest, next_source c rest⟩

/-- The scan of a text comes to an offset with these pieces before it. -/
structure ComesTo (cs : List Char) (before : List Piece) (p : Nat) : Prop where
  pieces : before <+: Piece.ofText cs
  offset : (before.flatMap Piece.source).length = p

namespace ComesTo

variable {cs : List Char} {before : List Piece} {x : Piece} {p k : Nat}

/-- The text before the offset is that of the pieces. -/
theorem take_eq (h : ComesTo cs before p) : cs.take p = before.flatMap Piece.source := by
  obtain ⟨⟨after, hpieces⟩, rfl⟩ := h
  have hcs := Piece.flatMap_source cs
  rw [← hpieces, List.flatMap_append] at hcs
  rw [← hcs, List.take_left]

/-- The other pieces are those of the text from the offset on. -/
theorem ofText_eq (h : ComesTo cs before p) :
    Piece.ofText cs = before ++ Piece.ofText (cs.drop p) := by
  obtain ⟨⟨after, hpieces⟩, rfl⟩ := h
  induction before generalizing cs with
  | nil => rfl
  | cons x before ih =>
      obtain ⟨rest, rfl, hrest, -⟩ := Piece.ofText_eq_cons hpieces.symm
      rw [List.flatMap_cons, List.length_append, ← List.drop_drop, List.drop_left,
        List.cons_append, ← ih hrest.symm, ← hpieces, hrest]
      rfl

/-- Counting from piece to piece leads past their text. -/
theorem stopAt_past (h : before <+: Piece.ofText cs) (place : Position) :
    Piece.stopAt place before = place.past (before.flatMap Piece.source) := by
  obtain ⟨after, hpieces⟩ := h
  induction before generalizing cs place with
  | nil => rfl
  | cons x before ih =>
      obtain ⟨rest, -, hrest, hnext⟩ := Piece.ofText_eq_cons hpieces.symm
      rw [Piece.stopAt, hnext, List.flatMap_cons, Position.past_append, ih _ hrest.symm]

/-- The offset is at the place where the pieces end. -/
theorem stopAt_eq (h : ComesTo cs before p) :
    Piece.stopAt .origin before = .after (cs.take p) := by
  rw [stopAt_past h.pieces, h.take_eq, ← Position.after_nil, Position.past_after,
    List.nil_append]

/-- If a piece is the first one from the offset on, the scan goes on where the
text of the other pieces begins. -/
theorem next (h : ComesTo cs before p) (hk : k ≤ cs.length)
    (hfirst : Piece.ofText (cs.drop p) = x :: Piece.ofText (cs.drop k)) :
    ComesTo cs (before ++ [x]) k where
  pieces := by
    refine ⟨Piece.ofText (cs.drop k), ?_⟩
    rw [List.append_assoc, List.singleton_append, ← hfirst, ← h.ofText_eq]
  offset := by
    have hp : (cs.take p).length = p := by rw [h.take_eq, h.offset]
    have hsource := congrArg (List.flatMap Piece.source) hfirst
    rw [Piece.flatMap_source, List.flatMap_cons, Piece.flatMap_source] at hsource
    have hlength := congrArg List.length hsource
    rw [List.length_drop, List.length_append, List.length_drop] at hlength
    rw [List.length_take] at hp
    rw [List.flatMap_append, List.length_append, h.offset, List.flatMap_singleton]
    omega

end ComesTo

namespace Findings

/-- What is found in pieces, the first of which starts at this place. -/
def ofPieces (p : Position) (xs : List Piece) : Findings where
  tokens := (Piece.locate p xs).filterMap fun x => x.2.token? x.1
  errors := (Piece.locate p xs).filterMap fun x => x.2.error? x.1
  stop := Piece.stopAt p xs

/-- What is found in one text and then in another. -/
def append (f g : Findings) : Findings where
  tokens := f.tokens ++ g.tokens
  errors := f.errors ++ g.errors
  stop := g.stop

theorem closed_append (f g : Findings) : (f.append g).closed = f.tokens ++ g.closed :=
  List.append_assoc _ _ _

theorem ofPieces_append (p : Position) (xs ys : List Piece) :
    ofPieces p (xs ++ ys) = (ofPieces p xs).append (ofPieces (Piece.stopAt p xs) ys) := by
  simp only [ofPieces, append, Piece.locate_append, Piece.stopAt_append, List.filterMap_append]

theorem ofText_eq_ofPieces (p : Position) (cs : List Char) :
    ofText p cs = ofPieces p (Piece.ofText cs) := rfl

variable {cs : List Char} {before : List Piece} {p : Nat}

/-- What is found in a text is what is found in the pieces before an offset and
what is found in the text from there on. -/
theorem ofText_comesTo (h : ComesTo cs before p) :
    ofText .origin cs =
      (ofPieces .origin before).append (ofText (.after (cs.take p)) (cs.drop p)) := by
  rw [ofText_eq_ofPieces, h.ofText_eq, ofPieces_append, h.stopAt_eq, ← ofText_eq_ofPieces]

/-- One piece more is found at the place to which the scan has come. -/
theorem ofPieces_concat (h : ComesTo cs before p) (x : Piece) :
    ofPieces .origin (before ++ [x]) =
      (ofPieces .origin before).append (ofPieces (.after (cs.take p)) [x]) := by
  rw [ofPieces_append, h.stopAt_eq]

end Findings

/-! ## The mark that closes -/

/-- The offset of the next line feed behind an offset, or the length of the text. -/
def lineEnd (cs : List Char) (p : Nat) : Nat := p + 1 + (cs.drop (p + 1)).idxOf '\n'

/-- The text strictly between two offsets. -/
def between (cs : List Char) (p j : Nat) : List Char := (cs.take j).drop (p + 1)

/-- The mark at an offset can close the quoted text that the one at offset `p`
opens: it is on the same line, and between the two there is an even number of
backslashes right before it. -/
structure ClosesQuote (mark : Char) (cs : List Char) (p j : Nat) : Prop where
  behind : p < j
  line : j < lineEnd cs p
  mark : cs[j]? = some mark
  even : Piece.trailingBackslashes (between cs p j) % 2 = 0

instance (mark : Char) (cs : List Char) (p j : Nat) : Decidable (ClosesQuote mark cs p j) :=
  decidable_of_iff
    (p < j ∧ j < lineEnd cs p ∧ cs[j]? = some mark ∧
      Piece.trailingBackslashes (between cs p j) % 2 = 0)
    ⟨fun h => ⟨h.1, h.2.1, h.2.2.1, h.2.2.2⟩, fun h => ⟨h.behind, h.line, h.mark, h.even⟩⟩

open Piece

variable {mark : Char} {cs : List Char} {p n : Nat}

theorem between_add (cs : List Char) (p n : Nat) :
    between cs p (p + 1 + n) = (cs.drop (p + 1)).take n := by
  rw [between, List.drop_take, Nat.add_sub_cancel_left]

theorem between_append_drop (cs : List Char) (p n : Nat) :
    between cs p (p + 1 + n) ++ cs.drop (p + 1 + n) = cs.drop (p + 1) := by
  have hsplit := List.take_append_drop n (cs.drop (p + 1))
  rwa [List.drop_drop, ← between_add] at hsplit

theorem lineFeed_notMem_between (hn : p + 1 + n ≤ lineEnd cs p) :
    '\n' ∉ between cs p (p + 1 + n) := by
  rw [between_add]
  intro hmem
  have hlt := (List.mem_take_iff_idxOf_lt (List.mem_of_mem_take hmem)).mp hmem
  unfold lineEnd at hn
  omega

theorem atLineEnd_lineEnd (cs : List Char) (p : Nat) : AtLineEnd (cs.drop (lineEnd cs p)) := by
  intro c hc
  rw [lineEnd, ← List.drop_drop, List.head?_drop] at hc
  by_cases hmem : '\n' ∈ cs.drop (p + 1)
  · rw [List.getElem?_idxOf hmem] at hc
    exact (Option.some.inj hc).symm
  · rw [List.idxOf_of_notMem hmem, List.getElem?_eq_none_iff.mpr (Nat.le_refl _)] at hc
    exact absurd hc (Option.not_mem_none c)

/-- The text behind an opening mark can be enclosed up to any place on its line
as long as no mark before that place closes it. -/
theorem quotes_between (hn : p + 1 + n ≤ lineEnd cs p)
    (hopen : ∀ j < p + 1 + n, ¬ ClosesQuote mark cs p j) :
    Quotes mark (between cs p (p + 1 + n)) where
  line := lineFeed_notMem_between hn
  escaped := by
    intro before after heq
    have htail := between_append_drop cs p n
    rw [heq, List.append_assoc, List.cons_append] at htail
    have hmark : cs[p + 1 + before.length]? = some mark := by
      rw [← List.getElem?_drop, ← htail, List.getElem?_append_right (Nat.le_refl _),
        Nat.sub_self, List.getElem?_cons_zero]
    have hbefore : between cs p (p + 1 + before.length) = before := by
      rw [between_add, ← htail, List.take_left]
    have hlt : before.length < n := by
      have hlength := congrArg List.length heq
      rw [between_add, List.length_take, List.length_append, List.length_cons] at hlength
      omega
    -- with an even number of backslashes before it, this mark would close the text
    refine (Nat.mod_two_eq_zero_or_one _).resolve_left fun heven => ?_
    refine hopen (p + 1 + before.length) (by omega) ⟨by omega, by omega, hmark, ?_⟩
    rw [hbefore]
    exact heven

/-! ## The quoted piece -/

/-- From an opening mark on, the text is the mark and what comes behind it. -/
theorem drop_eq_mark (hmeets : cs[p]? = some mark) (n : Nat) :
    cs.drop p = mark :: (between cs p (p + 1 + n) ++ cs.drop (p + 1 + n)) := by
  obtain ⟨hlt, hget⟩ := List.getElem?_eq_some_iff.mp hmeets
  rw [List.drop_eq_getElem_cons hlt, hget, between_append_drop]

namespace Piece

/-- A quoted piece ends with the first mark that closes it. -/
theorem ofText_closed (hmark : isQuote mark = true) (hmeets : cs[p]? = some mark) {j : Nat}
    (hj : IsLeast {j | ClosesQuote mark cs p j} j) :
    ofText (cs.drop p) = quoted mark (between cs p j) true :: ofText (cs.drop (j + 1)) := by
  obtain ⟨hcloses, hleast⟩ := hj
  obtain ⟨n, rfl⟩ : ∃ n, j = p + 1 + n := Nat.exists_eq_add_of_le hcloses.behind
  obtain ⟨hlt, hget⟩ := List.getElem?_eq_some_iff.mp hcloses.mark
  have hopen : ∀ i < p + 1 + n, ¬ ClosesQuote mark cs p i :=
    fun i hi hclosed => Nat.not_le.mpr hi (hleast hclosed)
  have hquotes : Quotes mark (between cs p (p + 1 + n)) :=
    quotes_between (Nat.le_of_lt hcloses.line) hopen
  have heven : ¬ Escaped (between cs p (p + 1 + n)) := by
    rw [Escaped, hcloses.even]
    exact Nat.zero_ne_one
  rw [drop_eq_mark hmeets n, List.drop_eq_getElem_cons hlt, hget, ofText_cons, cut_isQuote hmark,
    cutQuoted_closed hquotes heven]

/-- Without a mark that closes it, a quoted piece ends with its line. -/
theorem ofText_unclosed (hmark : isQuote mark = true) (hmeets : cs[p]? = some mark)
    (hopen : ∀ j, ¬ ClosesQuote mark cs p j) :
    ofText (cs.drop p) =
      quoted mark (between cs p (lineEnd cs p)) false :: ofText (cs.drop (lineEnd cs p)) := by
  have hquotes : Quotes mark (between cs p (lineEnd cs p)) :=
    quotes_between (Nat.le_refl _) fun j _ => hopen j
  have hdrop : cs.drop p = mark :: (between cs p (lineEnd cs p) ++ cs.drop (lineEnd cs p)) :=
    drop_eq_mark hmeets _
  rw [hdrop, ofText_cons, cut_isQuote hmark,
    cutQuoted_unclosed hmark hquotes (atLineEnd_lineEnd cs p)]

end Piece

/-! ## The scan -/

theorem lineEnd_le_length (hmeets : cs[p]? = some mark) : lineEnd cs p ≤ cs.length := by
  obtain ⟨hlt, -⟩ := List.getElem?_eq_some_iff.mp hmeets
  have hle : (cs.drop (p + 1)).idxOf '\n' ≤ (cs.drop (p + 1)).length := List.idxOf_le_length
  rw [List.length_drop] at hle
  unfold lineEnd
  omega

/-- What a scan finds when it comes to a quoted text and goes on at offset `k`. -/
theorem Scan.found_quoted {source : String} {before : List Piece} {value : List Char}
    {closed : Bool} {k : Nat} (h : ComesTo source.toList before p)
    (hnext : ComesTo source.toList (before ++ [.quoted mark value closed]) k) :
    let found := Findings.ofPieces .origin before
    let place := Position.after (source.toList.take p)
    let rest := Findings.ofText (.after (source.toList.take k)) (source.toList.drop k)
    (ofSource source).tokens =
        found.tokens ++ ⟨⟨String.ofList value, place⟩, .string⟩ :: rest.closed ∧
      (ofSource source).errors = found.errors ++
        ((if closed then [] else [⟨place, .unterminatedString⟩]) ++ rest.errors) := by
  intro found place rest
  have hfound : Findings.ofText .origin source.toList =
      (found.append (.ofPieces place [.quoted mark value closed])).append rest := by
    rw [Findings.ofText_comesTo hnext, Findings.ofPieces_concat h]
  rw [Findings.tokens_ofSource, Findings.errors_ofSource, hfound, Findings.closed_append]
  constructor
  · exact List.append_assoc found.tokens [_] rest.closed
  · refine (List.append_assoc found.errors _ rest.errors).trans ?_
    cases closed <;> rfl

/-- A quoted text ends at the first mark on its line that is not escaped, which
is one with an even number of backslashes right before it. Its value is what is
between the marks, there is no error, and the scan goes on behind the mark. If
there is no such mark, its value is all that is left of the line, the only error
is that it was left open, and the scan goes on where the line ends. -/
theorem Scan.quoted_ends {source : String} {before : List Piece}
    (hcomes : ComesTo source.toList before p) (hmark : isQuote mark = true)
    (hmeets : source.toList[p]? = some mark) :
    let cs := source.toList
    let found := Findings.ofPieces .origin before
    let place := Position.after (cs.take p)
    let rest := fun k => Findings.ofText (.after (cs.take k)) (cs.drop k)
    let e := lineEnd cs p
    ((∃ j, ClosesQuote mark cs p j) → ∃ j, IsLeast {j | ClosesQuote mark cs p j} j ∧
      (ofSource source).tokens = found.tokens ++
        ⟨⟨String.ofList (between cs p j), place⟩, .string⟩ :: (rest (j + 1)).closed ∧
      (ofSource source).errors = found.errors ++ (rest (j + 1)).errors ∧
      ComesTo cs (before ++ [.quoted mark (between cs p j) true]) (j + 1)) ∧
    ((¬ ∃ j, ClosesQuote mark cs p j) →
      (ofSource source).tokens = found.tokens ++
        ⟨⟨String.ofList (between cs p e), place⟩, .string⟩ :: (rest e).closed ∧
      (ofSource source).errors = found.errors ++ ⟨place, .unterminatedString⟩ :: (rest e).errors ∧
      ComesTo cs (before ++ [.quoted mark (between cs p e) false]) e) := by
  intro cs found place rest e
  constructor
  · intro hex
    have hleast : IsLeast {j | ClosesQuote mark cs p j} (Nat.find hex) := Nat.isLeast_find hex
    obtain ⟨hlt, -⟩ := List.getElem?_eq_some_iff.mp hleast.1.mark
    have hnext := hcomes.next hlt (ofText_closed hmark hmeets hleast)
    obtain ⟨htokens, herrors⟩ := found_quoted hcomes hnext
    exact ⟨Nat.find hex, hleast, htokens, herrors, hnext⟩
  · intro hnone
    have hopen : ∀ j, ¬ ClosesQuote mark cs p j := fun j hj => hnone ⟨j, hj⟩
    have hnext := hcomes.next (lineEnd_le_length hmeets) (ofText_unclosed hmark hmeets hopen)
    obtain ⟨htokens, herrors⟩ := found_quoted hcomes hnext
    exact ⟨htokens, herrors, hnext⟩

/-- A quoted text that ends behind two backslashes, and one that is left open and
ends in a single one. -/
def backslashes : String := "'\\'a\\\\' + \"b\\\"\\\ny"

theorem Scan.quoted_ends_backslashes :
    IsLeast {j | ClosesQuote '\'' backslashes.toList 0 j} 6 ∧
      (ofSource backslashes).tokens.head? = some ⟨⟨"\\'a\\\\", ⟨1, 1⟩⟩, .string⟩ ∧
      (¬ ∃ j, ClosesQuote '"' backslashes.toList 10 j) ∧
      (⟨⟨"b\\\"\\", ⟨1, 11⟩⟩, .string⟩ : Token) ∈ (ofSource backslashes).tokens ∧
      (⟨⟨1, 11⟩, .unterminatedString⟩ : LexicalError) ∈ (ofSource backslashes).errors := by
  have hstart : ComesTo backslashes.toList [] 0 := ⟨List.nil_prefix, rfl⟩
  have hfour : ComesTo backslashes.toList ((Piece.ofText backslashes.toList).take 4) 10 :=
    ⟨List.take_prefix 4 _, by decide +kernel⟩
  have hnone : ¬ ∃ j, ClosesQuote '"' backslashes.toList 10 j := by
    rintro ⟨j, hj⟩
    have hall : ∀ j < 15, ¬ ClosesQuote '"' backslashes.toList 10 j := by decide +kernel
    exact hall j hj.line hj
  obtain ⟨j, hleast, hclosed, -, -⟩ :=
    (quoted_ends hstart rfl (by decide +kernel : backslashes.toList[0]? = some '\'')).1
      ⟨6, by decide +kernel⟩
  obtain rfl : j = 6 := by
    refine hleast.unique ⟨by decide +kernel, fun i hi => ?_⟩
    have hall : ∀ i < 6, ¬ ClosesQuote '\'' backslashes.toList 0 i := by decide +kernel
    exact Nat.not_lt.mp fun hlt => hall i hlt hi
  obtain ⟨hopen, herrors, -⟩ :=
    (quoted_ends hfour rfl (by decide +kernel : backslashes.toList[10]? = some '"')).2 hnone
  refine ⟨hleast, ?_, hnone, ?_, ?_⟩
  · rw [hclosed]
    decide +kernel
  · rw [hopen]
    exact List.mem_append_right _ (List.mem_cons.mpr (.inl (by decide +kernel)))
  · rw [herrors]
    exact List.mem_append_right _ (List.mem_cons.mpr (.inl (by decide +kernel)))

end SwitchScript
