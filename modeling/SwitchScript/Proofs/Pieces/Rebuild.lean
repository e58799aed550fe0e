import SwitchScript.Proofs.Pieces.Findings

/-!
# A script can be rebuilt from its tokens

The tokens of a script know their columns, so they can be written down again:
each one where it was, with spaces where layout, comments or faulty characters
have been, and each line break as a line feed. What comes out is another script
as a rule, as nothing is left of the comments and a quoted text may have got
another mark. But it has the same tokens (`Findings.ofText_write`).

A token that is written down has another neighbour than its piece had, if
anything comes between them now, and the same first character after it, if not,
up to the marks of a quoted text. Both are harmless (`Munch.rewritten`), as long
as all quoted texts are closed: an open one reaches up to the end of its line,
and there is no other way to write it.
-/

namespace SwitchScript

open Piece

/-! ## Writing tokens down -/

/-- A mark in the text has an even number of backslashes before it. -/
def HasBare (mark : Char) (text : List Char) : Prop :=
  ∃ n, n < text.length ∧ text[n]? = some mark ∧ trailingBackslashes (text.take n) % 2 = 0

instance (mark : Char) (text : List Char) : Decidable (HasBare mark text) :=
  inferInstanceAs (Decidable (∃ n, n < text.length ∧ _))

/-- The mark to quote a text with: a double one, unless the text has one that is
not escaped. -/
def markFor (text : List Char) : Char := if HasBare '"' text then '\'' else '"'

/-- How a token of this kind and value is written. -/
def written (k : Kind) (value : List Char) : List Char :=
  match k with
  | .newline => ['\n']
  | .eof => []
  | .string => markFor value :: value ++ [markFor value]
  | _ => value

/-- Tokens, written down from this place on, each at its column. The lines come
with the line breaks. -/
def write (p : Position) : List Token → List Char
  | [] => []
  | t :: ts =>
    List.replicate (t.position.column - p.column).toNat ' ' ++ written t.kind t.text.toList ++
      write (t.position.past (written t.kind t.text.toList)) ts

def rebuild (ts : List Token) : String := String.ofList (write .origin ts)

theorem written_of_isVerbatim {k : Kind} (h : k.isVerbatim = true) (value : List Char) :
    written k value = value := by
  cases k <;> first | rfl | exact absurd h (by decide)

/-- A mark can quote the texts on one line that do not have it without a
backslash. -/
theorem quotes_iff {mark : Char} {text : List Char} :
    Quotes mark text ↔ '\n' ∉ text ∧ ¬ HasBare mark text := by
  constructor
  · rintro h
    refine ⟨h.line, ?_⟩
    rintro ⟨n, hn, hmark, heven⟩
    have hsplit : text = text.take n ++ mark :: text.drop (n + 1) := by
      rw [← (List.getElem?_eq_some_iff.mp hmark).2, ← List.drop_eq_getElem_cons hn,
        List.take_append_drop]
    exact Nat.mod_two_ne_zero.mpr (h.escaped _ _ hsplit) heven
  · rintro ⟨hline, hbare⟩
    refine ⟨hline, ?_⟩
    rintro before after rfl
    refine Nat.mod_two_ne_zero.mp fun heven => hbare ⟨before.length, by simp, by simp, ?_⟩
    rw [List.take_left]
    exact heven

/-- A text that a mark can quote can be quoted with the mark chosen for it. -/
theorem quotes_markFor {mark : Char} {text : List Char} (hmark : isQuote mark = true)
    (h : Quotes mark text) : isQuote (markFor text) = true ∧ Quotes (markFor text) text := by
  unfold markFor
  split
  · next hbare =>
      rcases eq_of_isQuote hmark with rfl | rfl
      · exact absurd hbare (quotes_iff.mp h).2
      · exact ⟨rfl, h⟩
  · next hbare => exact ⟨rfl, quotes_iff.mpr ⟨h.line, hbare⟩⟩

/-! ## A piece, written down -/

/-- What a token is written as stands for its piece: it ends where the piece
ends or before, is a piece with the same token wherever the piece could be, and
is as harmless to what is before it. -/
structure Rewritten (text rest : List Char) (k : Kind) (value : String) : Prop where
  past : ∀ p : Position, p.past text =
    (p.past (written k value.toList)).right (text.length - (written k value.toList).length)
  munch : ∀ rest' : List Char, Harmless rest rest' →
    Munch (written k value.toList) rest' ⟨some (k, value), none⟩
  harmless : ∀ rest' : List Char, Harmless (text ++ rest) (written k value.toList ++ rest')

theorem Rewritten.of_eq {text rest : List Char} {k : Kind} {value : String}
    (h : Munch text rest ⟨some (k, value), none⟩) (heq : written k value.toList = text) :
    Rewritten text rest k value where
  past := fun p => by rw [heq, Nat.sub_self, Position.right_zero]
  munch := fun rest' hnext => by
    rw [heq]
    exact h.change ⟨by simp, by simp⟩ hnext
  harmless := fun rest' => by
    obtain ⟨c, more, htext⟩ := List.exists_cons_of_ne_nil h.ne_nil
    rw [heq, htext]
    exact .inl rfl

theorem Rewritten.number {text rest numeral : List Char} (hrun : Run isNumberTail text rest)
    (hnumeral : LongestNumeral numeral text) :
    Rewritten text rest (if '.' ∈ numeral then .float else .integer) (String.ofList numeral) := by
  have hwritten : written (if '.' ∈ numeral then .float else .integer)
      (String.ofList numeral).toList = numeral := by
    rw [written_of_isVerbatim (by split <;> rfl), String.toList_ofList]
  refine ⟨fun p => ?_, fun rest' hnext => ?_, fun rest' => ?_⟩ <;> rw [hwritten]
  · exact hnumeral.past hrun p
  · exact hnumeral.munch (hnext.notNumberTail hrun)
  · obtain ⟨c, digits, rfl, -⟩ := hnumeral.numeral.exists_cons
    obtain ⟨tail, rfl⟩ := hnumeral.begins
    exact .inl rfl

theorem Rewritten.quoted {mark : Char} {body rest : List Char} (hmark : isQuote mark = true)
    (hquotes : Quotes mark body) (heven : ¬ Escaped body) :
    Rewritten (mark :: body ++ [mark]) rest .string (String.ofList body) := by
  obtain ⟨hmark', hquotes'⟩ := quotes_markFor hmark hquotes
  have hwritten : written .string (String.ofList body).toList =
      markFor body :: body ++ [markFor body] := by
    rw [String.toList_ofList, written]
  have hline {m : Char} (hm : isQuote m = true) : '\n' ∉ m :: body ++ [m] := by
    have hne := lineFeed_ne_of_isQuote hm
    exact List.not_mem_append (List.not_mem_cons_of_ne_of_not_mem hne hquotes.line)
      fun hmem => hne (List.mem_singleton.mp hmem)
  refine ⟨fun p => ?_, fun rest' _ => ?_, fun rest' => ?_⟩ <;> rw [hwritten]
  · have hlength : (mark :: body ++ [mark]).length =
        (markFor body :: body ++ [markFor body]).length := by
      simp
    rw [Position.past_of_notMem (hline hmark), Position.past_of_notMem (hline hmark'), hlength,
      Nat.sub_self, Position.right_zero]
  · exact .closed hmark' hquotes' heven
  · exact .inr (parted_cons (.inr (.inr (.inl hmark'))) _)

theorem Munch.rewritten {text rest : List Char} {y : Yield} (h : Munch text rest y)
    (hclosed : y.fault? ≠ some .unterminatedString) {k : Kind} {value : String}
    (ht : y.token? = some (k, value)) : Rewritten text rest k value := by
  have hself := h
  cases h with
  | comment | blank | stray => exact absurd ht (by simp)
  | lineBreak =>
      obtain ⟨rfl, rfl⟩ := Prod.mk.inj (Option.some.inj ht)
      exact .of_eq hself rfl
  | word _ _ hkind =>
      obtain ⟨rfl, rfl⟩ := Prod.mk.inj (Option.some.inj ht)
      exact .of_eq hself (by rw [written_of_isVerbatim hkind.isVerbatim, String.toList_ofList])
  | operator hentry _ =>
      obtain ⟨rfl, rfl⟩ := Prod.mk.inj (Option.some.inj ht)
      have hk := Kind.isVerbatim_of_mem_operators hentry
      exact .of_eq hself (by rw [written_of_isVerbatim hk, String.toList_ofList])
  | number _ hrun hnumeral =>
      obtain ⟨rfl, rfl⟩ := Prod.mk.inj (Option.some.inj ht)
      exact .number hrun hnumeral
  | closed hmark hquotes heven =>
      obtain ⟨rfl, rfl⟩ := Prod.mk.inj (Option.some.inj ht)
      exact .quoted hmark hquotes heven
  | unclosed => exact absurd rfl hclosed

/-! ## A text, written down -/

namespace Findings

/-- What is found first is found on the line where the text starts. -/
theorem exists_closed_eq_cons (p : Position) (cs : List Char) :
    ∃ t ts n, (ofText p cs).closed = t :: ts ∧ t.position = p.right n := by
  induction cs using Munch.induction generalizing p with
  | nil => exact ⟨_, [], 0, rfl, p.right_zero.symm⟩
  | @piece text rest y h ih =>
      rw [ofText_munch h, closed_prepend]
      cases ht : y.token? with
      | none =>
          obtain ⟨t, ts, n, heq, hplace⟩ := ih (p.past text)
          rw [Position.past_of_notMem (h.notMem_of_token?_eq_none ht),
            Position.right_right] at hplace
          refine ⟨t, ts, _, ?_, hplace⟩
          rw [heq, Yield.tokenAt?, ht]
          rfl
      | some t =>
          refine ⟨⟨⟨t.2, p⟩, t.1⟩, (ofText (p.past text) rest).closed, 0, ?_, p.right_zero.symm⟩
          rw [Yield.tokenAt?, ht]
          rfl

theorem write_cons_right (p : Position) (n : Nat) (x : String) (k : Kind) (ts : List Token) :
    write p (⟨⟨x, p.right n⟩, k⟩ :: ts) =
      List.replicate n ' ' ++
        (written k x.toList ++ write ((p.right n).past (written k x.toList)) ts) := by
  have hgap : ((p.right n).column - p.column).toNat = n := by
    simp only [Position.right]
    omega
  rw [write, hgap, List.append_assoc]

theorem write_cons (p : Position) (x : String) (k : Kind) (ts : List Token) :
    write p (⟨⟨x, p⟩, k⟩ :: ts) =
      written k x.toList ++ write (p.past (written k x.toList)) ts := by
  have h := write_cons_right p 0 x k ts
  rw [Position.right_zero] at h
  exact h

/-- What is written before the text starts is a space. -/
theorem parted_write {n : Nat} (hn : 0 < n) (p : Position) (cs : List Char) :
    Parted (write p (ofText (p.right n) cs).closed) := by
  obtain ⟨t, ts, m, heq, hplace⟩ := exists_closed_eq_cons (p.right n) cs
  obtain ⟨⟨x, q⟩, k⟩ := t
  obtain rfl : q = (p.right n).right m := hplace
  rw [heq, Position.right_right, write_cons_right]
  exact parted_spaces (Nat.add_pos_left hn m) _

/-- The same findings without any errors. -/
def faultless (f : Findings) : Findings := ⟨f.tokens, [], f.stop⟩

/-- All quoted texts are closed. -/
def AllClosed (f : Findings) : Prop := ∀ e ∈ f.errors, e.fault ≠ .unterminatedString

theorem AllClosed.of_prepend {p : Position} {y : Yield} {f : Findings}
    (h : (f.prepend p y).AllClosed) : y.fault? ≠ some .unterminatedString ∧ f.AllClosed := by
  refine ⟨fun hy => ?_, fun e he => h e (List.mem_append_right _ he)⟩
  refine h ⟨p, .unterminatedString⟩ (List.mem_append_left _ ?_) rfl
  rw [Yield.errorAt?, hy]
  exact List.mem_singleton_self _

/-- What is written where a text starts is as harmless as the text is. -/
theorem harmless_write {p : Position} {cs : List Char} (h : (ofText p cs).AllClosed) :
    Harmless cs (write p (ofText p cs).closed) := by
  induction cs using Munch.induction with
  | nil => exact .inl (congrArg List.head? (write_cons p "" .eof []))
  | @piece text rest y hmunch _ =>
      rw [ofText_munch hmunch] at h ⊢
      rw [closed_prepend, Yield.tokenAt?]
      cases ht : y.token? with
      | none =>
          rw [Position.past_of_notMem (hmunch.notMem_of_token?_eq_none ht)]
          exact .inr (parted_write (List.length_pos_iff.mpr hmunch.ne_nil) p rest)
      | some t =>
          have hpiece := hmunch.rewritten h.of_prepend.1 ht
          have hwrite := write_cons p t.2 t.1 (ofText (p.past text) rest).closed
          exact hwrite ▸ hpiece.harmless _

/-- The same holds where the text starts further on. -/
theorem harmless_write_right {p : Position} {n : Nat} {cs : List Char}
    (h : (ofText (p.right n) cs).AllClosed) :
    Harmless cs (write p (ofText (p.right n) cs).closed) := by
  rcases Nat.eq_zero_or_pos n with rfl | hn
  · rw [Position.right_zero] at h ⊢
    exact harmless_write h
  · exact .inr (parted_write hn p cs)

/-- What is written from a place on is found there again, and no errors with
it, however far behind that place the text starts on the line. -/
theorem ofText_write {p : Position} {n : Nat} {cs : List Char}
    (h : (ofText (p.right n) cs).AllClosed) :
    ofText p (write p (ofText (p.right n) cs).closed) = (ofText (p.right n) cs).faultless := by
  induction cs using Munch.induction generalizing p n with
  | nil =>
      have hwrite := write_cons_right p n "" .eof []
      exact (congrArg (ofText p) hwrite).trans (ofText_spaces n p _)
  | @piece text rest y hmunch ih =>
      rw [ofText_munch hmunch] at h ⊢
      obtain ⟨hclosed, hrest⟩ := h.of_prepend
      rw [closed_prepend, Yield.tokenAt?]
      cases ht : y.token? with
      | none =>
          -- nothing is written for the piece, so the rest is further behind by its length
          rw [Position.past_of_notMem (hmunch.notMem_of_token?_eq_none ht),
            Position.right_right] at hrest ⊢
          refine (ih hrest).trans ?_
          rw [prepend, Yield.tokenAt?, ht]
          rfl
      | some t =>
          have hpiece := hmunch.rewritten hclosed ht
          -- a number may have lost its tail, which is the gap before the rest
          rw [hpiece.past] at hrest ⊢
          show ofText p (write p (⟨⟨t.2, p.right n⟩, t.1⟩ :: (ofText _ rest).closed)) = _
          rw [write_cons_right, ofText_spaces,
            ofText_munch (hpiece.munch _ (harmless_write_right hrest)), ih hrest, prepend, prepend,
            Yield.tokenAt?, Yield.tokenAt?, ht]
          rfl

end Findings

/-- The tokens of a script determine it up to its layout. A script without open
quoted texts that is rebuilt from its tokens has the same tokens, at the same
places, and no errors. -/
theorem Scan.rebuild_tokens (source : String)
    (h : ∀ e ∈ (ofSource source).errors, e.fault ≠ .unterminatedString) :
    (ofSource (rebuild (ofSource source).tokens)).tokens = (ofSource source).tokens ∧
      (ofSource (rebuild (ofSource source).tokens)).errors = [] := by
  have hplace : Position.origin.right 0 = .origin := Position.right_zero _
  have hfound : Findings.ofText .origin
      (write .origin (Findings.ofText .origin source.toList).closed) =
        (Findings.ofText .origin source.toList).faultless := by
    have hwrite := @Findings.ofText_write .origin 0 source.toList
    rw [hplace] at hwrite
    exact hwrite h
  simp only [Findings.tokens_ofSource, Findings.errors_ofSource, rebuild, String.toList_ofList,
    hfound]
  exact ⟨rfl, rfl⟩

/-- A text that takes single quotation marks, a comment, a malformed number and
a stray character. -/
def mixedLine : String := "x = '\"' # note\n1.2.3 $ y"

theorem Scan.rebuild_tokens_mixedLine :
    (∀ e ∈ (ofSource mixedLine).errors, e.fault ≠ .unterminatedString) ∧
      rebuild (ofSource mixedLine).tokens = "x = '\"'       \n1.2     y" ∧
      (ofSource (rebuild (ofSource mixedLine).tokens)).tokens = (ofSource mixedLine).tokens ∧
      (ofSource (rebuild (ofSource mixedLine).tokens)).errors = [] := by
  have hclosed : ∀ e ∈ (ofSource mixedLine).errors, e.fault ≠ .unterminatedString := by
    decide +kernel
  exact ⟨hclosed, by decide +kernel, rebuild_tokens mixedLine hclosed⟩

end SwitchScript
