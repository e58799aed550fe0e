import Mathlib.Data.List.Forall2
import SwitchScript.Proofs.Placed
import SwitchScript.Proofs.Verdict

/-!
# Runs that cannot be told apart

A run sees its stream through the kind of the current token and through the
tokens that it counts ahead. A relation between cursors that keeps to what is
seen there is a *likeness* (`Cursor.Likeness`): related cursors show the same
kind, or a line break and an end mark, and the movements of a run that is well
placed lead to related cursors again. How the sites of remarks compare is left
to the relation.

States with related cursors that are the same in all other respects are alike,
and every task treats them alike (`Task.alike_perform`). So two runs that begin
alike end alike (`Pass.alike_of_reaches`), with the same outcome and with
remarks that correspond one by one. Since a line break is a statement to the
loop over the statements and an end mark is not, this loop is followed from its
first round on, where all line breaks are passed over already
(`Pass.reaches_rounds`).
-/

namespace SwitchScript

namespace Cursor

/-- The cursor after the construct that begins where it stands. -/
def skipConstruct (c : Cursor) : Cursor :=
  c.advance.forward (Pass.skipLength 0 0 c.kind c.advance.ahead)

/-- The current token as a site. -/
def site (c : Cursor) : Site := ⟨c.index, c.current⟩

/-- Related cursors are not told apart by a run, and their sites are related. -/
structure Likeness (R : Cursor → Cursor → Prop) (S : Site → Site → Prop) : Prop where
  kind {c c' : Cursor} : R c c' → c'.kind = c.kind ∨ c.kind = .newline ∧ c'.kind = .eof
  site {c c' : Cursor} : R c c' → S c.site c'.site
  advance {c c' : Cursor} : R c c' → c.kind ≠ .newline → R c.advance c'.advance
  skipNewlines {c c' : Cursor} : R c c' → R c.skipNewlines c'.skipNewlines
  skipConstruct {c c' : Cursor} : R c c' → c.kind.opensIgnored = true →
    R c.skipConstruct c'.skipConstruct

end Cursor

/-- Two remarks say the same about related sites, and notices are about keywords
that open a construct. -/
inductive Diagnostic.Like (S : Site → Site → Prop) : Diagnostic → Diagnostic → Prop
  | error {x x' : Site} (fault : Fault) (h : S x x') : Like S (.error x fault) (.error x' fault)
  | notice {x x' : Site} (h : S x x') (hk : x.token.kind.opensIgnored = true) :
      Like S (.notice x) (.notice x')

/-- Two states have related cursors and remarks and are the same otherwise. -/
structure Pass.Alike (R : Cursor → Cursor → Prop) (S : Site → Site → Prop) (p p' : Pass) :
    Prop where
  cursor : R p.cursor p'.cursor
  valid : p'.valid = p.valid
  depth : p'.depth = p.depth
  limit : p'.limit = p.limit
  diagnostics : List.Forall₂ (Diagnostic.Like S) p.diagnostics p'.diagnostics

/-- A choice that is even comes out the same. -/
theorem Kind.Even.choose_eq {α : Type} {choose : Kind → α} {k k' : Kind} (h : k.Even choose)
    (hk : k' = k ∨ k = .newline ∧ k' = .eof) : choose k' = choose k := by
  rcases hk with rfl | ⟨rfl, rfl⟩
  · rfl
  · exact (h rfl).symm

variable {R : Cursor → Cursor → Prop} {S : Site → Site → Prop}

/-! ## Steps -/

namespace Pass

variable {p p' q q' : Pass}

theorem skipConstruct_eq (p : Pass) : p.skipConstruct =
    if p.valid then { p.notify with cursor := p.cursor.skipConstruct } else p.notify.advance :=
  rfl

namespace Alike

theorem kind (hL : Cursor.Likeness R S) (h : p.Alike R S p') :
    p'.kind = p.kind ∨ p.kind = .newline ∧ p'.kind = .eof := hL.kind h.cursor

theorem advance (hL : Cursor.Likeness R S) (h : p.Alike R S p') (hk : p.kind ≠ .newline) :
    p.advance.Alike R S p'.advance :=
  { h with cursor := hL.advance h.cursor hk }

theorem skipNewlines (hL : Cursor.Likeness R S) (h : p.Alike R S p') :
    p.skipNewlines.Alike R S p'.skipNewlines :=
  { h with cursor := hL.skipNewlines h.cursor }

theorem report (hL : Cursor.Likeness R S) (h : p.Alike R S p') (fault : Fault) :
    (p.report fault).Alike R S (p'.report fault) :=
  { h with valid := rfl, diagnostics := .cons (.error fault (hL.site h.cursor)) h.diagnostics }

theorem notify (hL : Cursor.Likeness R S) (h : p.Alike R S p') (hk : p.kind.opensIgnored = true) :
    p.notify.Alike R S p'.notify :=
  { h with diagnostics := .cons (.notice (hL.site h.cursor) hk) h.diagnostics }

theorem skipConstruct (hL : Cursor.Likeness R S) (h : p.Alike R S p')
    (hk : p.kind.opensIgnored = true) : p.skipConstruct.Alike R S p'.skipConstruct := by
  have hnotify := h.notify hL hk
  rw [skipConstruct_eq, skipConstruct_eq, h.valid]
  split
  · exact { hnotify with cursor := hL.skipConstruct h.cursor hk }
  · exact hnotify.advance hL (Kind.ne_newline_of_test hk rfl)

end Alike

end Pass

/-- Every task treats states alike that are alike. -/
theorem Task.alike_perform (hL : Cursor.Likeness R S) {t : Task} {p p' : Pass}
    (ht : t.Placed p.kind) (h : p.Alike R S p') :
    (t.perform p').1 = (t.perform p).1 ∧ (t.perform p).2.Alike R S (t.perform p').2 := by
  have hk := h.kind hL
  cases t with
  | leave => exact ⟨rfl, { h with depth := congrArg (· - 1) h.depth }⟩
  | settle => exact ht.elim
  | make m =>
      cases m with
      | stay | both => exact ⟨rfl, h⟩
      | follow rule => exact ⟨rfl, h⟩
      | advance => exact ⟨rfl, h.advance hL ht⟩
      | skipNewlines => exact ⟨rfl, h.skipNewlines hL⟩
      | skipConstruct => exact ⟨rfl, h.skipConstruct hL ht⟩
      | report fault => exact ⟨rfl, h.report hL fault⟩
      | reject fault => exact ⟨rfl, (h.report hL fault).advance hL ht⟩
      | demand test fault =>
          simp only [perform, Kind.Even.choose_eq ht hk]
          split
          · exact ⟨trivial, h⟩
          · exact ⟨trivial, h.report hL fault⟩
      | require kind fault next =>
          obtain ⟨hnewline, heof, -⟩ := ht
          have hiff : p'.kind = kind ↔ p.kind = kind := by
            rcases hk with heq | ⟨hk, hk'⟩
            · rw [heq]
            · rw [hk, hk']
              exact ⟨fun heq => absurd heq.symm heof, fun heq => absurd heq.symm hnewline⟩
          simp only [perform, hiff]
          split
          · rename_i hkind
            exact ⟨rfl, h.advance hL (by rwa [hkind])⟩
          · exact ⟨rfl, h.report hL fault⟩
      | peek choose =>
          simp only [perform, Kind.Even.choose_eq ht.1 hk]
          exact ⟨trivial, h⟩
      | once test body =>
          simp only [perform, Kind.Even.choose_eq ht.1 hk, h.valid]
          exact ⟨trivial, h⟩
      | repeated test body =>
          have heven : p.kind.Even test :=
            ht.1.elim (fun heq _ => heq) fun hclear => Kind.even_of_ne hclear.1
          simp only [perform, heven.choose_eq hk, h.valid]
          exact ⟨trivial, h⟩
      | nest inner =>
          simp only [perform, h.depth, h.limit]
          split
          · exact ⟨rfl, h.report hL _⟩
          · exact ⟨rfl, { h with depth := rfl, limit := rfl }⟩
      | judge body => exact ht.elim

namespace Pass

variable {p p' q q' : Pass}

/-- Runs that begin alike end alike. -/
theorem alike_of_reaches (hL : Cursor.Likeness R S) {ts : List Task}
    (h : Moment.Reaches ⟨ts, p⟩ ⟨[], q⟩) (h' : Moment.Reaches ⟨ts, p'⟩ ⟨[], q'⟩)
    (hplaced : Moment.Placed ⟨ts, p⟩) (hp : p.Alike R S p') : q.Alike R S q' := by
  obtain ⟨r, hreach, hr⟩ := h.alongside Moment.Placed (Alike R S) (fun _ => True) hplaced
    (fun _ _ _ => Moment.placed_perform) (fun _ _ _ => trivial)
    (fun _ _ _ _ hplaced hp _ => Task.alike_perform hL hplaced.1 hp) hp trivial
  rwa [Moment.Reaches.end_unique h' hreach]

end Pass

/-! ## Remarks of runs that are alike -/

section Lists

variable {α β γ : Type} {r : α → β → Prop} {l : List α} {l' : List β}

/-- What passes a test that related members pass together is related again. -/
theorem forall₂_filter {test : α → Bool} {test' : β → Bool} (h : List.Forall₂ r l l')
    (htest : ∀ a b, r a b → test' b = test a) :
    List.Forall₂ (fun a b => r a b ∧ test a = true) (l.filter test) (l'.filter test') := by
  induction h with
  | nil => exact .nil
  | cons hhead _ ih =>
      rw [List.filter_cons, List.filter_cons, htest _ _ hhead]
      split
      · rename_i hpass
        exact .cons ⟨hhead, hpass⟩ ih
      · exact ih

/-- What is read off related members alike is the same for related lists. -/
theorem map_eq_of_forall₂ {f : α → γ} {g : β → γ} (h : List.Forall₂ r l l')
    (hfg : ∀ a b, r a b → g b = f a) : l'.map g = l.map f := by
  induction h with
  | nil => rfl
  | cons hhead _ ih => rw [List.map_cons, List.map_cons, hfg _ _ hhead, ih]

theorem eq_map_of_forall₂ {f : α → β} (h : List.Forall₂ r l l') (hf : ∀ a b, r a b → b = f a) :
    l' = l.map f :=
  (List.map_id l').symm.trans (map_eq_of_forall₂ h hf)

end Lists

namespace Pass.Alike

variable {p p' : Pass}

theorem errors (h : p.Alike R S p') :
    List.Forall₂ (fun d d' => Diagnostic.Like S d d' ∧ d.isError = true) p.errors p'.errors :=
  List.rel_reverse (forall₂_filter h.diagnostics fun _ _ hlike => by cases hlike <;> rfl)

theorem notices (h : p.Alike R S p') :
    List.Forall₂ (fun d d' => Diagnostic.Like S d d' ∧ (!d.isError) = true)
      p.notices p'.notices :=
  List.rel_reverse (forall₂_filter h.diagnostics fun _ _ hlike => by cases hlike <;> rfl)

end Pass.Alike

/-! ## The loop over the statements -/

/-- The loop over the statements of a program. -/
def Move.rounds : Move := repeated (· != .eof) (follow .statement >> skipNewlines)

namespace Pass

variable {p p' q q' : Pass}

theorem reaches_rounds (p : Pass) (ts : List Task) :
    Moment.Reaches ⟨.make (.follow .program) :: ts, p⟩ ⟨.make .rounds :: ts, p.skipNewlines⟩ :=
  .head (.head (.head (.refl _)))

/-- A run over a program is a run of the loop, from behind the line breaks at
the start. -/
theorem rounds_program (p : Pass) :
    Moment.Reaches ⟨[.make .rounds], p.skipNewlines⟩ ⟨[], p.follow .program⟩ :=
  (p.makes_follow .program []).to_end (p.reaches_rounds [])

theorem placed_rounds (h : p.kind ≠ .newline) : Moment.Placed ⟨[.make .rounds], p⟩ :=
  ⟨⟨.inr ⟨h, rfl⟩, fun _ _ => ⟨trivial, fun _ _ => trivial⟩⟩, trivial⟩

/-- Runs over whole streams that are alike behind the line breaks at the start
are alike to the end. -/
theorem alike_program (hL : Cursor.Likeness R S)
    (h : p.skipNewlines.Alike R S p'.skipNewlines) :
    (p.follow .program).Alike R S (p'.follow .program) :=
  alike_of_reaches hL p.rounds_program p'.rounds_program
    (placed_rounds p.kind_skipNewlines_ne) h

theorem errors_ofStream (s : Stream) (limit : Int) :
    (ofStream s limit).errors = ((start s limit).follow .program).errors := by
  rw [ofStream_eq]
  rfl

theorem notices_ofStream (s : Stream) (limit : Int) :
    (ofStream s limit).notices = ((start s limit).follow .program).notices := by
  rw [ofStream_eq]
  rfl

theorem cursor_ofStream (s : Stream) (limit : Int) :
    (ofStream s limit).cursor = ((start s limit).follow .program).cursor := by
  rw [ofStream_eq]
  rfl

/-- As many errors, the same verdict. -/
theorem verdict?_congr {s s' : Stream} {limit limit' : Int}
    (h : (ofStream s' limit').errors.length = (ofStream s limit).errors.length) :
    (ofStream s' limit').verdict? = (ofStream s limit).verdict? := by
  rw [verdict?_eq_isEmpty, verdict?_eq_isEmpty, Option.some.injEq, Bool.eq_iff_iff,
    List.isEmpty_iff_length_eq_zero, List.isEmpty_iff_length_eq_zero, h]

end Pass

/-! ## Likeness of cursors with the same kinds ahead -/

/-- How far a construct reaches depends on kinds only. -/
theorem Pass.skipLength_of_kinds {l l' : List Token} {braces parens : Int} {before : Kind}
    (h : l'.map Token.kind = l.map Token.kind) :
    skipLength braces parens before l' = skipLength braces parens before l := by
  induction l generalizing l' braces parens before with
  | nil => rw [List.map_eq_nil_iff.mp h]
  | cons t l ih =>
      obtain ⟨t', l', rfl, hkind, htail⟩ := List.map_eq_cons_iff.mp h
      rw [skipLength, skipLength, hkind]
      split
      · rfl
      · rw [ih htail]

theorem newlines_of_kinds {l l' : List Token} (h : l'.map Token.kind = l.map Token.kind) :
    newlines l' = newlines l := by
  have hcount (l : List Token) :
      newlines l = ((l.map Token.kind).takeWhile (· == .newline)).length := by
    rw [List.takeWhile_map, List.length_map]
    rfl
  rw [hcount, hcount, h]

/-- It is enough that related cursors have the same kinds ahead and that moving
both by the same number of tokens keeps them related. -/
theorem Cursor.Likeness.of_forward
    (hkinds : ∀ c c', R c c' → c'.ahead.map Token.kind = c.ahead.map Token.kind)
    (hsite : ∀ c c', R c c' → S c.site c'.site)
    (hforward : ∀ c c' n, R c c' → R (c.forward n) (c'.forward n)) : Likeness R S := by
  have hkind (c c' : Cursor) (h : R c c') : c'.kind = c.kind := by
    have hhead (c : Cursor) : c.kind = (c.ahead.map Token.kind).headD .eof := by
      obtain ⟨behind, ahead, stop⟩ := c
      cases ahead <;> rfl
    rw [hhead, hhead, hkinds c c' h]
  refine ⟨fun h => .inl (hkind _ _ h), fun h => hsite _ _ h, fun h _ => hforward _ _ 1 h, ?_, ?_⟩
  · intro c c' h
    have hcount : newlines c'.ahead = newlines c.ahead := newlines_of_kinds (hkinds c c' h)
    show R (c.forward (newlines c.ahead)) (c'.forward (newlines c'.ahead))
    rw [hcount]
    exact hforward c c' _ h
  · intro c c' h _
    have hnext : R c.advance c'.advance := hforward c c' 1 h
    rw [Cursor.skipConstruct, Cursor.skipConstruct, hkind c c' h,
      Pass.skipLength_of_kinds (hkinds _ _ hnext)]
    exact hforward _ _ _ hnext

end SwitchScript
