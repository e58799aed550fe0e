import SwitchScript.Proofs.Acceptance

/-!
# Brackets match

A run keeps no account of brackets. They are consumed one at a time, the opening
one in one place of a script and the closing one in another, and nowhere is one
compared with the other. Still, the brackets of an accepted stream are properly
nested (`brackets_match`), as long as nothing is stepped over: inside a construct
that is not analysed, square brackets are not even counted.

What is accepted is what the grammar derives, so this is a matter of the grammar
alone. A single token of a derivation may be one half of a pair, so it is not
enough to look at words that are nested themselves. `Form.Shifts` says how a form
changes the stack of brackets that are open, halves included, and the right sides
of all productions leave it as it was (`Form.shifts_production`). That a word
which leaves the empty stack empty is nested is shown apart from the grammar
(`nested_of_unmatched`).
-/

namespace SwitchScript

/-! ## Words of brackets -/

namespace Kind

def opensBracket : Kind → Bool
  | lparen | lbracket | lbrace => true
  | _ => false

/-- The opening bracket that a closing one matches. -/
def opener? : Kind → Option Kind
  | rparen => some lparen
  | rbracket => some lbracket
  | rbrace => some lbrace
  | _ => none

def isBracket (k : Kind) : Bool := k.opensBracket || k.opener?.isSome

end Kind

/-- Reads one more token, given the opening brackets that are unmatched so far,
the most recent one first. A closing bracket has to match that one. -/
def matchBracket (unmatched : List Kind) (k : Kind) : Option (List Kind) :=
  if k.opensBracket then some (k :: unmatched)
  else
    match k.opener?, unmatched with
    | none, _ => some unmatched
    | some _, [] => none
    | some opening, recent :: rest => if recent = opening then some rest else none

/-- The opening brackets that a word leaves unmatched, unless it closes one that
was not the most recent. -/
def unmatched? (ks : List Kind) : Option (List Kind) := ks.foldlM matchBracket []

/-- A sequence of brackets is properly nested. -/
inductive Nested : List Kind → Prop
  | nil : Nested []
  | pair {opening closing : Kind} {u v : List Kind} (hpair : closing.opener? = some opening)
    (hu : Nested u) (hv : Nested v) : Nested (opening :: (u ++ closing :: v))

variable {k opening closing : Kind} {ks st st' : List Kind}

theorem matchBracket_plain (h : k.isBracket = false) : matchBracket st k = some st := by
  rw [Kind.isBracket, Bool.or_eq_false_iff, Option.isSome_eq_false_iff, Option.isNone_iff_eq_none]
    at h
  simp [matchBracket, h.1, h.2]

theorem matchBracket_opening (h : k.opensBracket = true) : matchBracket st k = some (k :: st) :=
  if_pos h

/-- No bracket opens and closes. -/
theorem Kind.opensBracket_of_opener? (h : closing.opener? = some opening) :
    closing.opensBracket = false := by
  cases closing with
  | rparen | rbracket | rbrace => rfl
  | _ => exact absurd h (by simp [opener?])

theorem matchBracket_closing (h : closing.opener? = some opening) :
    matchBracket (opening :: st) closing = some st := by
  simp [matchBracket, Kind.opensBracket_of_opener? h, h]

/-- Only the most recent opening bracket can be closed. -/
theorem exists_of_matchBracket (h : matchBracket st k = some st') (hk : k.isBracket = true)
    (hopens : k.opensBracket = false) :
    ∃ opening, k.opener? = some opening ∧ st = opening :: st' := by
  rw [Kind.isBracket, hopens, Bool.false_or] at hk
  obtain ⟨opening, hopener⟩ := Option.isSome_iff_exists.mp hk
  refine ⟨opening, hopener, ?_⟩
  cases st with
  | nil => simp [matchBracket, hopens, hopener] at h
  | cons recent rest =>
      simp only [matchBracket, hopens, hopener, Bool.false_eq_true, if_false] at h
      split at h
      · rename_i hrecent
        rw [hrecent, Option.some.inj h]
      · exact absurd h (by simp)

/-- Tokens that are no brackets do not matter. -/
theorem foldlM_filter_isBracket (ks : List Kind) (st : List Kind) :
    (ks.filter Kind.isBracket).foldlM matchBracket st = ks.foldlM matchBracket st := by
  induction ks generalizing st with
  | nil => rfl
  | cons k ks ih =>
      cases hk : k.isBracket with
      | true =>
          rw [List.filter_cons_of_pos hk, List.foldlM_cons, List.foldlM_cons]
          exact bind_congr ih
      | false =>
          rw [List.filter_cons_of_neg (by simp [hk]), ih, List.foldlM_cons, matchBracket_plain hk]
          rfl

/-- The word closes the brackets on the stack, the most recent one first, and is
nested in between. -/
def Completes : List Kind → List Kind → Prop
  | [], ks => Nested ks
  | opening :: st, ks => ∃ u closing v, ks = u ++ closing :: v ∧ Nested u ∧
      closing.opener? = some opening ∧ Completes st v

/-- A pair of brackets in front of such a word. -/
theorem Completes.pair {u v : List Kind} (hpair : closing.opener? = some opening) (hu : Nested u)
    (hv : Completes st v) : Completes st (opening :: (u ++ closing :: v)) := by
  cases st with
  | nil => exact .pair hpair hu hv
  | cons recent st =>
      obtain ⟨w, c, z, rfl, hw, hc, hz⟩ := hv
      refine ⟨opening :: (u ++ closing :: w), c, z, ?_, .pair hpair hu hw, hc, hz⟩
      simp only [List.cons_append, List.append_assoc]

theorem completes_of_foldlM (hks : ∀ k ∈ ks, k.isBracket = true)
    (h : ks.foldlM matchBracket st = some []) : Completes st ks := by
  induction ks generalizing st with
  | nil =>
      obtain rfl : st = [] := Option.some.inj h
      exact .nil
  | cons k ks ih =>
      obtain ⟨hk, hks⟩ := List.forall_mem_cons.mp hks
      rw [List.foldlM_cons] at h
      obtain ⟨st', hstep, hrest⟩ := Option.bind_eq_some_iff.mp h
      have hcompletes : Completes st' ks := ih hks hrest
      cases hopens : k.opensBracket with
      | true =>
          obtain rfl := Option.some.inj ((matchBracket_opening hopens).symm.trans hstep)
          obtain ⟨u, c, v, rfl, hu, hc, hv⟩ := hcompletes
          exact hv.pair hc hu
      | false =>
          obtain ⟨opening, hopener, rfl⟩ := exists_of_matchBracket hstep hk hopens
          exact ⟨[], k, ks, rfl, .nil, hopener, hcompletes⟩

/-- With no bracket left open, a word of brackets is nested. -/
theorem nested_of_unmatched (hks : ∀ k ∈ ks, k.isBracket = true) (h : unmatched? ks = some []) :
    Nested ks :=
  completes_of_foldlM hks h

/-! ## What forms do to the stack of open brackets -/

namespace Form

/-- Every word of the form in which nothing is stepped over leads from one stack
of unmatched brackets to the other. -/
def Shifts : Form → List Kind → List Kind → Prop
  | empty, st, st' | symbol _, st, st' => st' = st
  | oneOf test, st, st' => ∀ k, test k = true → matchBracket st k = some st'
  | seq f g, st, st' => ∃ between, f.Shifts st between ∧ g.Shifts between st'
  | alt f g, st, st' => f.Shifts st st' ∧ g.Shifts st st'
  | star f, st, st' => st' = st ∧ f.Shifts st st
  | nest f, st, st' => f.Shifts st st'
  | skipped, _, _ => True

variable {f g : Form} {test : Kind → Bool} {between : List Kind}

theorem shifts_plain (h : ∀ k, test k = true → k.isBracket = false) : (oneOf test).Shifts st st :=
  fun k hk => matchBracket_plain (h k hk)

theorem shifts_token (h : k.isBracket = false) : (token k).Shifts st st :=
  shifts_plain fun _ hk => by rwa [beq_iff_eq.mp hk]

theorem shifts_opening (h : opening.opensBracket = true) :
    (token opening).Shifts st (opening :: st) := by
  intro k hk
  rw [beq_iff_eq.mp hk]
  exact matchBracket_opening h

theorem shifts_closing (h : closing.opener? = some opening) :
    (token closing).Shifts (opening :: st) st := by
  intro k hk
  rw [beq_iff_eq.mp hk]
  exact matchBracket_closing h

theorem Shifts.seq (hf : f.Shifts st between) (hg : g.Shifts between st') :
    (f >> g).Shifts st st' := ⟨between, hf, hg⟩

theorem Shifts.star (h : f.Shifts st st) : (star f).Shifts st st := ⟨rfl, h⟩

theorem Shifts.opt (h : f.Shifts st st) : (opt f).Shifts st st := ⟨h, rfl⟩

theorem Shifts.chain (h : f.Shifts st st) (htest : ∀ k, test k = true → k.isBracket = false) :
    (chain f test).Shifts st st :=
  h.seq (Shifts.star ((shifts_plain htest).seq h))

/-- A pair of brackets around a form that leaves the stack as it was. -/
theorem Shifts.enclosed (h : f.Shifts (opening :: st) (opening :: st))
    (hopens : opening.opensBracket = true) (hpair : closing.opener? = some opening) :
    (token opening >> f >> token closing).Shifts st st :=
  (shifts_opening hopens).seq (h.seq (shifts_closing hpair))

theorem shifts_lines : lines.Shifts st st := (shifts_token rfl).star

theorem shifts_symbol (s : Symbol) : (symbol s).Shifts st st := rfl

theorem shifts_switchBlock : Symbol.switchBlock.production.Shifts st st := by
  have hcases : (symbol .caseClause >> star (symbol .caseClause) >>
      opt (symbol .defaultClause)).Shifts (.lbrace :: st) (.lbrace :: st) :=
    (shifts_symbol _).seq ((shifts_symbol _).star.seq (shifts_symbol _).opt)
  -- the header is one pair of brackets, the block is the other
  refine (shifts_token rfl).seq ((shifts_opening rfl).seq ((shifts_symbol _).seq ?_))
  refine (shifts_closing rfl).seq ((shifts_opening rfl).seq (shifts_lines.seq ?_))
  exact Shifts.seq ⟨hcases, shifts_symbol _⟩ (shifts_closing rfl)

theorem shifts_primary : Symbol.primary.production.Shifts st st := by
  refine ⟨shifts_plain (by decide), ?_, ?_, ?_⟩
  · exact (shifts_token rfl).seq (shifts_symbol _).star
  · exact Shifts.enclosed (shifts_symbol .expression) rfl rfl
  · have hlist : (nest (chain (symbol .expression) (· == .comma))).Shifts
        (.lbracket :: st) (.lbracket :: st) := (shifts_symbol .expression).chain (by decide)
    exact hlist.opt.enclosed rfl rfl

/-- Whole constructs leave the stack as it was. -/
theorem shifts_production (s : Symbol) : s.production.Shifts st st := by
  cases s with
  | program => exact shifts_lines.seq ((shifts_symbol _).seq shifts_lines).star
  | statement => exact ⟨shifts_symbol _, shifts_token rfl⟩
  | clauseStatement =>
      refine ⟨shifts_symbol .switchBlock, shifts_symbol _, ?_, ?_, trivial⟩
      · exact shifts_token rfl
      · exact shifts_token rfl
  | switchBlock => exact shifts_switchBlock
  | caseClause =>
      refine (shifts_token rfl).seq ((shifts_symbol _).seq ?_)
      exact (shifts_token rfl).seq (shifts_symbol _)
  | defaultClause => exact (shifts_token rfl).seq ((shifts_token rfl).seq (shifts_symbol _))
  | body =>
      refine shifts_lines.seq (((shifts_symbol _).seq shifts_lines).star.seq ?_)
      exact ((shifts_token rfl).seq shifts_lines).opt
  | assignment =>
      refine (shifts_token rfl).seq ⟨?_, shifts_plain (by decide), (shifts_symbol _).star⟩
      exact (shifts_plain (by decide)).seq (shifts_symbol _)
  | expression => exact shifts_symbol _
  | logicalOr | logicalAnd | equality | comparison | term | factor =>
      exact (shifts_symbol _).chain (by decide)
  | unary => exact ⟨(shifts_plain (by decide)).seq (shifts_symbol .unary), shifts_symbol _⟩
  | primary => exact shifts_primary
  | suffix =>
      refine ⟨(shifts_token rfl).seq (shifts_token rfl), ?_, ?_⟩
      · exact Shifts.enclosed (shifts_symbol .expression) rfl rfl
      · exact Shifts.enclosed (shifts_symbol .arguments) rfl rfl
  | arguments => exact ((shifts_symbol _).chain (by decide)).opt

/-- A word in which nothing is stepped over shifts the stack as its form does. -/
theorem Derives.foldlM_matchBracket {d : Nat} {u y : List Kind} (h : f.Derives d u y)
    (hfree : ∀ k ∈ u, k.opensIgnored = false) (hshifts : f.Shifts st st') :
    u.foldlM matchBracket st = some st' := by
  induction h generalizing st st' with
  | empty => rw [show st' = st from hshifts]; rfl
  | @oneOf d test k y hk =>
      rw [List.foldlM_cons, hshifts k hk]
      rfl
  | seq _ _ ihf ihg =>
      obtain ⟨between, hf, hg⟩ := hshifts
      rw [List.forall_mem_append] at hfree
      rw [List.foldlM_append, ihf hfree.1 hf]
      exact ihg hfree.2 hg
  | left _ ih => exact ih hfree hshifts.1
  | right _ ih => exact ih hfree hshifts.2
  | done => rw [hshifts.1]; rfl
  | again _ _ ihf ihrest =>
      obtain ⟨rfl, hf⟩ := hshifts
      rw [List.forall_mem_append] at hfree
      rw [List.foldlM_append, ihf hfree.1 hf]
      exact ihrest hfree.2 hf.star
  | nest _ ih => exact ih hfree hshifts
  | skipped h =>
      obtain ⟨k, hk, hopens⟩ := h.exists_opens
      rw [hfree k hk] at hopens
      exact absurd hopens (by simp)
  | @symbol s d u y _ ih =>
      obtain rfl : st' = st := hshifts
      exact ih hfree (shifts_production s)

end Form

namespace Pass

/-- The brackets of an accepted stream match. If the stream is accepted, under
whatever limit, and no construct before its first end mark is stepped over, then
the brackets before this end mark are properly nested: read from the left, each
closing bracket matches the most recent opening one that is still unmatched, and
none is left in the end. -/
theorem brackets_match {s : Stream} {limit : Int} (hfree : ∀ k ∈ s.word, k.opensIgnored = false)
    (haccepts : (ofStream s limit).verdict? = some true) :
    let brackets := s.word.filter Kind.isBracket
    Nested brackets ∧ unmatched? brackets = some [] := by
  intro brackets
  have hprogram : IsProgram limit.toNat s.word := isProgram_of_accepts haccepts
  have hmatched : unmatched? brackets = some [] := by
    rw [unmatched?, foldlM_filter_isBracket]
    exact hprogram.foldlM_matchBracket hfree rfl
  have hbrackets : ∀ k ∈ brackets, k.isBracket = true := fun k hk => (List.mem_filter.mp hk).2
  exact ⟨nested_of_unmatched hbrackets hmatched, hmatched⟩

/-- A switch over an indexed call, with a call in its only clause. -/
def callInSwitch : Stream :=
  ⟨[⟨⟨"switch", ⟨1, 1⟩⟩, .kwSwitch⟩, ⟨⟨"(", ⟨1, 8⟩⟩, .lparen⟩, ⟨⟨"f", ⟨1, 9⟩⟩, .identifier⟩,
    ⟨⟨"(", ⟨1, 10⟩⟩, .lparen⟩, ⟨⟨")", ⟨1, 11⟩⟩, .rparen⟩, ⟨⟨"[", ⟨1, 12⟩⟩, .lbracket⟩,
    ⟨⟨"0", ⟨1, 13⟩⟩, .integer⟩, ⟨⟨"]", ⟨1, 14⟩⟩, .rbracket⟩, ⟨⟨")", ⟨1, 15⟩⟩, .rparen⟩,
    ⟨⟨"\x7b", ⟨1, 17⟩⟩, .lbrace⟩, ⟨⟨"default", ⟨1, 19⟩⟩, .kwDefault⟩, ⟨⟨":", ⟨1, 26⟩⟩, .colon⟩,
    ⟨⟨"g", ⟨1, 28⟩⟩, .identifier⟩, ⟨⟨"(", ⟨1, 29⟩⟩, .lparen⟩, ⟨⟨"[", ⟨1, 30⟩⟩, .lbracket⟩,
    ⟨⟨"]", ⟨1, 31⟩⟩, .rbracket⟩, ⟨⟨")", ⟨1, 32⟩⟩, .rparen⟩, ⟨⟨"\x7d", ⟨1, 34⟩⟩, .rbrace⟩],
    ⟨"", ⟨1, 35⟩⟩⟩

theorem brackets_match_callInSwitch :
    (∀ k ∈ callInSwitch.word, k.opensIgnored = false) ∧
      (ofStream callInSwitch 3).verdict? = some true ∧
      Nested [.lparen, .lparen, .rparen, .lbracket, .rbracket, .rparen,
        .lbrace, .lparen, .lbracket, .rbracket, .rparen, .rbrace] := by
  have hfree : ∀ k ∈ callInSwitch.word, k.opensIgnored = false := by decide
  have haccepts : (ofStream callInSwitch 3).verdict? = some true := by decide +kernel
  exact ⟨hfree, haccepts, (brackets_match hfree haccepts).1⟩

end Pass

end SwitchScript
