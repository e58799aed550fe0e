import SwitchScript.Proofs.EndMark
import SwitchScript.Proofs.Growth
import SwitchScript.Proofs.Language.Word

/-!
# Runs in lockstep

What a run does next is decided by its state alone. So if two states are
related in such a way that every task treats both alike, then two runs that
start in them have the same tasks to do all along (`Reaches.alongside`).

The relation worked out here is that of *twins*: states that differ at most in
the tokens after a given index. Twins stay twins up to that index, because no
step looks past the token at which it stops. For the two steps that count ahead
this is `local_newlines` and `local_skipLength`.
-/

namespace SwitchScript

/-- If every task treats related states alike, at the moments that a run passes
and as long as it is in order, then a second run keeps up with the first. -/
theorem Moment.Reaches.alongside (Inv : Moment → Prop) (R : Pass → Pass → Prop)
    (Ok : Pass → Prop) {c d : Moment} {p' : Pass} (h : c.Reaches d) (hc : Inv c)
    (hinv : ∀ t ts p, Inv ⟨t :: ts, p⟩ → Inv ⟨(t.perform p).1 ++ ts, (t.perform p).2⟩)
    (hback : ∀ t p, Ok (Task.perform t p).2 → Ok p)
    (hstep : ∀ t ts p p', Inv ⟨t :: ts, p⟩ → R p p' → Ok (t.perform p).2 →
      (t.perform p').1 = (t.perform p).1 ∧ R (t.perform p).2 (t.perform p').2)
    (hR : R c.pass p') (hd : Ok d.pass) :
    ∃ q', Reaches ⟨c.todo, p'⟩ ⟨d.todo, q'⟩ ∧ R d.pass q' := by
  induction h with
  | refl => exact ⟨p', Reaches.refl _, hR⟩
  | @tail d e hreach hnext ih =>
      obtain ⟨ts, p⟩ := d
      cases ts with
      | nil => exact absurd hnext (by simp [next?])
      | cons t ts =>
          obtain rfl := Option.some.inj hnext
          obtain ⟨q', hreach', hRq⟩ := ih (hback t p hd)
          have hmoment : Inv ⟨t :: ts, p⟩ := Reaches.preserves Inv hreach hinv hc
          obtain ⟨htodo, hR'⟩ := hstep t ts p q' hmoment hRq hd
          refine ⟨(t.perform q').2, hreach'.trans ?_, hR'⟩
          apply Reaches.head
          rw [htodo]
          exact Reaches.refl _

/-- The same where all that is known of the moments is that they are guarded. -/
theorem Moment.Reaches.lockstep (R : Pass → Pass → Prop) (Ok : Pass → Prop) {c d : Moment}
    {p' : Pass} (h : c.Reaches d) (hc : c.Guarded)
    (hback : ∀ t p, Ok (Task.perform t p).2 → Ok p)
    (hstep : ∀ t p p', Task.Guarded t p.kind → R p p' → Ok (t.perform p).2 →
      (t.perform p').1 = (t.perform p).1 ∧ R (t.perform p).2 (t.perform p').2)
    (hR : R c.pass p') (hd : Ok d.pass) :
    ∃ q', Reaches ⟨c.todo, p'⟩ ⟨d.todo, q'⟩ ∧ R d.pass q' :=
  h.alongside Moment.Guarded R Ok hc (fun _ _ _ => guarded_perform) hback
    (fun t _ p p' hguard => hstep t p p' hguard.1) hR hd

/-! ## What is counted ahead -/

/-- The number depends only on as many tokens as it counts, and the next one. -/
def Local (count : List Token → Nat) : Prop :=
  ∀ l l', l.take (count l + 1) = l'.take (count l + 1) → count l' = count l

theorem exists_cons_of_take_eq {t : Token} {l l' : List Token} {n : Nat}
    (h : (t :: l).take (n + 1) = l'.take (n + 1)) :
    ∃ l'', l' = t :: l'' ∧ l.take n = l''.take n := by
  cases l' with
  | nil => exact absurd h (by simp)
  | cons t' l'' =>
      rw [List.take_succ_cons, List.take_succ_cons] at h
      obtain ⟨rfl, htail⟩ := List.cons.inj h
      exact ⟨l'', rfl, htail⟩

theorem eq_nil_of_take_eq {l' : List Token} {n : Nat} (h : [].take (n + 1) = l'.take (n + 1)) :
    l' = [] := by
  cases l' with
  | nil => rfl
  | cons t l'' => exact absurd h (by simp)

/-- The number of line breaks at the start. -/
def newlines (l : List Token) : Nat := (l.takeWhile Token.isNewline).length

theorem local_newlines : Local newlines := by
  intro l
  induction l with
  | nil =>
      intro l' h
      rw [eq_nil_of_take_eq h]
  | cons t l ih =>
      intro l' h
      obtain ⟨l'', rfl, htail⟩ := exists_cons_of_take_eq h
      by_cases ht : t.isNewline = true
      · simp only [newlines, List.takeWhile_cons_of_pos ht, List.length_cons] at htail ⊢
        exact congrArg (· + 1) (ih l'' htail)
      · rw [newlines, newlines, List.takeWhile_cons_of_neg ht, List.takeWhile_cons_of_neg ht]

theorem local_skipLength (l : List Token) :
    ∀ (braces parens : Int) (before : Kind) (l' : List Token),
    l.take (Pass.skipLength braces parens before l + 1) =
      l'.take (Pass.skipLength braces parens before l + 1) →
    Pass.skipLength braces parens before l' = Pass.skipLength braces parens before l := by
  induction l with
  | nil =>
      intro braces parens before l' h
      rw [eq_nil_of_take_eq h]
  | cons t l ih =>
      intro braces parens before l' h
      obtain ⟨l'', rfl, htail⟩ := exists_cons_of_take_eq h
      rw [Pass.skipLength] at htail
      rw [Pass.skipLength, Pass.skipLength]
      split
      · rfl
      · rename_i hgo
        rw [if_neg hgo] at htail
        rw [ih _ _ _ l'' htail]

/-! ## Twins -/

namespace Cursor

/-- The tokens from the cursor on, with the end mark. -/
def rest (c : Cursor) : List Token := c.ahead ++ [c.stop.asStop]

/-- Two cursors stand at the same place, and their streams agree up to index
`i`. -/
structure Agrees (i : Nat) (c c' : Cursor) : Prop where
  behind : c'.behind = c.behind
  rest : c'.rest.take (i + 1 - c.index) = c.rest.take (i + 1 - c.index)

variable {i n : Nat} {c c' : Cursor}

theorem rest_eq_cons (c : Cursor) : ∃ l, c.rest = c.current :: l := by
  obtain ⟨behind, ahead, stop⟩ := c
  cases ahead with
  | nil => exact ⟨[], rfl⟩
  | cons t ahead => exact ⟨_, rfl⟩

theorem Agrees.index_eq (h : Agrees i c c') : c'.index = c.index := by
  rw [index, h.behind, index]

theorem Agrees.current_eq (h : Agrees i c c') (hi : c.index ≤ i) : c'.current = c.current := by
  obtain ⟨l, hl⟩ := c.rest_eq_cons
  obtain ⟨l', hl'⟩ := c'.rest_eq_cons
  have hrest := h.rest
  rw [hl, hl', Nat.succ_sub hi, List.take_succ_cons, List.take_succ_cons] at hrest
  exact (List.cons.inj hrest).1

/-- As many tokens as one cursor has ahead up to the index, the other has. -/
theorem Agrees.le_length (h : Agrees i c c') (hn : n ≤ c.ahead.length) (hi : c.index + n ≤ i) :
    n ≤ c'.ahead.length := by
  have hlen := congrArg List.length h.rest
  simp only [List.length_take, Cursor.rest, List.length_append, List.length_singleton] at hlen
  omega

theorem take_rest (hn : n ≤ c.ahead.length) : c.rest.take n = c.ahead.take n :=
  List.take_append_of_le_length hn

theorem Agrees.take_ahead (h : Agrees i c c') (hn : n ≤ c.ahead.length) (hi : c.index + n ≤ i) :
    c'.ahead.take n = c.ahead.take n := by
  have htake :
      (c'.rest.take (i + 1 - c.index)).take n = (c.rest.take (i + 1 - c.index)).take n := by
    rw [h.rest]
  rw [List.take_take, List.take_take, Nat.min_eq_left (by omega), take_rest hn,
    take_rest (h.le_length hn hi)] at htake
  exact htake

theorem rest_forward (hn : n ≤ c.ahead.length) : (c.forward n).rest = c.rest.drop n := by
  rw [rest, rest, List.drop_append_of_le_length hn]
  rfl

theorem Agrees.forward (h : Agrees i c c') (hn : n ≤ c.ahead.length) (hi : c.index + n ≤ i) :
    Agrees i (c.forward n) (c'.forward n) where
  behind := by
    show (c'.ahead.take n).reverse ++ c'.behind = (c.ahead.take n).reverse ++ c.behind
    rw [h.take_ahead hn hi, h.behind]
  rest := by
    rw [index_forward, Nat.min_eq_left hn, rest_forward hn, rest_forward (h.le_length hn hi),
      show i + 1 - (c.index + n) = i + 1 - c.index - n by omega, ← List.drop_take,
      ← List.drop_take, h.rest]

/-- A count that is local comes out the same for both cursors. -/
theorem Agrees.count_eq (h : Agrees i c c') {count : List Token → Nat} (hlocal : Local count)
    (hstop : ∀ l (x : Lexeme), count (l ++ [x.asStop]) = count l)
    (hi : c.index + count c.ahead ≤ i) : count c'.ahead = count c.ahead := by
  have hrest : count c'.rest = count c.rest := by
    apply hlocal
    have hcount : count c.rest = count c.ahead := hstop _ _
    have htake : (c.rest.take (i + 1 - c.index)).take (count c.rest + 1) =
        (c'.rest.take (i + 1 - c.index)).take (count c.rest + 1) := by
      rw [h.rest]
    rw [List.take_take, List.take_take, Nat.min_eq_left (by omega)] at htake
    exact htake
  rwa [Cursor.rest, Cursor.rest, hstop, hstop] at hrest

end Cursor

theorem newlines_append_stop (l : List Token) (x : Lexeme) :
    newlines (l ++ [x.asStop]) = newlines l := by
  induction l with
  | nil => rfl
  | cons t l ih =>
      rw [newlines, newlines, List.cons_append, List.takeWhile_cons, List.takeWhile_cons]
      split
      · exact congrArg (· + 1) ih
      · rfl

theorem skipLength_append_stop (l : List Token) (x : Lexeme) :
    ∀ (braces parens : Int) (before : Kind),
      Pass.skipLength braces parens before (l ++ [x.asStop]) =
        Pass.skipLength braces parens before l := by
  induction l with
  | nil =>
      intro braces parens before
      rw [List.nil_append, Pass.skipLength, Pass.skipLength]
      exact if_pos (.inl rfl)
  | cons t l ih =>
      intro braces parens before
      rw [List.cons_append, Pass.skipLength, Pass.skipLength]
      split
      · rfl
      · rw [ih]

namespace Pass

/-- Two states are the same but for tokens after index `i`. -/
structure Twin (i : Nat) (p p' : Pass) : Prop where
  cursor : p.cursor.Agrees i p'.cursor
  rest : p' = { p with cursor := p'.cursor }

namespace Twin

variable {i : Nat} {p p' : Pass}

theorem kind_eq (h : p.Twin i p') (hi : p.cursor.index ≤ i) : p'.kind = p.kind := by
  rw [kind, Cursor.kind, h.cursor.current_eq hi]
  rfl

theorem site_eq (h : p.Twin i p') (hi : p.cursor.index ≤ i) : p'.site = p.site := by
  rw [site, h.cursor.current_eq hi, h.cursor.index_eq]
  rfl

theorem report (h : p.Twin i p') (hi : p.cursor.index ≤ i) (fault : Fault) :
    (p.report fault).Twin i (p'.report fault) := by
  refine ⟨h.cursor, ?_⟩
  rw [Pass.report, h.site_eq hi, h.rest]
  rfl

theorem notify (h : p.Twin i p') (hi : p.cursor.index ≤ i) : p.notify.Twin i p'.notify := by
  refine ⟨h.cursor, ?_⟩
  rw [Pass.notify, h.site_eq hi, h.rest]
  rfl

theorem forward {n : Nat} (h : p.Twin i p') (hn : n ≤ p.cursor.ahead.length)
    (hi : p.cursor.index + n ≤ i) :
    Twin i { p with cursor := p.cursor.forward n } { p' with cursor := p'.cursor.forward n } := by
  refine ⟨h.cursor.forward hn hi, ?_⟩
  rw [h.rest]

theorem length_ahead_pos (h : p.kind ≠ .eof) : 1 ≤ p.cursor.ahead.length :=
  List.length_pos_iff.mpr (Cursor.ahead_ne_nil h)

theorem index_advance (h : p.kind ≠ .eof) : p.advance.cursor.index = p.cursor.index + 1 := by
  rw [Pass.advance, Cursor.advance, Cursor.index_forward, Nat.min_eq_left (length_ahead_pos h)]

theorem advance (h : p.Twin i p') (hk : p.kind ≠ .eof) (hi : p.advance.cursor.index ≤ i) :
    p.advance.Twin i p'.advance := by
  rw [index_advance hk] at hi
  exact h.forward (length_ahead_pos hk) hi

/-- Twins that count ahead come to the same place. -/
theorem forward_count (h : p.Twin i p') {count : List Token → Nat} (hlocal : Local count)
    (hstop : ∀ l (x : Lexeme), count (l ++ [x.asStop]) = count l)
    (hle : count p.cursor.ahead ≤ p.cursor.ahead.length)
    (hi : (p.cursor.forward (count p.cursor.ahead)).index ≤ i) :
    Twin i { p with cursor := p.cursor.forward (count p.cursor.ahead) }
      { p' with cursor := p'.cursor.forward (count p'.cursor.ahead) } := by
  rw [Cursor.index_forward, Nat.min_eq_left hle] at hi
  rw [h.cursor.count_eq hlocal hstop hi]
  exact h.forward hle hi

theorem skipNewlines (h : p.Twin i p') (hi : p.skipNewlines.cursor.index ≤ i) :
    p.skipNewlines.Twin i p'.skipNewlines :=
  h.forward_count local_newlines newlines_append_stop (List.takeWhile_sublist _).length_le hi

theorem skipConstruct (h : p.Twin i p') (hk : p.kind ≠ .eof)
    (hi : p.skipConstruct.cursor.index ≤ i) : p.skipConstruct.Twin i p'.skipConstruct := by
  have hnotify : p.notify.cursor.index ≤ p.notify.advance.cursor.index :=
    p.notify.extends_advance.index_le
  have hadvance : p.notify.advance.cursor.index ≤ p.skipConstruct.cursor.index := by
    simp only [Pass.skipConstruct]
    split
    · exact Cursor.index_le_index_forward _ _
    · exact Nat.le_refl _
  have hpi : p.cursor.index ≤ i := Nat.le_trans (Nat.le_trans hnotify hadvance) hi
  have htwin : p.notify.advance.Twin i p'.notify.advance :=
    (h.notify hpi).advance hk (Nat.le_trans hadvance hi)
  have hvalid : p'.notify.advance.valid = p.notify.advance.valid := by
    rw [htwin.rest]
  simp only [Pass.skipConstruct, h.kind_eq hpi, hvalid] at hi ⊢
  split
  · rename_i hgo
    rw [if_pos hgo] at hi
    have hle : skipLength 0 0 p.kind p.notify.advance.cursor.ahead ≤
        p.notify.advance.cursor.ahead.length :=
      Nat.le_trans (skipLength_le _ _ _ _) p.notify.advance.cursor.length_word_le
    have hforward := htwin.forward_count (fun l => local_skipLength l 0 0 p.kind)
      (fun l x => skipLength_append_stop l x 0 0 p.kind) hle hi
    simpa only [hvalid] using hforward
  · exact htwin

end Twin

end Pass

theorem Pass.twin_start {s s' : Stream} {i : Nat} (limit : Int)
    (h : s'.toList.take (i + 1) = s.toList.take (i + 1)) :
    (start s limit).Twin i (start s' limit) :=
  ⟨⟨rfl, h⟩, rfl⟩

/-- Twins have the same tasks to do, and stay twins up to the index. -/
theorem Task.twin_perform {i : Nat} {t : Task} {p p' : Pass} (hguard : t.Guarded p.kind)
    (h : p.Twin i p') (hi : (t.perform p).2.cursor.index ≤ i) :
    (t.perform p').1 = (t.perform p).1 ∧ (t.perform p).2.Twin i (t.perform p').2 := by
  have hpi : p.cursor.index ≤ i := Nat.le_trans (t.extends_perform p).index_le hi
  have hk := h.kind_eq hpi
  have hvalid : p'.valid = p.valid := by rw [h.rest]
  have hdepth : p'.depth = p.depth := by rw [h.rest]
  have hlimit : p'.limit = p.limit := by rw [h.rest]
  have hverdict : p'.verdict? = p.verdict? := by rw [h.rest]
  cases t with
  | leave => exact ⟨rfl, h.cursor, by rw [h.rest]; rfl⟩
  | settle =>
      refine ⟨rfl, h.cursor, ?_⟩
      show p'.settle = _
      rw [Pass.settle, hk, hvalid, h.rest]
      rfl
  | make m =>
      cases m with
      | stay | both => exact ⟨rfl, h⟩
      | follow rule => exact ⟨rfl, h⟩
      | advance => exact ⟨rfl, h.advance hguard hi⟩
      | skipNewlines => exact ⟨rfl, h.skipNewlines hi⟩
      | skipConstruct => exact ⟨rfl, h.skipConstruct hguard hi⟩
      | report fault => exact ⟨rfl, h.report hpi fault⟩
      | reject fault => exact ⟨rfl, (h.report hpi fault).advance hguard hi⟩
      | demand test fault =>
          simp only [perform, hk]
          split
          · exact ⟨trivial, h⟩
          · exact ⟨trivial, h.report hpi fault⟩
      | require kind fault next =>
          simp only [perform, hk] at hi ⊢
          split
          · rename_i hkind
            rw [if_pos hkind] at hi
            exact ⟨rfl, h.advance (by rw [hkind]; exact hguard.1) hi⟩
          · exact ⟨rfl, h.report hpi fault⟩
      | peek choose =>
          simp only [perform, hk]
          exact ⟨trivial, h⟩
      | once test body | repeated test body =>
          simp only [perform, hk, hvalid]
          exact ⟨trivial, h⟩
      | nest inner =>
          simp only [perform, hdepth, hlimit]
          split
          · exact ⟨rfl, h.report hpi _⟩
          · exact ⟨rfl, h.cursor, by rw [h.rest]⟩
      | judge body =>
          simp only [perform, hverdict]
          exact ⟨trivial, h⟩

end SwitchScript
