import SwitchScript.Proofs.Remarks
import SwitchScript.Proofs.Termination

/-!
# Driving the rules from outside

A caller need not run a whole stream. It may follow any rule from wherever the
pass stands, in the middle of a construct, behind an error or on the end mark,
make the small moves itself, and put moves together as the grammar does. `Call`
lists what can be asked for; the two repetitions carry the condition without
which they would go round for ever.

Every call has an answer (`Call.answers`), so calls are functions on passes, and
whatever was called before, a pass stays in order (`calls_in_order`). Most of
this is what any run keeps, wherever it starts. Depth needs one fact more: only
a construct that is opened below the limit adds to it
(`Moment.Reaches.depth_le`), and a move as a whole closes what it has opened.
-/

namespace SwitchScript

/-- What a caller may ask of a pass. -/
inductive Call
  | follow (rule : Rule)
  | advance
  | skipNewlines
  /-- Ask whether the current kind is one of these, which changes nothing. -/
  | check (kinds : List Kind)
  | expect (kind : Kind) (fault : Fault)
  | report (fault : Fault)
  | nest (inner : Call)
  | chain (operand : Call) (operators : List Kind) (h : .eof ∉ operators)
  | clauseBody (ends : List Kind) (h : .eof ∈ ends)

namespace Call

def move : Call → Move
  | follow rule => .follow rule
  | advance => .advance
  | skipNewlines => .skipNewlines
  | check _ => .stay
  | expect kind fault => .expect kind fault
  | report fault => .report fault
  | nest inner => .nest inner.move
  | chain operand operators _ => .chain operand.move operators.contains
  | clauseBody ends _ => .clauseBody ends.contains

/-- A budget for all rules is one for all calls. -/
theorem ends {b n : Nat} (hb : ∀ rule : Rule, rule.need n ≤ b) (c : Call) :
    c.move.Ends (Rule.run b) b n := by
  have hrounds : n + 2 ≤ b := by
    have hneed := hb .program
    simp only [Rule.need] at hneed
    omega
  induction c with
  | follow rule => exact (suffices_all b).ends rule n (hb rule)
  | advance => exact Move.ends_advance
  | skipNewlines => exact Move.ends_skipNewlines
  | check _ => exact Move.ends_stay
  | expect kind fault =>
      intro p _
      simp only [move, Move.expect, Move.run]
      split
      · exact ⟨_, rfl, p.size_advance_le⟩
      · exact ⟨_, rfl, Nat.le_refl _⟩
  | report fault => exact Move.ends_report fault
  | nest inner ih => exact ih.nest
  | chain operand operators h ih =>
      exact Move.ends_chain (by simpa using h) ih hrounds
  | clauseBody ends h =>
      exact (suffices_all b).ends_clauseBody (hb .statement) (by simpa using h)

theorem answers (c : Call) (p : Pass) : (p.perform? c.move).isSome = true := by
  obtain ⟨q, hq, -⟩ := c.ends (fun rule => Move.need_le_budget rule p) p (Nat.le_refl _)
  exact Option.isSome_of_mem hq

end Call

namespace Pass

/-- The state after a call. -/
def call (p : Pass) (c : Call) : Pass := (p.perform? c.move).get (c.answers p)

/-- The state after calls in a row. -/
def calls (p : Pass) (cs : List Call) : Pass := cs.foldl call p

theorem perform?_call (p : Pass) (c : Call) : p.perform? c.move = some (p.call c) :=
  (Option.some_get _).symm

theorem makes_call (p : Pass) (c : Call) : c.move.Makes p (p.call c) :=
  Move.makes_of_run (Move.makes_of_ruleRun p.budget) (p.perform?_call c)

end Pass

/-! ## Depth while a call runs -/

theorem Task.depth_perform_le (t : Task) (p : Pass) :
    (t.perform p).2.depth ≤ max p.depth p.limit := by
  have hsame : p.depth ≤ max p.depth p.limit := Int.le_max_left _ _
  cases t with
  | settle => exact hsame
  | leave =>
      show p.depth - 1 ≤ _
      omega
  | make m =>
      cases m with
      | nest inner =>
          simp only [perform]
          split
          · exact hsame
          · show p.depth + 1 ≤ _
            omega
      | demand test fault =>
          simp only [perform]
          split
          · exact hsame
          · exact hsame
      | require kind fault next =>
          simp only [perform]
          split
          · exact hsame
          · exact hsame
      | skipConstruct =>
          simp only [perform, Pass.skipConstruct]
          split
          · exact hsame
          · exact hsame
      | _ => exact hsame

/-- Nothing is opened from the limit on. -/
theorem Moment.Reaches.depth_le {c d : Moment} (h : c.Reaches d) :
    d.pass.depth ≤ max c.pass.depth c.pass.limit := by
  have hall := h.preserves (fun e => e.pass.limit = c.pass.limit ∧
    e.pass.depth ≤ max c.pass.depth c.pass.limit) (fun t ts p hp => ?_) ⟨rfl, Int.le_max_left _ _⟩
  · exact hall.2
  · obtain ⟨hlimit, hdepth⟩ := hp
    have hstep := t.depth_perform_le p
    have hkeep := (t.extends_perform p).limit
    dsimp only at hlimit hdepth ⊢
    omega

/-! ## Passes between calls -/

/-- Between two calls nothing is open, and the pass is valid unless it has
recorded an error. -/
structure Pass.InOrder (s : Stream) (limit : Int) (p : Pass) : Prop where
  stream : p.cursor.stream = s
  limit : p.limit = limit
  depth : p.depth = 0
  valid : p.valid = true ↔ p.errors = []

namespace Pass

variable {s : Stream} {limit : Int} {p q : Pass}

theorem Extends.valid_iff (h : p.Extends q) (hp : p.valid = true ↔ p.errors = []) :
    q.valid = true ↔ q.errors = [] := by
  constructor
  · intro hvalid
    rw [h.errors_eq_of_valid hvalid]
    exact hp.mp (h.valid_of_valid hvalid)
  · intro hnil
    have hbefore : p.errors = [] := List.prefix_nil.mp (hnil ▸ h.errors_prefix)
    cases hvalid : q.valid with
    | true => rfl
    | false => exact absurd hnil (h.errors_ne_nil (hp.mpr hbefore) hvalid)

theorem inOrder_start (s : Stream) (limit : Int) : InOrder s limit (start s limit) :=
  ⟨rfl, rfl, rfl, iff_of_true rfl rfl⟩

theorem InOrder.call (h : InOrder s limit p) (c : Call) : InOrder s limit (p.call c) where
  stream := (p.makes_call c).extends.stream_eq.trans h.stream
  limit := (p.makes_call c).extends.limit.trans h.limit
  depth := (p.makes_call c).depth_eq.trans h.depth
  valid := (p.makes_call c).extends.valid_iff h.valid

theorem InOrder.calls (h : InOrder s limit p) (cs : List Call) : InOrder s limit (p.calls cs) := by
  induction cs generalizing p with
  | nil => exact h
  | cons c cs ih => exact ih (h.call c)

/-- However a pass is driven, it stays in order. After any calls, one more call
comes to an end. It leaves the cursor on a token of the stream, no further back
than before, closes whatever it opens and never opens more than the limit
allows, takes no error or notice back, and the pass is valid exactly if no error
was ever recorded. -/
theorem calls_in_order (s : Stream) (limit : Int) (cs : List Call) (c : Call) :
    let p := (start s limit).calls cs
    let q := p.call c
    Moment.Reaches ⟨[.make c.move], p⟩ ⟨[], q⟩ ∧
      (q.cursor.index < s.toList.length ∧ s.toList[q.cursor.index]? = some q.cursor.current) ∧
      p.cursor.index ≤ q.cursor.index ∧
      (q.depth = 0 ∧ ∀ d : Moment, Moment.Reaches ⟨[.make c.move], p⟩ d →
        d.pass.depth ≤ max limit 0) ∧
      (p.errors <+: q.errors ∧ p.notices <+: q.notices) ∧
      (q.valid = true ↔ q.errors = []) := by
  intro p q
  have hp : InOrder s limit p := (inOrder_start s limit).calls cs
  have hq : InOrder s limit q := hp.call c
  have hon : p.Extends q := (p.makes_call c).extends
  refine ⟨p.makes_call c [], ⟨?_, ?_⟩, hon.index_le, ⟨hq.depth, fun d hd => ?_⟩,
    ⟨hon.errors_prefix, hon.notices_prefix⟩, hq.valid⟩
  · rw [← hq.stream]
    exact q.cursor.index_lt_length
  · rw [← hq.stream]
    exact q.cursor.getElem?_index
  · have hdepth := hd.depth_le
    rw [hp.depth, hp.limit, Int.max_comm] at hdepth
    exact hdepth

end Pass

end SwitchScript
