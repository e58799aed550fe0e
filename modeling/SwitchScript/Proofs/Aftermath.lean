import SwitchScript.Proofs.Price

/-!
# After the first error

From its first error on a run only winds down. `Task.Unwinds` lists all that
can still happen: a task is passed by, line breaks are skipped, a delimiter that
is waited for is consumed, or something that is missing is recorded. No other
token is consumed, with one exception: a token at which no statement starts is
stepped over together with the error about it, which is always the first.

So the tokens consumed are among those that the constructs open at the first
error wait for, and each further error is about one of these. Both are counted
by a price (`Price.tokens`, `Price.echoes`).
-/

namespace SwitchScript

namespace Price

/-- The tokens that may still be consumed. -/
def tokens : Price where
  reject := 1
  demand := 0
  require next := next + 1
  require_zero := rfl
  two_le_header := by decide
  reject_le_header := by decide

/-- The errors that may still be recorded. -/
def echoes : Price where
  reject := 0
  demand := 1
  require next := max 1 next
  require_zero := rfl
  two_le_header := by decide
  reject_le_header := by decide

theorem header_tokens : tokens.header = 3 := rfl

theorem header_echoes : echoes.header = 2 := rfl

end Price

/-- The delimiters that a move waits for. -/
def Move.owed : Move → List Kind
  | require kind _ next => kind :: next.owed
  | both first second => first.owed ++ second.owed
  | _ => []

namespace Task

def owed : Task → List Kind
  | make m => m.owed
  | leave | settle => []

/-- What the tasks of a run that is not valid can still do. -/
inductive Unwinds (p : Pass) : Task → List Task → Pass → Prop
  | idle {t q} (hcursor : q.cursor = p.cursor) (hvalid : q.valid = p.valid)
    (herrors : q.errors = p.errors) : Unwinds p t [] q
  | lines : Unwinds p (make .skipNewlines) [] p.skipNewlines
  | split {first second} (hfirst : first.windsDown = true) (hsecond : second.windsDown = true) :
    Unwinds p (make (.both first second)) [make first, make second] p
  | echo {t fault} (hfault : fault.isEcho = true) (hprice : 1 ≤ t.price .echoes) :
    Unwinds p t [] (p.report fault)
  | delimiter {kind fault next} (hkind : kind.isDelimiter = true) (hk : p.kind = kind)
    (hnext : next.windsDown = true) :
    Unwinds p (make (.require kind fault next)) [make next] p.advance

theorem unwinds_perform {t : Task} {p : Pass} (ht : t.windsDown = true)
    (hp : p.valid = false) : Unwinds p t (t.perform p).1 (t.perform p).2 := by
  cases t with
  | leave | settle => exact .idle rfl rfl rfl
  | make m =>
      cases m with
      | stay => exact .idle rfl rfl rfl
      | skipNewlines => exact .lines
      | demand test fault =>
          simp only [perform]
          split
          · exact .idle rfl rfl rfl
          · exact .echo ht (Nat.le_refl _)
      | require kind fault next =>
          have hparts :
              (kind.isDelimiter = true ∧ fault.isEcho = true) ∧ next.windsDown = true := by
            rw [← Bool.and_eq_true, ← Bool.and_eq_true]
            exact ht
          simp only [perform]
          split
          · rename_i hk
            exact .delimiter hparts.1.1 hk hparts.2
          · exact .echo hparts.1.2 (Nat.le_max_left _ _)
      | both first second =>
          obtain ⟨hfirst, hsecond⟩ := Bool.and_eq_true_iff.mp ht
          exact .split hfirst hsecond
      | once test body | repeated test body =>
          simp only [perform, hp, Bool.false_and]
          exact .idle rfl rfl rfl
      | advance | skipConstruct | report | reject | peek | nest | judge | follow =>
          exact absurd ht (by simp [windsDown, Move.windsDown])

end Task

/-! ## Tokens -/

namespace Pass

/-- The kinds of the tokens passed over from index `i` on, without the line
breaks. -/
def consumed (i : Nat) (p : Pass) : List Kind :=
  ((p.cursor.behind.reverse.drop i).map Token.kind).filter (· != .newline)

variable {i n : Nat} {p q : Pass}

theorem consumed_of_cursor (h : q.cursor = p.cursor) : q.consumed i = p.consumed i := by
  rw [consumed, h, consumed]

theorem consumed_index (p : Pass) : p.consumed p.cursor.index = [] := by
  rw [consumed, Cursor.index, ← List.length_reverse, List.drop_length]
  rfl

theorem consumed_forward (hi : i ≤ p.cursor.index) (hq : q.cursor = p.cursor.forward n) :
    q.consumed i =
      p.consumed i ++ ((p.cursor.ahead.take n).map Token.kind).filter (· != .newline) := by
  have hle : i ≤ p.cursor.behind.reverse.length := by rwa [List.length_reverse]
  rw [consumed, hq, Cursor.forward, List.reverse_append, List.reverse_reverse,
    List.drop_append_of_le_length hle, List.map_append, List.filter_append, consumed]

theorem consumed_skipNewlines (hi : i ≤ p.cursor.index) :
    p.skipNewlines.consumed i = p.consumed i := by
  have hnone : (((p.cursor.ahead.take (p.cursor.ahead.takeWhile Token.isNewline).length).map
      Token.kind).filter (· != .newline)) = [] := by
    rw [← List.prefix_iff_eq_take.mp (List.takeWhile_prefix _), List.filter_eq_nil_iff]
    intro k hk
    obtain ⟨t, ht, rfl⟩ := List.mem_map.mp hk
    have hnewline := List.all_eq_true.mp List.all_takeWhile t ht
    simpa [Token.isNewline] using hnewline
  rw [consumed_forward hi rfl, hnone, List.append_nil]

theorem consumed_advance (hi : i ≤ p.cursor.index) :
    (p.advance.consumed i).Sublist (p.consumed i ++ [p.kind]) := by
  rw [consumed_forward hi (show p.advance.cursor = p.cursor.forward 1 from rfl)]
  refine (List.Sublist.refl _).append (List.filter_sublist.trans ?_)
  rw [kind, Cursor.kind, Cursor.current]
  cases p.cursor.ahead with
  | nil => exact List.nil_sublist _
  | cons t ahead => exact List.Sublist.refl _

end Pass

namespace Moment

/-- The run is not valid any more, and what is to be done winds down. -/
structure WindsDown (c : Moment) : Prop where
  invalid : c.pass.valid = false
  tasks : ∀ t ∈ c.todo, t.windsDown = true

/-- The delimiters that the constructs still open wait for. -/
def owed (c : Moment) : List Kind := c.todo.flatMap Task.owed

theorem windsDown_perform {t : Task} {ts : List Task} {p : Pass} (h : WindsDown ⟨t :: ts, p⟩) :
    WindsDown ⟨(t.perform p).1 ++ ts, (t.perform p).2⟩ := by
  obtain ⟨ht, hts⟩ := List.forall_mem_cons.mp h.tasks
  have hstep := Task.unwinds_perform ht h.invalid
  generalize (t.perform p).1 = new, (t.perform p).2 = q at hstep
  have hp : p.valid = false := h.invalid
  cases hstep with
  | idle _ hvalid _ => exact ⟨hvalid.trans hp, hts⟩
  | lines => exact ⟨hp, hts⟩
  | split hfirst hsecond =>
      exact ⟨hp, List.forall_mem_cons.mpr ⟨hfirst, List.forall_mem_cons.mpr ⟨hsecond, hts⟩⟩⟩
  | echo _ _ => exact ⟨rfl, hts⟩
  | delimiter _ _ hnext => exact ⟨hp, List.forall_mem_cons.mpr ⟨hnext, hts⟩⟩

theorem Reaches.windsDown {c d : Moment} (h : c.Reaches d) (hc : c.WindsDown) : d.WindsDown :=
  h.preserves WindsDown (fun _ _ _ hdown => windsDown_perform hdown) hc

variable {t : Task} {ts : List Task} {p : Pass} {i : Nat}

/-- Of the delimiters that are waited for, those consumed are crossed out. -/
theorem consumed_perform (h : WindsDown ⟨t :: ts, p⟩) (hi : i ≤ p.cursor.index) :
    ((t.perform p).2.consumed i ++ owed ⟨(t.perform p).1 ++ ts, (t.perform p).2⟩).Sublist
      (p.consumed i ++ owed ⟨t :: ts, p⟩) := by
  have hstep := Task.unwinds_perform (h.tasks t (by simp)) h.invalid
  simp only [owed, List.flatMap_cons, List.flatMap_append]
  generalize (t.perform p).1 = new, (t.perform p).2 = q at hstep
  cases hstep with
  | idle hcursor _ _ =>
      rw [Pass.consumed_of_cursor hcursor]
      exact (List.Sublist.refl _).append (List.sublist_append_right _ _)
  | lines =>
      rw [Pass.consumed_skipNewlines hi]
      exact List.Sublist.refl _
  | @split first second _ _ =>
      rw [show [Task.make first, Task.make second].flatMap Task.owed = first.owed ++ second.owed by
        simp [Task.owed]]
      exact List.Sublist.refl _
  | echo _ _ => exact (List.Sublist.refl _).append (List.sublist_append_right _ _)
  | @delimiter kind fault next _ hk _ =>
      have hadvance := Pass.consumed_advance hi
      rw [hk] at hadvance
      have hall := hadvance.append (List.Sublist.refl (next.owed ++ ts.flatMap Task.owed))
      simpa [Task.owed, Move.owed] using hall

/-- Errors come out of what is paid for. -/
theorem errors_perform (h : WindsDown ⟨t :: ts, p⟩) :
    ∃ later, (t.perform p).2.errors = p.errors ++ later ∧
      (∀ e ∈ later, ∃ fault, e.fault? = some fault ∧ fault.isEcho = true) ∧
      later.length + Price.echoes.total ((t.perform p).1 ++ ts) ≤ Price.echoes.total (t :: ts) := by
  have hstep := Task.unwinds_perform (h.tasks t (by simp)) h.invalid
  generalize (t.perform p).1 = new, (t.perform p).2 = q at hstep
  rw [Price.total_append, Price.total_cons]
  cases hstep with
  | idle _ _ herrors => exact ⟨[], by simp [herrors], by simp, by simp⟩
  | lines => exact ⟨[], (List.append_nil _).symm, by simp, by simp⟩
  | @split first second _ _ =>
      refine ⟨[], (List.append_nil _).symm, by simp, ?_⟩
      show 0 + (first.price .echoes + (second.price .echoes + 0) + _) ≤
        first.price .echoes + second.price .echoes + _
      omega
  | @echo t fault hfault hprice =>
      refine ⟨[.error p.site fault], p.errors_report fault, ?_, ?_⟩
      · intro e he
        rw [List.mem_singleton] at he
        exact ⟨fault, by rw [he]; rfl, hfault⟩
      · show 1 + (0 + _) ≤ _
        omega
  | @delimiter kind fault next _ _ _ =>
      refine ⟨[], (List.append_nil _).symm, by simp, ?_⟩
      show 0 + (next.price .echoes + 0 + _) ≤ max 1 (next.price .echoes) + _
      omega

/-- A run that winds down consumes delimiters that are waited for. -/
theorem Reaches.consumed {c d : Moment} (h : c.Reaches d) (hc : c.WindsDown)
    (hi : i ≤ c.pass.cursor.index) :
    (d.pass.consumed i ++ d.owed).Sublist (c.pass.consumed i ++ c.owed) := by
  have hall := h.preserves (fun e => e.WindsDown ∧ i ≤ e.pass.cursor.index ∧
    (e.pass.consumed i ++ e.owed).Sublist (c.pass.consumed i ++ c.owed)) (fun t ts p hp => ?_)
    ⟨hc, hi, List.Sublist.refl _⟩
  · exact hall.2.2
  · obtain ⟨hdown, hle, hsub⟩ := hp
    exact ⟨windsDown_perform hdown, Nat.le_trans hle (t.extends_perform p).index_le,
      (consumed_perform hdown hle).trans hsub⟩

/-- A run that winds down records no more errors than are paid for. -/
theorem Reaches.echoes {c d : Moment} (h : c.Reaches d) (hc : c.WindsDown) :
    ∃ later, d.pass.errors = c.pass.errors ++ later ∧
      (∀ e ∈ later, ∃ fault, e.fault? = some fault ∧ fault.isEcho = true) ∧
      later.length + Price.echoes.total d.todo ≤ Price.echoes.total c.todo := by
  have hall := h.preserves (fun e => e.WindsDown ∧ ∃ later, e.pass.errors = c.pass.errors ++ later ∧
      (∀ e ∈ later, ∃ fault, e.fault? = some fault ∧ fault.isEcho = true) ∧
      later.length + Price.echoes.total e.todo ≤ Price.echoes.total c.todo) (fun t ts p hp => ?_)
    ⟨hc, [], (List.append_nil _).symm, by simp, by simp⟩
  · exact hall.2
  · obtain ⟨hdown, later, herrors, hecho, hle⟩ := hp
    obtain ⟨more, hmore, hecho', hle'⟩ := errors_perform hdown
    refine ⟨windsDown_perform hdown, later ++ more, ?_, ?_, ?_⟩
    · show (t.perform p).2.errors = _
      rw [hmore, show p.errors = _ from herrors, List.append_assoc]
    · intro e he
      rcases List.mem_append.mp he with hmem | hmem
      · exact hecho e hmem
      · exact hecho' e hmem
    · refine Nat.le_trans ?_ hle
      rw [List.length_append]
      show later.length + more.length + Price.echoes.total ((t.perform p).1 ++ ts) ≤
        later.length + Price.echoes.total (t :: ts)
      omega

/-! ## A run that fails -/

end Moment

namespace Task

/-- The kind of a token that a task steps over together with an error. -/
def rejected : Task → Pass → List Kind
  | make (.reject _), p => [p.kind]
  | _, _ => []

variable {t : Task} {p : Pass} {fault : Fault}

/-- A task that fails is over, and unless it rejects the current token, the
cursor stays where it is. -/
theorem perform_of_fault (h : t.fault? p = some fault) :
    (∃ m, t = make m ∧ m.sure = false) ∧ (t.perform p).1 = [] ∧
      (t.rejected p = [] ∧ (t.perform p).2.cursor = p.cursor ∨
        t = make (.reject fault) ∧ (t.perform p).2.cursor = p.cursor.advance) := by
  cases t with
  | leave | settle => exact absurd h (by simp [fault?])
  | make m =>
      cases m with
      | report fault' => exact ⟨⟨_, rfl, rfl⟩, rfl, .inl ⟨rfl, rfl⟩⟩
      | reject fault' =>
          obtain rfl := Option.some.inj h
          exact ⟨⟨_, rfl, rfl⟩, rfl, .inr ⟨rfl, rfl⟩⟩
      | demand test fault' =>
          simp only [fault?] at h
          simp only [perform]
          split at h
          · exact absurd h (by simp)
          · rename_i hk
            rw [if_neg hk]
            exact ⟨⟨_, rfl, rfl⟩, trivial, .inl ⟨rfl, rfl⟩⟩
      | require kind fault' next =>
          simp only [fault?] at h
          simp only [perform]
          split at h
          · exact absurd h (by simp)
          · rename_i hk
            rw [if_neg hk]
            exact ⟨⟨_, rfl, rfl⟩, rfl, .inl ⟨rfl, rfl⟩⟩
      | nest inner =>
          simp only [fault?] at h
          simp only [perform]
          split at h
          · rename_i hk
            rw [if_pos hk]
            exact ⟨⟨_, rfl, rfl⟩, rfl, .inl ⟨rfl, rfl⟩⟩
          · exact absurd h (by simp)
      | _ => exact absurd h (by simp [fault?])

end Task

namespace Moment

variable {s : Stream} {limit : Int} {t : Task} {ts : List Task} {p : Pass} {fault : Fault}
  {d : Moment}

/-- Where a run fails, all the rest winds down, and the price of it and of the
token at hand is within the limit. -/
theorem Fails.covered (h : (start s limit).Fails t ts p fault d) (c : Price) :
    (∀ u ∈ ts, u.windsDown = true) ∧
      (t.rejected p ≠ [] → fault.isMisplaced = true) ∧
      c.total ts + c.reject * (t.rejected p).length ≤ limit.toNat + c.header := by
  obtain ⟨⟨m, rfl, hsure⟩, -, hcursor⟩ := Task.perform_of_fault h.fault
  obtain ⟨hcovers, -⟩ := c.covers_of_reaches h.before
  obtain ⟨hdown, htotal, hwithin⟩ := hcovers.resolve_left (by simp [hsure])
  refine ⟨hdown, ?_, ?_⟩
  · intro hne
    rcases hcursor with ⟨hnil, -⟩ | ⟨heq, -⟩
    · exact absurd hnil hne
    · cases heq
      exact hwithin.1
  · rcases hcursor with ⟨hnil, -⟩ | ⟨heq, -⟩
    · rw [hnil]
      simpa using htotal
    · cases heq
      have hreject := hwithin.2
      show c.total ts + c.reject * 1 ≤ limit.toNat + c.header
      omega

theorem Fails.windsDown (h : (start s limit).Fails t ts p fault d) :
    WindsDown ⟨ts, (t.perform p).2⟩ where
  invalid := by
    show (t.perform p).2.valid = false
    rw [t.valid_perform, h.fault, Option.isNone_some, Bool.and_false]
  tasks := (h.covered .tokens).1

theorem Fails.unwinding (h : (start s limit).Fails t ts p fault d) :
    Reaches ⟨ts, (t.perform p).2⟩ d := by
  have hafter := h.after
  rwa [(Task.perform_of_fault h.fault).2.1] at hafter

theorem length_owed (ts : List Task) (p : Pass) :
    (owed ⟨ts, p⟩).length = Price.tokens.total ts := by
  have hmove (m : Move) : m.owed.length = m.price .tokens := by
    induction m with
    | require kind fault next ih => exact congrArg (· + 1) ih
    | both first second ihfirst ihsecond =>
        rw [Move.owed, List.length_append, ihfirst, ihsecond, Move.price]
    | _ => rfl
  induction ts with
  | nil => rfl
  | cons t ts ih =>
      rw [Price.total_cons, ← ih, owed, owed, List.flatMap_cons, List.length_append]
      congr 1
      cases t with
      | make m => exact hmove m
      | leave | settle => rfl

theorem delimiter_of_mem_owed {ts : List Task} {p : Pass}
    (h : ∀ t ∈ ts, t.windsDown = true) : ∀ k ∈ owed ⟨ts, p⟩, k.isDelimiter = true := by
  have hmove (m : Move) (hm : m.windsDown = true) : ∀ k ∈ m.owed, k.isDelimiter = true := by
    induction m with
    | require kind fault next ih =>
        rw [Move.windsDown, Bool.and_eq_true, Bool.and_eq_true] at hm
        exact List.forall_mem_cons.mpr ⟨hm.1.1, ih hm.2⟩
    | both first second ihfirst ihsecond =>
        rw [Move.windsDown, Bool.and_eq_true] at hm
        exact List.forall_mem_append.mpr ⟨ihfirst hm.1, ihsecond hm.2⟩
    | _ => exact fun k hk => absurd hk (by simp [Move.owed])
  intro k hk
  obtain ⟨t, ht, hkt⟩ := List.mem_flatMap.mp hk
  cases t with
  | make m => exact hmove m (h _ ht) k hkt
  | leave | settle => exact absurd hkt (by simp [Task.owed])

/-- A run that fails at a task freezes: what it consumes afterwards are line
breaks, delimiters that the constructs open at the failure wait for, and, if
the task has rejected a token, this token. -/
structure Freezes (t : Task) (ts : List Task) (p : Pass) (fault : Fault) (e : Pass) :
    Prop where
  /-- The failing task consumes nothing, or the token that it rejects. -/
  failing : t.rejected p = [] ∧ (t.perform p).2.cursor = p.cursor ∨
    t = .make (.reject fault) ∧ fault.isMisplaced = true ∧
      (t.perform p).2.cursor = p.cursor.advance
  /-- A later task consumes nothing, or line breaks, or one delimiter that it
  expects. -/
  later : ∀ u us q, Reaches ⟨ts, (t.perform p).2⟩ ⟨u :: us, q⟩ →
    (u.perform q).2.cursor = q.cursor ∨ u = .make .skipNewlines ∨
      ∃ kind fault' next, u = .make (.require kind fault' next) ∧ kind.isDelimiter = true ∧
        q.kind = kind ∧ (u.perform q).2.cursor = q.cursor.advance
  /-- All delimiters consumed were waited for at the failure, in this order. -/
  consumed : (e.consumed p.cursor.index).Sublist (t.rejected p ++ owed ⟨ts, p⟩)
  delimiters : ∀ k ∈ owed ⟨ts, p⟩, k.isDelimiter = true

theorem Fails.freezes {e : Pass} (h : (start s limit).Fails t ts p fault ⟨[], e⟩) :
    Freezes t ts p fault e where
  failing := by
    rcases (Task.perform_of_fault h.fault).2.2 with hstay | ⟨rfl, hcursor⟩
    · exact .inl hstay
    · exact .inr ⟨rfl, (h.covered .tokens).2.1 (by simp [Task.rejected]), hcursor⟩
  later := by
    intro u us q hreach
    have hdown := hreach.windsDown h.windsDown
    have hstep := Task.unwinds_perform (hdown.tasks u (by simp)) hdown.invalid
    generalize (u.perform q).1 = new, (u.perform q).2 = q' at hstep ⊢
    cases hstep with
    | idle hcursor _ _ => exact .inl hcursor
    | lines => exact .inr (.inl rfl)
    | split _ _ => exact .inl rfl
    | echo _ _ => exact .inl rfl
    | delimiter hkind hk _ => exact .inr (.inr ⟨_, _, _, rfl, hkind, hk, rfl⟩)
  consumed := by
    have hindex : p.cursor.index ≤ (t.perform p).2.cursor.index :=
      (t.extends_perform p).index_le
    have hrest := h.unwinding.consumed h.windsDown hindex
    refine (List.sublist_append_left _ _).trans (hrest.trans ?_)
    refine List.Sublist.append ?_ (List.Sublist.refl _)
    rcases (Task.perform_of_fault h.fault).2.2 with ⟨-, hcursor⟩ | ⟨rfl, hcursor⟩
    · rw [Pass.consumed_of_cursor hcursor, Pass.consumed_index]
      exact List.nil_sublist _
    · have hadvance := Pass.consumed_advance (Nat.le_refl p.cursor.index)
      rw [Pass.consumed_index] at hadvance
      rwa [Pass.consumed_of_cursor (p := p.advance) hcursor]
  delimiters := delimiter_of_mem_owed (h.covered .tokens).1

end Moment

namespace Pass

variable {s : Stream} {limit : Int}

/-- After its first error a run freezes, and the tokens that it consumes then,
line breaks apart, are at most three more than there may be constructs inside
each other. -/
theorem freezes_after_first_error (h : (ofStream s limit).errors ≠ []) :
    ∃ t ts p fault, (Moment.start s limit).Fails t ts p fault ⟨[], ofStream s limit⟩ ∧
      (ofStream s limit).errors.head? = some (.error p.site fault) ∧
      Moment.Freezes t ts p fault (ofStream s limit) ∧
      ((ofStream s limit).consumed p.cursor.index).length ≤ limit.toNat + 3 := by
  obtain ⟨t, ts, p, fault, hfails⟩ := fails_of_errors h
  refine ⟨t, ts, p, fault, hfails, hfails.head?_errors rfl, hfails.freezes, ?_⟩
  have hle := hfails.freezes.consumed.length_le
  have hprice := (hfails.covered .tokens).2.2
  rw [List.length_append, Moment.length_owed] at hle
  rw [Price.header_tokens] at hprice
  simp only [Price.tokens, Nat.one_mul] at hprice hle ⊢
  omega

/-- A switch without clauses, in whose header a parenthesis is one too many. -/
def crowdedSwitch : Stream :=
  ⟨[⟨⟨"switch", ⟨1, 1⟩⟩, .kwSwitch⟩, ⟨⟨"(", ⟨1, 8⟩⟩, .lparen⟩, ⟨⟨"(", ⟨1, 9⟩⟩, .lparen⟩,
    ⟨⟨")", ⟨1, 10⟩⟩, .rparen⟩, ⟨⟨")", ⟨1, 11⟩⟩, .rparen⟩, ⟨⟨"\x7b", ⟨1, 13⟩⟩, .lbrace⟩,
    ⟨⟨"\x7d", ⟨1, 14⟩⟩, .rbrace⟩], ⟨"", ⟨1, 15⟩⟩⟩

theorem freezes_after_first_error_crowdedSwitch :
    (ofStream crowdedSwitch 1).errors ≠ [] ∧
      ∃ t ts p fault,
        (Moment.start crowdedSwitch 1).Fails t ts p fault ⟨[], ofStream crowdedSwitch 1⟩ ∧
        (ofStream crowdedSwitch 1).errors.head? = some (.error p.site fault) ∧
        Moment.Freezes t ts p fault (ofStream crowdedSwitch 1) ∧
        ((ofStream crowdedSwitch 1).consumed p.cursor.index).length ≤ (1 : Int).toNat + 3 := by
  have h : (ofStream crowdedSwitch 1).errors ≠ [] := by decide +kernel
  exact ⟨h, freezes_after_first_error h⟩

/-- The messages of errors that may be the echo of an earlier one. -/
def echoMessages : List String :=
  ["')' expected", "']' expected", "')' expected after the switch expression",
    "'\x7b' expected to open the switch block", "at least one case/default expected",
    "'\x7d' expected to close the switch block", "':' expected after the case value"]

theorem message_of_isEcho {fault : Fault} (h : fault.isEcho = true) :
    fault.message ∈ echoMessages := by
  cases fault with
  | unclosedParen | unclosedBracket | unclosedSwitchParen | missingSwitchBrace | missingClause
  | unclosedSwitchBrace | missingCaseColon => decide
  | _ => exact absurd h (by simp [Fault.isEcho])

/-- However long the stream is, the errors are at most three more than there
may be constructs inside each other, and all but the first are echoes. -/
theorem echoes_bounded (s : Stream) (limit : Int) :
    (ofStream s limit).errors.length ≤ limit.toNat + 3 ∧
      ∀ e ∈ (ofStream s limit).errors.tail,
        ∃ site fault, e = .error site fault ∧ fault.message ∈ echoMessages := by
  by_cases hnil : (ofStream s limit).errors = []
  · rw [hnil]
    exact ⟨Nat.zero_le _, fun e he => absurd he (by simp)⟩
  · obtain ⟨t, ts, p, fault, hfails⟩ := fails_of_errors hnil
    obtain ⟨later, herrors, hecho, hle⟩ := hfails.unwinding.echoes hfails.windsDown
    have hprice := (hfails.covered .echoes).2.2
    have hfirst : (t.perform p).2.errors = [.error p.site fault] := hfails.errors_perform rfl
    have hall : (ofStream s limit).errors = .error p.site fault :: later := by
      rw [← List.singleton_append, ← hfirst]
      exact herrors
    rw [hall]
    constructor
    · rw [Price.header_echoes] at hprice
      rw [List.length_cons]
      have hlater : later.length + 0 ≤ Price.echoes.total ts := hle
      omega
    · intro e he
      obtain ⟨fault', hfault, hisEcho⟩ := hecho e he
      cases e with
      | error site fault'' =>
          obtain rfl := Option.some.inj hfault
          exact ⟨site, fault'', rfl, message_of_isEcho hisEcho⟩
      | notice site => exact absurd hfault (by simp [Diagnostic.fault?])

end Pass

end SwitchScript
