import SwitchScript.Proofs.Growth
import SwitchScript.Proofs.Language.Derivation
import SwitchScript.Proofs.Language.Word

/-!
# Moves that read a form

A move reads a form if its runs can be told in terms of the grammar. A run that
stays valid has passed over a word that the form derives in front of what is
ahead (`Pass.Read`). A run that records its first error has passed over a
viable word before that, unless the error is about nesting (`Pass.Stuck`): up
to there, the script could still have been completed.

Each way to put moves together has its lemma here, so that the rules of the
grammar can be checked against its productions part by part. The interesting
one is `Reads.both`. Where the first move gets stuck, the form of the second
has to be filled in; and where the second gets stuck at once, the first must be
able to end before whatever is filled in.
-/

namespace SwitchScript

/-- The run has read a word of the form. -/
def Pass.Read (f : Form) (p q : Pass) : Prop :=
  ∃ u, p.Passes u q ∧ f.Derives p.room u q.word

/-- The run has recorded its first error after a viable word, or the error is
about nesting. -/
def Pass.Stuck (f : Form) (p q : Pass) : Prop :=
  ∃ u y site fault, p.word = u ++ y ∧ q.errors.head? = some (.error site fault) ∧
    site.index = p.cursor.index + u.length ∧ (fault ≠ .nestingTooDeep → f.Viable p.room u)

namespace Move

/-- With the budget `b`, the move leads from one state to another. -/
def Gives (b : Nat) (m : Move) (p q : Pass) : Prop := m.run (Rule.run b) b p = some q

variable {b : Nat} {m first second : Move} {p q r : Pass} {f g : Form} {t t' : Kind → Prop}

theorem Gives.makes (h : Gives b m p q) : m.Makes p q :=
  makes_of_run (makes_of_ruleRun b) h

theorem Gives.room_eq (h : Gives b m p q) : q.room = p.room := by
  rw [Pass.room, Pass.room, h.makes.depth_eq, h.makes.extends.limit]

theorem gives_both :
    Gives b (first >> second) p q ↔ ∃ r, Gives b first p r ∧ Gives b second r q := by
  rw [Gives, andThen_eq, run]
  constructor
  · intro h
    cases hr : first.run (Rule.run b) b p with
    | none =>
        rw [hr] at h
        exact absurd h (by simp)
    | some r =>
        rw [hr] at h
        exact ⟨r, hr, h⟩
  · rintro ⟨r, hr, h⟩
    rw [show first.run (Rule.run b) b p = some r from hr]
    exact h

theorem gives_follow {rule : Rule} :
    Gives (b + 1) (follow rule) p q ↔ Gives b rule.script p q := Iff.rfl

/-- With one unit less than the computed budget, the script of a rule leads to
where the rule leads. -/
theorem gives_script (rule : Rule) (p : Pass) :
    ∃ b, p.budget = b + 1 ∧ Gives b rule.script p (p.follow rule) := by
  obtain ⟨b, hb⟩ : ∃ b, p.budget = b + 1 := ⟨p.budget - 1, by simp only [Pass.budget]; omega⟩
  have hrun : Gives (b + 1) (follow rule) p (p.follow rule) := by
    rw [← hb]
    exact p.perform?_follow rule
  exact ⟨b, hb, gives_follow.mp hrun⟩

/-- The move reads the form wherever the kind of the current token is as
told. -/
structure Reads (b : Nat) (t : Kind → Prop) (m : Move) (f : Form) : Prop where
  sound : ∀ {p q}, Gives b m p q → p.valid = true → t p.kind → q.valid = true → p.Read f q
  stuck : ∀ {p q}, Gives b m p q → p.valid = true → t p.kind → p.errors = [] →
    q.valid = false → p.Stuck f q

theorem Reads.of_imp (h : Reads b t m f) (ht : ∀ k, t' k → t k) : Reads b t' m f :=
  ⟨fun hrun hp hk hq => h.sound hrun hp (ht _ hk) hq,
    fun hrun hp hk he hq => h.stuck hrun hp (ht _ hk) he hq⟩

theorem Reads.imp (h : Reads b t m f) (hplain : g.isPlain = true → f.isPlain = true)
    (himp : ∀ d u y, f.Derives d u y → g.Derives d u y) : Reads b t m g where
  sound := by
    intro p q hrun hp hk hq
    obtain ⟨u, hpass, hu⟩ := h.sound hrun hp hk hq
    exact ⟨u, hpass, himp _ _ _ hu⟩
  stuck := by
    intro p q hrun hp hk he hq
    obtain ⟨u, y, site, fault, hword, hfirst, hindex, hviable⟩ := h.stuck hrun hp hk he hq
    exact ⟨u, y, site, fault, hword, hfirst, hindex,
      fun hne => (hviable hne).imp hplain fun _ _ => himp _ _ _⟩

theorem Reads.left (h : Reads b t m f) : Reads b t m (f <|> g) :=
  h.imp (fun hplain => (Bool.and_eq_true_iff.mp hplain).1) fun _ _ _ => .left

theorem Reads.right (h : Reads b t m g) : Reads b t m (f <|> g) :=
  h.imp (fun hplain => (Bool.and_eq_true_iff.mp hplain).2) fun _ _ _ => .right

theorem Reads.symbol {s : Symbol} (h : Reads b t m s.production) : Reads b t m (.symbol s) :=
  h.imp Form.isPlain_production fun _ _ _ => .symbol

/-! ## Single steps -/

theorem reads_stay : Reads b t stay .empty where
  sound := by
    intro p q hrun _ _ _
    obtain rfl := Option.some.inj hrun
    exact ⟨[], .refl p, .empty⟩
  stuck := by
    intro p q hrun hp _ _ hq
    obtain rfl := Option.some.inj hrun
    exact absurd hp (by simp [hq])

theorem reads_advance {test : Kind → Bool} (heof : test .eof = false)
    (ht : ∀ k, t k → test k = true) :
    Reads b t advance (.oneOf test) where
  sound := by
    intro p q hrun _ hk _
    obtain rfl := Option.some.inj hrun
    have hne : p.kind ≠ .eof := by
      intro h
      have htest := ht _ hk
      rw [h, heof] at htest
      exact absurd htest (by simp)
    exact ⟨[p.kind], Pass.passes_advance hne, .oneOf (ht _ hk)⟩
  stuck := by
    intro p q hrun hp _ _ hq
    obtain rfl := Option.some.inj hrun
    exact absurd (show p.valid = false from hq) (by simp [hp])

theorem derives_lines {d : Nat} {u y : List Kind} (h : ∀ k ∈ u, k = .newline) :
    Form.lines.Derives d u y := by
  induction u with
  | nil => exact .done
  | cons k u ih =>
      have hk : k = .newline := h k (by simp)
      exact .again (u := [k]) (.oneOf (by simp [hk])) (ih fun k' hk' => h k' (by simp [hk']))

theorem reads_skipNewlines : Reads b t skipNewlines .lines where
  sound := by
    intro p q hrun _ _ _
    obtain rfl := Option.some.inj hrun
    refine ⟨_, p.passes_skipNewlines, derives_lines fun k hk => ?_⟩
    have hnewline := List.all_eq_true.mp List.all_takeWhile k hk
    simpa using hnewline
  stuck := by
    intro p q hrun hp _ _ hq
    obtain rfl := Option.some.inj hrun
    exact absurd (show p.valid = false from hq) (by simp [hp])

theorem reads_skipConstruct (ht : ∀ k, t k → k.opensIgnored = true) :
    Reads b t skipConstruct .skipped where
  sound := by
    intro p q hrun hp hk _
    obtain rfl := Option.some.inj hrun
    obtain ⟨u, hpass, hskipped⟩ := Pass.passes_skipConstruct hp (ht _ hk)
    exact ⟨u, hpass, .skipped hskipped⟩
  stuck := by
    intro p q hrun hp _ _ hq
    obtain rfl := Option.some.inj hrun
    have hvalid : p.skipConstruct.valid = p.valid := by
      simp only [Pass.skipConstruct]
      split <;> rfl
    exact absurd (hvalid.symm.trans hq) (by simp [hp])

/-! ## Errors -/

/-- An error at the current token comes after the empty word. -/
theorem stuck_report {fault : Fault} (he : p.errors = [])
    (hfill : fault ≠ .nestingTooDeep → f.Viable p.room []) (hq : (p.report fault).Extends q) :
    p.Stuck f q := by
  have hfirst : (p.report fault).errors.head? = some (.error p.site fault) := by
    rw [Pass.errors_report, he]
    rfl
  exact ⟨[], p.word, p.site, fault, rfl, hq.head?_errors hfirst, rfl, hfill⟩

theorem reads_reject {fault : Fault} (hfill : f.Fillable) : Reads b t (reject fault) f where
  sound := by
    intro p q hrun _ _ hq
    obtain rfl := Option.some.inj hrun
    exact absurd (show false = true from hq) (by simp)
  stuck := by
    intro p q hrun _ _ he _
    obtain rfl := Option.some.inj hrun
    exact stuck_report he (fun _ => hfill.viable _) (Pass.extends_advance _)

theorem reads_report {fault : Fault} (hfill : f.Fillable) : Reads b t (report fault) f where
  sound := by
    intro p q hrun _ _ hq
    obtain rfl := Option.some.inj hrun
    exact absurd (show false = true from hq) (by simp)
  stuck := by
    intro p q hrun _ _ he _
    obtain rfl := Option.some.inj hrun
    exact stuck_report he (fun _ => hfill.viable _) (.refl _)

/-! ## One move after the other -/

section

variable (hfirst : Reads b t first f) (hsecond : Reads b t' second g)
  (hbetween : ∀ {p q}, Gives b first p q → t' q.kind)

include hfirst hsecond hbetween

theorem Reads.both_sound (hrun : Gives b (first >> second) p q) (hp : p.valid = true)
    (hk : t p.kind) (hq : q.valid = true) : p.Read (f >> g) q := by
  obtain ⟨r, hpr, hrq⟩ := gives_both.mp hrun
  have hr := hrq.makes.extends.valid_of_valid hq
  obtain ⟨u, hpass, hu⟩ := hfirst.sound hpr hp hk hr
  obtain ⟨v, hpass', hv⟩ := hsecond.sound hrq hr (hbetween hpr) hq
  rw [hpr.room_eq] at hv
  rw [hpass'.word] at hu
  exact ⟨u ++ v, hpass.trans hpass', .seq hu hv⟩

/-- The second of two moves gets stuck. -/
theorem Reads.both_stuck (hpr : Gives b first p r) (hrq : Gives b second r q)
    (hp : p.valid = true) (hk : t p.kind) (he : p.errors = []) (hr : r.valid = true)
    (hq : q.valid = false) (hends : f.isPlain = true ∨ Form.FillableAfter f g) :
    p.Stuck (f >> g) q := by
  obtain ⟨u, hpass, hu⟩ := hfirst.sound hpr hp hk hr
  have her : r.errors = [] := (hpr.makes.extends.errors_eq_of_valid hr).trans he
  obtain ⟨v, y, site, fault, hword, herror, hindex, hviable⟩ :=
    hsecond.stuck hrq hr (hbetween hpr) her hq
  refine ⟨u ++ v, y, site, fault, ?_, herror, ?_, fun hne => ?_⟩
  · rw [hpass.word, hword, List.append_assoc]
  · rw [hindex, hpass.index, List.length_append, Nat.add_assoc]
  · have hv := hviable hne
    rw [hpr.room_eq] at hv
    rw [hword] at hu
    rcases hends with hplain | hfill
    · exact .seq_right hu hv (.inr hplain)
    · by_cases hnil : v = []
      · rw [hnil, List.append_nil]
        exact hu.viable.seq_fill hfill
      · exact .seq_right hu hv (.inl hnil)

/-- Two moves read what their forms derive one after the other, if the second
form can be filled in where the first move may end. -/
theorem Reads.both (hfill : Form.FillableAfter f g) : Reads b t (first >> second) (f >> g) where
  sound := fun hrun hp hk hq => hfirst.both_sound hsecond hbetween hrun hp hk hq
  stuck := by
    intro p q hrun hp hk he hq
    obtain ⟨r, hpr, hrq⟩ := gives_both.mp hrun
    cases hr : r.valid with
    | true => exact hfirst.both_stuck hsecond hbetween hpr hrq hp hk he hr hq (.inr hfill)
    | false =>
        obtain ⟨u, y, site, fault, hword, herror, hindex, hviable⟩ := hfirst.stuck hpr hp hk he hr
        exact ⟨u, y, site, fault, hword, hrq.makes.extends.head?_errors herror, hindex,
          fun hne => (hviable hne).seq_fill hfill⟩

/-- The same for a first move that makes no error. -/
theorem Reads.both_sure (hsure : ∀ {p q}, Gives b first p q → p.valid = true → q.valid = true)
    (hplain : f.isPlain = true) : Reads b t (first >> second) (f >> g) where
  sound := fun hrun hp hk hq => hfirst.both_sound hsecond hbetween hrun hp hk hq
  stuck := by
    intro p q hrun hp hk he hq
    obtain ⟨r, hpr, hrq⟩ := gives_both.mp hrun
    exact hfirst.both_stuck hsecond hbetween hpr hrq hp hk he (hsure hpr hp) hq (.inl hplain)

end

/-- The common case: the second move reads its form from everywhere. -/
theorem Reads.followed_by (hfirst : Reads b t first f) (hsecond : Reads b (fun _ => True) second g)
    (hfill : Form.FillableAfter f g) : Reads b t (first >> second) (f >> g) :=
  hfirst.both hsecond (fun _ => trivial) hfill

theorem sure_advance (h : Gives b advance p q) (hp : p.valid = true) : q.valid = true := by
  obtain rfl := Option.some.inj h
  exact hp

theorem sure_skipNewlines (h : Gives b skipNewlines p q) (hp : p.valid = true) :
    q.valid = true := by
  obtain rfl := Option.some.inj h
  exact hp

/-- A token first, then the rest. -/
theorem Reads.advance_both {test : Kind → Bool} (h : Reads b (fun _ => True) m f)
    (heof : test .eof = false) (ht : ∀ k, t k → test k = true) :
    Reads b t (advance >> m) (.oneOf test >> f) :=
  (reads_advance heof ht).both_sure h (fun _ => trivial) sure_advance rfl

theorem kind_ne_of_gives_skipNewlines (h : Gives b skipNewlines p q) : q.kind ≠ .newline := by
  obtain rfl := Option.some.inj h
  exact p.kind_skipNewlines_ne

/-- Line breaks first, then the rest. -/
theorem Reads.skipNewlines_both (h : Reads b (· ≠ .newline) m f) :
    Reads b t (skipNewlines >> m) (.lines >> f) :=
  reads_skipNewlines.both_sure h kind_ne_of_gives_skipNewlines sure_skipNewlines rfl

theorem Reads.require {kind : Kind} {fault : Fault} (h : Reads b (fun _ => True) m f)
    (hkind : kind ≠ .eof) (hfill : f.Fillable) :
    Reads b t (require kind fault m) (.token kind >> f) := by
  -- past its token, the move is one that consumes it and goes on
  have hmove : Reads b (· = kind) (advance >> m) (.token kind >> f) :=
    h.advance_both (by simp [Ne.symm hkind]) fun k hk => by simp [hk]
  have hgives {p q : Pass} (hrun : Gives b (Move.require kind fault m) p q) (hk : p.kind = kind) :
      Gives b (advance >> m) p q := by
    rw [Gives, run, if_pos hk] at hrun
    exact hrun
  have hmissed {p q : Pass} (hrun : Gives b (Move.require kind fault m) p q) (hk : p.kind ≠ kind) :
      q = p.report fault := by
    rw [Gives, run, if_neg hk] at hrun
    exact (Option.some.inj hrun).symm
  constructor
  · intro p q hrun hp _ hq
    by_cases hk : p.kind = kind
    · exact hmove.sound (hgives hrun hk) hp hk hq
    · rw [hmissed hrun hk] at hq
      exact absurd hq (by simp [Pass.report])
  · intro p q hrun hp _ he hq
    by_cases hk : p.kind = kind
    · exact hmove.stuck (hgives hrun hk) hp hk he hq
    · rw [hmissed hrun hk]
      exact stuck_report he (fun _ => (hfill.token_seq kind).viable _) (.refl _)

theorem reads_expect {kind : Kind} {fault : Fault} (hkind : kind ≠ .eof) :
    Reads b t (expect kind fault) (.token kind) := by
  refine (reads_stay.require hkind ⟨[], fun _ _ _ => .empty⟩).imp (fun _ => rfl)
    fun d u y h => ?_
  cases h with
  | seq htoken hempty =>
      cases hempty
      rw [List.append_nil]
      exact htoken

/-! ## Choices and repetitions -/

theorem reads_peek {choose : Kind → Move} (h : ∀ k, t k → Reads b (· = k) (choose k) f) :
    Reads b t (peek choose) f :=
  ⟨fun hrun hp hk hq => (h _ hk).sound hrun hp rfl hq,
    fun hrun hp hk he hq => (h _ hk).stuck hrun hp rfl he hq⟩

theorem Reads.once {test : Kind → Bool} (h : Reads b (fun k => t k ∧ test k = true) m f) :
    Reads b t (once test m) f.opt where
  sound := by
    intro p q hrun hp hk hq
    rw [Gives, run, hp, Bool.true_and] at hrun
    split at hrun
    · rename_i hgo
      exact h.left.sound hrun hp ⟨hk, hgo⟩ hq
    · obtain rfl := Option.some.inj hrun
      exact ⟨[], .refl p, .right .empty⟩
  stuck := by
    intro p q hrun hp hk he hq
    rw [Gives, run, hp, Bool.true_and] at hrun
    split at hrun
    · rename_i hgo
      exact h.left.stuck hrun hp ⟨hk, hgo⟩ he hq
    · obtain rfl := Option.some.inj hrun
      exact absurd hp (by simp [hq])

theorem loop_eq_some {test : Kind → Bool} {body : Pass → Option Pass} {n : Nat}
    (h : loop test body n p = some q) :
    (q = p ∧ (p.valid && test p.kind) = false) ∨
      ∃ i r, n = i + 1 ∧ (p.valid && test p.kind) = true ∧ body p = some r ∧
        loop test body i r = some q := by
  cases n with
  | zero => exact absurd h (by simp [loop])
  | succ i =>
      rw [loop] at h
      split at h
      · rename_i hgo
        cases hr : body p with
        | none =>
            rw [hr] at h
            exact absurd h (by simp)
        | some r =>
            rw [hr] at h
            exact .inr ⟨i, r, rfl, hgo, rfl, h⟩
      · rename_i hstop
        exact .inl ⟨(Option.some.inj h).symm, by simpa using hstop⟩

/-- A loop goes on from every state in which a round has ended. -/
theorem extends_loop {test : Kind → Bool} {n : Nat}
    (h : loop test (m.run (Rule.run b) b) n p = some q) : p.Extends q :=
  (makes_loop (fun _ _ hr => makes_of_run (makes_of_ruleRun b) hr) h).extends

theorem Reads.repeated {test : Kind → Bool}
    (h : Reads b (fun k => t k ∧ test k = true) m f)
    (hround : ∀ {p q}, Gives b m p q → t q.kind) : Reads b t (repeated test m) f.star where
  sound := by
    have hloop (n : Nat) : ∀ {p q : Pass}, loop test (m.run (Rule.run b) b) n p = some q →
        p.valid = true → t p.kind → q.valid = true → p.Read f.star q := by
      induction n with
      | zero =>
          intro p q hrun
          exact absurd hrun (by simp [loop])
      | succ n ih =>
          intro p q hrun hp hk hq
          rcases loop_eq_some hrun with ⟨rfl, -⟩ | ⟨i, r, hi, hgo, hpr, hrest⟩
          · exact ⟨[], .refl _, .done⟩
          · obtain rfl := Nat.succ.inj hi
            rw [hp, Bool.true_and] at hgo
            have hr := (extends_loop hrest).valid_of_valid hq
            obtain ⟨u, hpass, hu⟩ := h.sound hpr hp ⟨hk, hgo⟩ hr
            obtain ⟨v, hpass', hv⟩ := ih hrest hr (hround hpr) hq
            rw [Gives.room_eq hpr] at hv
            rw [hpass'.word] at hu
            exact ⟨u ++ v, hpass.trans hpass', .again hu hv⟩
    intro p q hrun
    exact hloop b hrun
  stuck := by
    -- the rounds so far have read a word, and the last one gets stuck
    have hloop (n : Nat) : ∀ {o p q : Pass} {u : List Kind},
        loop test (m.run (Rule.run b) b) n p = some q → p.valid = true → t p.kind →
        p.errors = [] → q.valid = false → o.Passes u p → o.room = p.room →
        f.star.Derives o.room u p.word → o.Stuck f.star q := by
      induction n with
      | zero =>
          intro o p q u hrun
          exact absurd hrun (by simp [loop])
      | succ n ih =>
          intro o p q u hrun hp hk he hq hpass hroom hu
          rcases loop_eq_some hrun with ⟨rfl, -⟩ | ⟨i, r, hi, hgo, hpr, hrest⟩
          · exact absurd hp (by simp [hq])
          · obtain rfl := Nat.succ.inj hi
            rw [hp, Bool.true_and] at hgo
            cases hr : r.valid with
            | true =>
                obtain ⟨v, hpass', hv⟩ := h.sound hpr hp ⟨hk, hgo⟩ hr
                have her : r.errors = [] :=
                  ((Gives.makes hpr).extends.errors_eq_of_valid hr).trans he
                rw [hpass'.word] at hu
                rw [← hroom] at hv
                have hone : f.star.Derives o.room v r.word := by
                  rw [← List.append_nil v]
                  exact .again hv .done
                exact ih hrest hr (hround hpr) her hq (hpass.trans hpass')
                  (hroom.trans (Gives.room_eq hpr).symm) (hu.star_append hone)
            | false =>
                obtain ⟨v, y, site, fault, hword, herror, hindex, hviable⟩ :=
                  h.stuck hpr hp ⟨hk, hgo⟩ he hr
                refine ⟨u ++ v, y, site, fault, ?_, (extends_loop hrest).head?_errors herror, ?_,
                  fun hne => ?_⟩
                · rw [hpass.word, hword, List.append_assoc]
                · rw [hindex, hpass.index, List.length_append, Nat.add_assoc]
                · rw [hword] at hu
                  rw [← hroom] at hviable
                  exact .star hu (hviable hne)
    intro p q hrun hp hk he hq
    exact hloop b hrun hp hk he hq (.refl p) rfl .done

/-! ## Nesting -/

/-- What a nested move gives, one level deeper. -/
theorem gives_nest (hrun : Gives b (nest m) p q) (hopen : ¬ p.depth ≥ p.limit) :
    ∃ r, Gives b m { p with depth := p.depth + 1 } r ∧ q = { r with depth := r.depth - 1 } := by
  rw [Gives, run, if_neg hopen] at hrun
  cases hr : m.run (Rule.run b) b { p with depth := p.depth + 1 } with
  | none =>
      rw [hr] at hrun
      exact absurd hrun (by simp)
  | some r =>
      rw [hr] at hrun
      exact ⟨r, hr, (Option.some.inj hrun).symm⟩

theorem Reads.nest (h : Reads b t m f) : Reads b t (nest m) f.nest := by
  have hinner {p : Pass} (hopen : ¬ p.depth ≥ p.limit) :
      p.room = ({ p with depth := p.depth + 1 } : Pass).room + 1 := by
    simp only [Pass.room]
    omega
  constructor
  · intro p q hrun hp hk hq
    by_cases hopen : p.depth ≥ p.limit
    · rw [Gives, run, if_pos hopen] at hrun
      obtain rfl := Option.some.inj hrun
      exact absurd hq (by simp [Pass.report])
    · obtain ⟨r, hpr, rfl⟩ := gives_nest hrun hopen
      obtain ⟨u, hpass, hu⟩ := h.sound hpr hp hk hq
      refine ⟨u, ⟨hpass.word, hpass.index⟩, ?_⟩
      rw [hinner hopen]
      exact .nest hu
  · intro p q hrun hp hk he hq
    by_cases hopen : p.depth ≥ p.limit
    · rw [Gives, run, if_pos hopen] at hrun
      obtain rfl := Option.some.inj hrun
      exact stuck_report he (fun hne => absurd rfl hne) (.refl _)
    · obtain ⟨r, hpr, rfl⟩ := gives_nest hrun hopen
      obtain ⟨u, y, site, fault, hword, herror, hindex, hviable⟩ := h.stuck hpr hp hk he hq
      refine ⟨u, y, site, fault, hword, herror, hindex, fun hne => ?_⟩
      rw [hinner hopen]
      exact (hviable hne).nest

end Move

end SwitchScript
