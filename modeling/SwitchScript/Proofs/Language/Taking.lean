import SwitchScript.Proofs.Language.First
import SwitchScript.Proofs.Language.Reading

/-!
# Moves that take the words of a form

The other half of reading. A move takes the words of a form if a run that
stands before one of them passes exactly this word and stays valid. Since runs
are greedy, that depends on what comes after the word: an operator there would
be taken as well. So `Move.Takes` names the kinds at which the move stops, and
every way to put moves together asks that what may come next is such a kind.
`Form.starts` and `Form.nullable` say what may come next.

The answer of a run is given here, as it is in `SwitchScript.Proofs.Language.Reading`:
every rule has one, so all that is left to say is what it looks like.
-/

namespace SwitchScript.Move

/-- The move takes every word of the form if the kind after it is one to stop
at. -/
structure Takes (b : Nat) (stop : Kind → Bool) (m : Move) (f : Form) : Prop where
  taken : ∀ {p q u y}, Gives b m p q → p.valid = true → p.word = u ++ y →
    f.Derives p.room u y → stop (y.headD .eof) = true → q.valid = true ∧ q.word = y

variable {b : Nat} {m first second : Move} {p q r : Pass} {f g h : Form}
  {stop stop' test : Kind → Bool}

theorem Takes.of_imp (hm : Takes b stop m f) (hstop : ∀ k, stop' k = true → stop k = true) :
    Takes b stop' m f :=
  ⟨fun hrun hp hword hu hy => hm.taken hrun hp hword hu (hstop _ hy)⟩

theorem Takes.imp (hm : Takes b stop m f)
    (himp : ∀ d u y, g.Derives d u y → f.Derives d u y) : Takes b stop m g :=
  ⟨fun hrun hp hword hu hy => hm.taken hrun hp hword (himp _ _ _ hu) hy⟩

theorem Takes.symbol {s : Symbol} (hm : Takes b stop m s.production) :
    Takes b stop m (.symbol s) :=
  hm.imp fun _ _ _ hu => by cases hu with | symbol hu => exact hu

theorem Takes.alt (hf : Takes b stop m f) (hg : Takes b stop m g) : Takes b stop m (f <|> g) := by
  constructor
  intro p q u y hrun hp hword hu hy
  cases hu with
  | left hu => exact hf.taken hrun hp hword hu hy
  | right hu => exact hg.taken hrun hp hword hu hy

/-! ## Single steps -/

theorem takes_stay : Takes b stop stay .empty := by
  constructor
  intro p q u y hrun hp hword hu _
  obtain rfl := Option.some.inj hrun
  cases hu
  exact ⟨hp, hword⟩

theorem takes_advance : Takes b stop advance (.oneOf test) := by
  constructor
  intro p q u y hrun hp hword hu _
  obtain rfl := Option.some.inj hrun
  cases hu
  exact ⟨hp, Pass.word_advance hword⟩

theorem newline_of_derives_lines {d : Nat} {u y : List Kind} (hu : Form.lines.Derives d u y) :
    ∀ k ∈ u, k = .newline := by
  generalize hlines : Form.lines = f at hu
  induction hu with
  | done => exact fun k hk => absurd hk (by simp)
  | again hf _ _ ihrest =>
      cases hlines
      cases hf with
      | oneOf hk =>
          intro k' hk'
          rcases List.mem_append.mp hk' with hmem | hmem
          · rw [List.mem_singleton.mp hmem]
            simpa using hk
          · exact ihrest rfl k' hmem
  | _ => cases hlines

theorem dropWhile_newline {u y : List Kind} (hu : ∀ k ∈ u, k = .newline)
    (hy : y.headD .eof ≠ .newline) : (u ++ y).dropWhile (· == .newline) = y := by
  rw [List.dropWhile_append_of_pos (fun k hk => by simp [hu k hk])]
  cases y with
  | nil => rfl
  | cons k y => exact List.dropWhile_cons_of_neg (by simpa using hy)

theorem takes_skipNewlines (hstop : stop .newline = false) : Takes b stop skipNewlines .lines := by
  constructor
  intro p q u y hrun hp hword hu hy
  obtain rfl := Option.some.inj hrun
  refine ⟨hp, ?_⟩
  rw [Pass.word_skipNewlines, hword]
  refine dropWhile_newline (newline_of_derives_lines hu) fun hnewline => ?_
  rw [hnewline, hstop] at hy
  exact absurd hy (by simp)

theorem takes_skipConstruct : Takes b stop skipConstruct .skipped := by
  constructor
  intro p q u y hrun hp hword hu _
  obtain rfl := Option.some.inj hrun
  cases hu with
  | skipped hu =>
      have hvalid : p.skipConstruct.valid = p.valid := by
        simp only [Pass.skipConstruct]
        split <;> rfl
      have hk : p.kind.opensIgnored = true := by
        rw [p.kind_eq_headD_word, hword]
        rcases (Form.Derives.skipped (d := 0) hu).next with hk | ⟨-, hnull⟩
        · exact hk
        · exact absurd hnull (by decide)
      obtain ⟨v, hpass, hv⟩ := Pass.passes_skipConstruct hp hk
      exact ⟨hvalid.trans hp, (Skipped.unique hu hv (hword.symm.trans hpass.word)).symm⟩

/-! ## One move after the other -/

/-- Two moves take what their forms derive one after the other, if the first
one stops before all that may come next. -/
theorem Takes.both (hf : Takes b stop first f) (hg : Takes b stop' second g)
    (hstarts : ∀ k, g.starts k = true → stop k = true)
    (hnull : g.nullable = true → ∀ k, stop' k = true → stop k = true) :
    Takes b stop' (first >> second) (f >> g) := by
  constructor
  intro p q u y hrun hp hword hu hy
  obtain ⟨r, hpr, hrq⟩ := gives_both.mp hrun
  cases hu with
  | @seq _ _ _ v w _ hv hw =>
      rw [List.append_assoc] at hword
      obtain ⟨hr, hrword⟩ := hf.taken hpr hp hword hv (hw.before stop hy hstarts hnull)
      rw [← hpr.room_eq] at hw
      exact hg.taken hrq hr hrword hw hy

/-- The common case: the second form does not derive the empty word. -/
theorem Takes.followed_by (hf : Takes b stop first f) (hg : Takes b stop' second g)
    (hstarts : ∀ k, g.starts k = true → stop k = true) (hnull : g.nullable = false) :
    Takes b stop' (first >> second) (f >> g) :=
  hf.both hg hstarts fun hnullable => absurd hnullable (by simp [hnull])

theorem Takes.advance_both (hm : Takes b stop m f) :
    Takes b stop (advance >> m) (.oneOf test >> f) := by
  have htoken : Takes b (fun _ => true) advance (.oneOf test) := takes_advance
  exact htoken.both hm (fun _ _ => rfl) fun _ _ _ => rfl

theorem Takes.require {kind : Kind} {fault : Fault} (hm : Takes b stop m f) :
    Takes b stop (require kind fault m) (.token kind >> f) := by
  constructor
  intro p q u y hrun hp hword hu hy
  have hk : p.kind = kind := by
    rw [p.kind_eq_headD_word, hword]
    have hnext := hu.before (· == kind) hy
      (fun k hk => by simpa using hk) fun hnull => absurd hnull (by simp)
    simpa using hnext
  rw [Gives, run, if_pos hk] at hrun
  exact hm.advance_both.taken (show Gives b (advance >> m) p q from hrun) hp hword hu hy

theorem takes_expect {kind : Kind} {fault : Fault} :
    Takes b stop (expect kind fault) (.token kind) :=
  (takes_stay.require).imp fun _ _ _ hu => hu.seq_nil .empty

/-- Where a move has stopped, there are no line breaks left to skip. -/
theorem Takes.skipNewlines_again (hm : Takes b stop m f) (hstop : stop .newline = false) :
    Takes b stop (m >> skipNewlines) f := by
  constructor
  intro p q u y hrun hp hword hu hy
  obtain ⟨r, hpr, hrq⟩ := gives_both.mp hrun
  obtain ⟨hr, hrword⟩ := hm.taken hpr hp hword hu hy
  exact (takes_skipNewlines hstop).taken (u := []) hrq hr hrword .done hy

/-! ## Choices and repetitions -/

theorem Takes.seq_symbol {s : Symbol} (hm : Takes b stop m (s.production >> h)) :
    Takes b stop m (.symbol s >> h) :=
  hm.imp fun _ _ _ hu => hu.seq_imp fun _ _ _ hs => by cases hs with | symbol hs => exact hs

theorem Takes.seq_alt (hf : Takes b stop m (f >> h)) (hg : Takes b stop m (g >> h)) :
    Takes b stop m ((f <|> g) >> h) := by
  refine (hf.alt hg).imp fun d u y hu => ?_
  cases hu with
  | seq hfirst hsecond =>
      cases hfirst with
      | left hfirst => exact .left (.seq hfirst hsecond)
      | right hfirst => exact .right (.seq hfirst hsecond)

/-- A choice takes a form if each kind that may come next chooses a move that
does. -/
theorem takes_peek {choose : Kind → Move}
    (hstarts : ∀ k, f.starts k = true → Takes b stop (choose k) f)
    (hnull : f.nullable = true → ∀ k, stop k = true → Takes b stop (choose k) f) :
    Takes b stop (peek choose) f := by
  constructor
  intro p q u y hrun hp hword hu hy
  have hrun' : Gives b (choose p.kind) p q := hrun
  rw [p.kind_eq_headD_word, hword] at hrun'
  rcases hu.next with hk | ⟨rfl, hnullable⟩
  · exact (hstarts _ hk).taken hrun' hp hword hu hy
  · exact (hnull hnullable _ hy).taken hrun' hp hword hu hy

/-- The common case: the form does not derive the empty word. -/
theorem takes_peek_first {choose : Kind → Move} (hnull : f.nullable = false)
    (hstarts : ∀ k, f.starts k = true → Takes b stop (choose k) f) :
    Takes b stop (peek choose) f :=
  takes_peek hstarts fun hnullable => absurd hnullable (by simp [hnull])

theorem Takes.once (hm : Takes b stop m f) (hstarts : ∀ k, f.starts k = true → test k = true)
    (hnull : f.nullable = false) (hstop : ∀ k, stop k = true → test k = false) :
    Takes b stop (once test m) f.opt := by
  constructor
  intro p q u y hrun hp hword hu hy
  rw [Gives, run, hp, Bool.true_and, p.kind_eq_headD_word, hword] at hrun
  cases hu with
  | left hu =>
      have hgo := hu.before test hy hstarts fun hnullable => absurd hnullable (by simp [hnull])
      rw [if_pos hgo] at hrun
      exact hm.taken hrun hp hword hu hy
  | right hu =>
      cases hu
      rw [List.nil_append, if_neg (by simpa using hstop _ hy)] at hrun
      obtain rfl := Option.some.inj hrun
      exact ⟨hp, hword⟩

/-- A repetition goes round as long as there are words, and no longer. -/
theorem Takes.repeated (hm : Takes b stop m f) (hstarts : ∀ k, f.starts k = true → test k = true)
    (hnext : ∀ k, f.starts k = true → stop k = true)
    (hstop : ∀ k, stop' k = true → stop k = true ∧ test k = false) :
    Takes b stop' (repeated test m) f.star := by
  have hloop (n : Nat) : ∀ {p q : Pass} {u y : List Kind},
      loop test (m.run (Rule.run b) b) n p = some q → p.valid = true → p.word = u ++ y →
      f.star.Derives p.room u y → stop' (y.headD .eof) = true → q.valid = true ∧ q.word = y := by
    induction n with
    | zero =>
        intro p q u y hrun
        exact absurd hrun (by simp [loop])
    | succ n ih =>
        intro p q u y hrun hp hword hu hy
        have hend := hstop _ hy
        rcases loop_eq_some hrun with ⟨rfl, hstay⟩ | ⟨i, r, hi, hgo, hpr, hrest⟩
        · rw [hp, Bool.true_and, q.kind_eq_headD_word, hword] at hstay
          rcases hu.next with hk | ⟨rfl, -⟩
          · rw [hstarts _ hk] at hstay
            exact absurd hstay (by simp)
          · exact ⟨hp, hword⟩
        · obtain rfl := Nat.succ.inj hi
          rw [hp, Bool.true_and, p.kind_eq_headD_word, hword] at hgo
          cases hu with
          | done =>
              rw [List.nil_append, hend.2] at hgo
              exact absurd hgo (by simp)
          | @again _ _ v w _ hv hw =>
              rw [List.append_assoc] at hword
              have hmeet : stop ((w ++ y).headD .eof) = true :=
                hw.before stop hy hnext fun _ k hk => (hstop k hk).1
              obtain ⟨hr, hrword⟩ := hm.taken hpr hp hword hv hmeet
              rw [← Gives.room_eq hpr] at hw
              exact ih hrest hr hrword hw hy
  constructor
  intro p q u y hrun
  exact hloop b hrun

theorem Takes.chain (hm : Takes b stop m f)
    (hnext : ∀ k, test k = true → stop k = true)
    (hstop : ∀ k, stop' k = true → stop k = true ∧ test k = false) :
    Takes b stop' (chain m test) (f.chain test) := by
  have hround : Takes b stop (advance >> m) (.oneOf test >> f) := hm.advance_both
  have hstarts (k : Kind) (hk : (Form.oneOf test >> f).starts k = true) : test k = true := by
    simpa using hk
  refine hm.both (hround.repeated hstarts (fun k hk => hnext k (hstarts k hk)) hstop) ?_ ?_
  · exact fun k hk => hnext k (hstarts k hk)
  · exact fun _ k hk => (hstop k hk).1

/-! ## Nesting -/

theorem Takes.nest (hm : Takes b stop m f) : Takes b stop (nest m) f.nest := by
  constructor
  intro p q u y hrun hp hword hu hy
  generalize hroom : p.room = n at hu
  cases hu with
  | @nest _ e _ _ hu =>
      have hopen : ¬ p.depth ≥ p.limit := by
        simp only [Pass.room] at hroom
        omega
      obtain ⟨r, hpr, rfl⟩ := gives_nest hrun hopen
      have hinner : ({ p with depth := p.depth + 1 } : Pass).room = e := by
        simp only [Pass.room] at hroom ⊢
        omega
      rw [← hinner] at hu
      have hr := hm.taken hpr hp hword hu hy
      exact hr

end SwitchScript.Move
