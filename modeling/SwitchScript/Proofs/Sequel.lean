import SwitchScript.Proofs.Alike

/-!
# What comes after a valid script

A script that is accepted, and a line break after it, leave nothing behind: a
run over more lines goes on as if it had started with them (`sequel_free`). The
one thing that must not be in the script is a construct that is not analysed,
since such a construct may reach into the lines after it.

The script is a sequence of statements by the grammar. Each of them is taken by
one round of the loop, whatever the next one starts with, if only a line break
stands between the two (`round_takes`), and after the last one the run stands on
the first token of what follows that is not a line break, as a run does that
starts there (`reaches_sequel`). The two are alike from then on but for the
index.
-/

namespace SwitchScript

open Move

/-! ## Rounds of the loop -/

namespace Pass

variable {p : Pass} {u v y z breaks : List Kind}

/-- The state after a round of the loop over the statements. -/
def round (p : Pass) : Pass := (p.follow .statement).skipNewlines

theorem reaches_round (hgo : (p.valid && p.kind != .eof) = true) (ts : List Task) :
    Moment.Reaches ⟨.make .rounds :: ts, p⟩ ⟨.make .rounds :: ts, p.round⟩ := by
  have hbody : (Move.follow .statement >> Move.skipNewlines).Makes p p.round :=
    (p.makes_follow .statement).both fun _ => .head (.refl _)
  apply Moment.Reaches.head
  show Moment.Reaches ⟨(if p.valid && p.kind != .eof then _ else _) ++ ts, p⟩ _
  rw [if_pos hgo]
  exact hbody (.make .rounds :: ts)

theorem gives_round (p : Pass) :
    ∃ b, Gives (b + 1) (Move.follow .statement >> Move.skipNewlines) p p.round := by
  obtain ⟨b, -, hscript⟩ := gives_script .statement p
  exact ⟨b, gives_both.mpr ⟨p.follow .statement, gives_follow.mpr hscript, rfl⟩⟩

/-- A round takes a statement and the line breaks after it. Without a line break
there has to be something after the statement that does not continue it. -/
theorem round_takes (hp : p.valid = true) (hword : p.word = u ++ (breaks ++ y))
    (hu : (Form.symbol .statement).Derives p.room u (breaks ++ y))
    (hbreaks : ∀ k ∈ breaks, k = .newline) (hy : y.headD .eof ≠ .newline)
    (hnext : breaks = [] → (y.headD .eof).pull = 0) :
    p.round.valid = true ∧ p.round.word = y := by
  obtain ⟨b, hrun⟩ := p.gives_round
  have hlines : Form.lines.Derives p.room breaks y := derives_lines hbreaks
  rw [← List.append_assoc] at hword
  cases breaks with
  | nil =>
      refine (rulesTake_all b).statement_lines.taken hrun hp hword (.seq hu hlines) ?_
      rw [Rule.stops, Bool.and_eq_true, bne_iff_ne, beq_iff_eq]
      exact ⟨hy, hnext rfl⟩
  | cons k breaks =>
      rw [List.forall_mem_cons] at hbreaks
      refine (rulesTake_all b).statement_line.taken hrun hp hword (.seq hu ?_) (by simpa using hy)
      exact .seq (u := [k]) (.oneOf (by simp [hbreaks.1])) (derives_lines hbreaks.2)

theorem room_round (p : Pass) : p.round.room = p.room := by
  obtain ⟨b, hrun⟩ := p.gives_round
  exact hrun.room_eq

/-- A round that leaves the run valid has passed over a word. -/
theorem passes_round (hp : p.valid = true) (hk : Rule.statement.entry p.kind)
    (hq : p.round.valid = true) : ∃ u, p.Passes u p.round := by
  have hform : Rule.statement.form? = some (.symbol .statement >> .lines) := rfl
  obtain ⟨u, hpass, -⟩ := follow_read hform hp hk hq
  exact ⟨_, hpass.trans (p.follow .statement).passes_skipNewlines⟩

end Pass

theorem Form.starts_statement : ∀ k : Kind, (Form.symbol .statement).starts k = true →
    k ≠ .newline ∧ k ≠ .eof ∧ k.pull = 0 := by
  decide

theorem dropWhile_newline_cons {k : Kind} (hk : k ≠ .newline) (w : List Kind) :
    (k :: w).dropWhile (· == .newline) = k :: w :=
  List.dropWhile_cons_of_neg (by simpa using hk)

theorem headD_dropWhile_newline (w : List Kind) :
    (w.dropWhile (· == .newline)).headD .eof ≠ .newline := by
  intro h
  cases hw : w.dropWhile (· == .newline) with
  | nil =>
      rw [hw] at h
      exact absurd h (by decide)
  | cons k v =>
      have hk := List.head_dropWhile_not (· == .newline) (l := w) (by rw [hw]; simp)
      rw [hw, List.headD_cons] at h
      simp [hw, h] at hk

/-- A program is a sequence of statements after line breaks. -/
theorem IsProgram.split {d : Nat} {ks : List Kind} (h : IsProgram d ks) :
    ∃ breaks v, ks = breaks ++ v ∧ (∀ k ∈ breaks, k = .newline) ∧
      (Form.star (.symbol .statement >> .lines)).Derives d v [] := by
  cases h with
  | symbol h =>
      cases h with
      | seq hbreaks hv => exact ⟨_, _, rfl, newline_of_derives_lines hbreaks, hv⟩

namespace Pass

variable {p : Pass} {s v w y z rest breaks : List Kind} {d : Nat}

/-- The same with more line breaks in what is ahead: a round takes all of them,
and goes on from behind the statement. -/
theorem round_statement (hp : p.valid = true) (hword : p.word = s ++ (breaks ++ rest))
    (hs : (Form.symbol .statement).Derives p.room s w) (hfree : ∀ k ∈ s, k.opensIgnored = false)
    (hbreaks : ∀ k ∈ breaks, k = .newline) (hnext : breaks = [] → (rest.headD .eof).pull = 0) :
    p.kind ≠ .eof ∧ p.round.valid = true ∧ p.round.word = rest.dropWhile (· == .newline) ∧
      ∃ u, p.Passes u p.round := by
  have hstart : p.kind ≠ .newline ∧ p.kind ≠ .eof := by
    rcases hs.first with ⟨-, hnull⟩ | ⟨k, w, rfl, hk⟩
    · exact absurd hnull (by decide)
    · rw [p.kind_eq_headD_word, hword]
      exact (Form.starts_statement k hk).imp_right And.left
  have hall : ∀ k ∈ breaks ++ rest.takeWhile (· == .newline), k = .newline := by
    rw [List.forall_mem_append]
    refine ⟨hbreaks, fun k hk => ?_⟩
    simpa using List.all_eq_true.mp List.all_takeWhile k hk
  have hstop : breaks ++ rest.takeWhile (· == .newline) = [] →
      ((rest.dropWhile (· == .newline)).headD .eof).pull = 0 := by
    intro hnil
    obtain ⟨rfl, htake⟩ := List.append_eq_nil_iff.mp hnil
    have hrest := List.takeWhile_append_dropWhile (p := (· == Kind.newline)) (l := rest)
    rw [htake, List.nil_append] at hrest
    rw [hrest]
    exact hnext rfl
  rw [← List.takeWhile_append_dropWhile (p := (· == Kind.newline)) (l := rest),
    ← List.append_assoc breaks] at hword
  obtain ⟨hvalid, hround⟩ := round_takes hp hword (hs.free hfree _) hall
    (headD_dropWhile_newline rest) hstop
  exact ⟨hstart.2, hvalid, hround, passes_round hp hstart hvalid⟩

/-- The statements of a script are taken one by one, up to the first token
after them and after the line break that is not one itself. -/
theorem reaches_sequel (hv : (Form.star (.symbol .statement >> .lines)).Derives d v y)
    (hfree : ∀ k ∈ v, k.opensIgnored = false) (ts : List Task) {p : Pass} (hp : p.valid = true)
    (hroom : p.room = d) (hword : p.word = (v ++ .newline :: z).dropWhile (· == .newline)) :
    ∃ q u, Moment.Reaches ⟨.make .rounds :: ts, p⟩ ⟨.make .rounds :: ts, q⟩ ∧ q.valid = true ∧
      p.Passes u q ∧ q.word = z.dropWhile (· == .newline) := by
  generalize hstar : Form.star (.symbol .statement >> .lines) = f at hv
  induction hv generalizing p with
  | done => exact ⟨p, [], .refl _, hp, .refl p, hword⟩
  | @again f d u v y hf hrest _ ih =>
      cases hstar
      rw [List.forall_mem_append] at hfree
      cases hf with
      | @seq _ _ _ s breaks _ hs hbreaks =>
          rw [List.forall_mem_append] at hfree
          have hnext : ((v ++ .newline :: z).headD .eof).pull = 0 := by
            rcases hrest.first with ⟨rfl, -⟩ | ⟨k, w, rfl, hk⟩
            · rfl
            · exact (Form.starts_statement k (by simpa using hk)).2.2
          have hsplit : p.word = s ++ (breaks ++ (v ++ .newline :: z)) := by
            rw [hword, List.append_assoc, List.append_assoc]
            rcases hs.first with ⟨-, hnull⟩ | ⟨k, w, rfl, hk⟩
            · exact absurd hnull (by decide)
            · exact dropWhile_newline_cons (Form.starts_statement k hk).1 _
          rw [← hroom] at hs
          obtain ⟨hk, hvalid, hround, u₁, hpass₁⟩ := round_statement hp hsplit hs hfree.1.1
            (newline_of_derives_lines hbreaks) fun _ => hnext
          obtain ⟨q, u₂, hreach, hq, hpass₂, hqword⟩ :=
            ih hfree.2 hvalid (p.room_round.trans hroom) hround rfl
          refine ⟨q, u₁ ++ u₂, (reaches_round ?_ ts).trans hreach, hq, hpass₁.trans hpass₂, hqword⟩
          rw [hp, Bool.true_and, bne_iff_ne]
          exact hk
  | _ => cases hstar

end Pass

/-! ## Alike but for the index -/

/-- The stream with tokens put in front of it. -/
def Stream.prepend (ts : List Token) (s : Stream) : Stream := ⟨ts ++ s.tokens, s.stop⟩

def Site.later (n : Nat) (x : Site) : Site := ⟨x.index + n, x.token⟩

/-- The same remark `n` tokens later. -/
def Diagnostic.later (n : Nat) : Diagnostic → Diagnostic
  | error site fault => error (site.later n) fault
  | notice site => notice (site.later n)

@[simp] theorem Diagnostic.describe_later (n : Nat) (d : Diagnostic) :
    (d.later n).describe = d.describe := by
  cases d <;> rfl

namespace Cursor

/-- Two cursors with the same ahead, the second one `n` tokens further from the
start. -/
structure Offset (n : Nat) (c c' : Cursor) : Prop where
  index : c'.index = c.index + n
  ahead : c'.ahead = c.ahead
  stop : c'.stop = c.stop

variable {n : Nat} {c c' : Cursor}

theorem Offset.site (h : c.Offset n c') : c'.site = c.site.later n := by
  rw [Cursor.site, Cursor.site, Site.later, current, current, h.index, h.ahead, h.stop]

theorem Offset.forward (h : c.Offset n c') (m : Nat) : (c.forward m).Offset n (c'.forward m) where
  index := by
    rw [index_forward, index_forward, h.index, h.ahead]
    omega
  ahead := congrArg (List.drop m) h.ahead
  stop := h.stop

theorem Offset.likeness (n : Nat) : Likeness (Offset n) fun x x' => x' = x.later n :=
  .of_forward (fun _ _ h => by rw [h.ahead]) (fun _ _ h => h.site) fun _ _ m h => h.forward m

theorem ahead_eq_drop (c : Cursor) : c.ahead = c.stream.tokens.drop c.index :=
  (List.drop_left' List.length_reverse).symm

end Cursor

theorem Diagnostic.Like.eq_later {n : Nat} {d d' : Diagnostic}
    (h : Like (fun x x' => x' = x.later n) d d') : d' = d.later n := by
  cases h with
  | error fault hsite => exact congrArg (Diagnostic.error · fault) hsite
  | notice hsite => exact congrArg Diagnostic.notice hsite

namespace Pass

variable {p : Pass} {s Q : Stream} {P : List Token} {limit : Int} {stop : Lexeme} {u w : List Kind}

theorem diagnostics_eq_nil (herrors : p.errors = []) (hnotices : p.notices = []) :
    p.diagnostics = [] := by
  rw [errors, List.reverse_eq_nil_iff, List.filter_eq_nil_iff] at herrors
  rw [notices, List.reverse_eq_nil_iff, List.filter_eq_nil_iff] at hnotices
  refine List.eq_nil_iff_forall_not_mem.mpr fun d hd => ?_
  exact hnotices d hd (by simpa using herrors d hd)

/-- A run over a script with a line break behind a program comes to the first
token after the two that is no line break. -/
theorem reaches_behind {ks z : List Kind} (h : IsProgram limit.toNat ks)
    (hfree : ∀ k ∈ ks, k.opensIgnored = false) (hword : s.word = ks ++ .newline :: z) :
    ∃ q w, Moment.Reaches ⟨[.make .rounds], (start s limit).skipNewlines⟩ ⟨[.make .rounds], q⟩ ∧
      q.valid = true ∧ (start s limit).Passes w q ∧ q.word = z.dropWhile (· == .newline) := by
  obtain ⟨breaks, v, rfl, hbreaks, hv⟩ := h.split
  rw [List.forall_mem_append] at hfree
  have hskip : (start s limit).skipNewlines.word =
      (v ++ .newline :: z).dropWhile (· == .newline) := by
    rw [word_skipNewlines, word_start, hword, List.append_assoc,
      List.dropWhile_append_of_pos fun k hk => beq_iff_eq.mpr (hbreaks k hk)]
  have hvalid : (start s limit).skipNewlines.valid = true := rfl
  obtain ⟨q, u, hreach, hq, hpass, hqword⟩ :=
    reaches_sequel hv hfree.2 [] hvalid (room_start s limit) hskip
  exact ⟨q, _, hreach, hq, (start s limit).passes_skipNewlines.trans hpass, hqword⟩

/-- A run that has passed over no construct has made no notice. -/
theorem notices_eq_nil {d : Moment}
    (h : Moment.Reaches ⟨[.make .rounds], (start s limit).skipNewlines⟩ d)
    (hpass : (start s limit).Passes w d.pass) (hfree : ∀ k ∈ w, k.opensIgnored = false) :
    d.pass.notices = [] := by
  have hplaced := placed_rounds (start s limit).kind_skipNewlines_ne
  refine List.eq_nil_iff_forall_not_mem.mpr fun e he => ?_
  obtain hold | ⟨hk, htoken, hlt⟩ := h.notice_site hplaced he
  · exact absurd hold (by simp [notices, start, skipNewlines])
  · have hstream : d.pass.cursor.stream = s := h.extends.stream_eq.trans (Cursor.stream_forward ..)
    have hprefix : w <+: s.toList.map Token.kind := by
      have hword : w <+: s.word := ⟨_, hpass.word.symm⟩
      rw [Stream.toList, List.map_append]
      exact (hword.trans (List.takeWhile_prefix _)).trans (List.prefix_append _ _)
    have hindex : e.site.index < w.length := by
      rw [hpass.index] at hlt
      simpa [start] using hlt
    have hkind : (s.toList.map Token.kind)[e.site.index]? = some e.site.token.kind := by
      rw [List.getElem?_map, ← hstream, htoken]
      rfl
    rw [List.prefix_iff_getElem?.mp hprefix _ hindex, Option.some.injEq] at hkind
    rw [← hkind, hfree _ (List.getElem_mem hindex)] at hk
    exact absurd hk (by simp)

theorem word_of_ne_eof (hP : ∀ t ∈ P, t.kind ≠ .eof) :
    (⟨P, stop⟩ : Stream).word = P.map Token.kind := by
  refine List.takeWhile_eq_self_iff.mpr ?_
  rw [List.forall_mem_map]
  exact fun t ht => bne_iff_ne.mpr (hP t ht)

/-- Kinds before the first end mark of a stream with tokens in front. -/
theorem word_prepend (hP : ∀ t ∈ P, t.kind ≠ .eof) :
    (Q.prepend P).word = P.map Token.kind ++ Q.word := by
  rw [Stream.word, Stream.prepend, List.map_append, List.takeWhile_append_of_pos]
  · rfl
  · intro k hk
    obtain ⟨t, ht, rfl⟩ := List.mem_map.mp hk
    simpa using hP t ht

/-- A run that has passed over all the tokens in front, and over the line breaks
after them, stands where one does that starts behind them. -/
theorem offset_of_passes {q : Pass} (hP : ∀ t ∈ P, t.kind ≠ .eof)
    (hpass : (start (Q.prepend P) limit).Passes w q) (hq : q.cursor.stream = Q.prepend P)
    (hword : q.word = Q.word.dropWhile (· == .newline)) :
    w = P.map Token.kind ++ Q.word.takeWhile (· == .newline) ∧
      (start Q limit).skipNewlines.cursor.Offset P.length q.cursor := by
  have hw : w = P.map Token.kind ++ Q.word.takeWhile (· == .newline) := by
    have hsplit : P.map Token.kind ++ Q.word = w ++ q.word :=
      (word_prepend hP).symm.trans hpass.word
    refine (List.append_left_inj q.word).mp ?_
    rw [← hsplit, hword, List.append_assoc, List.takeWhile_append_dropWhile]
  have hindex : q.cursor.index = (start Q limit).skipNewlines.cursor.index + P.length := by
    rw [hpass.index, hw, (start Q limit).passes_skipNewlines.index, List.length_append,
      List.length_map, word_start]
    simp only [start, Cursor.index_start]
    omega
  have hstream : (start Q limit).skipNewlines.cursor.stream = Q := Cursor.stream_forward ..
  refine ⟨hw, hindex, ?_, ?_⟩
  · rw [q.cursor.ahead_eq_drop, Cursor.ahead_eq_drop, hq, hindex, hstream, Stream.prepend,
      Nat.add_comm, ← List.drop_drop, List.drop_left]
  · show q.cursor.stream.stop = _
    rw [hq]
    rfl

/-- After a valid script and a line break, the run comes to a state that is
alike to the one in which a run over the rest starts. -/
theorem sequel_begins (haccepts : (ofStream ⟨P, stop⟩ limit).verdict? = some true)
    (hP : ∀ t ∈ P, t.kind ≠ .eof ∧ t.kind.opensIgnored = false) {nl : Token}
    (hnl : nl.kind = .newline) (Q : Stream) :
    ∃ q, Moment.Reaches ⟨[.make .rounds], (start (Q.prepend (P ++ [nl])) limit).skipNewlines⟩
        ⟨[.make .rounds], q⟩ ∧
      (start Q limit).skipNewlines.Alike (Cursor.Offset (P.length + 1))
        (fun x x' => x' = x.later (P.length + 1)) q := by
  have heof : ∀ t ∈ P ++ [nl], t.kind ≠ .eof := by
    rw [List.forall_mem_append, List.forall_mem_singleton, hnl]
    exact ⟨fun t ht => (hP t ht).1, by decide⟩
  have hplain : ∀ k ∈ P.map Token.kind, k.opensIgnored = false := by
    rw [List.forall_mem_map]
    exact fun t ht => (hP t ht).2
  have hprogram : IsProgram limit.toNat (P.map Token.kind) := by
    rw [← word_of_ne_eof fun t ht => (hP t ht).1]
    exact isProgram_of_accepts haccepts
  have hword : (Q.prepend (P ++ [nl])).word = P.map Token.kind ++ .newline :: Q.word := by
    rw [word_prepend heof, List.map_append, List.map_singleton, hnl, List.append_assoc,
      List.singleton_append]
  obtain ⟨q, w, hreach, hq, hpass, hqword⟩ := reaches_behind hprogram hplain hword
  have hstream : q.cursor.stream = Q.prepend (P ++ [nl]) :=
    hreach.extends.stream_eq.trans (Cursor.stream_forward ..)
  obtain ⟨hw, hoffset⟩ := offset_of_passes heof hpass hstream hqword
  have hnotices : q.notices = [] := by
    refine notices_eq_nil hreach hpass ?_
    rw [hw, List.map_append, List.map_singleton, hnl]
    simp only [List.forall_mem_append, List.forall_mem_singleton]
    refine ⟨⟨hplain, rfl⟩, fun k hk => ?_⟩
    have hnewline := List.all_eq_true.mp List.all_takeWhile k hk
    rw [beq_iff_eq.mp hnewline]
    rfl
  have herrors : q.errors = [] := hreach.extends.errors_eq_of_valid hq
  have hdepth : q.depth = (start (Q.prepend (P ++ [nl])) limit).skipNewlines.depth := by
    simpa [Moment.base, Task.levels] using hreach.base_eq
  refine ⟨q, hreach, ?_, hq, hdepth, hreach.extends.limit, ?_⟩
  · rwa [List.length_append] at hoffset
  · rw [diagnostics_eq_nil herrors hnotices]
    exact .nil

/-- Valid lines have no influence on the lines after them. If a script without
constructs that are not analysed is accepted, then a run over this script, a
line break and anything else has the verdict, the errors and the notices of a
run over the rest alone, only that the remarks and the end of the run are so
many tokens later. -/
theorem sequel_free (haccepts : (ofStream ⟨P, stop⟩ limit).verdict? = some true)
    (hP : ∀ t ∈ P, t.kind ≠ .eof ∧ t.kind.opensIgnored = false) {nl : Token}
    (hnl : nl.kind = .newline) (Q : Stream) :
    let whole := ofStream (Q.prepend (P ++ [nl])) limit
    whole.verdict? = (ofStream Q limit).verdict? ∧
      whole.errors = (ofStream Q limit).errors.map (Diagnostic.later (P.length + 1)) ∧
      whole.notices = (ofStream Q limit).notices.map (Diagnostic.later (P.length + 1)) ∧
      whole.errors.map Diagnostic.describe = (ofStream Q limit).errors.map Diagnostic.describe ∧
      whole.notices.map Diagnostic.describe = (ofStream Q limit).notices.map Diagnostic.describe ∧
      whole.cursor.index = (ofStream Q limit).cursor.index + (P.length + 1) := by
  intro whole
  obtain ⟨q, hreach, hq⟩ := sequel_begins haccepts hP hnl Q
  have halike := alike_of_reaches (Cursor.Offset.likeness (P.length + 1))
    (start Q limit).rounds_program ((rounds_program _).to_end hreach)
    (placed_rounds (start Q limit).kind_skipNewlines_ne) hq
  have herrors :
      whole.errors = (ofStream Q limit).errors.map (Diagnostic.later (P.length + 1)) := by
    rw [errors_ofStream, errors_ofStream]
    exact eq_map_of_forall₂ halike.errors fun _ _ hd => hd.1.eq_later
  have hnotices :
      whole.notices = (ofStream Q limit).notices.map (Diagnostic.later (P.length + 1)) := by
    rw [notices_ofStream, notices_ofStream]
    exact eq_map_of_forall₂ halike.notices fun _ _ hd => hd.1.eq_later
  have hdescribe : Diagnostic.describe ∘ Diagnostic.later (P.length + 1) = Diagnostic.describe :=
    funext (Diagnostic.describe_later _)
  refine ⟨verdict?_congr ?_, herrors, hnotices, ?_, ?_, ?_⟩
  · exact (congrArg List.length herrors).trans (List.length_map _)
  · rw [herrors, List.map_map, hdescribe]
  · rw [hnotices, List.map_map, hdescribe]
  · rw [cursor_ofStream, cursor_ofStream]
    exact halike.cursor.index

/-- A switch and an assignment on lines of their own. -/
def tidyLines : List Token :=
  [⟨⟨"switch", ⟨1, 1⟩⟩, .kwSwitch⟩, ⟨⟨"(", ⟨1, 8⟩⟩, .lparen⟩, ⟨⟨"x", ⟨1, 9⟩⟩, .identifier⟩,
    ⟨⟨")", ⟨1, 10⟩⟩, .rparen⟩, ⟨⟨"\x7b", ⟨1, 12⟩⟩, .lbrace⟩, ⟨⟨"default", ⟨1, 14⟩⟩, .kwDefault⟩,
    ⟨⟨":", ⟨1, 21⟩⟩, .colon⟩, ⟨⟨"break", ⟨1, 23⟩⟩, .kwBreak⟩, ⟨⟨"\x7d", ⟨1, 29⟩⟩, .rbrace⟩,
    ⟨⟨"\\n", ⟨1, 30⟩⟩, .newline⟩, ⟨⟨"f", ⟨2, 1⟩⟩, .identifier⟩]

/-- A parenthesis that would continue the line before it. -/
def strayParen : Stream :=
  ⟨[⟨⟨"(", ⟨3, 1⟩⟩, .lparen⟩, ⟨⟨"x", ⟨3, 2⟩⟩, .identifier⟩, ⟨⟨")", ⟨3, 3⟩⟩, .rparen⟩], ⟨"", ⟨3, 4⟩⟩⟩

theorem sequel_free_tidyLines :
    (ofStream ⟨tidyLines, ⟨"", ⟨2, 2⟩⟩⟩ 1).verdict? = some true ∧
      (∀ t ∈ tidyLines, t.kind ≠ .eof ∧ t.kind.opensIgnored = false) ∧
      (ofStream strayParen 1).verdict? = some false ∧
      (ofStream (strayParen.prepend (tidyLines ++ [⟨⟨"\\n", ⟨2, 2⟩⟩, .newline⟩])) 1).errors =
        [.error ⟨12, ⟨⟨"(", ⟨3, 1⟩⟩, .lparen⟩⟩ .unrecognizedStatement] := by
  have haccepts : (ofStream ⟨tidyLines, ⟨"", ⟨2, 2⟩⟩⟩ 1).verdict? = some true := by decide +kernel
  have hplain : ∀ t ∈ tidyLines, t.kind ≠ .eof ∧ t.kind.opensIgnored = false := by decide
  have herrors : (ofStream strayParen 1).errors =
      [.error ⟨0, ⟨⟨"(", ⟨3, 1⟩⟩, .lparen⟩⟩ .unrecognizedStatement] := by decide +kernel
  have hbreak : (⟨⟨"\\n", ⟨2, 2⟩⟩, .newline⟩ : Token).kind = .newline := rfl
  have hsequel := (sequel_free haccepts hplain hbreak strayParen).2.1
  rw [herrors] at hsequel
  exact ⟨haccepts, hplain, by decide +kernel, hsequel⟩

end Pass

end SwitchScript
