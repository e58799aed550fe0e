import SwitchScript.Proofs.Pieces.Munch

/-!
# A scan partitions its script

`Munches` cuts a text by maximal munch from its beginning to its end, and there
is one way to do that (`munches_iff`). A scan is this cut: its tokens and its
errors are what the pieces yield, each at the place where its piece starts.

A place is a matter of the text before it, of its line feeds and of what comes
after the last of them. `Piece.next` walks from piece to piece and counts
instead. That this leads to the same places (`next_cut`) is due to line feeds
being pieces of their own: no other piece holds one.
-/

namespace SwitchScript

/-- The text is cut into pieces, each the first one of what is left. -/
inductive Munches : List Char → List (List Char × Yield) → Prop
  | nil : Munches [] []
  | cons {text rest : List Char} {y : Yield} {ps : List (List Char × Yield)} :
      Munch text rest y → Munches rest ps → Munches (text ++ rest) ((text, y) :: ps)

/-! ## There is one way to cut a text -/

/-- What holds of the empty text, and of a text if it holds of what is left of
it after the first piece, holds of all texts. -/
@[elab_as_elim]
theorem Piece.cut_induction {P : List Char → Prop} (nil : P [])
    (cons : ∀ c rest, P (cut c rest).2 → P (c :: rest)) (cs : List Char) : P cs := by
  induction hn : cs.length using Nat.strongRecOn generalizing cs with
  | ind n ih =>
      cases cs with
      | nil => exact nil
      | cons c rest => exact cons c rest (ih _ (hn ▸ length_cut_lt c rest) _ rfl)

/-- The pieces of a text, as parts of it and with what they yield. -/
def Piece.parts (cs : List Char) : List (List Char × Yield) :=
  (ofText cs).map fun x => (x.source, x.yield)

namespace Piece

@[simp] theorem parts_nil : parts [] = [] := rfl

theorem parts_cons (c : Char) (rest : List Char) :
    parts (c :: rest) = ((cut c rest).1.source, (cut c rest).1.yield) :: parts (cut c rest).2 := by
  rw [parts, ofText_cons, List.map_cons, ← parts]

theorem flatten_parts (cs : List Char) : ((parts cs).map Prod.fst).flatten = cs := by
  rw [parts, List.map_map, ← List.flatMap_def]
  exact flatMap_source cs

theorem ne_nil_of_mem_parts {cs : List Char} {p : List Char × Yield} (hp : p ∈ parts cs) :
    p.1 ≠ [] := by
  induction cs using cut_induction with
  | nil => exact absurd hp List.not_mem_nil
  | cons c rest ih =>
      rw [parts_cons] at hp
      rcases List.mem_cons.mp hp with rfl | hp
      · exact cut_source_ne_nil c rest
      · exact ih hp

theorem munches_parts (cs : List Char) : Munches cs (parts cs) := by
  induction cs using cut_induction with
  | nil => exact .nil
  | cons c rest ih =>
      have hmunches := Munches.cons (munch_cut c rest) ih
      rw [cut_source, ← parts_cons] at hmunches
      exact hmunches

end Piece

open Piece

theorem Munches.eq_parts {cs : List Char} {ps : List (List Char × Yield)} (h : Munches cs ps) :
    ps = parts cs := by
  induction h with
  | nil => rfl
  | cons hmunch _ ih =>
      obtain ⟨c, cs, x, heq, hcut, rfl, rfl⟩ := hmunch.cutsOff
      rw [heq, parts_cons, hcut, ih]

theorem munches_iff {cs : List Char} {ps : List (List Char × Yield)} :
    Munches cs ps ↔ ps = parts cs :=
  ⟨Munches.eq_parts, fun h => h ▸ munches_parts cs⟩

/-- A second point is glued to the number, and an error. -/
example :
    parts ['1', '.', '2', '.'] =
      [(['1', '.', '2', '.'],
        ⟨some (.float, "1.2"), some (.malformedNumber ['1', '.', '2', '.'])⟩)] := by
  decide

/-! ## Places -/

/-- The place after a text: its line feeds are counted, and the characters
after the last one. -/
def Position.after (before : List Char) : Position :=
  ⟨before.count '\n' + 1, (before.rtakeWhile (· != '\n')).length + 1⟩

theorem Position.after_nil : after [] = origin := rfl

theorem Position.after_lineBreak (before : List Char) :
    after (before ++ ['\n']) = (after before).nextLine := by
  simp [after, nextLine]

theorem Position.after_right {text : List Char} (h : '\n' ∉ text) (before : List Char) :
    after (before ++ text) = (after before).right text.length := by
  have hline : ∀ c ∈ text.reverse, (c != '\n') = true := fun c hc =>
    bne_iff_ne.mpr (ne_of_mem_of_not_mem (List.mem_reverse.mp hc) h)
  have hcolumn : ((before ++ text).rtakeWhile (· != '\n')).length =
      (before.rtakeWhile (· != '\n')).length + text.length := by
    rw [List.rtakeWhile, List.reverse_append, List.takeWhile_append_of_pos hline,
      List.reverse_append, List.reverse_reverse, List.length_append, List.rtakeWhile]
  rw [after, List.count_append, List.count_eq_zero.mpr h, hcolumn, right, after, Nat.add_zero]
  dsimp only
  congr 1
  omega

theorem Piece.Run.notMem {test : Char → Bool} {text rest : List Char} (h : Run test text rest)
    {c : Char} (hc : test c = false) : c ∉ text :=
  fun hmem => Bool.eq_false_iff.mp hc (h.inside c hmem)

/-- Line feeds are pieces of their own. -/
theorem Munch.lineFeed {text rest : List Char} {y : Yield} (h : Munch text rest y) :
    text = ['\n'] ∨ '\n' ∉ text := by
  cases h with
  | comment hrun => exact .inr (List.not_mem_cons_of_ne_of_not_mem (by decide) (hrun.notMem rfl))
  | blank hrun => exact .inr (hrun.notMem rfl)
  | lineBreak => exact .inl rfl
  | number _ hrun _ => exact .inr (hrun.notMem (by decide))
  | closed hmark hquotes _ =>
      have hmark := lineFeed_ne_of_isQuote hmark
      have hbody := List.not_mem_cons_of_ne_of_not_mem hmark hquotes.line
      exact .inr (List.not_mem_append hbody fun hmem => hmark (List.mem_singleton.mp hmem))
  | unclosed hmark hquotes _ =>
      exact .inr (List.not_mem_cons_of_ne_of_not_mem (lineFeed_ne_of_isQuote hmark) hquotes.line)
  | word _ hrun _ => exact .inr (hrun.notMem (by decide))
  | operator hentry _ =>
      exact .inr ((by decide : ∀ e ∈ Kind.operators, '\n' ∉ e.1) _ hentry)
  | stray hsign _ => exact .inr fun hmem => hsign.notLineBreak (List.mem_singleton.mp hmem).symm

theorem Piece.next_of_ne {x : Piece} (h : x ≠ lineBreak) (p : Position) :
    x.next p = p.right x.source.length := by
  cases x with
  | lineBreak => exact absurd rfl h
  | _ => rfl

/-- The place where a text ends that starts at this place. -/
def Position.past (p : Position) : List Char → Position
  | [] => p
  | c :: cs => (if c = '\n' then p.nextLine else p.right 1).past cs

theorem Position.past_append (p : Position) (text rest : List Char) :
    p.past (text ++ rest) = (p.past text).past rest := by
  induction text generalizing p with
  | nil => rfl
  | cons c text ih => exact ih _

theorem Position.past_of_notMem {text : List Char} (h : '\n' ∉ text) (p : Position) :
    p.past text = p.right text.length := by
  induction text generalizing p with
  | nil => exact (right_zero p).symm
  | cons c text ih =>
      rw [past, if_neg (List.ne_of_not_mem_cons h).symm, ih (List.not_mem_of_not_mem_cons h),
        right_right, List.length_cons, Nat.add_comm]

/-- The place after a text is that after all the text up to there. -/
theorem Position.past_after (before text : List Char) :
    (after before).past text = after (before ++ text) := by
  induction text generalizing before with
  | nil => rw [past, List.append_nil]
  | cons c text ih =>
      have hstep : (if c = '\n' then (after before).nextLine else (after before).right 1) =
          after (before ++ [c]) := by
        by_cases hc : c = '\n'
        · rw [if_pos hc, hc, after_lineBreak]
        · rw [if_neg hc, after_right fun hmem => hc (List.mem_singleton.mp hmem).symm]
          rfl
      rw [past, hstep, ih, ← List.append_cons]

/-- Counting from piece to piece leads to the place that the text tells. -/
theorem Piece.next_source (c : Char) (rest : List Char) (p : Position) :
    (cut c rest).1.next p = p.past (cut c rest).1.source := by
  by_cases hc : c = '\n'
  · subst hc
    rfl
  have hsource := cut_source c rest
  have hne : (cut c rest).1 ≠ lineBreak := by
    intro hline
    rw [hline] at hsource
    exact hc (List.cons.inj hsource).1.symm
  have hline : '\n' ∉ (cut c rest).1.source := by
    refine (munch_cut c rest).lineFeed.resolve_left fun hline => ?_
    rw [hline] at hsource
    exact hc (List.cons.inj hsource).1.symm
  rw [next_of_ne hne, Position.past_of_notMem hline]

theorem Piece.next_cut (c : Char) (rest before : List Char) :
    (cut c rest).1.next (.after before) = .after (before ++ (cut c rest).1.source) := by
  rw [next_source, Position.past_after]

/-- What pieces yield, each at the place where it starts. -/
def place (before : List Char) : List (List Char × Yield) → List (Position × Yield)
  | [] => []
  | (text, y) :: ps => (.after before, y) :: place (before ++ text) ps

namespace Piece

theorem locate_ofText (cs before : List Char) :
    (locate (.after before) (ofText cs)).map (fun x => (x.1, x.2.yield)) =
      place before (parts cs) := by
  induction cs using cut_induction generalizing before with
  | nil => rfl
  | cons c rest ih =>
      rw [ofText_cons, parts_cons, locate, next_cut, List.map_cons, ih, place]

theorem stopAt_ofText (cs before : List Char) :
    stopAt (.after before) (ofText cs) = .after (before ++ cs) := by
  induction cs using cut_induction generalizing before with
  | nil => rw [ofText_nil, stopAt, List.append_nil]
  | cons c rest ih => rw [ofText_cons, stopAt, next_cut, ih, List.append_assoc, cut_source]

end Piece

/-! ## The scan -/

namespace Yield

/-- The token of a piece at this place. -/
def tokenAt? (p : Position) (y : Yield) : Option Token :=
  y.token?.map fun t => ⟨⟨t.2, p⟩, t.1⟩

/-- The error of a piece at this place. -/
def errorAt? (p : Position) (y : Yield) : Option LexicalError :=
  y.fault?.map (⟨p, ·⟩)

end Yield

theorem Piece.tokenAt?_yield (p : Position) (x : Piece) : x.yield.tokenAt? p = x.token? p := by
  cases x <;> rfl

namespace Scan

theorem tokens_ofSource (source : String) :
    (ofSource source).tokens =
      (place [] (parts source.toList)).filterMap (fun x => x.2.tokenAt? x.1) ++
        [(⟨"", .after source.toList⟩ : Lexeme).asStop] := by
  rw [tokens, Stream.toList, stream, ofSource, ← Position.after_nil, stopAt_ofText,
    ← locate_ofText, List.filterMap_map]
  simp only [Function.comp_def, tokenAt?_yield, List.nil_append]

theorem errors_ofSource (source : String) :
    (ofSource source).errors =
      (place [] (parts source.toList)).filterMap (fun x => x.2.errorAt? x.1) := by
  rw [errors, ofSource, ← Position.after_nil, ← locate_ofText, List.filterMap_map]
  rfl

/-- A scan cuts its script by maximal munch, in the only way there is, into
pieces that are not empty and make up the script. Its tokens, the end mark
aside, and its errors are what the pieces yield, one after another. -/
theorem maximal_munch (source : String) :
    ∃ ps, (∀ qs, Munches source.toList qs ↔ qs = ps) ∧
      (ps.map Prod.fst).flatten = source.toList ∧ (∀ p ∈ ps, p.1 ≠ []) ∧
      (ofSource source).tokens =
        (place [] ps).filterMap (fun x => x.2.tokenAt? x.1) ++
          [(⟨"", .after source.toList⟩ : Lexeme).asStop] ∧
      (ofSource source).errors = (place [] ps).filterMap (fun x => x.2.errorAt? x.1) :=
  ⟨parts source.toList, fun _ => munches_iff, flatten_parts source.toList,
    fun _ hp => ne_nil_of_mem_parts hp, tokens_ofSource source, errors_ofSource source⟩

end Scan

end SwitchScript
