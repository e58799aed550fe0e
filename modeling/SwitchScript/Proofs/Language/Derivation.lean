import SwitchScript.Proofs.Language.Form

/-!
# Derivations before another text

A word is derived in front of the rest of the script, and most derivations do
not care what that rest is. A form is *plain* if nothing in it can be a
construct that is not analysed; then any rest will do (`Derives.plain`). In
general the first token of the rest decides (`Derives.congr`), and nothing at
all matters to the empty word (`Derives.nil`).

From these follows what a run needs that got stuck half way. A word is *viable*
for a form if it can be completed to one that the form derives. Derived words
are viable before any closing brace, whatever came after them in the first
place (`Derives.viable`), and viability passes from the parts of a form to the
whole. The open end of a skipped construct is what makes the closing brace
necessary: a statement after it could be swallowed.
-/

namespace SwitchScript

/-- The symbols of the grammar inside which nothing is skipped. -/
def Symbol.isPlain : Symbol → Bool
  | program | statement | clauseStatement | switchBlock | caseClause | defaultClause | body => false
  | _ => true

namespace Form

def isPlain : Form → Bool
  | empty | oneOf _ => true
  | seq f g | alt f g => f.isPlain && g.isPlain
  | star f | nest f => f.isPlain
  | skipped => false
  | symbol s => s.isPlain

theorem isPlain_production {s : Symbol} (h : s.isPlain = true) : s.production.isPlain = true := by
  cases s with
  | program | statement | clauseStatement | switchBlock | caseClause | defaultClause | body =>
      exact absurd h (by decide)
  | _ => rfl

variable {f g : Form} {d : Nat} {u v y : List Kind}

/-! ## The rest of the script -/

/-- What comes after a plain form is of no matter. -/
theorem Derives.plain (h : f.Derives d u y) (hplain : f.isPlain = true) (w : List Kind) :
    f.Derives d u w := by
  induction h generalizing w with
  | empty => exact .empty
  | oneOf h => exact .oneOf h
  | seq _ _ ihf ihg =>
      rw [isPlain, Bool.and_eq_true] at hplain
      exact .seq (ihf hplain.1 _) (ihg hplain.2 _)
  | left _ ih =>
      rw [isPlain, Bool.and_eq_true] at hplain
      exact .left (ih hplain.1 w)
  | right _ ih =>
      rw [isPlain, Bool.and_eq_true] at hplain
      exact .right (ih hplain.2 w)
  | done => exact .done
  | again _ _ ihf ihrest => exact .again (ihf hplain _) (ihrest hplain _)
  | nest _ ih => exact .nest (ih hplain w)
  | skipped _ => exact absurd hplain (by simp [isPlain])
  | symbol _ ih => exact .symbol (ih (isPlain_production hplain) w)

/-- Nor is what comes after a word with no construct in it that is not
analysed. -/
theorem Derives.free (h : f.Derives d u y) (hu : ∀ k ∈ u, k.opensIgnored = false)
    (w : List Kind) : f.Derives d u w := by
  induction h generalizing w with
  | empty => exact .empty
  | oneOf h => exact .oneOf h
  | seq _ _ ihf ihg =>
      rw [List.forall_mem_append] at hu
      exact .seq (ihf hu.1 _) (ihg hu.2 _)
  | left _ ih => exact .left (ih hu w)
  | right _ ih => exact .right (ih hu w)
  | done => exact .done
  | again _ _ ihf ihrest =>
      rw [List.forall_mem_append] at hu
      exact .again (ihf hu.1 _) (ihrest hu.2 _)
  | nest _ ih => exact .nest (ih hu w)
  | skipped h =>
      obtain ⟨k, hk, hopens⟩ := h.exists_opens
      rw [hu k hk] at hopens
      exact absurd hopens (by simp)
  | symbol _ ih => exact .symbol (ih hu w)

/-- What comes after the empty word is of no matter. -/
theorem Derives.nil (h : f.Derives d u y) (hu : u = []) (w : List Kind) : f.Derives d [] w := by
  induction h generalizing w with
  | empty => exact .empty
  | oneOf _ => exact absurd hu (by simp)
  | @seq f g d u v y _ _ ihf ihg =>
      obtain ⟨rfl, rfl⟩ := List.append_eq_nil_iff.mp hu
      exact .seq (ihf rfl _) (ihg rfl _)
  | left _ ih => exact .left (ih hu w)
  | right _ ih => exact .right (ih hu w)
  | done => exact .done
  | again _ _ _ _ => exact .done
  | nest _ ih => exact .nest (ih hu w)
  | skipped h => exact absurd hu h.ne_nil
  | symbol _ ih => exact .symbol (ih hu w)

theorem head?_append_congr {v y y' : List Kind} (h : y.head? = y'.head?) :
    (v ++ y).head? = (v ++ y').head? := by
  rw [List.head?_append, List.head?_append, h]

/-- Of what comes after a word only the first token matters. -/
theorem Derives.congr (h : f.Derives d u y) {y' : List Kind} (hhead : y.head? = y'.head?) :
    f.Derives d u y' := by
  induction h generalizing y' with
  | empty => exact .empty
  | oneOf h => exact .oneOf h
  | seq _ _ ihf ihg => exact .seq (ihf (head?_append_congr hhead)) (ihg hhead)
  | left _ ih => exact .left (ih hhead)
  | right _ ih => exact .right (ih hhead)
  | done => exact .done
  | again _ _ ihf ihrest => exact .again (ihf (head?_append_congr hhead)) (ihrest hhead)
  | nest _ ih => exact .nest (ih hhead)
  | skipped h => exact .skipped (h.congr hhead)
  | symbol _ ih => exact .symbol (ih hhead)

/-- The same, for a word that more of the script follows. -/
theorem Derives.congr_of_ne_nil (h : f.Derives d u (v ++ y)) (hv : v ≠ []) (w : List Kind) :
    f.Derives d u (v ++ w) := by
  refine h.congr ?_
  rw [List.head?_append, List.head?_append, Option.or_of_isSome (List.isSome_head?.mpr hv),
    Option.or_of_isSome (List.isSome_head?.mpr hv)]

theorem Derives.star_append {w : List Kind} (h : (star f).Derives d u (v ++ w))
    (hv : (star f).Derives d v w) : (star f).Derives d (u ++ v) w := by
  generalize hg : star f = g at h
  generalize hy : v ++ w = y at h
  induction h generalizing v w with
  | done =>
      cases hg
      exact hv
  | again hf _ _ ihrest =>
      cases hg
      subst hy
      rw [List.append_assoc]
      exact .again (by rwa [List.append_assoc]) (ihrest hv rfl rfl)
  | _ => cases hg

theorem Derives.seq_nil (hf : f.Derives d u y) (hg : g.Derives d [] y) :
    (f >> g).Derives d u y := by
  rw [← List.append_nil u]
  exact .seq hf hg

theorem Derives.seq_imp {h : Form} (himp : ∀ d u y, f.Derives d u y → g.Derives d u y)
    (hseq : (f >> h).Derives d u y) : (g >> h).Derives d u y := by
  cases hseq with
  | seq hf hh => exact .seq (himp _ _ _ hf) hh

/-! ## Viable words -/

/-- The word can be completed to one that the form derives, in front of
anything if the form is plain and else where constructs close. -/
def Viable (f : Form) (d : Nat) (u : List Kind) : Prop :=
  ∃ c, ∀ w, f.isPlain = true ∨ Closes w → f.Derives d (u ++ c) w

/-- The form derives some word without opening anything. -/
def Fillable (f : Form) : Prop :=
  ∃ c, ∀ d w, f.isPlain = true ∨ Closes w → f.Derives d c w

/-- What comes after a form may be filled in so that the form can end there. -/
def FillableAfter (f g : Form) : Prop :=
  ∃ c, ∀ d w, (f >> g).isPlain = true ∨ Closes w →
    g.Derives d c w ∧ (f.isPlain = true ∨ Closes (c ++ w))

theorem isPlain_seq : (f >> g).isPlain = true ↔ f.isPlain = true ∧ g.isPlain = true :=
  Bool.and_eq_true_iff

theorem Fillable.viable (h : f.Fillable) (d : Nat) : f.Viable d [] := by
  obtain ⟨c, hc⟩ := h
  exact ⟨c, fun w hw => hc d w hw⟩

theorem Derives.close (h : f.Derives d u y) : ∃ c, ∀ w, Closes w → f.Derives d (u ++ c) w := by
  induction h with
  | empty => exact ⟨[], fun _ _ => .empty⟩
  | oneOf h => exact ⟨[], fun _ _ => .oneOf h⟩
  | @seq f g d u v y hf hg ihf ihg =>
      by_cases hv : v = []
      · obtain ⟨c, hc⟩ := ihf
        refine ⟨c, fun w hw => ?_⟩
        rw [hv, List.append_nil, ← List.append_nil (u ++ c)]
        exact .seq (hc w hw) (hg.nil hv w)
      · obtain ⟨c, hc⟩ := ihg
        refine ⟨c, fun w hw => ?_⟩
        rw [List.append_assoc]
        refine .seq ?_ (hc w hw)
        rw [List.append_assoc]
        exact hf.congr_of_ne_nil hv _
  | left _ ih =>
      obtain ⟨c, hc⟩ := ih
      exact ⟨c, fun w hw => .left (hc w hw)⟩
  | right _ ih =>
      obtain ⟨c, hc⟩ := ih
      exact ⟨c, fun w hw => .right (hc w hw)⟩
  | done => exact ⟨[], fun _ _ => .done⟩
  | @again f d u v y hf hrest ihf ihrest =>
      by_cases hv : v = []
      · obtain ⟨c, hc⟩ := ihf
        refine ⟨c, fun w hw => ?_⟩
        rw [hv, List.append_nil, ← List.append_nil (u ++ c)]
        exact .again (hc w hw) .done
      · obtain ⟨c, hc⟩ := ihrest
        refine ⟨c, fun w hw => ?_⟩
        rw [List.append_assoc]
        refine .again ?_ (hc w hw)
        rw [List.append_assoc]
        exact hf.congr_of_ne_nil hv _
  | nest _ ih =>
      obtain ⟨c, hc⟩ := ih
      exact ⟨c, fun w hw => .nest (hc w hw)⟩
  | skipped h =>
      obtain ⟨c, hc⟩ := h.close
      exact ⟨c, fun w hw => .skipped (hc w hw)⟩
  | symbol _ ih =>
      obtain ⟨c, hc⟩ := ih
      exact ⟨c, fun w hw => .symbol (hc w hw)⟩

/-- A derived word is viable, whatever came after it. -/
theorem Derives.viable (h : f.Derives d u y) : f.Viable d u := by
  by_cases hplain : f.isPlain = true
  · exact ⟨[], fun w _ => by
      rw [List.append_nil]
      exact h.plain hplain w⟩
  · obtain ⟨c, hc⟩ := h.close
    exact ⟨c, fun w hw => hc w (hw.resolve_left hplain)⟩

theorem Viable.imp (h : f.Viable d u) (hplain : g.isPlain = true → f.isPlain = true)
    (himp : ∀ w y, f.Derives d w y → g.Derives d w y) : g.Viable d u := by
  obtain ⟨c, hc⟩ := h
  exact ⟨c, fun w hw => himp _ _ (hc w (hw.imp_left hplain))⟩

/-- Completing the first part and filling the second. -/
theorem Viable.seq_fill (h : f.Viable d u) (hfill : FillableAfter f g) :
    (f >> g).Viable d u := by
  obtain ⟨c, hc⟩ := h
  obtain ⟨c', hc'⟩ := hfill
  refine ⟨c ++ c', fun w hw => ?_⟩
  obtain ⟨hg, hbefore⟩ := hc' d w hw
  rw [← List.append_assoc]
  exact .seq (hc _ hbefore) hg

/-- Completing the second part, of which there is something. -/
theorem Viable.seq_right (hf : f.Derives d u (v ++ y)) (h : g.Viable d v)
    (hv : v ≠ [] ∨ f.isPlain = true) : (f >> g).Viable d (u ++ v) := by
  obtain ⟨c, hc⟩ := h
  refine ⟨c, fun w hw => ?_⟩
  have hw' : g.isPlain = true ∨ Closes w :=
    hw.imp_left fun hplain => (isPlain_seq.mp hplain).2
  rw [List.append_assoc]
  refine .seq ?_ (hc w hw')
  rw [List.append_assoc]
  rcases hv with hne | hplain
  · exact hf.congr_of_ne_nil hne _
  · exact hf.plain hplain _

theorem Fillable.after (hg : g.Fillable) (hf : f.isPlain = true) : FillableAfter f g := by
  obtain ⟨c, hc⟩ := hg
  exact ⟨c, fun d w hw => ⟨hc d w (hw.imp_left fun h => (isPlain_seq.mp h).2), .inl hf⟩⟩

/-- A form that may be left out can come after anything. -/
theorem fillableAfter_of_nil (hg : ∀ d w, g.Derives d [] w) : FillableAfter f g :=
  ⟨[], fun d w hw => ⟨hg d w, hw.imp_left fun h => (isPlain_seq.mp h).1⟩⟩

/-- So can a form that may start with a closing brace. -/
theorem fillableAfter_of_rbrace {c : List Kind} (hg : ∀ d w, g.Derives d (.rbrace :: c) w) :
    FillableAfter f g :=
  ⟨.rbrace :: c, fun d w _ => ⟨hg d w, .inr (closes_rbrace _)⟩⟩

theorem Fillable.seq_of_derives {c : List Kind} (hf : ∀ d w, f.Derives d c w)
    (hg : g.Fillable) : (f >> g).Fillable := by
  obtain ⟨c', hc'⟩ := hg
  exact ⟨c ++ c', fun d w hw =>
    .seq (hf d _) (hc' d w (hw.imp_left fun h => (isPlain_seq.mp h).2))⟩

theorem Fillable.token_seq (hg : g.Fillable) (k : Kind) : (token k >> g).Fillable :=
  .seq_of_derives (c := [k]) (fun _ _ => .oneOf (by simp)) hg

/-- Completing the last round of a repetition. -/
theorem Viable.star (hf : (star f).Derives d u (v ++ y)) (h : f.Viable d v) :
    (star f).Viable d (u ++ v) := by
  by_cases hv : v = []
  · rw [hv, List.append_nil]
    exact hf.viable
  · obtain ⟨c, hc⟩ := h
    refine ⟨c, fun w hw => ?_⟩
    rw [List.append_assoc]
    refine Derives.star_append ?_ ?_
    · rw [List.append_assoc]
      exact hf.congr_of_ne_nil hv _
    · rw [← List.append_nil (v ++ c)]
      exact .again (hc w hw) .done

theorem Viable.nest (h : f.Viable d u) : (nest f).Viable (d + 1) u := by
  obtain ⟨c, hc⟩ := h
  exact ⟨c, fun w hw => .nest (hc w hw)⟩

end Form

end SwitchScript
