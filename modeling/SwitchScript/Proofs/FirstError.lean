import Mathlib.Data.List.TakeWhile
import SwitchScript.Proofs.Acceptance
import SwitchScript.Proofs.Failure
import SwitchScript.Proofs.Lockstep

/-!
# The first error

A run that records an error is not to be trusted afterwards, but up to there it
is exact. Nothing after the token at which the first error is recorded has
played a part in it, since runs over streams that agree up to this token go in
lockstep (`first_error_stable`). And unless the nesting limit is to blame, the
tokens before it are the beginning of a program (`first_error_viable`): the
rules were stuck after a viable word, which can be completed.
-/

namespace SwitchScript

/-- What a task finds wrong is the same for twins. -/
theorem Task.fault?_twin {i : Nat} {t : Task} {p p' : Pass} (h : p.Twin i p')
    (hi : p.cursor.index ≤ i) : t.fault? p' = t.fault? p := by
  have hk := h.kind_eq hi
  have hdepth : p'.depth = p.depth := by rw [h.rest]
  have hlimit : p'.limit = p.limit := by rw [h.rest]
  cases t with
  | leave | settle => rfl
  | make m =>
      cases m with
      | demand | require => simp only [fault?, hk]
      | nest => simp only [fault?, hdepth, hlimit]
      | _ => rfl

namespace Pass

variable {s : Stream} {limit : Int} {site : Site} {fault : Fault}

/-- With an error on record, the outcome is bad. -/
theorem rejects_of_errors (h : (ofStream s limit).errors ≠ []) :
    (ofStream s limit).verdict? = some false := by
  have hvalid : (ofStream s limit).valid = false := by
    rw [← Bool.not_eq_true, (reaches_ofStream s limit).valid_iff]
    exact h
  rw [ofStream_eq] at hvalid ⊢
  rw [settle, show ((start s limit).follow .program).valid = false from hvalid, Bool.and_false]

/-- The first error depends on nothing after its token. -/
theorem first_error_stable {s' : Stream}
    (h : (ofStream s limit).errors.head? = some (.error site fault))
    (hagree : s'.toList.take (site.index + 1) = s.toList.take (site.index + 1)) :
    (ofStream s' limit).errors.head? = some (.error site fault) := by
  have hne : (ofStream s limit).errors ≠ [] := by
    intro hnil
    rw [hnil] at h
    exact absurd h (by simp)
  obtain ⟨t, ts, p, fault', hfails⟩ := fails_of_errors hne
  obtain ⟨rfl, rfl⟩ : p.site = site ∧ fault' = fault := by
    have hfirst := (hfails.head?_errors rfl).symm.trans h
    simpa using hfirst
  -- the other run comes to the same moment, and fails there too
  obtain ⟨p', hreach, htwin⟩ := hfails.before.lockstep (Twin p.site.index)
    (fun q => q.cursor.index ≤ p.site.index) (Moment.guarded_start s limit)
    (fun t q hq => Nat.le_trans (t.extends_perform q).index_le hq)
    (fun t q q' hguard => Task.twin_perform hguard)
    (twin_start limit hagree) (Nat.le_refl _)
  have hlater : Moment.Reaches ⟨t :: ts, p'⟩ ⟨(t.perform p').1 ++ ts, (t.perform p').2⟩ :=
    Moment.Reaches.head (Moment.Reaches.refl _)
  have hend := ((reaches_ofStream s' limit).to_end (hreach.trans hlater)).extends
  refine hend.head?_errors ?_
  have hp' : p'.errors = [] := by
    rw [htwin.rest]
    exact hfails.before.extends.errors_eq_of_valid hfails.valid
  show (t.perform p').2.errors.head? = _
  rw [t.errors_perform, hp', Task.fault?_twin htwin (Nat.le_refl _), hfails.fault,
    htwin.site_eq (Nat.le_refl _)]
  rfl

/-- Tokens of given kinds, for a place where no others are at hand. -/
def fillers (place : Position) (ks : List Kind) : List Token :=
  ks.map fun k => ⟨⟨k.spelling, place⟩, k⟩

theorem map_kind_fillers (place : Position) (ks : List Kind) :
    (fillers place ks).map Token.kind = ks := by
  rw [fillers, List.map_map]
  exact List.map_id ks

/-- Before the first error stands the beginning of a program, unless the
error is about nesting. -/
theorem first_error_viable (h : (ofStream s limit).errors.head? = some (.error site fault))
    (hfault : fault ≠ .nestingTooDeep) :
    ∃ s' : Stream, s.toList.take site.index <+: s'.toList ∧
      (ofStream s' limit).verdict? = some true := by
  have hform : Rule.program.form? = some (.symbol .program) := rfl
  have herrors : (ofStream s limit).errors = ((start s limit).follow .program).errors := by
    rw [ofStream_eq]
    rfl
  have hinvalid : ((start s limit).follow .program).valid = false := by
    cases hvalid : ((start s limit).follow .program).valid with
    | false => rfl
    | true =>
        have hnil := ((start s limit).makes_follow .program).extends.errors_eq_of_valid hvalid
        rw [herrors, hnil] at h
        exact absurd h (by simp [errors, start])
  obtain ⟨u, y, site', fault', hword, hfirst, hindex, hviable⟩ :=
    (start s limit).follow_stuck hform rfl trivial rfl hinvalid
  rw [herrors, hfirst] at h
  obtain ⟨rfl, rfl⟩ : site' = site ∧ fault' = fault := by simpa using h
  obtain ⟨c, hc⟩ := hviable hfault
  rw [room_start] at hc
  have hprogram : IsProgram limit.toNat (u ++ c) := hc [] (.inr closes_nil)
  -- the viable word is what the stream starts with
  have hprefix : u <+: s.tokens.map Token.kind :=
    (show u <+: s.word from ⟨y, hword.symm⟩).trans (List.takeWhile_prefix _)
  have hlen : u.length ≤ s.tokens.length := by
    have hle := hprefix.length_le
    rwa [List.length_map] at hle
  have hu : (s.tokens.take u.length).map Token.kind = u := by
    rw [List.map_take]
    exact (List.prefix_iff_eq_take.mp hprefix).symm
  refine ⟨⟨s.tokens.take u.length ++ fillers s.stop.position c, s.stop⟩, ?_, ?_⟩
  · rw [hindex, show (start s limit).cursor.index = 0 from rfl, Nat.zero_add, Stream.toList,
      Stream.toList, List.take_append_of_le_length hlen, List.append_assoc]
    exact List.prefix_append _ _
  · apply accepts_of_isProgram
    have heof := Form.Derives.eof_notMem hprogram rfl
    rw [Stream.word, List.map_append, hu, map_kind_fillers, List.takeWhile_eq_self_iff.mpr]
    · exact hprogram
    · intro k hk
      rw [bne_iff_ne]
      rintro rfl
      exact heof hk

/-- The first error is at the first token that cannot be continued. Whatever
comes after this token, the stream is rejected with this error first, and what
comes before it can be continued to a stream that is accepted, unless it is
nested as deep as the limit allows. -/
theorem first_error_exact
    (h : (ofStream s limit).errors.head? = some (.error site fault)) :
    (∀ s' : Stream, s'.toList.take (site.index + 1) = s.toList.take (site.index + 1) →
      (ofStream s' limit).verdict? = some false ∧
        (ofStream s' limit).errors.head? = some (.error site fault)) ∧
    (fault.message ≠ "nesting too deep" →
      ∃ s' : Stream, s.toList.take site.index <+: s'.toList ∧
        (ofStream s' limit).verdict? = some true) := by
  constructor
  · intro s' hagree
    have hfirst := first_error_stable h hagree
    refine ⟨rejects_of_errors fun hnil => ?_, hfirst⟩
    rw [hnil] at hfirst
    exact absurd hfirst (by simp)
  · intro hmessage
    refine first_error_viable h ?_
    rintro rfl
    exact hmessage rfl

/-- A call that is never closed, on a line of its own. -/
def unclosedCall : Stream :=
  ⟨[⟨⟨"f", ⟨1, 1⟩⟩, .identifier⟩, ⟨⟨"(", ⟨1, 2⟩⟩, .lparen⟩, ⟨⟨"x", ⟨1, 3⟩⟩, .identifier⟩,
    ⟨⟨"\\n", ⟨1, 4⟩⟩, .newline⟩], ⟨"", ⟨2, 1⟩⟩⟩

theorem first_error_exact_unclosedCall :
    (ofStream unclosedCall 1).errors.head? =
        some (.error ⟨3, ⟨⟨"\\n", ⟨1, 4⟩⟩, .newline⟩⟩ .unclosedParen) ∧
      ∃ s' : Stream, unclosedCall.toList.take 3 <+: s'.toList ∧
        (ofStream s' 1).verdict? = some true := by
  have h : (ofStream unclosedCall 1).errors.head? =
      some (.error ⟨3, ⟨⟨"\\n", ⟨1, 4⟩⟩, .newline⟩⟩ .unclosedParen) := by decide +kernel
  exact ⟨h, (first_error_exact h).2 (by decide)⟩

end Pass

end SwitchScript
