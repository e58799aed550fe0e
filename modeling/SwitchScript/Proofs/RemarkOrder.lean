import SwitchScript.Proofs.Alike
import SwitchScript.Proofs.OneLine
import SwitchScript.Proofs.Pieces.Places

/-!
# Remarks in the order of the script

The remarks of a check are listed as the run has made them, and nothing sorts
them. They come out in the order of the script all the same, and each of them is
about one token of it (`Check.remarks_in_order`).

A remark is about the token at the cursor, which never goes back, so the errors
stand in order as they are made. A notice is made by the step that passes over
its keyword, so the next one is further on. `Pass.Ordered` says this of a state,
and every task keeps it. That all notices come before the first error is a fact
about the whole run: once it has failed it makes none, and those that it has made
are about keywords that it had passed over by then. Tokens that are further on in
a stream are further on in the script, since the places of a scan only grow.
-/

namespace SwitchScript

/-! ## Order in the stream -/

/-- The remarks made so far are in the order of the tokens that they are about,
none of which is ahead of the cursor. Two errors may share a token. -/
structure Pass.Ordered (p : Pass) : Prop where
  errors : p.errors.Pairwise fun e e' => e.site.index ≤ e'.site.index
  reached : ∀ e ∈ p.errors, e.site.index ≤ p.cursor.index
  notices : p.notices.Pairwise fun n n' => n.site.index < n'.site.index
  passed : ∀ n ∈ p.notices, n.site.index < p.cursor.index

theorem Pass.ordered_start (s : Stream) (limit : Int) : (start s limit).Ordered :=
  ⟨.nil, fun _ he => absurd he List.not_mem_nil, .nil, fun _ hn => absurd hn List.not_mem_nil⟩

/-- A task adds its remark at the end. -/
theorem Task.ordered_perform {t : Task} {p : Pass} (hplaced : t.Placed p.kind) (h : p.Ordered) :
    (t.perform p).2.Ordered := by
  have hle : p.cursor.index ≤ (t.perform p).2.cursor.index := (t.extends_perform p).index_le
  have herror : ∀ e ∈ ((t.fault? p).map (Diagnostic.error p.site)).toList,
      e.site.index = p.cursor.index := by
    intro e he
    obtain ⟨fault, -, rfl⟩ := Option.map_eq_some_iff.mp (Option.mem_toList.mp he)
    rfl
  have hnotice : ∀ n ∈ if t.skips then [Diagnostic.notice p.site] else [],
      n.site.index = p.cursor.index ∧ p.cursor.index < (t.perform p).2.cursor.index := by
    intro n hn
    split at hn
    · rename_i hskips
      obtain rfl := List.mem_singleton.mp hn
      obtain rfl := eq_of_skips hskips
      exact ⟨rfl, p.index_lt_skipConstruct hplaced⟩
    · exact absurd hn List.not_mem_nil
  refine ⟨?_, fun e he => ?_, ?_, fun n hn => ?_⟩
  · rw [t.errors_perform, List.pairwise_append]
    refine ⟨h.errors, ?_, fun e he e' he' => ?_⟩
    · cases t.fault? p with
      | none => exact .nil
      | some fault => exact List.pairwise_singleton _ _
    · rw [herror e' he']
      exact h.reached e he
  · rw [t.errors_perform] at he
    rcases List.mem_append.mp he with hold | hnew
    · exact Nat.le_trans (h.reached e hold) hle
    · rw [herror e hnew]
      exact hle
  · rw [t.notices_perform, List.pairwise_append]
    refine ⟨h.notices, ?_, fun n hn n' hn' => ?_⟩
    · split
      · exact List.pairwise_singleton _ _
      · exact .nil
    · rw [(hnotice n' hn').1]
      exact h.passed n hn
  · rw [t.notices_perform] at hn
    rcases List.mem_append.mp hn with hold | hnew
    · exact Nat.lt_of_lt_of_le (h.passed n hold) hle
    · rw [(hnotice n hnew).1]
      exact (hnotice n hnew).2

namespace Moment

theorem Reaches.ordered {c d : Moment} (h : c.Reaches d) (hc : c.Placed) (hp : c.pass.Ordered) :
    d.pass.Ordered := by
  have hall := h.preserves (fun d => d.Placed ∧ d.pass.Ordered)
    (fun t ts p ⟨hplaced, hordered⟩ =>
      ⟨placed_perform hplaced, Task.ordered_perform hplaced.1 hordered⟩) ⟨hc, hp⟩
  exact hall.2

/-- More tasks that wait change nothing about a run. -/
theorem Reaches.append {c d : Moment} (h : c.Reaches d) (ts : List Task) :
    Reaches ⟨c.todo ++ ts, c.pass⟩ ⟨d.todo ++ ts, d.pass⟩ := by
  induction h with
  | refl => exact .refl _
  | @tail d e _ hnext ih =>
      obtain ⟨us, p⟩ := d
      cases us with
      | nil => exact absurd hnext (by simp [next?])
      | cons u us =>
          obtain rfl := Option.some.inj hnext
          refine ih.trans (Reaches.head ?_)
          show Reaches ⟨(u.perform p).1 ++ (us ++ ts), _⟩ ⟨((u.perform p).1 ++ us) ++ ts, _⟩
          rw [List.append_assoc]
          exact .refl _

end Moment

namespace Pass

variable {s : Stream} {limit : Int} {e n : Diagnostic}

theorem placed_program (p : Pass) : Moment.Placed ⟨[.make (.follow .program)], p⟩ :=
  ⟨trivial, trivial⟩

theorem ordered_ofStream (s : Stream) (limit : Int) : (ofStream s limit).Ordered := by
  have hrun := (start s limit).makes_follow .program []
  obtain ⟨herrors, hreached, hnotices, hpassed⟩ :=
    hrun.ordered (placed_program _) (ordered_start s limit)
  rw [ofStream_eq]
  exact ⟨herrors, hreached, hnotices, hpassed⟩

/-- A run that records an error fails while it follows the rule for programs. -/
theorem fails_in_program (h : (ofStream s limit).errors ≠ []) :
    ∃ t ts p fault, Moment.Reaches ⟨[.make (.follow .program)], start s limit⟩ ⟨t :: ts, p⟩ ∧
      (Moment.start s limit).Fails t (ts ++ [.settle]) p fault ⟨[], ofStream s limit⟩ := by
  have hprogram := (start s limit).makes_follow .program []
  have hinvalid : ((start s limit).follow .program).valid = false := by
    rw [errors_ofStream] at h
    rw [← Bool.not_eq_true]
    intro hvalid
    exact h (hprogram.extends.errors_eq_of_valid hvalid)
  obtain ⟨t, ts, p, fault, hfails⟩ := hprogram.fails rfl hinvalid
  -- two tasks lead from the first moment to the rule, and leave the outcome to be settled
  have hbefore : (Moment.start s limit).Reaches ⟨t :: (ts ++ [.settle]), p⟩ :=
    .head (.head (hfails.before.append [.settle]))
  refine ⟨t, ts, p, fault, hfails.before, hbefore, hfails.valid, hfails.fault, ?_⟩
  exact (reaches_ofStream s limit).to_end (hbefore.trans (.head (.refl _)))

/-- All notices are about tokens before that of the first error. -/
theorem notice_lt_error (he : e ∈ (ofStream s limit).errors)
    (hn : n ∈ (ofStream s limit).notices) : n.site.index < e.site.index := by
  obtain ⟨t, ts, p, fault, hbefore, hfails⟩ := fails_in_program (List.ne_nil_of_mem he)
  obtain ⟨later, herrors, -⟩ := hfails.errors_eq
  have hpassed : n.site.index < p.cursor.index := by
    rw [hfails.notices_eq] at hn
    exact (hbefore.ordered (placed_program _) (ordered_start s limit)).passed n hn
  have hfirst : p.cursor.index ≤ e.site.index := by
    have hordered := (ordered_ofStream s limit).errors
    rw [herrors] at he hordered
    rcases List.mem_cons.mp he with rfl | hlater
    · exact Nat.le_refl _
    · exact (List.pairwise_cons.mp hordered).1 e hlater
  exact Nat.lt_of_lt_of_le hpassed hfirst

/-- An error is about a token of the stream. -/
theorem error_site (he : e ∈ (ofStream s limit).errors) :
    ∃ i t fault, s.toList[i]? = some t ∧ e = .error ⟨i, t⟩ fault := by
  obtain ⟨hmem, hisError⟩ := List.mem_filter.mp (List.mem_reverse.mp he)
  have hown : ∀ t ∈ (Moment.start s limit).todo, t.ownFaults = true :=
    List.forall_mem_singleton.mpr rfl
  obtain hold | ⟨htoken, -⟩ := (reaches_ofStream s limit).remarks hown hmem
  · exact absurd hold List.not_mem_nil
  · cases e with
    | error site fault => exact ⟨site.index, site.token, fault, htoken, rfl⟩
    | notice site => exact absurd hisError (by simp [Diagnostic.isError])

/-- A notice is about a keyword of the stream whose construct is stepped over. -/
theorem notice_site (hn : n ∈ (ofStream s limit).notices) :
    ∃ i t, s.toList[i]? = some t ∧ t.kind.opensIgnored = true ∧ n = .notice ⟨i, t⟩ := by
  have hrun := (start s limit).makes_follow .program []
  obtain ⟨-, hisNotice⟩ := List.mem_filter.mp (List.mem_reverse.mp hn)
  rw [notices_ofStream] at hn
  obtain hold | ⟨hk, htoken, -⟩ := hrun.notice_site (placed_program _) hn
  · exact absurd hold List.not_mem_nil
  · rw [hrun.extends.stream_eq] at htoken
    cases n with
    | notice site => exact ⟨site.index, site.token, htoken, hk, rfl⟩
    | error site fault => exact absurd hisNotice (by simp [Diagnostic.isError])

end Pass

/-! ## Order in the script -/

/-- The place of the token that a remark is about. -/
def Diagnostic.position (d : Diagnostic) : Position := d.site.token.position

/-- The tokens are in the order of their places. -/
def Stream.Ascending (s : Stream) : Prop := (s.toList.map (·.position)).Pairwise Position.Before

theorem Stream.Ascending.before {s : Stream} (h : s.Ascending) {i j : Nat} {t t' : Token}
    (hlt : i < j) (ht : s.toList[i]? = some t) (ht' : s.toList[j]? = some t') :
    t.position.Before t'.position := by
  rw [Ascending, List.pairwise_map, List.pairwise_iff_getElem] at h
  obtain ⟨hi, rfl⟩ := List.getElem?_eq_some_iff.mp ht
  obtain ⟨hj, rfl⟩ := List.getElem?_eq_some_iff.mp ht'
  exact h i j hi hj hlt

theorem Scan.ascending_stream (source : String) : (ofSource source).stream.Ascending := by
  rw [Stream.Ascending, show (ofSource source).stream.toList = (ofSource source).tokens from rfl,
    Findings.tokens_ofSource]
  exact Findings.pairwise_tokens .origin source.toList

namespace Pass

variable {s : Stream} {limit : Int} {e n : Diagnostic}

theorem errors_ascending (h : s.Ascending) :
    ((ofStream s limit).errors.map (·.position)).Pairwise fun p q => p.Before q ∨ p = q := by
  rw [List.pairwise_map]
  refine (ordered_ofStream s limit).errors.imp_of_mem fun {e e'} he he' hle => ?_
  obtain ⟨i, t, fault, htoken, rfl⟩ := error_site he
  obtain ⟨j, t', fault', htoken', rfl⟩ := error_site he'
  rcases Nat.lt_or_eq_of_le hle with hlt | heq
  · exact .inl (h.before hlt htoken htoken')
  · obtain rfl : i = j := heq
    obtain rfl := Option.some.inj (htoken.symm.trans htoken')
    exact .inr rfl

theorem notices_ascending (h : s.Ascending) :
    ((ofStream s limit).notices.map (·.position)).Pairwise Position.Before := by
  rw [List.pairwise_map]
  refine (ordered_ofStream s limit).notices.imp_of_mem fun {n n'} hn hn' hlt => ?_
  obtain ⟨i, t, htoken, -, rfl⟩ := notice_site hn
  obtain ⟨j, t', htoken', -, rfl⟩ := notice_site hn'
  exact h.before hlt htoken htoken'

theorem notice_before_error (h : s.Ascending) (he : e ∈ (ofStream s limit).errors)
    (hn : n ∈ (ofStream s limit).notices) : n.position.Before e.position := by
  have hlt := notice_lt_error he hn
  obtain ⟨i, t, fault, htoken, rfl⟩ := error_site he
  obtain ⟨j, t', htoken', -, rfl⟩ := notice_site hn
  exact h.before hlt htoken' htoken

end Pass

/-- The remarks of a check are about tokens of its script, and in the order of
the script. Each syntax error shows the place and the text of one token, and no
error is further back than the one before it. Each notice is about the keyword of
a construct that is not analysed, further on than the notice before it, so that no
two are about the same one; and all of them come before the first error. -/
theorem Check.remarks_in_order (source name : String) (limit : Int) :
    let check := ofSource source name limit
    let pass := Pass.ofStream (Scan.ofSource source).stream limit
    (check.syntaxErrors = pass.errors.map Diagnostic.describe ∧
      ∀ e ∈ pass.errors, ∃ i t fault, check.tokens[i]? = some t ∧ e = .error ⟨i, t⟩ fault ∧
        e.describe =
          t.position.label ++ ": " ++ fault.message ++ " (found '" ++ t.text ++ "')") ∧
    (pass.errors.map (·.position)).Pairwise (fun p q => p.Before q ∨ p = q) ∧
    (check.notices = pass.notices.map Diagnostic.describe ∧
      ∀ n ∈ pass.notices, ∃ i t, check.tokens[i]? = some t ∧ t.kind.opensIgnored = true ∧
        n = .notice ⟨i, t⟩ ∧ n.describe = t.position.label ++ ": '" ++ t.text ++
          "' statement skipped (only switch/case is analysed)") ∧
    (pass.notices.map (·.position)).Pairwise Position.Before ∧
    ∀ e ∈ pass.errors, ∀ n ∈ pass.notices, n.position.Before e.position := by
  intro check pass
  have hcheck : check = ofRun name (Scan.ofSource source) pass := rfl
  have hascending := Scan.ascending_stream source
  refine ⟨⟨?_, fun e he => ?_⟩, Pass.errors_ascending hascending, ⟨?_, fun n hn => ?_⟩,
    Pass.notices_ascending hascending, fun e he n hn => Pass.notice_before_error hascending he hn⟩
  · rw [hcheck, ofRun]
  · obtain ⟨i, t, fault, htoken, rfl⟩ := Pass.error_site he
    exact ⟨i, t, fault, htoken, rfl, rfl⟩
  · rw [hcheck, ofRun]
  · obtain ⟨i, t, htoken, hk, rfl⟩ := Pass.notice_site hn
    exact ⟨i, t, htoken, hk, rfl, rfl⟩

end SwitchScript
