import SwitchScript.Proofs.Verdict
import SwitchScript.Proofs.Pieces.Places

/-!
# Remarks stay on one line

Errors and notices quote the script, and scripts have line feeds. None of them
gets into a remark. The values of tokens are cut out of single lines, and the
one that stands for a line break shows it as an escape. The parts of the script
that lexical errors quote are pieces or characters that are no line feed.

For the remarks of a run there are two things to see. They are about tokens of
the stream, and they say so in the words of the grammar: a caller may report
errors in words of its own, but the rules do not. `Move.ownFaults` checks the
scripts for that, and `Moment.Reaches.remarks` carries both along a run.

All this comes together in `Check.oneLine_ofSource`.
-/

namespace SwitchScript

/-! ## Texts without line feeds -/

/-- A text without a line feed. -/
def OneLine (s : String) : Prop := '\n' ∉ s.toList

instance (s : String) : Decidable (OneLine s) := inferInstanceAs (Decidable (¬ _))

@[simp] theorem oneLine_append {s t : String} : OneLine (s ++ t) ↔ OneLine s ∧ OneLine t := by
  rw [OneLine, String.toList_append, List.mem_append, not_or, OneLine, OneLine]

theorem oneLine_ofList {cs : List Char} : OneLine (String.ofList cs) ↔ '\n' ∉ cs := by
  rw [OneLine, String.toList_ofList]

theorem oneLine_nat (n : Nat) : OneLine (toString n) := by
  intro hmem
  have hdigit : '\n' ∈ Nat.toDigits 10 n := by
    rw [← Nat.toList_repr]
    exact hmem
  exact absurd (Nat.isDigit_of_mem_toDigits (by decide) (by decide) hdigit) (by decide)

theorem oneLine_int (n : Int) : OneLine (toString n) := by
  cases n with
  | ofNat m => exact oneLine_nat m
  | negSucc m =>
      show OneLine ("-" ++ toString (m + 1))
      exact oneLine_append.mpr ⟨by decide, oneLine_nat _⟩

theorem Position.oneLine_label (p : Position) : OneLine p.label := by
  simp only [label, oneLine_append]
  exact ⟨⟨⟨by decide, oneLine_int _⟩, by decide⟩, oneLine_int _⟩

/-! ## What a scan finds -/

/-- What a lexical error quotes is a piece without a line feed. -/
theorem Munch.oneLine_fault {text rest : List Char} {y : Yield} (h : Munch text rest y)
    {fault : LexicalFault} (hfault : fault ∈ y.fault?) : OneLine fault.message := by
  cases h with
  | comment | blank | lineBreak | closed | word | operator =>
      exact absurd hfault (Option.not_mem_none fault)
  | number _ hrun =>
      simp only [Option.mem_def] at hfault
      split at hfault
      · exact absurd hfault (by simp)
      · obtain rfl := Option.some.inj hfault
        show OneLine ("malformed number '" ++ String.ofList _ ++ "'")
        simp only [oneLine_append]
        exact ⟨⟨by decide, oneLine_ofList.mpr (hrun.notMem (by decide))⟩, by decide⟩
  | unclosed =>
      have hmessage : OneLine LexicalFault.unterminatedString.message := by decide
      rwa [← Option.some.inj hfault]
  | stray hsign =>
      obtain rfl := Option.some.inj hfault
      have hline : '\n' ∉ [_] := fun hmem => hsign.notLineBreak (List.mem_singleton.mp hmem).symm
      show OneLine ("unexpected character '" ++ String.ofList _ ++ "'")
      simp only [oneLine_append]
      exact ⟨⟨by decide, oneLine_ofList.mpr hline⟩, by decide⟩

namespace Findings

theorem oneLine_errors {p : Position} {cs : List Char} {e : LexicalError}
    (h : e ∈ (ofText p cs).errors) : OneLine e.describe := by
  induction cs using Munch.induction generalizing p with
  | nil => exact absurd h List.not_mem_nil
  | @piece text rest y hmunch ih =>
      rw [ofText_munch hmunch] at h
      rcases List.mem_append.mp h with hfirst | hrest
      · obtain ⟨fault, hfault, rfl⟩ := Option.map_eq_some_iff.mp (Option.mem_toList.mp hfirst)
        simp only [LexicalError.describe, oneLine_append]
        exact ⟨⟨p.oneLine_label, by decide⟩, hmunch.oneLine_fault hfault⟩
      · exact ih hrest

theorem oneLine_tokens {p : Position} {cs : List Char} {t : Token}
    (h : t ∈ (ofText p cs).tokens) : OneLine t.text := by
  obtain ⟨before, text, rest, y, -, hmunch, ht⟩ := exists_of_mem_tokens h
  obtain ⟨x, hx, rfl⟩ := Option.map_eq_some_iff.mp ht
  rcases hmunch.token_cases with ⟨-, rfl⟩ | ⟨hline, hy⟩
  · have htext : OneLine "\\n" := by decide
    rwa [← Option.some.inj hx]
  · exact fun hmem => hline ((hy x hx).2.2.subset hmem)

end Findings

namespace Scan

theorem oneLine_tokens {source : String} {t : Token} (h : t ∈ (ofSource source).tokens) :
    OneLine t.text := by
  rw [Findings.tokens_ofSource] at h
  rcases List.mem_append.mp h with h | h
  · exact Findings.oneLine_tokens h
  · have htext : OneLine "" := by decide
    rwa [List.mem_singleton.mp h]

theorem oneLine_errors {source : String} {e : LexicalError} (h : e ∈ (ofSource source).errors) :
    OneLine e.describe :=
  @Findings.oneLine_errors .origin source.toList e h

end Scan

/-! ## What a run remarks -/

/-- A cause in the words of the grammar, not in those of a caller. -/
def Fault.isOwn : Fault → Bool
  | other _ => false
  | _ => true

theorem Fault.oneLine_message {fault : Fault} (h : fault.isOwn = true) :
    OneLine fault.message := by
  cases fault with
  | other words => exact absurd h (by simp [isOwn])
  | _ => decide

/-- Whatever errors the move records, it records them in the words of the
grammar. -/
def Move.ownFaults : Move → Bool
  | report fault | reject fault | demand _ fault => fault.isOwn
  | require _ fault next => fault.isOwn && next.ownFaults
  | both first second => first.ownFaults && second.ownFaults
  | peek choose => Kind.all.all fun k => (choose k).ownFaults
  | once _ body | repeated _ body | nest body | judge body => body.ownFaults
  | stay | advance | skipNewlines | skipConstruct | follow _ => true

theorem Rule.ownFaults_script (rule : Rule) : rule.script.ownFaults = true := by
  cases rule <;> rfl

namespace Task

def ownFaults : Task → Bool
  | make m => m.ownFaults
  | leave | settle => true

variable {t : Task} {p : Pass}

theorem isOwn_of_fault? (h : t.ownFaults = true) {fault : Fault}
    (hfault : t.fault? p = some fault) : fault.isOwn = true := by
  cases t with
  | leave | settle => exact absurd hfault (by simp [fault?])
  | make m =>
      cases m with
      | report fault' | reject fault' =>
          obtain rfl := Option.some.inj hfault
          exact h
      | demand test fault' =>
          simp only [fault?] at hfault
          split at hfault
          · exact absurd hfault (by simp)
          · obtain rfl := Option.some.inj hfault
            exact h
      | require kind fault' next =>
          simp only [fault?] at hfault
          split at hfault
          · exact absurd hfault (by simp)
          · obtain rfl := Option.some.inj hfault
            exact (Bool.and_eq_true_iff.mp h).1
      | nest inner =>
          simp only [fault?] at hfault
          split at hfault
          · obtain rfl := Option.some.inj hfault
            rfl
          · exact absurd hfault (by simp)
      | _ => exact absurd hfault (by simp [fault?])

theorem ownFaults_perform (h : t.ownFaults = true) : ∀ u ∈ (t.perform p).1, u.ownFaults = true := by
  cases t with
  | leave | settle => exact fun u hu => absurd hu List.not_mem_nil
  | make m =>
      cases m with
      | stay | advance | skipNewlines | skipConstruct | report | reject | demand =>
          exact fun u hu => absurd hu List.not_mem_nil
      | require kind fault next =>
          simp only [perform]
          split
          · exact List.forall_mem_singleton.mpr (Bool.and_eq_true_iff.mp h).2
          · exact fun u hu => absurd hu List.not_mem_nil
      | both first second =>
          obtain ⟨hfirst, hsecond⟩ := Bool.and_eq_true_iff.mp h
          exact List.forall_mem_cons.mpr ⟨hfirst, List.forall_mem_singleton.mpr hsecond⟩
      | peek choose =>
          exact List.forall_mem_singleton.mpr (List.all_eq_true.mp h p.kind p.kind.mem_all)
      | once test body =>
          simp only [perform]
          split
          · exact List.forall_mem_singleton.mpr h
          · exact fun u hu => absurd hu List.not_mem_nil
      | repeated test body =>
          simp only [perform]
          split
          · exact List.forall_mem_cons.mpr ⟨h, List.forall_mem_singleton.mpr h⟩
          · exact fun u hu => absurd hu List.not_mem_nil
      | nest inner =>
          simp only [perform]
          split
          · exact fun u hu => absurd hu List.not_mem_nil
          · exact List.forall_mem_cons.mpr ⟨h, List.forall_mem_singleton.mpr rfl⟩
      | judge body =>
          simp only [perform]
          split
          · exact fun u hu => absurd hu List.not_mem_nil
          · exact List.forall_mem_cons.mpr ⟨h, List.forall_mem_singleton.mpr rfl⟩
      | follow rule => exact List.forall_mem_singleton.mpr rule.ownFaults_script

/-- A task makes at most one remark, about the current token, and an error is
the one that it fails with. -/
theorem diagnostics_perform (t : Task) (p : Pass) :
    (t.perform p).2.diagnostics = p.diagnostics ∨
      ∃ e, (t.perform p).2.diagnostics = e :: p.diagnostics ∧ e.site = p.site ∧
        ∀ fault ∈ e.fault?, t.fault? p = some fault := by
  have hreport (fault : Fault) (h : t.fault? p = some fault) :
      ∃ e, (p.report fault).diagnostics = e :: p.diagnostics ∧ e.site = p.site ∧
        ∀ fault ∈ e.fault?, t.fault? p = some fault := by
    refine ⟨_, rfl, rfl, fun fault' hfault' => ?_⟩
    obtain rfl := Option.some.inj hfault'
    exact h
  cases t with
  | leave | settle => exact .inl rfl
  | make m =>
      cases m with
      | report fault | reject fault => exact .inr (hreport fault rfl)
      | demand test fault =>
          simp only [perform]
          split
          · exact .inl rfl
          · rename_i hk
            exact .inr (hreport fault (if_neg hk))
      | require kind fault next =>
          simp only [perform]
          split
          · exact .inl rfl
          · rename_i hk
            exact .inr (hreport fault (if_neg hk))
      | nest inner =>
          simp only [perform]
          split
          · rename_i hk
            exact .inr (hreport _ (if_pos hk))
          · exact .inl rfl
      | skipConstruct =>
          have hskip : p.skipConstruct.diagnostics = .notice p.site :: p.diagnostics := by
            simp only [Pass.skipConstruct]
            split <;> rfl
          exact .inr ⟨_, hskip, rfl, fun fault hfault => absurd hfault (Option.not_mem_none fault)⟩
      | _ => exact .inl rfl

end Task

/-- What a run remarks is about tokens of its stream, in the words of the
grammar if these are the words of the tasks that it starts with. -/
theorem Moment.Reaches.remarks {c d : Moment} (h : c.Reaches d)
    (hc : ∀ t ∈ c.todo, t.ownFaults = true) {e : Diagnostic} (he : e ∈ d.pass.diagnostics) :
    e ∈ c.pass.diagnostics ∨
      c.pass.cursor.stream.toList[e.site.index]? = some e.site.token ∧
        ∀ fault ∈ e.fault?, fault.isOwn = true := by
  have hall := h.preserves (fun d => d.pass.cursor.stream = c.pass.cursor.stream ∧
    (∀ t ∈ d.todo, t.ownFaults = true) ∧ ∀ e ∈ d.pass.diagnostics, e ∈ c.pass.diagnostics ∨
      c.pass.cursor.stream.toList[e.site.index]? = some e.site.token ∧
        ∀ fault ∈ e.fault?, fault.isOwn = true) (fun t ts p hp => ?_)
    ⟨rfl, hc, fun e he => .inl he⟩
  · exact hall.2.2 e he
  · obtain ⟨hstream, htasks, hremarks⟩ := hp
    obtain ⟨ht, hts⟩ := List.forall_mem_cons.mp htasks
    refine ⟨(t.extends_perform p).stream_eq.trans hstream,
      List.forall_mem_append.mpr ⟨Task.ownFaults_perform ht, hts⟩, ?_⟩
    rcases t.diagnostics_perform p with hsame | ⟨e, hnew, hsite, hfault⟩
    · rw [hsame]
      exact hremarks
    · rw [hnew]
      refine List.forall_mem_cons.mpr ⟨.inr ⟨?_, fun fault hmem => ?_⟩, hremarks⟩
      · rw [hsite, ← hstream]
        exact p.cursor.getElem?_index
      · exact Task.isOwn_of_fault? ht (hfault fault hmem)

theorem Diagnostic.oneLine_describe {d : Diagnostic} (htext : OneLine d.site.token.text)
    (hfault : ∀ fault ∈ d.fault?, fault.isOwn = true) : OneLine d.describe := by
  cases d with
  | error site fault =>
      simp only [describe, oneLine_append]
      exact ⟨⟨⟨⟨⟨Position.oneLine_label _, by decide⟩, Fault.oneLine_message (hfault fault rfl)⟩,
        by decide⟩, htext⟩, by decide⟩
  | notice site =>
      simp only [describe, oneLine_append]
      exact ⟨⟨⟨Position.oneLine_label _, by decide⟩, htext⟩, by decide⟩

theorem Pass.oneLine_remarks {s : Stream} (h : ∀ t ∈ s.toList, OneLine t.text) {limit : Int}
    {d : Diagnostic} (hd : d ∈ (ofStream s limit).diagnostics) : OneLine d.describe := by
  have hown : ∀ t ∈ (Moment.start s limit).todo, t.ownFaults = true :=
    List.forall_mem_singleton.mpr rfl
  obtain hold | ⟨htoken, hfault⟩ := (reaches_ofStream s limit).remarks hown hd
  · exact absurd hold List.not_mem_nil
  · exact Diagnostic.oneLine_describe (h _ (List.mem_of_getElem? htoken)) hfault

/-! ## Checks -/

/-- No text of the check has a line feed. -/
structure Check.OnOneLine (c : Check) : Prop where
  name : OneLine c.name
  tokens : ∀ t ∈ c.tokens, OneLine t.text
  lexicalErrors : ∀ e ∈ c.lexicalErrors, OneLine e
  syntaxErrors : ∀ e ∈ c.syntaxErrors, OneLine e
  notices : ∀ e ∈ c.notices, OneLine e

namespace Check

theorem oneLine_ofRun {name : String} {scan : Scan} {pass : Pass} (hname : OneLine name)
    (htokens : ∀ t ∈ scan.tokens, OneLine t.text)
    (herrors : ∀ e ∈ scan.errors, OneLine e.describe)
    (hremarks : ∀ d ∈ pass.diagnostics, OneLine d.describe) :
    (ofRun name scan pass).OnOneLine where
  name := hname
  tokens := htokens
  lexicalErrors := List.forall_mem_map.mpr herrors
  syntaxErrors := List.forall_mem_map.mpr fun d hd =>
    hremarks d (List.mem_filter.mp (List.mem_reverse.mp hd)).1
  notices := List.forall_mem_map.mpr fun d hd =>
    hremarks d (List.mem_filter.mp (List.mem_reverse.mp hd)).1

/-- A check of any script is on one line throughout, if its name is. -/
theorem oneLine_ofSource (source : String) {name : String} (h : OneLine name) (limit : Int) :
    (ofSource source name limit).OnOneLine :=
  oneLine_ofRun h (fun _ => Scan.oneLine_tokens) (fun _ => Scan.oneLine_errors)
    fun _ => Pass.oneLine_remarks fun _ => Scan.oneLine_tokens

end Check

end SwitchScript
