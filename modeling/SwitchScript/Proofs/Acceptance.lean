import SwitchScript.Proofs.Language.Complete

/-!
# What is accepted

A run over a stream follows the rule for programs once and settles the outcome
by its last state. Put together, the two halves of reading say that the outcome
is good exactly if the kinds before the first end mark are a program, nested no
deeper than the limit allows.
-/

namespace SwitchScript.Pass

theorem ofStream_eq (s : Stream) (limit : Int) :
    ofStream s limit = ((start s limit).follow .program).settle := by
  apply follow_eq_of_makes
  apply Move.makes_follow
  exact Move.makes_judge rfl ((start s limit).makes_follow .program)

theorem verdict?_ofStream (s : Stream) (limit : Int) :
    (ofStream s limit).verdict? = some true ↔
      ((start s limit).follow .program).kind = .eof ∧
        ((start s limit).follow .program).valid = true := by
  rw [ofStream_eq, settle, Option.some.injEq, Bool.and_eq_true, beq_iff_eq]

theorem word_start (s : Stream) (limit : Int) : (start s limit).word = s.word := rfl

theorem room_start (s : Stream) (limit : Int) : (start s limit).room = limit.toNat := by
  rw [room, start, Int.sub_zero]

/-- Nothing is ahead of a state at an end mark. -/
theorem word_eq_nil {p : Pass} (h : p.kind = .eof) : p.word = [] := by
  rw [kind_eq_headD_word] at h
  cases hword : p.word with
  | nil => rfl
  | cons k w =>
      rw [hword, List.headD_cons] at h
      have hmem : k ∈ p.word := by rw [hword]; exact List.mem_cons_self
      have hne := List.all_eq_true.mp List.all_takeWhile k hmem
      simp [h] at hne

theorem kind_eq_eof {p : Pass} (h : p.word = []) : p.kind = .eof := by
  rw [kind_eq_headD_word, h, List.headD_nil]

variable {s : Stream} {limit : Int}

theorem isProgram_of_accepts (h : (ofStream s limit).verdict? = some true) :
    IsProgram limit.toNat s.word := by
  have hform : Rule.program.form? = some (.symbol .program) := rfl
  obtain ⟨hkind, hvalid⟩ := (verdict?_ofStream s limit).mp h
  obtain ⟨u, hpass, hu⟩ := (start s limit).follow_read hform rfl trivial hvalid
  have hword := hpass.word
  rw [word_eq_nil hkind] at hu hword
  rw [word_start, List.append_nil] at hword
  rwa [IsProgram, ← room_start s limit, hword]

theorem accepts_of_isProgram (h : IsProgram limit.toNat s.word) :
    (ofStream s limit).verdict? = some true := by
  have hform : Rule.program.form? = some (.symbol .program) := rfl
  have hword : (start s limit).word = s.word ++ [] := (List.append_nil _).symm
  rw [IsProgram, ← room_start s limit] at h
  obtain ⟨hvalid, hend⟩ := follow_takes (by decide) hform rfl hword h rfl
  exact (verdict?_ofStream s limit).mpr ⟨kind_eq_eof hend, hvalid⟩

/-- A stream is accepted exactly if the kinds before its first end mark are a
program whose constructs are nested within the limit. -/
theorem accepts_iff_isProgram (s : Stream) (limit : Int) :
    (ofStream s limit).verdict? = some true ↔ IsProgram limit.toNat s.word :=
  ⟨isProgram_of_accepts, accepts_of_isProgram⟩

end SwitchScript.Pass
