import SwitchScript.Pass

/-!
# How far a skipped construct reaches

A construct that is not analysed has no grammar of its own. It starts with its
keyword and reaches up to the first place where it may end: the end of the
script, a closing brace that nothing inside it has opened, or a token outside
all its brackets at which analysis can resume. `EndsAt` counts brackets from
the keyword on to say where that is, and `Skipped` picks the first such place;
the run finds it with two running balances (`Pass.skipLength`), and
`skipped_of_skipLength` is the agreement of the two.

Since a construct ends by what comes after it, the same tokens may be a
construct before one text and only a part of one before another. All that
matters of the text is its first token (`Skipped.congr`), and before a closing
brace or the end every part of a construct can be made a whole one, by closing
the braces that it leaves open (`Skipped.close`).
-/

namespace SwitchScript

/-- The construct that starts a list, with its keyword, may end before index
`j`. -/
def EndsAt (ks : List Kind) (j : Nat) : Prop :=
  ks.getD j .eof = .eof ∨
  (ks.take (j + 1)).tail.count .lbrace < (ks.take (j + 1)).tail.count .rbrace ∨
  ((ks.take (j + 1)).tail.count .lbrace = (ks.take (j + 1)).tail.count .rbrace ∧
    (ks.take (j + 1)).tail.count .lparen = (ks.take (j + 1)).tail.count .rparen ∧
    (ks[j]? = some .kwSwitch ∨ ks[j]? = some .identifier ∧ ks[j - 1]? = some .newline))

/-- The word `u` in front of `y` is a whole construct that is not analysed. -/
structure Skipped (u y : List Kind) : Prop where
  opens : u.head?.any Kind.opensIgnored = true
  ends : EndsAt (u ++ y) u.length
  least : ∀ j, 0 < j → j < u.length → ¬ EndsAt (u ++ y) j

/-- Every construct that is open may end here: at a closing brace or at the
end. -/
def Closes (w : List Kind) : Prop := w.headD .eof = .eof ∨ w.headD .eof = .rbrace

theorem closes_nil : Closes [] := .inl rfl

theorem closes_rbrace (w : List Kind) : Closes (.rbrace :: w) := .inr rfl

/-! ## Only the next token matters -/

theorem endsAt_congr {ks ks' : List Kind} {j : Nat}
    (h : ks.take (j + 1) = ks'.take (j + 1)) : EndsAt ks j ↔ EndsAt ks' j := by
  have hget (i : Nat) (hi : i < j + 1) : ks[i]? = ks'[i]? := by
    rw [← List.getElem?_take_of_lt hi, h, List.getElem?_take_of_lt hi]
  simp only [EndsAt, List.getD_eq_getElem?_getD, h, hget j (by omega), hget (j - 1) (by omega)]

theorem take_append_congr {u y y' : List Kind} (h : y.head? = y'.head?) {j : Nat}
    (hj : j ≤ u.length) : (u ++ y).take (j + 1) = (u ++ y').take (j + 1) := by
  rw [List.take_append, List.take_append]
  congr 1
  rcases Nat.lt_or_ge j u.length with hlt | hge
  · rw [show j + 1 - u.length = 0 by omega, List.take_zero, List.take_zero]
  · rw [show j + 1 - u.length = 1 by omega]
    cases y <;> cases y' <;> simp_all

theorem Skipped.ne_nil {u y : List Kind} (h : Skipped u y) : u ≠ [] := by
  rintro rfl
  exact absurd h.opens (by simp)

/-- A construct has a keyword that opens one. -/
theorem Skipped.exists_opens {u y : List Kind} (h : Skipped u y) :
    ∃ k ∈ u, k.opensIgnored = true := by
  have hopens := h.opens
  cases u with
  | nil => exact absurd rfl h.ne_nil
  | cons k v =>
      rw [List.head?_cons, Option.any_some] at hopens
      exact ⟨k, List.mem_cons_self, hopens⟩

theorem Skipped.congr {u y y' : List Kind} (h : Skipped u y) (hhead : y.head? = y'.head?) :
    Skipped u y' where
  opens := h.opens
  ends := (endsAt_congr (take_append_congr hhead (Nat.le_refl _))).mp h.ends
  least := fun j hpos hlt hends =>
    h.least j hpos hlt ((endsAt_congr (take_append_congr hhead (Nat.le_of_lt hlt))).mpr hends)

theorem Skipped.eof_notMem {u y : List Kind} (h : Skipped u y) : .eof ∉ u := by
  intro hmem
  obtain ⟨j, hj, hget⟩ := List.getElem_of_mem hmem
  rcases Nat.eq_zero_or_pos j with rfl | hpos
  · have hopens := h.opens
    rw [List.head?_eq_getElem?, List.getElem?_eq_getElem hj, hget] at hopens
    exact absurd hopens (by decide)
  · refine h.least j hpos hj (.inl ?_)
    rw [List.getD_eq_getElem?_getD, List.getElem?_append_left hj, List.getElem?_eq_getElem hj, hget]
    rfl

/-- Where the construct ends is determined by the script. -/
theorem Skipped.unique {u y v z : List Kind} (hu : Skipped u y) (hv : Skipped v z)
    (h : u ++ y = v ++ z) : y = z := by
  have hlen : u.length = v.length := by
    rcases Nat.lt_trichotomy u.length v.length with hlt | heq | hlt
    · refine absurd (h ▸ hu.ends) (hv.least _ (List.length_pos_iff.mpr hu.ne_nil) hlt)
    · exact heq
    · refine absurd (h ▸ hv.ends) (hu.least _ (List.length_pos_iff.mpr hv.ne_nil) hlt)
  exact (List.append_inj h hlen).2

/-! ## Closing what is open -/

theorem Skipped.close {u y : List Kind} (h : Skipped u y) :
    ∃ c, ∀ w, Closes w → Skipped (u ++ c) w := by
  have hne := h.ne_nil
  have hlen : 0 < u.length := List.length_pos_iff.mpr hne
  -- as many closing braces as are needed to balance the open ones
  obtain ⟨n, hn⟩ : ∃ n, n = u.tail.count .lbrace - u.tail.count .rbrace := ⟨_, rfl⟩
  refine ⟨List.replicate n .rbrace, fun w hw => ⟨?_, ?_, ?_⟩⟩
  · rw [List.head?_append, Option.or_of_isSome (List.isSome_head?.mpr hne)]
    exact h.opens
  · rcases hw with hend | hbrace
    · left
      rw [List.getD_eq_getElem?_getD, List.getElem?_append_right (Nat.le_refl _), Nat.sub_self,
        ← List.head?_eq_getElem?, ← List.headD_eq_head?_getD]
      exact hend
    · right
      left
      obtain ⟨w', rfl⟩ : ∃ w', w = .rbrace :: w' := by
        cases w with
        | nil => exact absurd hbrace (by simp)
        | cons k w' => exact ⟨w', by rw [List.headD_cons] at hbrace; rw [hbrace]⟩
      rw [List.take_append, List.take_of_length_le (by omega), Nat.add_sub_cancel_left,
        List.append_assoc, List.tail_append_of_ne_nil hne]
      simp only [List.take_succ_cons, List.take_zero, List.count_append, List.count_replicate,
        List.count_singleton]
      simp
      omega
  · intro j hpos hlt hends
    rw [List.append_assoc] at hends
    rcases Nat.lt_or_ge j u.length with hin | hout
    · refine h.least j hpos hin ((endsAt_congr ?_).mp hends)
      rw [List.take_append_of_le_length hin, List.take_append_of_le_length hin]
    · -- past the construct so far there are only closing braces, too few to end it
      rw [List.length_append, List.length_replicate] at hlt
      obtain ⟨i, rfl⟩ : ∃ i, j = u.length + i := ⟨j - u.length, by omega⟩
      have hi : i < n := by omega
      have hget : (u ++ (List.replicate n .rbrace ++ w))[u.length + i]? = some .rbrace := by
        rw [List.getElem?_append_right (by omega), Nat.add_sub_cancel_left,
          List.getElem?_append_left (by simpa using hi), List.getElem?_replicate, if_pos hi]
      have hinside : ((u ++ (List.replicate n Kind.rbrace ++ w)).take (u.length + i + 1)).tail =
          u.tail ++ List.replicate (i + 1) Kind.rbrace := by
        rw [List.take_append, List.take_of_length_le (by omega),
          show u.length + i + 1 - u.length = i + 1 by omega,
          List.take_append_of_le_length (by rw [List.length_replicate]; omega),
          List.take_replicate, Nat.min_eq_left (by omega), List.tail_append_of_ne_nil hne]
      rw [EndsAt, List.getD_eq_getElem?_getD, hget, hinside] at hends
      simp only [List.count_append, List.count_replicate] at hends
      simp at hends
      omega

/-! ## The running balances -/

/-- A running balance after a list of kinds. -/
def balance (step : Kind → Int) : List Kind → Int
  | [] => 0
  | k :: ks => step k + balance step ks

/-- The scan stops at index `j`, given the open brackets and the kind before. -/
def StopsAt (braces parens : Int) (before : Kind) (ks : List Kind) (j : Nat) : Prop :=
  ks.getD j .eof = .eof ∨
  braces + balance Pass.braceStep (ks.take (j + 1)) < 0 ∨
  (braces + balance Pass.braceStep (ks.take (j + 1)) = 0 ∧
    parens + balance Pass.parenStep (ks.take (j + 1)) = 0 ∧
    Pass.resumes ((before :: ks).getD j .eof) (ks.getD j .eof) = true)

theorem stopsAt_cons_zero {braces parens : Int} {before k : Kind} {ks : List Kind} :
    StopsAt braces parens before (k :: ks) 0 ↔
      k = .eof ∨ braces + Pass.braceStep k < 0 ∨
        (braces + Pass.braceStep k = 0 ∧ parens + Pass.parenStep k = 0 ∧
          Pass.resumes before k = true) := by
  simp [StopsAt, balance]

theorem stopsAt_cons_succ {braces parens : Int} {before k : Kind} {ks : List Kind} {j : Nat} :
    StopsAt braces parens before (k :: ks) (j + 1) ↔
      StopsAt (braces + Pass.braceStep k) (parens + Pass.parenStep k) k ks j := by
  simp [StopsAt, balance, Int.add_assoc]

theorem balance_braceStep (ks : List Kind) :
    balance Pass.braceStep ks = (ks.count .lbrace : Int) - ks.count .rbrace := by
  induction ks with
  | nil => rfl
  | cons k ks ih =>
      rw [balance, ih, List.count_cons, List.count_cons]
      cases k <;> simp [Pass.braceStep] <;> omega

theorem balance_parenStep (ks : List Kind) :
    balance Pass.parenStep ks = (ks.count .lparen : Int) - ks.count .rparen := by
  induction ks with
  | nil => rfl
  | cons k ks ih =>
      rw [balance, ih, List.count_cons, List.count_cons]
      cases k <;> simp [Pass.parenStep] <;> omega

/-- Counting from the keyword on and keeping two balances is the same. -/
theorem endsAt_cons_succ {k : Kind} {ks : List Kind} {j : Nat} :
    EndsAt (k :: ks) (j + 1) ↔ StopsAt 0 0 k ks j := by
  rw [EndsAt, StopsAt, balance_braceStep, balance_parenStep, List.getD_cons_succ,
    List.take_succ_cons, List.tail_cons, List.getElem?_cons_succ, Nat.add_sub_cancel]
  rcases Nat.lt_or_ge j ks.length with hlt | hge
  · have hlt' : j < (k :: ks).length := Nat.lt_succ_of_lt hlt
    rw [List.getD_eq_getElem?_getD, List.getD_eq_getElem?_getD, List.getElem?_eq_getElem hlt,
      List.getElem?_eq_getElem hlt']
    simp only [Option.getD_some, Option.some.injEq, Pass.resumes, Bool.or_eq_true,
      Bool.and_eq_true, beq_iff_eq]
    refine or_congr Iff.rfl (or_congr ?_ (and_congr ?_ (and_congr ?_ Iff.rfl)))
    · omega
    · omega
    · omega
  · have heof : ks.getD j .eof = .eof := by
      rw [List.getD_eq_getElem?_getD, List.getElem?_eq_none_iff.mpr hge]
      rfl
    exact iff_of_true (.inl heof) (.inl heof)

theorem stopsAt_skipLength {braces parens : Int} {before : Kind} {ts : List Token} :
    StopsAt braces parens before ((ts.map Token.kind).takeWhile (· != .eof))
      (Pass.skipLength braces parens before ts) := by
  induction ts generalizing braces parens before with
  | nil => exact .inl rfl
  | cons t ts ih =>
      by_cases heof : t.kind = .eof
      · simp [Pass.skipLength, heof, StopsAt]
      · rw [List.map_cons, List.takeWhile_cons_of_pos (by simpa using heof), Pass.skipLength]
        split
        · rename_i hstop
          exact stopsAt_cons_zero.mpr hstop
        · exact stopsAt_cons_succ.mpr ih

theorem not_stopsAt_of_lt_skipLength {ts : List Token} {j : Nat} :
    ∀ {braces parens : Int} {before : Kind}, j < Pass.skipLength braces parens before ts →
      ¬ StopsAt braces parens before ((ts.map Token.kind).takeWhile (· != .eof)) j := by
  induction ts generalizing j with
  | nil =>
      intro braces parens before h
      exact absurd h (Nat.not_lt_zero _)
  | cons t ts ih =>
      intro braces parens before h
      rw [Pass.skipLength] at h
      split at h
      · exact absurd h (Nat.not_lt_zero _)
      · rename_i hstop
        have heof : t.kind ≠ .eof := fun heof => hstop (.inl heof)
        rw [List.map_cons, List.takeWhile_cons_of_pos (by simpa using heof)]
        cases j with
        | zero => exact fun hzero => hstop (stopsAt_cons_zero.mp hzero)
        | succ j => exact fun hsucc => ih (Nat.lt_of_succ_lt_succ h) (stopsAt_cons_succ.mp hsucc)

theorem skipLength_le (ts : List Token) :
    ∀ (braces parens : Int) (before : Kind), Pass.skipLength braces parens before ts ≤
      ((ts.map Token.kind).takeWhile (· != .eof)).length := by
  induction ts with
  | nil => exact fun _ _ _ => Nat.le_refl _
  | cons t ts ih =>
      intro braces parens before
      rw [Pass.skipLength]
      split
      · exact Nat.zero_le _
      · rename_i hstop
        have heof : t.kind ≠ .eof := fun heof => hstop (.inl heof)
        rw [List.map_cons, List.takeWhile_cons_of_pos (by simpa using heof), List.length_cons]
        exact Nat.succ_le_succ (ih _ _ _)

/-- The run steps over a whole construct. -/
theorem skipped_of_skipLength {k : Kind} {ts : List Token} {u y : List Kind}
    (hk : k.opensIgnored = true)
    (hword : (ts.map Token.kind).takeWhile (· != .eof) = u ++ y)
    (hlen : u.length = Pass.skipLength 0 0 k ts) : Skipped (k :: u) y where
  opens := hk
  ends := by
    rw [List.length_cons, List.cons_append, endsAt_cons_succ, hlen, ← hword]
    exact stopsAt_skipLength
  least := by
    intro j hpos hlt
    obtain ⟨i, rfl⟩ : ∃ i, j = i + 1 := ⟨j - 1, by omega⟩
    rw [List.cons_append, endsAt_cons_succ, ← hword]
    exact not_stopsAt_of_lt_skipLength (by rw [← hlen]; exact Nat.lt_of_succ_lt_succ hlt)

end SwitchScript
