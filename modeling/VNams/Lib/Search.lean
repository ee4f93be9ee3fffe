import VNams.Lib.CText

/-!
Searching in a text: where `scanTo` and `strstr` stop.

What is found is found at the same place however the text goes on. A word that is not found in
a text that ends with a character it does not have is searched for in the rest
(`strstr_append_of_none`).
-/

namespace VNams.Lib.CText

variable {p : Char → Bool}

/-- Characters that are not wanted are passed. -/
theorem scanTo_append {before : Text} (passed : ∀ c ∈ before, p c = false) (s : Text) :
    scanTo p (before ++ s) = scanTo p s := by
  induction before with
  | nil => rfl
  | cons c before ih =>
      rw [List.forall_mem_cons] at passed
      rw [List.cons_append, scanTo, passed.1, if_neg Bool.false_ne_true, ih passed.2]

theorem scanTo_cons {c : Char} (wanted : p c = true) (s : Text) :
    scanTo p (c :: s) = some (c :: s) := by
  rw [scanTo, if_pos wanted]

theorem scanTo_eq_none {s : Text} : scanTo p s = none ↔ ∀ c ∈ s, p c = false := by
  induction s with
  | nil => simp [scanTo]
  | cons c s ih =>
      rw [scanTo, List.forall_mem_cons]
      cases p c <;> simp [ih]

/-- Where a scan stops: at the first wanted character. -/
theorem scanTo_eq_some {s t : Text} : scanTo p s = some t ↔
    ∃ before c rest, s = before ++ t ∧ t = c :: rest ∧ p c = true ∧ ∀ c ∈ before, p c = false := by
  constructor
  · intro found
    induction s with
    | nil => cases found
    | cons c s ih =>
        rw [scanTo] at found
        split at found
        · rename_i wanted
          cases found
          exact ⟨[], c, s, rfl, rfl, wanted, by simp⟩
        · rename_i unwanted
          obtain ⟨before, d, rest, whole, same, wanted, passed⟩ := ih found
          refine ⟨c :: before, d, rest, by rw [whole, List.cons_append], same, wanted, ?_⟩
          exact List.forall_mem_cons.mpr ⟨by simpa using unwanted, passed⟩
  · rintro ⟨before, c, rest, rfl, rfl, wanted, passed⟩
    rw [scanTo_append passed, scanTo_cons wanted]

/-- A scan that stops does so whatever follows. -/
theorem scanTo_append_of_some {s t : Text} (found : scanTo p s = some t) (behind : Text) :
    scanTo p (s ++ behind) = some (t ++ behind) := by
  obtain ⟨before, c, rest, rfl, rfl, wanted, passed⟩ := scanTo_eq_some.mp found
  rw [List.append_assoc, scanTo_append passed, List.cons_append, scanTo_cons wanted]

/-! ### Words -/

theorem strstr_here {needle s : Text} (here : needle <+: s) : strstr needle s = some s := by
  cases s with
  | nil =>
      rw [List.prefix_nil.mp here]
      rfl
  | cons c s => rw [strstr, if_pos (List.isPrefixOf_iff_prefix.mpr here)]

theorem strstr_skip {needle s : Text} {c : Char} (elsewhere : ¬ needle <+: c :: s) :
    strstr needle (c :: s) = strstr needle s := by
  rw [strstr, if_neg (by rwa [ List.isPrefixOf_iff_prefix])]

/-- What is found is the end of the text, with the word at its front. -/
theorem strstr_eq_some {needle s t : Text} (found : strstr needle s = some t) :
    needle <+: t ∧ t <:+ s := by
  induction s with
  | nil =>
      cases needle with
      | nil =>
          cases found
          exact ⟨List.prefix_rfl, List.suffix_rfl⟩
      | cons c needle => cases found
  | cons c s ih =>
      by_cases here : needle <+: c :: s
      · rw [strstr_here here] at found
        cases found
        exact ⟨here, List.suffix_rfl⟩
      · rw [strstr_skip here] at found
        exact ⟨(ih found).1, (ih found).2.trans (List.suffix_cons c s)⟩

/-- A word that is found is found at the same place in a longer text. -/
theorem strstr_append_of_some {needle s t : Text} (found : strstr needle s = some t)
    (behind : Text) : strstr needle (s ++ behind) = some (t ++ behind) := by
  induction s with
  | nil =>
      obtain ⟨here, isEnd⟩ := strstr_eq_some found
      obtain rfl : t = [] := List.suffix_nil.mp isEnd
      obtain rfl : needle = [] := List.prefix_nil.mp here
      exact strstr_here List.nil_prefix
  | cons c s ih =>
      by_cases here : needle <+: c :: s
      · rw [strstr_here here] at found
        cases found
        exact strstr_here (here.trans (List.prefix_append _ _))
      · rw [strstr_skip here] at found
        have elsewhere : ¬ needle <+: c :: (s ++ behind) := by
          intro longer
          obtain ⟨front, isEnd⟩ := strstr_eq_some found
          have short : needle.length ≤ (c :: s).length := by
            have inFound := front.length_le
            have inRest := isEnd.length_le
            rw [List.length_cons]
            omega
          exact here (List.prefix_of_prefix_length_le longer
            (List.prefix_append (c :: s) behind) short)
        rw [List.cons_append, strstr_skip elsewhere, ih found]

/-- A word is not found across a character that it does not have. -/
theorem strstr_append_of_none {needle s : Text} {c : Char}
    (missing : strstr needle (s ++ [c]) = none) (foreign : c ∉ needle) (behind : Text) :
    strstr needle (s ++ c :: behind) = strstr needle behind := by
  induction s with
  | nil =>
      rw [List.nil_append] at missing ⊢
      apply strstr_skip
      intro here
      cases needle with
      | nil => cases missing
      | cons d needle => exact foreign (by simp [(List.cons_prefix_cons.mp here).1])
  | cons d s ih =>
      have elsewhere : ¬ needle <+: d :: (s ++ [c]) := by
        intro here
        rw [List.cons_append, strstr_here here] at missing
        cases missing
      rw [List.cons_append, strstr_skip elsewhere] at missing
      rw [List.cons_append, strstr_skip, ih missing]
      intro longer
      have whole : d :: (s ++ c :: behind) = d :: (s ++ [c]) ++ behind := by simp
      rw [whole] at longer
      rcases List.prefix_or_prefix_of_prefix longer (List.prefix_append _ behind) with here | across
      · exact elsewhere here
      · exact foreign (across.subset (by simp))

/-- A word that occurs is found there or before. -/
theorem exists_strstr (needle before behind : Text) :
    ∃ t, strstr needle (before ++ (needle ++ behind)) = some t ∧ needle ++ behind <:+ t := by
  induction before with
  | nil =>
      exact ⟨_, strstr_here (List.prefix_append needle behind), List.suffix_rfl⟩
  | cons c before ih =>
      by_cases here : needle <+: c :: (before ++ (needle ++ behind))
      · exact ⟨_, strstr_here here, List.suffix_append (c :: before) _⟩
      · rw [List.cons_append, strstr_skip here]
        exact ih

end VNams.Lib.CText
