import VNams.Lib.CText

/-!
Tokens of a text that is read in chunks of bounded size.

`tokensFrom` scans a text once with the token that is open so far. A token that reaches over
the end of a chunk is seen as several tokens by a reader that splits chunk by chunk; `pieces`
gives, for each token of the text, the parts it is seen as. The parts put together are the
tokens of the text (`map_flatten_pieces`), the parts one by one are what the reader sees
(`flatMap_tokens_fgets`), and so a reader that adds up over tokens is off by what the cut
tokens come to and by nothing else (`sum_parts`).
-/

namespace VNams.Lib.CText

variable {isDelimiter : Char → Bool}

/-- The open token, if any, once it ends; it is kept with its last character first. -/
def closing (cur : Text) : List Text := if cur.isEmpty then [] else [cur.reverse]

/-- The tokens of a text behind the open token. -/
def tokensFrom (isDelimiter : Char → Bool) : Text → Text → List Text
  | [], cur => closing cur
  | c :: rest, cur =>
      if isDelimiter c then closing cur ++ tokensFrom isDelimiter rest []
      else tokensFrom isDelimiter rest (c :: cur)

/-- Splitting and dropping empty parts is one scan. -/
theorem tokens_append (cur : Text) (inside : ∀ c ∈ cur, isDelimiter c = false) (s : Text) :
    tokens isDelimiter (cur.reverse ++ s) = tokensFrom isDelimiter s cur := by
  induction s generalizing cur with
  | nil =>
      have whole : cur.reverse.splitOnP isDelimiter = [cur.reverse] := by
        apply List.splitOnP_eq_singleton
        simpa using inside
      simp only [tokens, List.append_nil, whole, tokensFrom, closing]
      cases cur <;> simp
  | cons c rest ih =>
      rw [tokensFrom]
      split
      · rename_i delimiter
        have first : (cur.reverse ++ c :: rest).splitOnP isDelimiter =
            cur.reverse :: rest.splitOnP isDelimiter := by
          apply List.splitOnP_append_cons_of_forall_mem _ _ delimiter
          simpa using inside
        rw [← ih [] (by simp)]
        simp only [tokens, first, closing, List.reverse_nil, List.nil_append]
        cases cur <;> simp
      · rename_i other
        have longer := ih (c :: cur) fun c' mem => by
          cases mem with
          | head => simpa using other
          | tail _ mem => exact inside c' mem
        rwa [List.reverse_cons, List.append_assoc] at longer

theorem tokens_eq_tokensFrom (s : Text) :
    tokens isDelimiter s = tokensFrom isDelimiter s [] :=
  tokens_append [] (by simp) s

/-- A token that ended, with the parts it was seen as. -/
def ended (parts : List Text) : List (List Text) := if parts.isEmpty then [] else [parts]

@[simp] theorem flatten_ended (parts : List Text) : (ended parts).flatten = parts := by
  cases parts <;> simp [ended]

/-- The tokens of a text with the parts that the chunks of a loop of
`fgets(buf, size, file)` cut them into: `room` is what is left of the buffer, `cur` the open
part and `parts` the parts of the open token in earlier chunks. -/
def piecesFrom (size : Nat) (isDelimiter : Char → Bool) :
    Text → Nat → Text → List Text → List (List Text)
  | [], _, cur, parts => ended (parts ++ closing cur)
  | c :: rest, room, cur, parts =>
      let cut := c == '\n' || room ≤ 1
      let room := if cut then size - 1 else room - 1
      if isDelimiter c then
        ended (parts ++ closing cur) ++ piecesFrom size isDelimiter rest room [] []
      else if cut then
        piecesFrom size isDelimiter rest room [] (parts ++ [(c :: cur).reverse])
      else piecesFrom size isDelimiter rest room (c :: cur) parts

/-- The tokens of a file with the parts they are read as. -/
def pieces (size : Nat) (isDelimiter : Char → Bool) (file : Text) : List (List Text) :=
  piecesFrom size isDelimiter file (size - 1) [] []

theorem flatten_piecesFrom {size : Nat} (s : Text) (room : Nat) (cur : Text)
    (parts : List Text) :
    (piecesFrom size isDelimiter s room cur parts).flatten =
      parts ++ (piecesFrom size isDelimiter s room cur []).flatten := by
  induction s generalizing room cur parts with
  | nil => simp [piecesFrom]
  | cons c rest ih =>
      simp only [piecesFrom]
      split
      · simp
      · split
        · rw [ih, ih _ _ ([] ++ _)]
          simp
        · exact ih ..

/-- The parts one by one: `seen` are the tokens of the open chunk that have ended. -/
theorem flatMap_tokens_fgetsFrom {size : Nat} (s : Text) (room : Nat) (chunk cur : Text)
    (seen : List Text)
    (opened : ∀ more, tokens isDelimiter (chunk.reverse ++ more) =
      seen ++ tokensFrom isDelimiter more cur) :
    (fgetsFrom size s room chunk).flatMap (tokens isDelimiter) =
      seen ++ (piecesFrom size isDelimiter s room cur []).flatten := by
  induction s generalizing room chunk cur seen with
  | nil =>
      have last := opened []
      rw [List.append_nil] at last
      have nothing : tokens isDelimiter [] = [] := rfl
      have read : (fgetsFrom size [] room chunk).flatMap (tokens isDelimiter) =
          tokens isDelimiter chunk.reverse := by
        cases chunk <;> simp [fgetsFrom, nothing]
      rw [read, last]
      simp [piecesFrom, tokensFrom]
  | cons c rest ih =>
      have fresh : ∀ more, tokens isDelimiter (([] : Text).reverse ++ more) =
          [] ++ tokensFrom isDelimiter more [] := fun more => tokens_eq_tokensFrom more
      have opened' : ∀ more, tokens isDelimiter ((c :: chunk).reverse ++ more) =
          seen ++ tokensFrom isDelimiter (c :: more) cur := by
        intro more
        rw [List.reverse_cons, List.append_assoc]
        exact opened (c :: more)
      have here := opened' []
      rw [List.append_nil] at here
      simp only [fgetsFrom, piecesFrom]
      by_cases delimiter : isDelimiter c = true
      · have ends : ∀ more, tokens isDelimiter ((c :: chunk).reverse ++ more) =
            (seen ++ closing cur) ++ tokensFrom isDelimiter more [] := by
          intro more
          rw [opened', tokensFrom, if_pos delimiter, List.append_assoc]
        rw [if_pos delimiter, List.flatten_append, flatten_ended, List.nil_append]
        split
        · rw [List.flatMap_cons, ih _ _ _ _ fresh, here, tokensFrom, if_pos delimiter]
          simp [tokensFrom, closing]
        · rw [ih _ _ _ _ ends, List.append_assoc]
      · have goesOn : ∀ more, tokens isDelimiter ((c :: chunk).reverse ++ more) =
            seen ++ tokensFrom isDelimiter more (c :: cur) := by
          intro more
          rw [opened', tokensFrom, if_neg delimiter]
        rw [if_neg delimiter]
        split
        · rw [List.flatMap_cons, ih _ _ _ _ fresh, here, tokensFrom, if_neg delimiter,
            flatten_piecesFrom _ _ _ (_ ++ _)]
          simp [tokensFrom, closing]
        · exact ih _ _ _ _ goesOn

/-- What is seen by splitting chunk by chunk: the parts of the tokens, one by one. -/
theorem flatMap_tokens_fgets (size : Nat) (file : Text) :
    (fgets size file).flatMap (tokens isDelimiter) =
      (pieces size isDelimiter file).flatten :=
  flatMap_tokens_fgetsFrom file (size - 1) [] [] [] fun more => tokens_eq_tokensFrom more

theorem map_flatten_ended {parts : List Text} (nonempty : ∀ part ∈ parts, part ≠ [])
    (cur : Text) :
    (ended (parts ++ closing cur)).map List.flatten =
      closing (cur ++ parts.flatten.reverse) := by
  cases parts with
  | nil => cases cur <;> simp [ended, closing]
  | cons part others =>
      have written : part ≠ [] := nonempty part List.mem_cons_self
      cases cur <;> simp [ended, closing, written]

theorem map_flatten_piecesFrom {size : Nat} (s : Text) (room : Nat) (cur : Text)
    (parts : List Text) (nonempty : ∀ part ∈ parts, part ≠ []) :
    (piecesFrom size isDelimiter s room cur parts).map List.flatten =
      tokensFrom isDelimiter s (cur ++ parts.flatten.reverse) := by
  induction s generalizing room cur parts with
  | nil => exact map_flatten_ended nonempty cur
  | cons c rest ih =>
      simp only [piecesFrom, tokensFrom]
      split
      · rw [List.map_append, map_flatten_ended nonempty, ih _ _ [] (by simp)]
        simp
      · split
        · rw [ih]
          · simp
          · intro part mem
            obtain early | last := List.mem_append.mp mem
            · exact nonempty part early
            · rw [List.mem_singleton.mp last]
              simp
        · exact ih _ _ _ nonempty

/-- The parts of each token put together: the tokens of the file. -/
theorem map_flatten_pieces (size : Nat) (file : Text) :
    (pieces size isDelimiter file).map List.flatten = tokens isDelimiter file := by
  rw [pieces, map_flatten_piecesFrom _ _ _ _ (by simp), tokens_eq_tokensFrom]
  rfl

/-- The tokens that are read as more than one part. -/
def cutTokens (size : Nat) (isDelimiter : Char → Bool) (file : Text) : List (List Text) :=
  (pieces size isDelimiter file).filter fun parts => 1 < parts.length

/-- A token that is not cut is its own only part. -/
theorem eq_singleton_of_not_cut {size : Nat} {file : Text} {parts : List Text}
    (mem : parts ∈ pieces size isDelimiter file) (notCut : ¬ 1 < parts.length) :
    parts = [parts.flatten] := by
  have token : parts.flatten ∈ tokens isDelimiter file :=
    map_flatten_pieces size file ▸ List.mem_map_of_mem mem
  cases parts with
  | nil => simp [tokens] at token
  | cons part others =>
      have alone : others = [] := by simpa using notCut
      simp [alone]

/-- What holds of the tokens holds of all parts if it does of the parts of those that are
cut. -/
theorem forall_parts {p : Text → Prop} (size : Nat) {file : Text}
    (ofTokens : ∀ token ∈ tokens isDelimiter file, p token) :
    (∀ part ∈ (pieces size isDelimiter file).flatten, p part) ↔
      ∀ parts ∈ cutTokens size isDelimiter file, ∀ part ∈ parts, p part := by
  rw [List.forall_mem_flatten]
  constructor
  · exact fun all parts cut => all parts (List.mem_filter.mp cut).1
  · intro ofCut parts mem
    by_cases cut : 1 < parts.length
    · exact ofCut parts (List.mem_filter.mpr ⟨mem, by simpa using cut⟩)
    · rw [eq_singleton_of_not_cut mem cut]
      intro part here
      rw [List.mem_singleton.mp here]
      exact ofTokens _ (map_flatten_pieces size file ▸ List.mem_map_of_mem mem)

/-- Adding up over the parts instead of the tokens: the difference is made by the tokens that
are cut. -/
theorem sum_parts (f : Text → Nat) (isDelimiter : Char → Bool) (size : Nat) (file : Text) :
    ((pieces size isDelimiter file).flatten.map f).sum +
        ((cutTokens size isDelimiter file).map fun parts => f parts.flatten).sum =
      ((tokens isDelimiter file).map f).sum +
        ((cutTokens size isDelimiter file).flatten.map f).sum := by
  have only : ∀ parts ∈ pieces size isDelimiter file, ¬ 1 < parts.length →
      (parts.map f).sum = f parts.flatten := by
    intro parts mem notCut
    have alone := congrArg (fun parts => (parts.map f).sum) (eq_singleton_of_not_cut mem notCut)
    simpa using alone
  rw [← map_flatten_pieces size file, cutTokens]
  generalize pieces size isDelimiter file = all at only ⊢
  induction all with
  | nil => rfl
  | cons parts others ih =>
      have rest := ih fun parts mem => only parts (List.mem_cons_of_mem _ mem)
      by_cases cut : 1 < parts.length
      · simp only [List.flatten_cons, List.map_append, List.sum_append, List.map_cons,
          List.sum_cons, List.filter_cons, cut, decide_true, if_true] at rest ⊢
        omega
      · have here := only parts List.mem_cons_self cut
        simp only [List.flatten_cons, List.map_append, List.sum_append, List.map_cons,
          List.sum_cons, List.filter_cons, cut, decide_false, Bool.false_eq_true,
          if_false] at rest ⊢
        omega

/-- A line that fits what is left of the buffer is not cut. -/
theorem length_piecesFrom_line {size room : Nat} {line rest cur : Text}
    (isNewline : isDelimiter '\n' = true) (newline : '\n' ∉ line) (fits : line.length < room)
    (later : ∀ parts ∈ pieces size isDelimiter rest, parts.length ≤ 1) :
    ∀ parts ∈ piecesFrom size isDelimiter (line ++ '\n' :: rest) room cur [],
      parts.length ≤ 1 := by
  have single : ∀ cur, ∀ parts ∈ ended ([] ++ closing cur), parts.length ≤ 1 := by
    intro cur parts mem
    cases cur with
    | nil => simp [ended, closing] at mem
    | cons c cur => simp_all [ended, closing]
  induction line generalizing room cur with
  | nil =>
      intro parts mem
      rw [List.nil_append, piecesFrom, if_pos isNewline] at mem
      obtain here | behind := List.mem_append.mp mem
      · exact single cur parts here
      · exact later parts behind
  | cons c line ih =>
      rw [List.mem_cons, not_or] at newline
      rw [List.length_cons] at fits
      have goesOn : (c == '\n' || decide (room ≤ 1)) = false := by
        simp [Ne.symm newline.1]
        omega
      intro parts mem
      simp only [List.cons_append, piecesFrom, goesOn, Bool.false_eq_true, if_false] at mem
      split at mem
      · obtain here | behind := List.mem_append.mp mem
        · exact single cur parts here
        · exact ih newline.2 (by omega) parts behind
      · exact ih newline.2 (by omega) parts mem

/-- No token is cut in a file whose lines fit the buffer. -/
theorem cutTokens_lines {isDelimiter : Char → Bool} (isNewline : isDelimiter '\n' = true)
    {size : Nat} {lines : List Text}
    (newline : ∀ line ∈ lines, '\n' ∉ line) (fits : ∀ line ∈ lines, line.length + 1 < size) :
    cutTokens size isDelimiter (lines.flatMap fun line => line ++ ['\n']) = [] := by
  have short : ∀ parts ∈ pieces size isDelimiter (lines.flatMap fun line => line ++ ['\n']),
      parts.length ≤ 1 := by
    induction lines with
    | nil => simp [pieces, piecesFrom, ended, closing]
    | cons line lines ih =>
        rw [List.forall_mem_cons] at newline fits
        rw [List.flatMap_cons, List.append_assoc]
        exact length_piecesFrom_line isNewline newline.1 (by omega) (ih newline.2 fits.2)
  apply List.filter_eq_nil_iff.mpr
  intro parts mem
  simpa using short parts mem

end VNams.Lib.CText
