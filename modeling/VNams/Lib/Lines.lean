import VNams.Lib.CText

/-!
The lines of a text, and how a loop of `fgets` sees them.

A line keeps its newline; only the last one may be without. A loop of `fgets` reads line by
line (`fgets_eq_flatMap`), and one that fits the buffer comes as it is (`fgets_of_fits`).
-/

namespace VNams.Lib.CText

/-- The lines from here on; `line` is what the present one already has, backwards. -/
def linesFrom : Text → Text → List Text
  | [], line => if line.isEmpty then [] else [line.reverse]
  | c :: rest, line =>
      if c == '\n' then (c :: line).reverse :: linesFrom rest [] else linesFrom rest (c :: line)

/-- The lines of a text, each with its newline. -/
def lines (s : Text) : List Text := linesFrom s []

/-- A newline, if any, ends the line. -/
theorem mem_linesFrom {s line : Text} (newline : '\n' ∉ line) :
    ∀ l ∈ linesFrom s line,
      ∃ body, '\n' ∉ body ∧ (l = body ++ ['\n'] ∨ (l = body ∧ body ≠ [])) := by
  induction s generalizing line with
  | nil =>
      intro l mem
      cases line with
      | nil => cases mem
      | cons c line =>
          rw [List.mem_singleton.mp mem]
          exact ⟨(c :: line).reverse, by rwa [List.mem_reverse], .inr ⟨rfl, by simp⟩⟩
  | cons c rest ih =>
      intro l mem
      rw [linesFrom] at mem
      split at mem
      · rename_i ends
        rw [beq_iff_eq] at ends
        rcases List.mem_cons.mp mem with rfl | later
        · exact ⟨line.reverse, by simpa using newline, .inl (by simp [ends])⟩
        · exact ih (by simp) l later
      · rename_i goesOn
        rw [beq_iff_eq] at goesOn
        exact ih (by simp [newline, Ne.symm goesOn]) l mem

theorem mem_lines {s l : Text} (mem : l ∈ lines s) :
    ∃ body, '\n' ∉ body ∧ (l = body ++ ['\n'] ∨ (l = body ∧ body ≠ [])) :=
  mem_linesFrom (by simp) l mem

/-- What has no newline but at its end is one line. -/
theorem linesFrom_body {body : Text} (newline : '\n' ∉ body) (line : Text) :
    linesFrom (body ++ ['\n']) line = [line.reverse ++ body ++ ['\n']] ∧
      (line ≠ [] ∨ body ≠ [] → linesFrom body line = [line.reverse ++ body]) := by
  induction body generalizing line with
  | nil =>
      refine ⟨by simp [linesFrom], ?_⟩
      intro some
      have started : line ≠ [] := by simpa using some
      rw [linesFrom, if_neg (by simpa using started), List.append_nil]
  | cons c body ih =>
      rw [List.mem_cons, not_or] at newline
      have goesOn : ¬ (c == '\n') = true := by simpa using Ne.symm newline.1
      rw [List.cons_append, linesFrom, linesFrom, if_neg goesOn, if_neg goesOn]
      refine ⟨?_, fun _ => ?_⟩
      · rw [(ih newline.2 (c :: line)).1]
        simp
      · rw [(ih newline.2 (c :: line)).2 (.inl (List.cons_ne_nil c line))]
        simp

/-- A line of a text is a text of one line. -/
theorem lines_of_mem {s l : Text} (mem : l ∈ lines s) : lines l = [l] := by
  obtain ⟨body, newline, rfl | ⟨rfl, some⟩⟩ := mem_lines mem
  · exact (linesFrom_body newline []).1
  · exact (linesFrom_body newline []).2 (.inr some)

/-! ### Reading them -/

/-- What follows a newline is read as if it were the whole file. -/
theorem fgetsFrom_append (size room : Nat) {body : Text} (newline : '\n' ∉ body)
    (rest chunk : Text) :
    fgetsFrom size (body ++ '\n' :: rest) room chunk =
      fgetsFrom size (body ++ ['\n']) room chunk ++ fgets size rest := by
  induction body generalizing room chunk with
  | nil => simp [fgetsFrom, fgets]
  | cons c body ih =>
      rw [List.mem_cons, not_or] at newline
      rw [List.cons_append, List.cons_append, fgetsFrom, fgetsFrom]
      split
      · rw [ih _ newline.2, List.cons_append]
      · rw [ih _ newline.2]

/-- A text is read line by line. -/
theorem fgets_linesFrom (size : Nat) (s line : Text) (newline : '\n' ∉ line) :
    fgets size (line.reverse ++ s) = (linesFrom s line).flatMap (fgets size) := by
  induction s generalizing line with
  | nil => cases line <;> simp [linesFrom, fgets, fgetsFrom]
  | cons c rest ih =>
      rw [linesFrom]
      split
      · rename_i ends
        rw [beq_iff_eq] at ends
        subst ends
        have inside : '\n' ∉ line.reverse := by simpa using newline
        have read := fgetsFrom_append size (size - 1) inside rest []
        have others := ih [] (by simp)
        rw [List.flatMap_cons, ← others, List.reverse_cons]
        exact read
      · rename_i goesOn
        rw [beq_iff_eq] at goesOn
        rw [← ih (c :: line) (by simp [newline, Ne.symm goesOn])]
        simp

theorem fgets_eq_flatMap (size : Nat) (s : Text) :
    fgets size s = (lines s).flatMap (fgets size) :=
  fgets_linesFrom size s [] (by simp)

/-- The end of a file is the last chunk. -/
theorem fgetsFrom_last {size room : Nat} {body chunk : Text} (newline : '\n' ∉ body)
    (fits : body.length ≤ room) (some : chunk ≠ [] ∨ body ≠ []) :
    fgetsFrom size body room chunk = [chunk.reverse ++ body] := by
  induction body generalizing room chunk with
  | nil =>
      have started : chunk ≠ [] := by simpa using some
      cases chunk with
      | nil => exact absurd rfl started
      | cons c chunk => simp [fgetsFrom]
  | cons c body ih =>
      rw [List.mem_cons, not_or] at newline
      rw [List.length_cons] at fits
      rw [fgetsFrom]
      split
      · rename_i full
        have last : room = 1 := by
          rw [Bool.or_eq_true, beq_iff_eq, decide_eq_true_iff] at full
          rcases full with ends | full
          · exact absurd ends.symm newline.1
          · omega
        obtain rfl : body = [] := List.eq_nil_of_length_eq_zero (by omega)
        simp [fgetsFrom]
      · rw [ih newline.2 (by omega) (.inl (by simp))]
        simp

/-- A line that fits the buffer is one chunk. -/
theorem fgets_of_fits {size : Nat} {s l : Text} (mem : l ∈ lines s) (fits : l.length < size) :
    fgets size l = [l] := by
  obtain ⟨body, newline, rfl | ⟨rfl, some⟩⟩ := mem_lines mem
  · rw [List.length_append, List.length_singleton] at fits
    rw [fgets_line newline fits]
    rfl
  · exact fgetsFrom_last newline (by omega) (.inr some)

/-- A text whose lines fit is read in lines. -/
theorem fgets_of_short {size : Nat} {s : Text} (short : ∀ l ∈ lines s, l.length < size) :
    fgets size s = lines s := by
  rw [fgets_eq_flatMap]
  have each : ∀ l ∈ lines s, fgets size l = [l] := fun l mem => fgets_of_fits mem (short l mem)
  rw [List.flatMap_def, List.map_congr_left each, ← List.flatMap_def, List.flatMap_singleton']

end VNams.Lib.CText
