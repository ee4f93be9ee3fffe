import VNams.Lib.Lines
import VNams.Lib.Search
import VNams.Monitor.Perf

/-!
Which counter a line of `perf stat` is put down to.

`chosen` is the decision of `perfLine` without the VM. It depends on nothing but the buffer,
and on nothing behind the line when the line has its letters (`HasLetters`); a line without
them is judged by what earlier lines left behind it. A report line of an event chooses that
event, one without a count chooses none, and so the counters are right exactly when no other
line chooses any and no event is left without a count.
-/

namespace VNams.Monitor

open Lib.CText

variable {D : Type}

/-- The events that are counted. -/
inductive PerfEvent where
  | cycles
  | instructions
  | llcDataRdHit
  | llcDataRdMiss
  | llcAllReference
  | llcAllMiss
  deriving DecidableEq, Repr

namespace PerfEvent

/-- The name that the command gives the event. -/
def name : PerfEvent → Text
  | .cycles => "cycles".toList
  | .instructions => "instructions".toList
  | .llcDataRdHit => "offcore_response_demand_data_rd_llc_hit_any_response".toList
  | .llcDataRdMiss => "offcore_response_demand_data_rd_llc_miss_any_response".toList
  | .llcAllReference => "longest_lat_cache_reference".toList
  | .llcAllMiss => "longest_lat_cache_miss".toList

/-- The counter of the event. -/
def count (vm : VmInfo D) : PerfEvent → UInt64
  | .cycles => vm.cycles
  | .instructions => vm.instructions
  | .llcDataRdHit => vm.llcDataRdHit
  | .llcDataRdMiss => vm.llcDataRdMiss
  | .llcAllReference => vm.llcAllReference
  | .llcAllMiss => vm.llcAllMiss

/-- Put a number into the counter of the event. -/
def store (number : UInt64) (vm : VmInfo D) : PerfEvent → VmInfo D
  | .cycles => { vm with cycles := number }
  | .instructions => { vm with instructions := number }
  | .llcDataRdHit => { vm with llcDataRdHit := number }
  | .llcDataRdMiss => { vm with llcDataRdMiss := number }
  | .llcAllReference => { vm with llcAllReference := number }
  | .llcAllMiss => { vm with llcAllMiss := number }

@[simp] theorem count_store_self (e : PerfEvent) (number : UInt64) (vm : VmInfo D) :
    e.count (e.store number vm) = number := by
  cases e <;> rfl

theorem count_store_ne {e e' : PerfEvent} (other : e ≠ e') (number : UInt64) (vm : VmInfo D) :
    e.count (e'.store number vm) = e.count vm := by
  cases e <;> cases e' <;> first | rfl | exact absurd rfl other

end PerfEvent

/-! ### What a line chooses -/

/-- The number in front of a line. -/
def lineCount (buffer : Text) : UInt64 := strtoul 10 (buffer.takeWhile fun c => c != '\x00')

/-- The event whose counter a text from its first letter on chooses. -/
def choice (p : Text) : Except Fault (Option PerfEvent) :=
  match p.head? with
  | some 'c' => .ok (some .cycles)
  | some 'i' => .ok (some .instructions)
  | some 'o' => do
      let c ← peek p 36
      .ok (if c = 'h' then some .llcDataRdHit else if c = 'm' then some .llcDataRdMiss else none)
  | some 'l' => do
      let c ← peek p 18
      .ok (if c = 'r' then some .llcAllReference else if c = 'm' then some .llcAllMiss else none)
  | _ => .ok none

/-- The event whose counter a line, at the front of the buffer, chooses. -/
def chosen (buffer : Text) : Except Fault (Option PerfEvent) :=
  match scanTo Char.isAlpha buffer with
  | none => .error .overread
  | some p => choice p

/-- A line puts its number into the counter that it chooses. -/
theorem perfLine_eq (buffer : Text) (vm : VmInfo D) :
    perfLine buffer vm =
      (chosen buffer).map fun e => e.elim vm (PerfEvent.store (lineCount buffer) vm) := by
  unfold perfLine chosen
  cases scanTo Char.isAlpha buffer with
  | none => rfl
  | some p =>
      simp only
      split
      · rename_i first
        rw [choice, first]
        rfl
      · rename_i first
        rw [choice, first]
        rfl
      · rename_i first
        rw [choice, first]
        cases peek p 36 with
        | error e => rfl
        | ok c =>
            simp only [Except.bind, bind, Except.map]
            split
            · rfl
            · split <;> rfl
      · rename_i first
        rw [choice, first]
        cases peek p 18 with
        | error e => rfl
        | ok c =>
            simp only [Except.bind, bind, Except.map]
            split
            · rfl
            · split <;> rfl
      · rename_i notC notI notO notL
        unfold choice
        split
        · exact absurd ‹_› notC
        · exact absurd ‹_› notI
        · exact absurd ‹_› notO
        · exact absurd ‹_› notL
        · rfl

/-! ### Staying inside the line -/

theorem peek_append {p : Text} {offset : Nat} (inside : offset < p.length) (behind : Text) :
    peek (p ++ behind) offset = peek p offset := by
  unfold peek
  rw [List.getElem?_append_left inside]

/-- A decision on a character fails where there is none. -/
theorem peek_bind_eq_error {α : Type} {p : Text} {offset : Nat} {decide : Char → α}
    {fault : Fault} : (do let c ← peek p offset; .ok (decide c)) = .error fault ↔
      p.length ≤ offset ∧ fault = .overread := by
  unfold peek
  rw [← List.getElem?_eq_none_iff]
  cases p[offset]? <;> simp [bind, Except.bind, eq_comm]

/-- A choice looks at the first letter and, behind an `o` or an `l`, at one more character. -/
theorem choice_eq_error {p : Text} {fault : Fault} : choice p = .error fault ↔
    ((p.head? = some 'o' ∧ p.length ≤ 36) ∨ (p.head? = some 'l' ∧ p.length ≤ 18)) ∧
      fault = .overread := by
  unfold choice
  split
  · rename_i first
    simp [first]
  · rename_i first
    simp [first]
  · rename_i first
    rw [peek_bind_eq_error]
    simp [first]
  · rename_i first
    rw [peek_bind_eq_error]
    simp [first]
  · rename_i notC notI notO notL
    have others : ¬ ((p.head? = some 'o' ∧ p.length ≤ 36) ∨
        (p.head? = some 'l' ∧ p.length ≤ 18)) := by
      rintro (⟨first, _⟩ | ⟨first, _⟩)
      · exact notO first
      · exact notL first
    simp [others]

/-- The character that was looked at is the same in a longer text. -/
theorem peek_bind_append {α : Type} {p : Text} {offset : Nat} {decide : Char → α} {r : α}
    (made : (do let c ← peek p offset; .ok (decide c)) = (.ok r : Except Fault α))
    (behind : Text) : (do let c ← peek (p ++ behind) offset; .ok (decide c)) = Except.ok r := by
  by_cases inside : offset < p.length
  · rw [peek_append inside]
    exact made
  · rw [peek_bind_eq_error.mpr ⟨by omega, rfl⟩] at made
    cases made

/-- A choice that is made is made whatever follows. -/
theorem choice_append {c : Char} {rest : Text} {e : Option PerfEvent}
    (made : choice (c :: rest) = .ok e) (behind : Text) :
    choice (c :: rest ++ behind) = .ok e := by
  unfold choice at made ⊢
  rw [List.head?_cons] at made
  rw [List.cons_append, List.head?_cons, ← List.cons_append]
  split at made
  · exact made
  · exact made
  · exact peek_bind_append made behind
  · exact peek_bind_append made behind
  · exact made

/-- A line that chooses does so whatever lies behind it. -/
theorem chosen_append {s : Text} {e : Option PerfEvent} (made : chosen s = .ok e)
    (behind : Text) : chosen (s ++ behind) = .ok e := by
  unfold chosen at made ⊢
  cases found : scanTo Char.isAlpha s with
  | none =>
      rw [found] at made
      cases made
  | some p =>
      rw [found] at made
      obtain ⟨_, c, rest, _, rfl, _, _⟩ := scanTo_eq_some.mp found
      rw [scanTo_append_of_some found]
      exact choice_append made behind

/-- Looking too far is the only fault. -/
theorem eq_overread_of_chosen {s : Text} {fault : Fault} (failed : chosen s = .error fault) :
    fault = .overread := by
  unfold chosen at failed
  split at failed
  · cases failed
    rfl
  · exact (choice_eq_error.mp failed).2

/-- The line has a letter and, from the first one on, as many characters as are looked at. -/
def HasLetters (line : Text) : Prop :=
  ∃ before first rest, line = before ++ first :: rest ∧ first.isAlpha = true ∧
    (∀ c ∈ before, c.isAlpha = false) ∧
    (first = 'o' → 36 ≤ rest.length + 1) ∧ (first = 'l' → 18 ≤ rest.length + 1)

/-- Nothing behind the terminator is looked at exactly when the line has its letters. -/
theorem chosen_ne_error_iff {line : Text} :
    chosen (fill [] line) ≠ .error .overread ↔ HasLetters line := by
  have terminated : fill [] line = line ++ ['\x00'] := rfl
  rw [terminated]
  cases found : scanTo Char.isAlpha line with
  | none =>
      have none := scanTo_eq_none.mp found
      have all : ∀ c ∈ line ++ ['\x00'], c.isAlpha = false := by
        intro c mem
        rcases List.mem_append.mp mem with inside | last
        · exact none c inside
        · rw [List.mem_singleton.mp last]
          rfl
      constructor
      · intro stays
        unfold chosen at stays
        rw [scanTo_eq_none.mpr all] at stays
        exact absurd rfl stays
      · rintro ⟨before, first, rest, rfl, letter, _⟩
        rw [none first (by simp)] at letter
        cases letter
  | some p =>
      obtain ⟨before, first, rest, rfl, rfl, letter, passed⟩ := scanTo_eq_some.mp found
      unfold chosen
      rw [scanTo_append_of_some found, Ne, choice_eq_error]
      simp only [List.cons_append, List.head?_cons, Option.some.injEq, List.length_cons,
        List.length_append, List.length_nil, and_true]
      constructor
      · intro inside
        refine ⟨before, first, rest, rfl, letter, passed, ?_, ?_⟩
        · intro same
          by_contra short
          exact inside (.inl ⟨same, by omega⟩)
        · intro same
          by_contra short
          exact inside (.inr ⟨same, by omega⟩)
      · rintro ⟨before', first', rest', whole, letter', passed', o, l⟩
        have again := scanTo_eq_some.mpr ⟨before', first', rest', rfl, rfl, letter', passed'⟩
        rw [← whole, found] at again
        cases again
        rintro (⟨same, short⟩ | ⟨same, short⟩)
        · have long := o same
          omega
        · have long := l same
          omega

/-- A line with its letters chooses the same whatever the buffer held before. -/
theorem chosen_fill {line : Text} (letters : HasLetters line) (buffer : Text) :
    chosen (fill buffer line) = chosen (fill [] line) := by
  have whole : fill [] line ++ buffer.drop (line.length + 1) = fill buffer line := by
    simp [fill]
  cases made : chosen (fill [] line) with
  | error fault =>
      rw [eq_overread_of_chosen made] at made
      exact absurd made (chosen_ne_error_iff.mpr letters)
  | ok e => rw [← whole, chosen_append made]

/-- The scans of a line read nothing behind its terminator exactly when it has its letters. -/
theorem perfLine_ne_overread_iff {line : Text} (vm : VmInfo D) :
    perfLine (fill [] line) vm ≠ .error .overread ↔ HasLetters line := by
  rw [← chosen_ne_error_iff, perfLine_eq]
  cases chosen (fill [] line) <;> simp [Except.map]

/-! ### Report lines -/

/-- A line of the event in the format of `-x,`: the count, an empty unit or none, the event's
name, and what does not go on with the name. -/
def Reported (number : Text) (e : PerfEvent) (line : Text) : Prop :=
  ∃ unit rest, unit ∈ [[','], [',', ',']] ∧ line = number ++ unit ++ e.name ++ rest ∧
    ∀ c ∈ rest.head?, c.isAlphanum = false ∧ c ≠ '_'

/-- The line reports a count of the event. -/
def HasCount (e : PerfEvent) (number : UInt64) (line : Text) : Prop :=
  ∃ ds : Text, ds ≠ [] ∧ (∀ c ∈ ds, c.isDigit = true) ∧ Nat.ofDigitChars 10 ds 0 = number.toNat ∧
    Reported ds e line

/-- The line reports the event without a count. -/
def NoCount (e : PerfEvent) (line : Text) : Prop :=
  Reported "<not counted>".toList e line ∨ Reported "<not supported>".toList e line

/-- The line is one of the event's own. -/
def Own (e : PerfEvent) (line : Text) : Prop := (∃ number, HasCount e number line) ∨ NoCount e line

/-- From its name on, a text chooses the event. -/
theorem choice_name (e : PerfEvent) (rest : Text) : choice (e.name ++ rest) = .ok (some e) := by
  have named : ∃ c others, e.name = c :: others ∧ choice (c :: others) = .ok (some e) := by
    cases e with
    | cycles => exact ⟨_, _, rfl, by decide +kernel⟩
    | instructions => exact ⟨_, _, rfl, by decide +kernel⟩
    | llcDataRdHit => exact ⟨_, _, rfl, by decide +kernel⟩
    | llcDataRdMiss => exact ⟨_, _, rfl, by decide +kernel⟩
    | llcAllReference => exact ⟨_, _, rfl, by decide +kernel⟩
    | llcAllMiss => exact ⟨_, _, rfl, by decide +kernel⟩
  obtain ⟨c, others, same, chooses⟩ := named
  rw [same]
  exact choice_append chooses rest

theorem isAlpha_of_isDigit {c : Char} (digit : c.isDigit = true) : c.isAlpha = false := by
  obtain ⟨lower, upper⟩ : 48 ≤ c.toNat ∧ c.toNat ≤ 57 := by
    simpa [Char.isDigit, UInt32.le_iff_toNat_le] using digit
  have notUpper : c.isUpper = false := by
    rw [Bool.eq_false_iff]
    intro isUpper
    have above : 65 ≤ c.toNat := UInt32.le_iff_toNat_le.mp (of_decide_eq_true isUpper).1
    omega
  have notLower : c.isLower = false := by
    rw [Bool.eq_false_iff]
    intro isLower
    have above : 97 ≤ c.toNat :=
      UInt32.le_iff_toNat_le.mp (of_decide_eq_true ((Bool.and_eq_true _ _).mp isLower).1)
    omega
  show (c.isUpper || c.isLower) = false
  rw [notUpper, notLower]
  rfl

/-- Behind characters that are no letters, the first letter decides. -/
theorem chosen_of_passed {before : Text} (passed : ∀ c ∈ before, c.isAlpha = false) {first : Char}
    (letter : first.isAlpha = true) (rest : Text) :
    chosen (before ++ first :: rest) = choice (first :: rest) := by
  unfold chosen
  rw [scanTo_append passed, scanTo_cons letter]

/-- In front of the event's name there are commas. -/
theorem unit_commas {unit : Text} (isUnit : unit ∈ [[','], [',', ',']]) :
    ∃ others, unit = ',' :: others ∧ ∀ c ∈ ',' :: others, c = ',' := by
  simp only [List.mem_cons, List.not_mem_nil, or_false] at isUnit
  rcases isUnit with rfl | rfl
  · exact ⟨[], rfl, by simp⟩
  · exact ⟨[','], rfl, by simp⟩

/-- The event that a line with a count reports is the one that it chooses. -/
theorem chosen_of_hasCount {e : PerfEvent} {number : UInt64} {line : Text}
    (reports : HasCount e number line) (buffer : Text) :
    chosen (fill buffer line) = .ok (some e) := by
  obtain ⟨ds, _, isDigits, _, unit, rest, isUnit, rfl, _⟩ := reports
  obtain ⟨others, rfl, commas⟩ := unit_commas isUnit
  have passed : ∀ c ∈ ds ++ ',' :: others, c.isAlpha = false := by
    intro c mem
    rcases List.mem_append.mp mem with digit | comma
    · exact isAlpha_of_isDigit (isDigits c digit)
    · rw [commas c comma]
      rfl
  obtain ⟨first, behind, named, letter⟩ :
      ∃ first behind, e.name = first :: behind ∧ first.isAlpha = true := by
    cases e <;> exact ⟨_, _, rfl, by decide⟩
  have chooses := choice_name e (rest ++ '\x00' :: buffer.drop
    ((ds ++ ',' :: others ++ e.name ++ rest).length + 1))
  rw [named, List.cons_append] at chooses
  rw [← chosen_of_passed passed letter, ← List.cons_append, ← named] at chooses
  rw [← chooses]
  simp only [fill, List.append_assoc]

/-- The number of a line with a count is the one that is read. -/
theorem lineCount_of_hasCount {e : PerfEvent} {number : UInt64} {line : Text}
    (reports : HasCount e number line) (buffer : Text) :
    lineCount (fill buffer line) = number := by
  obtain ⟨ds, written, isDigits, value, unit, rest, isUnit, rfl, _⟩ := reports
  obtain ⟨others, rfl, _⟩ := unit_commas isUnit
  have inside : ∀ c ∈ ds, (c != '\x00') = true := by
    intro c mem
    have digit := isDigits c mem
    rw [bne_iff_ne]
    rintro rfl
    cases digit
  have front : ∃ behind, (fill buffer (ds ++ ',' :: others ++ e.name ++ rest)).takeWhile
      (fun c => c != '\x00') = ds ++ ',' :: behind := by
    simp only [fill, List.append_assoc]
    rw [List.takeWhile_append_of_pos inside]
    exact ⟨_, rfl⟩
  obtain ⟨behind, front⟩ := front
  have fits : Nat.ofDigitChars 10 ds 0 < 2 ^ 64 := by
    rw [value]
    exact number.toNat_lt
  rw [lineCount, front, strtoul_digits written isDigits _ (by simp) fits, value]
  simp

/-- A line without a count chooses nothing: its first letter is that of `not`. -/
theorem chosen_of_noCount {e : PerfEvent} {line : Text} (reports : NoCount e line)
    (buffer : Text) : chosen (fill buffer line) = .ok none := by
  have begins : ∃ rest, line = ['<'] ++ 'n' :: rest := by
    rcases reports with ⟨unit, rest, _, rfl, _⟩ | ⟨unit, rest, _, rfl, _⟩ <;> exact ⟨_, rfl⟩
  obtain ⟨rest, rfl⟩ := begins
  have passed : ∀ c ∈ ['<'], c.isAlpha = false := by simp
  exact @chosen_of_passed ['<'] passed 'n' rfl _

/-! ### Lines that are no reports -/

/-- From its first letter on, the buffer has nothing that a counter is chosen by. -/
def Quiet (buffer : Text) : Prop :=
  ∃ before first rest, buffer = before ++ first :: rest ∧ first.isAlpha = true ∧
    (∀ c ∈ before, c.isAlpha = false) ∧ first ≠ 'c' ∧ first ≠ 'i' ∧
    (first = 'o' → ∃ c, (first :: rest)[36]? = some c ∧ c ≠ 'h' ∧ c ≠ 'm') ∧
    (first = 'l' → ∃ c, (first :: rest)[18]? = some c ∧ c ≠ 'r' ∧ c ≠ 'm')

/-- A decision between two letters that falls on neither. -/
theorem peek_bind_eq_none {p : Text} {offset : Nat} {a b : Char} {e e' : PerfEvent} :
    (do let c ← peek p offset; .ok (if c = a then some e else if c = b then some e' else none)) =
      (.ok none : Except Fault _) ↔ ∃ c, p[offset]? = some c ∧ c ≠ a ∧ c ≠ b := by
  unfold peek
  cases p[offset]? with
  | none => simp [bind, Except.bind]
  | some c =>
      simp only [bind, Except.bind, Except.ok.injEq, Option.some.injEq, exists_eq_left']
      split
      · simp [*]
      · split <;> simp [*]

theorem choice_eq_none {first : Char} {rest : Text} : choice (first :: rest) = .ok none ↔
    first ≠ 'c' ∧ first ≠ 'i' ∧
    (first = 'o' → ∃ c, (first :: rest)[36]? = some c ∧ c ≠ 'h' ∧ c ≠ 'm') ∧
    (first = 'l' → ∃ c, (first :: rest)[18]? = some c ∧ c ≠ 'r' ∧ c ≠ 'm') := by
  unfold choice
  rw [List.head?_cons]
  split
  · simp_all
  · simp_all
  · rename_i same
    cases same
    rw [peek_bind_eq_none]
    simp
  · rename_i same
    cases same
    rw [peek_bind_eq_none]
    simp
  · simp_all

theorem quiet_iff {buffer : Text} : chosen buffer = .ok none ↔ Quiet buffer := by
  constructor
  · intro nothing
    unfold chosen at nothing
    split at nothing
    · cases nothing
    · rename_i p found
      obtain ⟨before, first, rest, rfl, rfl, letter, passed⟩ := scanTo_eq_some.mp found
      exact ⟨before, first, rest, rfl, letter, passed, choice_eq_none.mp nothing⟩
  · rintro ⟨before, first, rest, rfl, letter, passed, nothing⟩
    rw [chosen_of_passed passed letter]
    exact choice_eq_none.mpr nothing

/-! ### A period -/

/-- The buffer after some lines. -/
def held (buffer : Text) (before : List Text) : Text := before.foldl fill buffer

/-- What is asked of the counters of a VM after a period: they hold the last counts, no line
changes a counter that is not its own, and a counter without a count has nothing of the
period before. -/
structure Attributed (buffer output : Text) (vm : VmInfo D) : Prop where
  counts : ∃ after, monitorPerfEvent buffer (some output) vm = .ok (0, after) ∧
    ∀ e number before line rest, lines output = before ++ line :: rest →
      HasCount e number line → (∀ l ∈ rest, ∀ other, ¬ HasCount e other l) → e.count after = number
  own : ∀ before line rest, lines output = before ++ line :: rest → ∀ e, ¬ Own e line →
    ∀ now next : VmInfo D, perfLine (fill (held buffer before) line) now = .ok next →
      e.count next = e.count now
  fresh : ∀ e, (∃ line ∈ lines output, NoCount e line) → ∀ other after after' : VmInfo D,
    monitorPerfEvent buffer (some output) vm = .ok (0, after) →
      monitorPerfEvent buffer (some output) other = .ok (0, after') → e.count after = e.count after'

/-- When the counters are right: lines that are no reports choose nothing, and an event that is
reported without a count is reported with one as well. -/
structure Regular (buffer output : Text) : Prop where
  quiet : ∀ before line rest, lines output = before ++ line :: rest → (∀ e, ¬ Own e line) →
    Quiet (fill (held buffer before) line)
  counted : ∀ e, (∃ line ∈ lines output, NoCount e line) →
    ∃ line ∈ lines output, ∃ number, HasCount e number line

/-- A line of a regular output stores its own count, if it has one, and nothing else. -/
theorem perfLine_regular {buffer line : Text}
    (quiet : (∀ e, ¬ Own e line) → Quiet (fill buffer line)) (vm : VmInfo D) :
    ∃ next, perfLine (fill buffer line) vm = .ok next ∧
      ∀ e, (∀ number, HasCount e number line → e.count next = number) ∧
        ((∀ number, ¬ HasCount e number line) → e.count next = e.count vm) := by
  by_cases counted : ∃ e number, HasCount e number line
  · obtain ⟨e, number, reports⟩ := counted
    refine ⟨e.store number vm, ?_, ?_⟩
    · rw [perfLine_eq, chosen_of_hasCount reports, lineCount_of_hasCount reports]
      rfl
    · intro e'
      constructor
      · intro number' reports'
        have sameEvent := chosen_of_hasCount reports' buffer
        have sameNumber := lineCount_of_hasCount reports' buffer
        rw [chosen_of_hasCount reports] at sameEvent
        rw [lineCount_of_hasCount reports] at sameNumber
        cases sameEvent
        rw [PerfEvent.count_store_self, sameNumber]
      · intro uncounted
        apply PerfEvent.count_store_ne
        rintro rfl
        exact uncounted number reports
  · have nothing : chosen (fill buffer line) = .ok none := by
      by_cases uncounted : ∃ e, NoCount e line
      · obtain ⟨e, reports⟩ := uncounted
        exact chosen_of_noCount reports buffer
      · apply quiet_iff.mpr
        apply quiet
        rintro e (reports | reports)
        · exact counted ⟨e, reports⟩
        · exact uncounted ⟨e, reports⟩
    refine ⟨vm, ?_, ?_⟩
    · rw [perfLine_eq, nothing]
      rfl
    · intro e
      constructor
      · intro number reports
        exact absurd ⟨e, number, reports⟩ counted
      · intro _
        rfl

/-- A regular output stores the last count of each event, and nothing else. -/
theorem perfLines_regular {ls : List Text} {buffer : Text}
    (quiet : ∀ before line rest, ls = before ++ line :: rest → (∀ e, ¬ Own e line) →
      Quiet (fill (held buffer before) line)) (vm : VmInfo D) :
    ∃ after, perfLines ls buffer vm = .ok after ∧ ∀ e,
      (∀ number before line rest, ls = before ++ line :: rest → HasCount e number line →
        (∀ l ∈ rest, ∀ other, ¬ HasCount e other l) → e.count after = number) ∧
      ((∀ l ∈ ls, ∀ number, ¬ HasCount e number l) → e.count after = e.count vm) := by
  induction ls generalizing buffer vm with
  | nil => exact ⟨vm, rfl, fun e => ⟨by simp, fun _ => rfl⟩⟩
  | cons line ls ih =>
      obtain ⟨next, stepped, stored⟩ := perfLine_regular (quiet [] line ls rfl) vm
      have later : ∀ before l rest, ls = before ++ l :: rest → (∀ e, ¬ Own e l) →
          Quiet (fill (held (fill buffer line) before) l) := by
        intro before l rest whole foreign
        exact quiet (line :: before) l rest (by rw [whole, List.cons_append]) foreign
      obtain ⟨after, ran, counts⟩ := ih later next
      refine ⟨after, ?_, ?_⟩
      · rw [perfLines]
        exact Lib.bind_eq_ok.mpr ⟨next, stepped, ran⟩
      · intro e
        constructor
        · intro number before l rest whole reports last
          cases before with
          | nil =>
              cases whole
              rw [(counts e).2 last, (stored e).1 number reports]
          | cons first before =>
              cases whole
              exact (counts e).1 number before l rest rfl reports last
        · intro none
          rw [List.forall_mem_cons] at none
          rw [(counts e).2 none.2, (stored e).2 none.1]

/-- When a run comes to its end, every line chose something. -/
theorem perfLine_of_perfLines {before rest : List Text} {line buffer : Text} {vm after : VmInfo D}
    (ran : perfLines (before ++ line :: rest) buffer vm = .ok after) :
    ∃ now next : VmInfo D, perfLine (fill (held buffer before) line) now = .ok next := by
  induction before generalizing buffer vm with
  | nil =>
      obtain ⟨next, stepped, _⟩ := Lib.bind_eq_ok.mp ran
      exact ⟨vm, next, stepped⟩
  | cons first before ih =>
      obtain ⟨next, _, ran⟩ := Lib.bind_eq_ok.mp ran
      exact ih ran

/-- Lines that leave every foreign counter alone choose nothing when they are no reports. -/
theorem quiet_of_own {line buffer : Text} (foreign : ∀ e, ¬ Own e line)
    (own : ∀ e, ¬ Own e line → ∀ now next : VmInfo D, perfLine (fill buffer line) now = .ok next →
      e.count next = e.count now) {now next : VmInfo D}
    (stepped : perfLine (fill buffer line) now = .ok next) : Quiet (fill buffer line) := by
  rw [← quiet_iff]
  cases made : chosen (fill buffer line) with
  | error fault =>
      rw [perfLine_eq, made] at stepped
      cases stepped
  | ok choice =>
      cases choice with
      | none => rfl
      | some e =>
          -- the line would put its number in place of a larger one
          have overwrites : perfLine (fill buffer line)
              (e.store (lineCount (fill buffer line) + 1) now) =
                .ok (e.store (lineCount (fill buffer line))
                  (e.store (lineCount (fill buffer line) + 1) now)) := by
            rw [perfLine_eq, made]
            rfl
          have same := own e (foreign e) _ _ overwrites
          rw [PerfEvent.count_store_self, PerfEvent.count_store_self] at same
          simp at same

theorem monitorPerfEvent_eq_ok {buffer output : Text} {vm after : VmInfo D}
    (short : ∀ line ∈ lines output, line.length < perfBufSize) :
    monitorPerfEvent buffer (some output) vm = .ok (0, after) ↔
      perfLines (lines output) buffer vm = .ok after := by
  rw [← fgets_of_short short]
  constructor
  · intro ran
    obtain ⟨after', ran, same⟩ := Lib.bind_eq_ok.mp ran
    cases same
    exact ran
  · intro ran
    exact Lib.bind_eq_ok.mpr ⟨after, ran, rfl⟩

/-- The last of the lines with a count. -/
theorem exists_last_count {ls : List Text} {e : PerfEvent}
    (some : ∃ line ∈ ls, ∃ number, HasCount e number line) :
    ∃ before line rest number, ls = before ++ line :: rest ∧ HasCount e number line ∧
      ∀ l ∈ rest, ∀ other, ¬ HasCount e other l := by
  induction ls with
  | nil => simp at some
  | cons first ls ih =>
      by_cases later : ∃ line ∈ ls, ∃ number, HasCount e number line
      · obtain ⟨before, line, rest, number, rfl, reports, last⟩ := ih later
        exact ⟨first :: before, line, rest, number, rfl, reports, last⟩
      · simp only [List.mem_cons, exists_eq_or_imp] at some
        obtain ⟨number, reports⟩ := some.resolve_right later
        refine ⟨[], first, ls, number, rfl, reports, ?_⟩
        intro l mem other reports'
        exact later ⟨l, mem, other, reports'⟩

/-- The counters are attributed to their own events and period exactly when no line other than
a report chooses a counter and every event without a count has one as well. -/
theorem attributed_iff_regular (buffer output : Text) (vm : VmInfo D)
    (short : ∀ line ∈ lines output, line.length < perfBufSize) :
    Attributed buffer output vm ↔ Regular buffer output := by
  constructor
  · intro attributed
    have quiet : ∀ before line rest, lines output = before ++ line :: rest →
        (∀ e, ¬ Own e line) → Quiet (fill (held buffer before) line) := by
      intro before line rest whole foreign
      obtain ⟨after, ran, _⟩ := attributed.counts
      rw [monitorPerfEvent_eq_ok short, whole] at ran
      obtain ⟨now, next, stepped⟩ := perfLine_of_perfLines ran
      exact quiet_of_own foreign (attributed.own before line rest whole) stepped
    refine ⟨quiet, ?_⟩
    intro e uncounted
    by_contra none
    have never : ∀ l ∈ lines output, ∀ number, ¬ HasCount e number l := by
      intro l mem number reports
      exact none ⟨l, mem, number, reports⟩
    obtain ⟨after, ran, kept⟩ := perfLines_regular quiet vm
    obtain ⟨after', ran', kept'⟩ := perfLines_regular quiet (e.store (e.count vm + 1) vm)
    have same := attributed.fresh e uncounted _ after after'
      ((monitorPerfEvent_eq_ok short).mpr ran) ((monitorPerfEvent_eq_ok short).mpr ran')
    rw [(kept e).2 never, (kept' e).2 never, PerfEvent.count_store_self] at same
    simp at same
  · intro regular
    obtain ⟨after, ran, counts⟩ := perfLines_regular regular.quiet vm
    refine ⟨⟨after, (monitorPerfEvent_eq_ok short).mpr ran, ?_⟩, ?_, ?_⟩
    · intro e number before line rest whole reports last
      exact (counts e).1 number before line rest whole reports last
    · intro before line rest whole e foreign now next stepped
      obtain ⟨next', stepped', stored⟩ := perfLine_regular (regular.quiet before line rest whole) now
      rw [stepped'] at stepped
      cases stepped
      apply (stored e).2
      intro number reports
      exact foreign (.inl ⟨number, reports⟩)
    · intro e uncounted other after' other' ended ended'
      obtain ⟨otherAfter, otherRan, otherCounts⟩ := perfLines_regular regular.quiet other
      rw [monitorPerfEvent_eq_ok short] at ended ended'
      rw [ran] at ended
      rw [otherRan] at ended'
      cases ended
      cases ended'
      obtain ⟨before, line, rest, number, whole, reports, last⟩ :=
        exists_last_count (regular.counted e uncounted)
      rw [(counts e).1 number before line rest whole reports last,
        (otherCounts e).1 number before line rest whole reports last]

/-- A VM with the counts of an earlier period. -/
def countedVm : VmInfo ℚ :=
  VmInfo.new ⟨0, 0, 0, 0, 0, 0, 7, 7, 7, 7, 7, 7, 0, 0⟩

/-- A message of sudo, and a report of perf behind it. -/
def sudoAndReport : Text := "sudo: user\n250,,cycles,100,100.00\n".toList

theorem sudoAndReport_lines :
    lines sudoAndReport = ["sudo: user\n".toList, "250,,cycles,100,100.00\n".toList] := by
  decide +kernel

theorem hasCount_report : HasCount .cycles 250 "250,,cycles,100,100.00\n".toList := by
  have digits : ∀ c ∈ "250".toList, c.isDigit = true := List.all_eq_true.mp (by decide)
  refine ⟨"250".toList, by decide, digits, by decide +kernel, [',', ','],
    ",100,100.00\n".toList, by simp, rfl, ?_⟩
  intro c mem
  obtain rfl : ',' = c := Option.some.inj mem
  decide

/-- The message chooses no counter, and no event is reported without a count. -/
theorem sudoAndReport_regular : Regular [] sudoAndReport where
  quiet before line rest whole foreign := by
    rw [sudoAndReport_lines] at whole
    cases before with
    | nil =>
        cases whole
        exact quiet_iff.mp (by decide +kernel)
    | cons first before =>
        cases before with
        | nil =>
            cases whole
            exact absurd (.inl ⟨250, hasCount_report⟩) (foreign .cycles)
        | cons second before =>
            have size := congrArg List.length whole
            simp at size
  counted e uncounted := by
    obtain ⟨line, mem, none⟩ := uncounted
    have starts : line.head? = some '<' := by
      rcases none with ⟨unit, behind, _, whole, _⟩ | ⟨unit, behind, _, whole, _⟩
      · rw [whole]
        rfl
      · rw [whole]
        rfl
    rw [sudoAndReport_lines, List.mem_cons, List.mem_singleton] at mem
    rcases mem with rfl | rfl
    · exact absurd starts (by decide)
    · exact absurd starts (by decide)

theorem attributed_iff_regular_report :
    (Attributed [] sudoAndReport countedVm ↔ Regular [] sudoAndReport) ∧
      Attributed [] sudoAndReport countedVm := by
  have exactly := attributed_iff_regular [] sudoAndReport countedVm (by decide +kernel)
  exact ⟨exactly, exactly.mpr sudoAndReport_regular⟩

/-- A line of an event begins with a digit or with a `<`. -/
theorem first_of_own {e : PerfEvent} {c : Char} {rest : Text} (own : Own e (c :: rest)) :
    c.isDigit = true ∨ c = '<' := by
  rcases own with ⟨number, ds, written, isDigits, _, unit, behind, _, whole, _⟩ | reports
  · obtain ⟨first, others, rfl⟩ := List.exists_cons_of_ne_nil written
    cases whole
    exact .inl (isDigits c List.mem_cons_self)
  · rcases reports with ⟨unit, behind, _, whole, _⟩ | ⟨unit, behind, _, whole, _⟩
    · cases whole
      exact .inr rfl
    · cases whole
      exact .inr rfl

/-- Cycles that were not counted keep the count of the period before, and a message that begins
with an `i` sets the instructions to 0. -/
theorem stale_and_foreign_counts :
    ¬ Attributed [] "<not counted>,,cycles,0,0.00\n".toList countedVm ∧
      ¬ Attributed [] "insufficient permission\n".toList countedVm := by
  constructor
  · intro attributed
    have uncounted : ∃ line ∈ lines "<not counted>,,cycles,0,0.00\n".toList,
        NoCount .cycles line := by
      refine ⟨"<not counted>,,cycles,0,0.00\n".toList, by decide +kernel, .inl ?_⟩
      refine ⟨[',', ','], ",0,0.00\n".toList, by simp, by decide +kernel, ?_⟩
      intro c mem
      obtain rfl : ',' = c := Option.some.inj mem
      decide
    have same := attributed.fresh .cycles uncounted { countedVm with cycles := 0 } countedVm
      { countedVm with cycles := 0 } (by decide +kernel) (by decide +kernel)
    exact absurd same (by decide)
  · intro attributed
    have foreign : ¬ Own .instructions "insufficient permission\n".toList := by
      intro own
      rcases first_of_own own with digit | same
      · cases digit
      · exact absurd same (by decide)
    have same := attributed.own [] "insufficient permission\n".toList [] (by decide +kernel)
      .instructions foreign countedVm { countedVm with instructions := 0 } (by decide +kernel)
    exact absurd same (by decide)

end VNams.Monitor
