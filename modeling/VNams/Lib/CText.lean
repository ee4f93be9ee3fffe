import Mathlib.Algebra.Ring.Int.Defs
import Mathlib.Algebra.Ring.Nat

/-!
C strings and the library calls that read them.

A `Text` is the characters of a C string before its terminating NUL. `strstr`,
`strtol` and the rest return the remaining text where the C function returns an
end pointer. `scanTo` is a hand-written pointer scan: where the wanted character is
missing the C code runs past the terminator, and the result is `none`.
-/

namespace VNams.Lib.CText

/-- A C string. A `Char` stands for one byte: `fgets` and the sizes of buffers count bytes. -/
abbrev Text := List Char

/-- `isspace` in the C locale: blank and `\t \n \v \f \r`. -/
def isSpace (c : Char) : Bool := c == ' ' || (9 ≤ c.toNat && c.toNat ≤ 13)

/-- The value of a digit of a base up to 36. -/
def digitValue (c : Char) : Option Nat :=
  if c.isDigit then some (c.toNat - '0'.toNat)
  else if c.isLower then some (c.toNat - 'a'.toNat + 10)
  else if c.isUpper then some (c.toNat - 'A'.toNat + 10)
  else none

/-- Whether `c` is a digit in `base`. -/
def isDigitOf (base : Nat) (c : Char) : Bool :=
  match digitValue c with
  | some d => d < base
  | none => false

/-- The number written by the longest digit prefix, with the text after it; `none`
when there is no digit. -/
def digits (base : Nat) (s : Text) : Option (Nat × Text) :=
  match s.takeWhile (isDigitOf base) with
  | [] => none
  | ds => some (ds.foldl (fun v c => v * base + (digitValue c).getD 0) 0,
      s.dropWhile (isDigitOf base))

/-- Skip an optional `0x` in front of a hexadecimal digit. -/
def skipHexPrefix : Text → Option Text
  | '0' :: x :: d :: rest =>
      if (x == 'x' || x == 'X') && isDigitOf 16 d then some (d :: rest) else none
  | _ => none

/-- The digits of a C integer literal: base 0 lets the prefix choose the base. -/
def magnitude (base : Nat) (s : Text) : Option (Nat × Text) :=
  match base with
  | 0 =>
      match skipHexPrefix s with
      | some rest => digits 16 rest
      | none => if s.head? = some '0' then digits 8 s else digits 10 s
  | 16 => digits 16 ((skipHexPrefix s).getD s)
  | _ => digits base s

/-- The optional sign of a number. -/
def sign : Text → Bool × Text
  | '-' :: rest => (true, rest)
  | '+' :: rest => (false, rest)
  | s => (false, s)

/-- `(int)` of a `long`. -/
def toInt32 (v : Int) : Int := Int.bmod v (2 ^ 32)

/-- `strtol(s, &end, base)`: the value, clamped to `long`, and the text at `end`,
which is `s` itself when no number is found. -/
def strtol (base : Nat) (s : Text) : Int × Text :=
  let (negative, body) := sign (s.dropWhile isSpace)
  match magnitude base body with
  | none => (0, s)
  | some (n, rest) =>
      (if negative then max (-(n : Int)) (-2 ^ 63) else min (n : Int) (2 ^ 63 - 1), rest)

/-- `strtoul(s, NULL, base)`: clamped to `unsigned long`, a minus sign negating
modulo 2⁶⁴. -/
def strtoul (base : Nat) (s : Text) : UInt64 :=
  let (negative, body) := sign (s.dropWhile isSpace)
  match magnitude base body with
  | none => 0
  | some (n, _) =>
      if 2 ^ 64 ≤ n then UInt64.ofNat (2 ^ 64 - 1)
      else if negative then -UInt64.ofNat n else UInt64.ofNat n

/-- `sscanf(s, "%u", &v)`: `none` when the conversion fails and `v` is not written. -/
def scanUnsigned (s : Text) : Option UInt32 :=
  match magnitude 10 (sign (s.dropWhile isSpace)).2 with
  | none => none
  | some _ => some (strtoul 10 s).toUInt32

/-- `sscanf(s, "%llu", &v)`: `none` when the conversion fails and `v` is not written. -/
def scanUnsigned64 (s : Text) : Option UInt64 :=
  match magnitude 10 (sign (s.dropWhile isSpace)).2 with
  | none => none
  | some _ => some (strtoul 10 s)

/-- `sscanf(s, "%s", buf)`: the token written to `buf`; `none` when there is none. -/
def scanString (s : Text) : Option Text :=
  match (s.dropWhile isSpace).takeWhile (fun c => !isSpace c) with
  | [] => none
  | token => some token

/-- The text behind a literal at the start, as a format string that begins with it reads
on. -/
def afterLiteral (literal s : Text) : Option Text :=
  if literal.isPrefixOf s then some (s.drop literal.length) else none

/-- `fscanf(file, "%d", &v)` on the rest of a file: `none` when the conversion fails; the
value is stored as a 32 bit `int`. -/
def scanInt (s : Text) : Option Int :=
  match magnitude 10 (sign (s.dropWhile isSpace)).2 with
  | none => none
  | some _ => some (toInt32 (strtol 10 s).1)

/-- `strstr(s, needle)`: the text from the first occurrence on. -/
def strstr (needle : Text) : Text → Option Text
  | [] => if needle.isEmpty then some [] else none
  | c :: rest => if needle.isPrefixOf (c :: rest) then some (c :: rest) else strstr needle rest

/-- `while (!p(*s)) s++;` -/
def scanTo (p : Char → Bool) : Text → Option Text
  | [] => none
  | c :: rest => if p c then some (c :: rest) else scanTo p rest

/-- The tokens `strtok` finds between the delimiters. -/
def tokens (isDelimiter : Char → Bool) (s : Text) : List Text :=
  (s.splitOnP isDelimiter).filter fun token => !token.isEmpty

/-- The chunks a loop of `fgets(buf, size, file)` reads: up to `size - 1` characters,
ending early after a newline. `room` is what is left of the buffer. -/
def fgetsFrom (size : Nat) : Text → Nat → Text → List Text
  | [], _, chunk => if chunk.isEmpty then [] else [chunk.reverse]
  | c :: rest, room, chunk =>
      if c == '\n' || room ≤ 1 then (c :: chunk).reverse :: fgetsFrom size rest (size - 1) []
      else fgetsFrom size rest (room - 1) (c :: chunk)

/-- All chunks of a file. -/
def fgets (size : Nat) (file : Text) : List Text := fgetsFrom size file (size - 1) []

/-! ### Reading what was written -/

/-- A line that fits the buffer is one chunk. -/
theorem fgetsFrom_line {size room : Nat} {line rest chunk : Text} (newline : '\n' ∉ line)
    (fits : line.length < room) :
    fgetsFrom size (line ++ '\n' :: rest) room chunk =
      (chunk.reverse ++ line ++ ['\n']) :: fgets size rest := by
  induction line generalizing room chunk with
  | nil => simp [fgetsFrom, fgets]
  | cons c line ih =>
      rw [List.mem_cons, not_or] at newline
      rw [List.length_cons] at fits
      have goesOn : (c == '\n' || decide (room ≤ 1)) = false := by
        simp [Ne.symm newline.1]
        omega
      rw [List.cons_append, fgetsFrom, goesOn, if_neg Bool.false_ne_true,
        ih newline.2 (by omega)]
      simp

theorem fgets_line {size : Nat} {line rest : Text} (newline : '\n' ∉ line)
    (fits : line.length + 1 < size) :
    fgets size (line ++ '\n' :: rest) = (line ++ ['\n']) :: fgets size rest := by
  rw [fgets, fgetsFrom_line newline (by omega)]
  rfl

/-- What occurs in a text has its characters from it. -/
theorem mem_of_strstr {needle s t : Text} (found : strstr needle s = some t) :
    ∀ c ∈ needle, c ∈ s := by
  induction s with
  | nil =>
      cases needle with
      | nil => simp
      | cons c rest => cases found
  | cons c rest ih =>
      rw [strstr] at found
      split at found
      · rename_i here
        intro c' mem
        exact (List.isPrefixOf_iff_prefix.mp here).subset mem
      · exact fun c' mem => List.mem_cons_of_mem c (ih found c' mem)

theorem strstr_eq_none {needle s : Text} {c : Char} (wanted : c ∈ needle) (absent : c ∉ s) :
    strstr needle s = none := by
  cases found : strstr needle s with
  | none => rfl
  | some t => exact absurd (mem_of_strstr found c wanted) absent

theorem digit_spec {c : Char} (digit : c.isDigit = true) :
    isSpace c = false ∧ c ≠ '-' ∧ c ≠ '+' ∧ isDigitOf 10 c = true ∧
      digitValue c = some (c.toNat - '0'.toNat) := by
  have value : digitValue c = some (c.toNat - '0'.toNat) := by
    rw [digitValue, if_pos digit]
  obtain ⟨lower, upper⟩ : 48 ≤ c.toNat ∧ c.toNat ≤ 57 := by
    simpa [Char.isDigit, UInt32.le_iff_toNat_le] using digit
  have differs : ∀ d : Char, d.toNat < 48 → c ≠ d := by
    rintro d below rfl
    omega
  refine ⟨?_, differs _ (by decide), differs _ (by decide), ?_, value⟩
  · have notBlank : (c == ' ') = false := by simpa using differs ' ' (by decide)
    have above : decide (c.toNat ≤ 13) = false := by simpa using (by omega : 13 < c.toNat)
    simp [isSpace, notBlank, above]
  · have small : c.toNat - '0'.toNat < 10 := by
      have zero : '0'.toNat = 48 := rfl
      omega
    simp only [isDigitOf, value, small, decide_true]

theorem isDigit_of_mem {n : Nat} : ∀ c ∈ Nat.toDigits 10 n, c.isDigit = true := fun c mem =>
  Nat.isDigit_of_mem_toDigits (by decide) (by decide) mem

theorem foldl_digitValue {ds : Text} (isDigits : ∀ c ∈ ds, c.isDigit = true) (v : Nat) :
    ds.foldl (fun v c => v * 10 + (digitValue c).getD 0) v = Nat.ofDigitChars 10 ds v := by
  induction ds generalizing v with
  | nil => rfl
  | cons c ds ih =>
      obtain ⟨_, _, _, _, here⟩ := digit_spec (isDigits c List.mem_cons_self)
      rw [List.foldl_cons, Nat.ofDigitChars_cons, here, Option.getD_some, Nat.mul_comm v]
      exact ih (fun c mem => isDigits c (List.mem_cons_of_mem _ mem)) _

/-- The digits in base 10 are `0` to `9`. -/
theorem isDigitOf_ten (c : Char) : isDigitOf 10 c = c.isDigit := by
  cases digit : c.isDigit with
  | true => exact (digit_spec digit).2.2.2.1
  | false =>
      have letter : ∀ d, digitValue c = some d → ¬ d < 10 := by
        intro d value
        simp only [digitValue, digit, Bool.false_eq_true, if_false] at value
        split at value
        · cases value
          omega
        · split at value <;> cases value
          omega
      unfold isDigitOf
      split
      · rename_i d value
        simpa using letter d value
      · rfl

/-- A run of digits is read to its end. -/
theorem digits_append {ds : Text} (written : ds ≠ []) (isDigits : ∀ c ∈ ds, c.isDigit = true)
    (rest : Text) (ends : ∀ c ∈ rest.head?, c.isDigit = false) :
    digits 10 (ds ++ rest) = some (Nat.ofDigitChars 10 ds 0, rest) := by
  have inside : ∀ c ∈ ds, isDigitOf 10 c = true := fun c mem => by
    rw [isDigitOf_ten, isDigits c mem]
  have behind : rest.takeWhile (isDigitOf 10) = [] ∧ rest.dropWhile (isDigitOf 10) = rest := by
    cases rest with
    | nil => exact ⟨rfl, rfl⟩
    | cons c rest =>
        have stop : isDigitOf 10 c = false := by rw [isDigitOf_ten, ends c rfl]
        simp [stop]
  obtain ⟨first, others, rfl⟩ := List.exists_cons_of_ne_nil written
  have value := foldl_digitValue isDigits 0
  simp only [digits, List.takeWhile_append_of_pos inside, List.dropWhile_append_of_pos inside,
    behind, List.append_nil, value]

/-- A text that starts with a digit has no blanks to skip and no sign. -/
theorem sign_dropWhile_digit {c : Char} (digit : c.isDigit = true) (s : Text) :
    sign ((c :: s).dropWhile isSpace) = (false, c :: s) := by
  obtain ⟨notBlank, notMinus, notPlus, _⟩ := digit_spec digit
  rw [List.dropWhile_cons_of_neg (by simp [notBlank])]
  unfold sign
  split
  · rename_i same
    exact absurd (List.cons.inj same).1 notMinus
  · rename_i same
    exact absurd (List.cons.inj same).1 notPlus
  · rfl

/-- The first character of a number that was printed. -/
theorem toDigits_eq_cons (n : Nat) :
    ∃ first others, Nat.toDigits 10 n = first :: others ∧ first.isDigit = true := by
  obtain ⟨first, others, written⟩ :=
    List.exists_cons_of_ne_nil (Nat.toDigits_ne_nil (n := n) (b := 10))
  exact ⟨first, others, written, isDigit_of_mem (n := n) first (by simp [written])⟩

/-- `strtol` on a run of digits. -/
theorem strtol_digits {ds : Text} (written : ds ≠ []) (isDigits : ∀ c ∈ ds, c.isDigit = true)
    (rest : Text) (ends : ∀ c ∈ rest.head?, c.isDigit = false) :
    strtol 10 (ds ++ rest) = (min (Nat.ofDigitChars 10 ds 0 : Int) (2 ^ 63 - 1), rest) := by
  have read := digits_append written isDigits rest ends
  obtain ⟨first, others, rfl⟩ := List.exists_cons_of_ne_nil written
  have unsigned := sign_dropWhile_digit (isDigits first List.mem_cons_self) (others ++ rest)
  rw [List.cons_append] at read ⊢
  simp [strtol, unsigned, magnitude, read]

/-- `strtoul` on a run of digits. -/
theorem strtoul_digits {ds : Text} (written : ds ≠ []) (isDigits : ∀ c ∈ ds, c.isDigit = true)
    (rest : Text) (ends : ∀ c ∈ rest.head?, c.isDigit = false)
    (fits : Nat.ofDigitChars 10 ds 0 < 2 ^ 64) :
    strtoul 10 (ds ++ rest) = UInt64.ofNat (Nat.ofDigitChars 10 ds 0) := by
  have read := digits_append written isDigits rest ends
  obtain ⟨first, others, rfl⟩ := List.exists_cons_of_ne_nil written
  have unsigned := sign_dropWhile_digit (isDigits first List.mem_cons_self) (others ++ rest)
  rw [List.cons_append] at read ⊢
  simp only [strtoul, unsigned, magnitude, read]
  rw [if_neg (by omega)]
  rfl

/-- Scanning an `int` that was printed, and what is left of the file. -/
theorem scanInt_toDigits {n : Nat} (isInt : n < 2 ^ 31) (rest : Text)
    (ends : ∀ c ∈ rest.head?, c.isDigit = false) :
    scanInt (Nat.toDigits 10 n ++ rest) = some (n : Int) ∧
      (strtol 10 (Nat.toDigits 10 n ++ rest)).2 = rest := by
  have value := strtol_digits (Nat.toDigits_ne_nil (n := n) (b := 10)) isDigit_of_mem rest ends
  have read := digits_append (Nat.toDigits_ne_nil (n := n) (b := 10)) isDigit_of_mem rest ends
  obtain ⟨first, others, written, firstDigit⟩ := toDigits_eq_cons n
  have unsigned := sign_dropWhile_digit firstDigit (others ++ rest)
  rw [Nat.ofDigitChars_ten_toDigits, Int.min_eq_left (by omega)] at value
  rw [written, List.cons_append] at read value ⊢
  have small : toInt32 n = n := Int.bmod_eq_of_le (by omega) (by omega)
  simp only [scanInt, unsigned, magnitude, read, value, small, and_self]

/-- Scanning a number that was printed. -/
theorem scanUnsigned64_toDigits {n : Nat} (fits : n < 2 ^ 64) (rest : Text) :
    scanUnsigned64 (Nat.toDigits 10 n ++ '\n' :: rest) = some (UInt64.ofNat n) := by
  have read := digits_append (Nat.toDigits_ne_nil (n := n) (b := 10)) isDigit_of_mem
    ('\n' :: rest) (by simp)
  rw [Nat.ofDigitChars_ten_toDigits] at read
  obtain ⟨first, others, written, firstDigit⟩ := toDigits_eq_cons n
  have unsigned := sign_dropWhile_digit firstDigit (others ++ '\n' :: rest)
  rw [written, List.cons_append] at read ⊢
  simp only [scanUnsigned64, strtoul, unsigned, magnitude, read]
  rw [if_neg (by omega)]
  simp

end VNams.Lib.CText
