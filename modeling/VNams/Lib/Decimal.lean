import Mathlib.Data.List.DropRight
import Mathlib.Data.Rat.Floor
import Mathlib.Tactic.FieldSimp
import Mathlib.Tactic.Linarith
import Mathlib.Tactic.Positivity
import VNams.Lib.CText
import VNams.Lib.Rounding

/-!
Floating numbers as text: the `%lf` conversion of `scanf` and the `%f` conversion of `printf`.

What `%lf` finds is kept as a `Literal`, so that the type of the values stays open. `fixed`
writes a rational the way `%f` writes a number with that exact value: rounded to a number of
places, a tie going to the even digit. Reading back what was written gives the rounded number
(`scanDouble_fixed`, `value_written`), which is within half a unit of the last place
(`roundTo_near`).
-/

namespace VNams.Lib.CText

/-! ### Reading -/

/-- A floating number as `strtod` understands it. A number is its digits, how many of them are
behind the point, and its exponent: to base 10, or to base 2 behind hexadecimal digits. -/
inductive Literal where
  | number (negative hex : Bool) (digits fraction : Nat) (exponent : Int)
  | infinity (negative : Bool)
  | nan (negative : Bool)
  deriving DecidableEq

/-- The exponent behind a number, 0 if there is none; `none` if its digits are missing. -/
def scanExponent (marker : Char → Bool) (s : Text) : Option Int × Text :=
  match s with
  | c :: rest =>
      if marker c then
        let (negative, rest) := sign rest
        match digits 10 rest with
        | none => (none, rest)
        | some (n, rest) => (some (if negative then -(n : Int) else n), rest)
      else (some 0, s)
  | [] => (some 0, [])

/-- The digits behind the point, if there is one. -/
def scanFraction (base : Nat) : Text → Text × Text
  | '.' :: rest => (rest.takeWhile (isDigitOf base), rest.dropWhile (isDigitOf base))
  | s => ([], s)

/-- A number without its sign. -/
def scanNumber (negative hex : Bool) (s : Text) : Option Literal × Text :=
  let base := if hex then 16 else 10
  let whole := s.takeWhile (isDigitOf base)
  let (fraction, rest) := scanFraction base (s.dropWhile (isDigitOf base))
  if (whole ++ fraction).isEmpty then (none, rest)
  else
    let marker := fun c => if hex then c == 'p' || c == 'P' else c == 'e' || c == 'E'
    match scanExponent marker rest with
    | (none, rest) => (none, rest)
    | (some exponent, rest) =>
        let value := (whole ++ fraction).foldl (fun v c => v * base + (digitValue c).getD 0) 0
        (some (.number negative hex value fraction.length exponent), rest)

/-- How many characters of a word a text starts with, upper case or lower case. -/
def agreeing : Text → Text → Nat
  | w :: word, c :: s => if c.toLower == w then agreeing word s + 1 else 0
  | _, _ => 0

/-- `inf` or `infinity`. -/
def scanInfinity (negative : Bool) (s : Text) : Option Literal × Text :=
  let n := agreeing "infinity".toList s
  (if n = 3 || n = 8 then some (.infinity negative) else none, s.drop n)

/-- `nan`, with an optional parenthesis of letters, digits and underscores. -/
def scanNan (negative : Bool) (s : Text) : Option Literal × Text :=
  let n := agreeing "nan".toList s
  if n < 3 then (none, s.drop n)
  else
    match s.drop 3 with
    | '(' :: rest =>
        match rest.dropWhile fun c => c.isAlphanum || c == '_' with
        | ')' :: rest => (some (.nan negative), rest)
        | rest => (none, rest)
    | rest => (some (.nan negative), rest)

/-- `fscanf(file, "%lf", &v)` on the rest of a file: what is converted, with what is left of the
file. The longest beginning of a number is taken from the file; the conversion fails, with
`none`, if it is not a number yet. -/
def scanDouble (s : Text) : Option Literal × Text :=
  let (negative, s) := sign (s.dropWhile isSpace)
  match s with
  | [] => (none, [])
  | c :: rest =>
      if c == 'i' || c == 'I' then scanInfinity negative s
      else if c == 'n' || c == 'N' then scanNan negative s
      else
        match rest with
        | x :: rest =>
            if c == '0' && (x == 'x' || x == 'X') then scanNumber negative true rest
            else scanNumber negative false s
        | [] => scanNumber negative false s

/-- The exact value of a number; an infinity and a NaN have none. -/
def Literal.value? : Literal → Option ℚ
  | .number negative hex digits fraction exponent =>
      let magnitude : ℚ := digits / (if hex then 16 else 10) ^ fraction *
        (if hex then 2 else 10) ^ exponent
      some (if negative then -magnitude else magnitude)
  | _ => none

/-! ### Rounding -/

/-- A rational rounded to a number of decimal places, a tie going to the even digit. -/
def roundTo (places : Nat) (q : ℚ) : ℚ :=
  let magnitude : ℚ := roundHalfEven (|q| * 10 ^ places) / 10 ^ places
  if q < 0 then -magnitude else magnitude

/-- Rounding moves a number by at most half a unit of the last place. -/
theorem roundTo_near (places : Nat) (q : ℚ) : |roundTo places q - q| ≤ 1 / 2 / 10 ^ places := by
  have unit : (0 : ℚ) < 10 ^ places := by positivity
  have scaled : ∀ x : ℚ, 0 ≤ x →
      |(roundHalfEven (x * 10 ^ places) : ℚ) / 10 ^ places - x| ≤ 1 / 2 / 10 ^ places := by
    intro x nonneg
    have near := roundHalfEven_near (q := x * 10 ^ places) (by positivity)
    have back : (roundHalfEven (x * 10 ^ places) : ℚ) / 10 ^ places - x =
        (roundHalfEven (x * 10 ^ places) - x * 10 ^ places) / 10 ^ places := by
      field_simp
    rw [back, abs_div, abs_of_pos unit]
    exact div_le_div_of_nonneg_right near unit.le
  simp only [roundTo]
  split
  · rename_i negative
    have near := scaled (-q) (by linarith)
    rw [abs_of_neg negative, ← abs_neg]
    convert near using 2
    ring
  · rename_i nonneg
    rw [abs_of_nonneg (not_lt.mp nonneg)]
    exact scaled q (not_lt.mp nonneg)

/-! ### Writing -/

/-- The last digits of a number, with leading zeros. -/
def padded : Nat → Nat → Text
  | 0, _ => []
  | places + 1, n => padded places (n / 10) ++ [Nat.digitChar (n % 10)]

/-- `printf("%.<places>f", q)` for at least one place. -/
def fixed (places : Nat) (q : ℚ) : Text :=
  let n := roundHalfEven (|q| * 10 ^ places)
  (if q < 0 then ['-'] else []) ++ Nat.toDigits 10 (n / 10 ^ places) ++ '.' :: padded places n

theorem length_padded (places n : Nat) : (padded places n).length = places := by
  induction places generalizing n with
  | zero => rfl
  | succ places ih => simp [padded, ih]

theorem isDigit_of_mem_padded (places n : Nat) : ∀ c ∈ padded places n, c.isDigit = true := by
  induction places generalizing n with
  | zero => simp [padded]
  | succ places ih =>
      intro c mem
      obtain front | last := List.mem_append.mp mem
      · exact ih _ c front
      · rw [List.mem_singleton.mp last]
        rw [Nat.isDigit_digitChar, decide_eq_true_eq]
        omega

theorem ofDigitChars_padded (places n init : Nat) :
    Nat.ofDigitChars 10 (padded places n) init = init * 10 ^ places + n % 10 ^ places := by
  induction places generalizing n init with
  | zero => simp [padded, Nat.mod_one]
  | succ places ih =>
      have last : n % 10 < 10 := Nat.mod_lt _ (by decide)
      rw [padded, Nat.ofDigitChars_append, ih, Nat.ofDigitChars_cons_digitChar_of_lt_ten last,
        Nat.ofDigitChars_nil, Nat.pow_succ, Nat.mul_comm (10 ^ places), Nat.mod_mul]
      ring

/-! ### Reading what was written -/

/-- A text behind a number that does not go on with it. -/
def EndsNumber (rest : Text) : Prop :=
  ∀ c ∈ rest.head?, c.isDigit = false ∧ c ≠ 'e' ∧ c ≠ 'E'

/-- Digits, a point and digits are one number. -/
theorem scanNumber_point (negative : Bool) {ds fs rest : Text} (written : ds ≠ [])
    (whole : ∀ c ∈ ds, c.isDigit = true) (fraction : ∀ c ∈ fs, c.isDigit = true)
    (ends : EndsNumber rest) :
    scanNumber negative false (ds ++ '.' :: (fs ++ rest)) =
      (some (.number negative false (Nat.ofDigitChars 10 (ds ++ fs) 0) fs.length 0), rest) := by
  have inside : ∀ c ∈ ds, isDigitOf 10 c = true := fun c mem => by
    rw [isDigitOf_ten, whole c mem]
  have behind : ∀ c ∈ fs, isDigitOf 10 c = true := fun c mem => by
    rw [isDigitOf_ten, fraction c mem]
  have point : isDigitOf 10 '.' = false := by decide
  have both : ∀ c ∈ ds ++ fs, c.isDigit = true := fun c mem =>
    (List.mem_append.mp mem).elim (whole c) (fraction c)
  have value := foldl_digitValue both 0
  have stops : rest.takeWhile (isDigitOf 10) = [] ∧ rest.dropWhile (isDigitOf 10) = rest ∧
      scanExponent (fun c => c == 'e' || c == 'E') rest = (some 0, rest) := by
    cases rest with
    | nil => exact ⟨rfl, rfl, rfl⟩
    | cons c rest =>
        obtain ⟨notDigit, lower, upper⟩ := ends c rfl
        have stop : isDigitOf 10 c = false := by rw [isDigitOf_ten, notDigit]
        simp [stop, scanExponent, lower, upper]
  have nonempty : (ds ++ fs).isEmpty = false := by simp [written]
  simp only [scanNumber, Bool.false_eq_true, if_false, List.takeWhile_append_of_pos inside,
    List.dropWhile_append_of_pos inside, List.takeWhile_cons, List.dropWhile_cons, point,
    scanFraction, List.takeWhile_append_of_pos behind, List.dropWhile_append_of_pos behind,
    stops, List.append_nil, nonempty, value]

/-- A text that starts with a digit, and not with a hexadecimal prefix, is scanned as a
decimal number, behind a minus sign as well. -/
theorem scanDouble_digit (negative : Bool) {c x : Char} (rest : Text)
    (digit : c.isDigit = true) (decimal : x ≠ 'x' ∧ x ≠ 'X') :
    scanDouble ((if negative then ['-'] else []) ++ c :: x :: rest) =
      scanNumber negative false (c :: x :: rest) := by
  have start : sign (((if negative then ['-'] else []) ++ c :: x :: rest).dropWhile isSpace) =
      (negative, c :: x :: rest) := by
    cases negative with
    | true => rfl
    | false => exact sign_dropWhile_digit digit _
  have differs : ∀ d : Char, d.isDigit = false → (c == d) = false := by
    intro d notDigit
    rw [beq_eq_false_iff_ne]
    rintro rfl
    cases digit.symm.trans notDigit
  simp [scanDouble, start, differs, decimal, Char.isDigit]

/-- White space in front of a number is skipped. -/
theorem scanDouble_dropWhile (s : Text) : scanDouble (s.dropWhile isSpace) = scanDouble s := by
  simp only [scanDouble, List.dropWhile_idempotent]

/-- What `printf` wrote is read back, up to the end of the number. -/
theorem scanDouble_fixed (places : Nat) (q : ℚ) {rest : Text} (ends : EndsNumber rest) :
    scanDouble (fixed places q ++ rest) =
      (some (.number (decide (q < 0)) false (roundHalfEven (|q| * 10 ^ places)) places 0),
        rest) := by
  generalize scaled : roundHalfEven (|q| * 10 ^ places) = n
  have whole : ∀ c ∈ Nat.toDigits 10 (n / 10 ^ places), c.isDigit = true := isDigit_of_mem
  have number := scanNumber_point (decide (q < 0)) Nat.toDigits_ne_nil whole
    (isDigit_of_mem_padded places n) ends
  obtain ⟨first, others, written, firstDigit⟩ := toDigits_eq_cons (n / 10 ^ places)
  rw [written] at whole
  obtain ⟨second, behind, split, decimal⟩ : ∃ second behind,
      others ++ '.' :: (padded places n ++ rest) = second :: behind ∧
        second ≠ 'x' ∧ second ≠ 'X' := by
    cases others with
    | nil => exact ⟨_, _, rfl, by decide, by decide⟩
    | cons second others =>
        have digit := whole second (by simp)
        refine ⟨_, _, rfl, ?_, ?_⟩
        · rintro rfl
          cases digit
        · rintro rfl
          cases digit
  have value : Nat.ofDigitChars 10 (Nat.toDigits 10 (n / 10 ^ places) ++ padded places n) 0 =
      n := by
    rw [Nat.ofDigitChars_append, Nat.ofDigitChars_ten_toDigits, ofDigitChars_padded,
      Nat.div_add_mod']
  rw [value, length_padded, written, List.cons_append, split] at number
  have text : fixed places q ++ rest =
      (if decide (q < 0) then ['-'] else []) ++ first :: second :: behind := by
    simp only [fixed, scaled, written, ← split]
    simp
  rw [text, scanDouble_digit _ _ firstDigit decimal, number]

/-- The number that is read back is the rounded one. -/
theorem value_written (places : Nat) (q : ℚ) :
    (Literal.number (decide (q < 0)) false (roundHalfEven (|q| * 10 ^ places)) places 0).value? =
      some (roundTo places q) := by
  simp [Literal.value?, roundTo]

end VNams.Lib.CText
