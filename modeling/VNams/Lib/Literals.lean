import Mathlib.Data.List.TakeWhile
import VNams.Lib.CText

/-!
Where a number in a text ends.

A number in front of a character that no number has (`Foreign`) is the same whatever follows
that character (`strtol_stop`), and a hexadecimal literal there is read to its end
(`strtol_hex`).
-/

namespace VNams.Lib.CText

/-- A character that no number has in it. -/
structure Foreign (c : Char) : Prop where
  space : isSpace c = false
  minus : c ≠ '-'
  plus : c ≠ '+'
  x : c ≠ 'x'
  upperX : c ≠ 'X'
  digit : isDigitOf 16 c = false

theorem Foreign.not_digit {c : Char} (foreign : Foreign c) {base : Nat} (le : base ≤ 16) :
    isDigitOf base c = false := by
  have notHex := foreign.digit
  unfold isDigitOf at notHex ⊢
  cases value : digitValue c with
  | none => rfl
  | some d =>
      simp only [value, decide_eq_false_iff_not] at notHex ⊢
      exact fun less => notHex (Nat.lt_of_lt_of_le less le)

variable {p : Char → Bool}

theorem takeWhile_stop {c : Char} (stops : p c = false) (b behind : Text) :
    (b ++ c :: behind).takeWhile p = b.takeWhile p := by
  induction b with
  | nil => simp [stops]
  | cons d b ih => rw [List.cons_append, List.takeWhile_cons, List.takeWhile_cons, ih]

theorem dropWhile_stop {c : Char} (stops : p c = false) (b behind : Text) :
    (b ++ c :: behind).dropWhile p = b.dropWhile p ++ c :: behind := by
  induction b with
  | nil => simp [stops]
  | cons d b ih =>
      rw [List.cons_append, List.dropWhile_cons, List.dropWhile_cons, ih]
      split <;> rfl

theorem digits_stop {base : Nat} {c : Char} (stops : isDigitOf base c = false) (b behind : Text) :
    digits base (b ++ c :: behind) = (digits base b).map fun r => (r.1, r.2 ++ c :: behind) := by
  unfold digits
  rw [takeWhile_stop stops, dropWhile_stop stops]
  split <;> rfl

theorem skipHexPrefix_cons (a b d : Char) (rest : Text) :
    skipHexPrefix (a :: b :: d :: rest) =
      if a = '0' ∧ (b = 'x' ∨ b = 'X') ∧ isDigitOf 16 d = true then some (d :: rest) else none := by
  by_cases zero : a = '0'
  · subst zero
    simp [skipHexPrefix]
  · unfold skipHexPrefix
    split
    · rename_i same
      exact absurd (List.cons.inj same).1 zero
    · rw [if_neg fun prefixed => zero prefixed.1]

theorem skipHexPrefix_short {s : Text} (short : s.length < 3) : skipHexPrefix s = none := by
  unfold skipHexPrefix
  split
  · simp only [List.length_cons] at short
    omega
  · rfl

theorem skipHexPrefix_stop {c : Char} (foreign : Foreign c) (b behind : Text) :
    skipHexPrefix (b ++ c :: behind) = (skipHexPrefix b).map (· ++ c :: behind) := by
  have notZero : c ≠ '0' := by
    rintro rfl
    exact absurd foreign.digit (by decide)
  match b with
  | [] =>
      match behind with
      | [] => simp [skipHexPrefix_short]
      | [d] => simp [skipHexPrefix_short]
      | d :: e :: rest => simp [skipHexPrefix_cons, notZero, skipHexPrefix_short]
  | [a] =>
      match behind with
      | [] => simp [skipHexPrefix_short]
      | d :: rest =>
          simp [skipHexPrefix_cons, foreign.x, foreign.upperX, skipHexPrefix_short]
  | [a, d] => simp [skipHexPrefix_cons, foreign.digit, skipHexPrefix_short]
  | a :: d :: e :: rest =>
      simp only [List.cons_append, skipHexPrefix_cons]
      split <;> rfl

theorem sign_cons (c : Char) (s : Text) : sign (c :: s) =
    if c = '-' then (true, s) else if c = '+' then (false, s) else (false, c :: s) := by
  unfold sign
  split
  · rename_i same
    cases same
    rfl
  · rename_i same
    cases same
    rfl
  · rename_i minus plus
    rw [if_neg fun same => minus s (by rw [same]), if_neg fun same => plus s (by rw [same])]

theorem sign_stop {c : Char} (foreign : Foreign c) (b behind : Text) :
    sign (b ++ c :: behind) = ((sign b).1, (sign b).2 ++ c :: behind) := by
  cases b with
  | nil =>
      rw [List.nil_append, sign_cons, if_neg foreign.minus, if_neg foreign.plus]
      rfl
  | cons d b =>
      rw [List.cons_append, sign_cons, sign_cons]
      split
      · rfl
      · split <;> rfl

/-- The prefix chooses the base. -/
theorem magnitude_zero (s : Text) : magnitude 0 s =
    match skipHexPrefix s with
    | some rest => digits 16 rest
    | none => if s.head? = some '0' then digits 8 s else digits 10 s := rfl

theorem magnitude_stop {c : Char} (foreign : Foreign c) (b behind : Text) :
    magnitude 0 (b ++ c :: behind) =
      (magnitude 0 b).map fun r => (r.1, r.2 ++ c :: behind) := by
  have zero : (b ++ c :: behind).head? = some '0' ↔ b.head? = some '0' := by
    cases b with
    | nil =>
        have notZero : c ≠ '0' := by
          rintro rfl
          exact absurd foreign.digit (by decide)
        simp [notZero]
    | cons d b => simp
  rw [magnitude_zero, magnitude_zero, skipHexPrefix_stop foreign]
  cases skipHexPrefix b with
  | some rest => exact digits_stop foreign.digit rest behind
  | none =>
      simp only [Option.map_none, zero]
      split
      · exact digits_stop (foreign.not_digit (by omega)) b behind
      · exact digits_stop (foreign.not_digit (by omega)) b behind

/-- A number in front of a character that no number has is the same whatever follows. -/
theorem strtol_stop {c : Char} (foreign : Foreign c) (b behind : Text) :
    strtol 0 (b ++ c :: behind) = ((strtol 0 b).1, (strtol 0 b).2 ++ c :: behind) := by
  unfold strtol
  rw [dropWhile_stop foreign.space, sign_stop foreign]
  simp only [magnitude_stop foreign]
  cases magnitude 0 (sign (b.dropWhile isSpace)).2 <;> rfl

/-- The number that hexadecimal digits stand for. -/
def hexNumber (ds : Text) : Nat := ds.foldl (fun v c => v * 16 + (digitValue c).getD 0) 0

/-- A hexadecimal literal is read to its end. -/
theorem strtol_hex {ds : Text} (written : ds ≠ []) (isDigits : ∀ c ∈ ds, isDigitOf 16 c = true)
    (fits : hexNumber ds < 2 ^ 63) {c : Char} (foreign : Foreign c) (behind : Text) :
    strtol 0 ('0' :: 'x' :: ds ++ c :: behind) = ((hexNumber ds : Int), c :: behind) := by
  obtain ⟨d, ds, rfl⟩ := List.exists_cons_of_ne_nil written
  have unsigned : sign (('0' :: 'x' :: d :: ds).dropWhile isSpace) =
      (false, '0' :: 'x' :: d :: ds) := rfl
  have skipped : skipHexPrefix ('0' :: 'x' :: d :: ds) = some (d :: ds) := by
    rw [skipHexPrefix_cons, if_pos ⟨rfl, .inl rfl, isDigits d List.mem_cons_self⟩]
  have read : digits 16 (d :: ds) = some (hexNumber (d :: ds), []) := by
    have all : (d :: ds).takeWhile (isDigitOf 16) = d :: ds :=
      List.takeWhile_eq_self_iff.mpr isDigits
    have rest : (d :: ds).dropWhile (isDigitOf 16) = [] := List.dropWhile_eq_nil_iff.mpr isDigits
    simp only [digits, all, rest, hexNumber]
  rw [strtol_stop foreign]
  simp only [strtol, unsigned, magnitude, skipped, read]
  simp
  omega

end VNams.Lib.CText
