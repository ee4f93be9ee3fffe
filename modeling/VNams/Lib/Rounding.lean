import Mathlib.Algebra.Order.Ring.Pow
import Mathlib.Data.Int.Log
import Mathlib.Data.Rat.Floor
import Mathlib.Tactic.FieldSimp
import Mathlib.Tactic.Linarith
import Mathlib.Tactic.Positivity
import Mathlib.Tactic.Ring

/-!
Numbers of a fixed number of binary digits.

A `Rounding` to `p` digits keeps the integers of `p` digits, does not see powers of two, and
moves a number by at most the `2 ^ p`-th part of it. The nearest number with a tie going to the
even one is such a rounding (`Rounding.toNearest`), and so is none at all (`Rounding.exact`).
What a chain of operations loses is counted in roundings (`Apart`): a step that rounds adds one,
and inverses and multiples lose no more than the numbers did.
-/

namespace VNams.Lib

/-- The nearest natural number to a rational that is not negative; a tie goes to the even
one. -/
def roundHalfEven (q : ℚ) : Nat :=
  let n := ⌊q⌋₊
  if q - n < 1 / 2 then n
  else if 1 / 2 < q - n then n + 1
  else if n % 2 = 0 then n
  else n + 1

theorem roundHalfEven_near {q : ℚ} (nonneg : 0 ≤ q) : |(roundHalfEven q : ℚ) - q| ≤ 1 / 2 := by
  have below := Nat.floor_le nonneg
  have above := Nat.lt_floor_add_one q
  rw [abs_le]
  simp only [roundHalfEven]
  split_ifs <;> push_cast <;> constructor <;> linarith

@[simp] theorem roundHalfEven_natCast (n : Nat) : roundHalfEven (n : ℚ) = n := by
  simp [roundHalfEven]

/-! ### The nearest number -/

/-- The power of two that the last of `p` digits of a number counts. -/
def lastPlace (p : Nat) (x : ℚ) : ℤ := Int.log 2 |x| + 1 - p

/-- A magnitude rounded to multiples of a power of two. -/
def roundAt (place : ℤ) (magnitude : ℚ) : ℚ := roundHalfEven (magnitude / 2 ^ place) * 2 ^ place

/-- The nearest number of `p` digits; a tie goes to the one whose last digit is even. -/
def nearestEven (p : Nat) (x : ℚ) : ℚ :=
  if x < 0 then -roundAt (lastPlace p x) |x| else roundAt (lastPlace p x) |x|

theorem zpow_pos_two (k : ℤ) : (0 : ℚ) < 2 ^ k := zpow_pos two_pos k

/-- The exponent of a number is that of the powers of two around it. -/
theorem log_eq {x : ℚ} {k : ℤ} (low : 2 ^ k ≤ x) (high : x < 2 ^ (k + 1)) : Int.log 2 x = k := by
  have positive : 0 < x := lt_of_lt_of_le (zpow_pos_two k) low
  apply le_antisymm
  · rw [← Int.lt_add_one_iff, ← Int.lt_zpow_iff_log_lt one_lt_two positive]
    exact_mod_cast high
  · rw [← Int.zpow_le_iff_le_log one_lt_two positive]
    exact_mod_cast low

/-- A number lies between the powers of two of its exponent. -/
theorem log_bounds {x : ℚ} (positive : 0 < x) :
    (2 : ℚ) ^ Int.log 2 x ≤ x ∧ x < 2 ^ (Int.log 2 x + 1) := by
  have low := Int.zpow_log_le_self (b := 2) one_lt_two positive
  have high := Int.lt_zpow_succ_log_self (b := 2) one_lt_two x
  exact ⟨by exact_mod_cast low, by exact_mod_cast high⟩

theorem nearestEven_zero (p : Nat) : nearestEven p 0 = 0 := by
  simp [nearestEven, roundAt, roundHalfEven]

theorem nearestEven_neg (p : Nat) (x : ℚ) : nearestEven p (-x) = -nearestEven p x := by
  rcases lt_trichotomy x 0 with negative | rfl | positive
  · have positive : ¬ -x < 0 := by linarith
    simp only [nearestEven, if_pos negative, if_neg positive, lastPlace, abs_neg, neg_neg]
  · rw [neg_zero, nearestEven_zero, neg_zero]
  · have negative : -x < 0 := by linarith
    simp only [nearestEven, if_pos negative, if_neg positive.not_gt, lastPlace, abs_neg]

theorem nearestEven_of_pos {p : Nat} {x : ℚ} (positive : 0 < x) :
    nearestEven p x = roundAt (Int.log 2 x + 1 - p) x := by
  rw [nearestEven, if_neg positive.not_gt, lastPlace, abs_of_pos positive]

/-- Rounding to multiples moves a number by half of one at most. -/
theorem roundAt_near (place : ℤ) {x : ℚ} (nonneg : 0 ≤ x) :
    |roundAt place x - x| ≤ 2 ^ place / 2 := by
  have unit := zpow_pos_two place
  have near := roundHalfEven_near (q := x / 2 ^ place) (by positivity)
  have split : roundAt place x - x =
      ((roundHalfEven (x / 2 ^ place) : ℚ) - x / 2 ^ place) * 2 ^ place := by
    rw [roundAt, sub_mul, div_mul_cancel₀ _ unit.ne']
  rw [split, abs_mul, abs_of_pos unit]
  calc |(roundHalfEven (x / 2 ^ place) : ℚ) - x / 2 ^ place| * 2 ^ place ≤ 1 / 2 * 2 ^ place :=
        mul_le_mul_of_nonneg_right near unit.le
    _ = 2 ^ place / 2 := by ring

/-- The nearest number is as near as the last digit allows. -/
theorem nearestEven_near (p : Nat) (x : ℚ) : |nearestEven p x - x| ≤ |x| / 2 ^ p := by
  have positive : ∀ y : ℚ, 0 < y → |nearestEven p y - y| ≤ |y| / 2 ^ p := by
    intro y pos
    have half : (2 : ℚ) ^ (Int.log 2 y + 1 - p) / 2 = 2 ^ Int.log 2 y / 2 ^ p := by
      rw [zpow_sub₀ two_ne_zero, zpow_add₀ two_ne_zero, zpow_one, zpow_natCast]
      ring
    rw [nearestEven_of_pos pos, abs_of_pos pos]
    calc |roundAt (Int.log 2 y + 1 - p) y - y| ≤ 2 ^ (Int.log 2 y + 1 - p) / 2 :=
          roundAt_near _ pos.le
      _ = 2 ^ Int.log 2 y / 2 ^ p := half
      _ ≤ y / 2 ^ p := div_le_div_of_nonneg_right (log_bounds pos).1 (by positivity)
  rcases lt_trichotomy x 0 with negative | rfl | pos
  · have near := positive (-x) (by linarith)
    rw [nearestEven_neg, abs_neg, neg_sub_neg, abs_sub_comm] at near
    exact near
  · rw [nearestEven_zero, sub_zero, abs_zero, zero_div]
  · exact positive x pos

/-- The digits of a number stay the same when it is multiplied by a power of two. -/
theorem nearestEven_scale (p : Nat) (x : ℚ) (k : ℤ) :
    nearestEven p (x * 2 ^ k) = nearestEven p x * 2 ^ k := by
  have positive : ∀ y : ℚ, 0 < y → nearestEven p (y * 2 ^ k) = nearestEven p y * 2 ^ k := by
    intro y pos
    obtain ⟨low, high⟩ := log_bounds pos
    have unit := zpow_pos_two k
    have exponent : Int.log 2 (y * 2 ^ k) = Int.log 2 y + k := by
      apply log_eq
      · rw [zpow_add₀ two_ne_zero]
        exact mul_le_mul_of_nonneg_right low unit.le
      · rw [add_right_comm, zpow_add₀ two_ne_zero]
        exact mul_lt_mul_of_pos_right high unit
    have place : Int.log 2 (y * 2 ^ k) + 1 - p = Int.log 2 y + 1 - p + k := by
      rw [exponent]
      ring
    rw [nearestEven_of_pos (mul_pos pos unit), nearestEven_of_pos pos, place, roundAt, roundAt,
      zpow_add₀ two_ne_zero, mul_div_mul_right _ _ unit.ne', mul_assoc]
  rcases lt_trichotomy x 0 with negative | rfl | pos
  · have same := positive (-x) (by linarith)
    rwa [neg_mul, nearestEven_neg, nearestEven_neg, neg_mul, neg_inj] at same
  · rw [zero_mul, nearestEven_zero, zero_mul]
  · exact positive x pos

/-- A multiple of a power of two with `p` digits is kept. -/
theorem nearestEven_digits {p n : Nat} (some : 0 < p) (fits : n ≤ 2 ^ p) :
    nearestEven p n = n := by
  rcases Nat.eq_zero_or_pos n with rfl | pos
  · rw [Nat.cast_zero, nearestEven_zero]
  have isPos : (0 : ℚ) < n := Nat.cast_pos.mpr pos
  rw [nearestEven_of_pos isPos, Int.log_natCast, roundAt]
  -- the last place counts a divisor of the number: a unit of it below 2 ^ p, else 2
  obtain ⟨m, whole⟩ : ∃ m : Nat, (n : ℚ) / 2 ^ ((Nat.log 2 n : ℤ) + 1 - p) = m := by
    rcases Nat.eq_or_lt_of_le fits with rfl | small
    · refine ⟨2 ^ (p - 1), ?_⟩
      have place : ((Nat.log 2 (2 ^ p) : ℕ) : ℤ) + 1 - p = 1 := by
        rw [Nat.log_pow one_lt_two]
        ring
      rw [place, zpow_one, div_eq_iff two_ne_zero, Nat.cast_pow, Nat.cast_pow, Nat.cast_ofNat,
        ← pow_succ, Nat.sub_add_cancel some]
    · have digits : Nat.log 2 n < p := Nat.log_lt_of_lt_pow pos.ne' small
      obtain ⟨rest, split⟩ := Nat.exists_eq_add_of_lt digits
      refine ⟨n * 2 ^ rest, ?_⟩
      have place : ((Nat.log 2 n : ℕ) : ℤ) + 1 - p = -(rest : ℤ) := by
        rw [split]
        push_cast
        ring
      rw [place, zpow_neg, zpow_natCast, div_inv_eq_mul]
      push_cast
      rfl
  rw [whole, roundHalfEven_natCast, ← whole, div_mul_cancel₀ _ (zpow_pos_two _).ne']

/-- What is rounded has `p` digits. -/
theorem nearestEven_idem {p : Nat} (some : 0 < p) (x : ℚ) :
    nearestEven p (nearestEven p x) = nearestEven p x := by
  have positive : ∀ y : ℚ, 0 < y → nearestEven p (nearestEven p y) = nearestEven p y := by
    intro y pos
    have unit := zpow_pos_two (Int.log 2 y + 1 - p)
    rw [nearestEven_of_pos pos, roundAt, nearestEven_scale, nearestEven_digits some]
    have below : y / 2 ^ (Int.log 2 y + 1 - p) < 2 ^ p := by
      rw [div_lt_iff₀ unit, ← zpow_natCast, ← zpow_add₀ two_ne_zero]
      have place : (p : ℤ) + (Int.log 2 y + 1 - p) = Int.log 2 y + 1 := by ring
      rw [place]
      exact (log_bounds pos).2
    have near := (abs_le.mp (roundHalfEven_near (div_nonneg pos.le unit.le))).2
    by_contra more
    have least : (2 : ℚ) ^ p + 1 ≤ roundHalfEven (y / 2 ^ (Int.log 2 y + 1 - p)) := by
      exact_mod_cast not_le.mp more
    linarith
  rcases lt_trichotomy x 0 with negative | rfl | pos
  · have same := positive (-x) (by linarith)
    rwa [nearestEven_neg, nearestEven_neg, neg_inj] at same
  · rw [nearestEven_zero, nearestEven_zero]
  · exact positive x pos

/-! ### Roundings -/

/-- A rounding of exact results to numbers of `p` binary digits. -/
structure Rounding (p : Nat) where
  round : ℚ → ℚ
  near : ∀ x, |round x - x| ≤ |x| / 2 ^ p
  scale : ∀ (x : ℚ) (k : ℤ), round (x * 2 ^ k) = round x * 2 ^ k
  idem : ∀ x, round (round x) = round x
  keeps : ∀ n : Nat, n ≤ 2 ^ p → round n = n

namespace Rounding

/-- Exact arithmetic rounds nothing. -/
def exact (p : Nat) : Rounding p where
  round x := x
  near x := by
    rw [sub_self, abs_zero]
    positivity
  scale _ _ := rfl
  idem _ := rfl
  keeps _ _ := rfl

/-- To the nearest number, a tie to the even one. -/
def toNearest (p : Nat) (some : 0 < p) : Rounding p where
  round := nearestEven p
  near := nearestEven_near p
  scale := nearestEven_scale p
  idem := nearestEven_idem some
  keeps _ := nearestEven_digits some

variable {p : Nat} (r : Rounding p)

@[simp] theorem round_zero : r.round 0 = 0 := by
  simpa using r.keeps 0 (Nat.zero_le _)

/-- A rounding is off by a part of what is rounded. -/
theorem bounds {x : ℚ} (nonneg : 0 ≤ x) :
    x * (1 - 1 / 2 ^ p) ≤ r.round x ∧ r.round x ≤ x * (1 + 1 / 2 ^ p) := by
  have near := abs_le.mp (r.near x)
  rw [abs_of_nonneg nonneg] at near
  have part : x / 2 ^ p = x * (1 / 2 ^ p) := by ring
  rw [part] at near
  constructor
  · linarith [near.1]
  · linarith [near.2]

theorem round_nonneg {x : ℚ} (nonneg : 0 ≤ x) : 0 ≤ r.round x := by
  have small : (1 : ℚ) / 2 ^ p ≤ 1 := (div_le_one (by positivity)).mpr (one_le_pow₀ one_le_two)
  exact le_trans (mul_nonneg nonneg (by linarith)) (r.bounds nonneg).1

theorem round_pos (some : 0 < p) {x : ℚ} (positive : 0 < x) : 0 < r.round x := by
  have small : (1 : ℚ) / 2 ^ p < 1 :=
    (div_lt_one (by positivity)).mpr (one_lt_pow₀ one_lt_two some.ne')
  exact lt_of_lt_of_le (mul_pos positive (by linarith)) (r.bounds positive.le).1

end Rounding

/-! ### What a chain of roundings loses -/

/-- Two positive numbers are apart by no more than `n` roundings to `p` digits. -/
structure Apart (p n : Nat) (x y : ℚ) : Prop where
  above : x * (1 - 1 / 2 ^ p) ^ n ≤ y
  below : y * (1 - 1 / 2 ^ p) ^ n ≤ x

namespace Apart

variable {p n m : Nat} {x y z : ℚ}

/-- What is left of a number after a rounding. -/
theorem part_nonneg (p : Nat) : (0 : ℚ) ≤ 1 - 1 / 2 ^ p := by
  have small : (1 : ℚ) / 2 ^ p ≤ 1 := (div_le_one (by positivity)).mpr (one_le_pow₀ one_le_two)
  linarith

theorem refl (p : Nat) (x : ℚ) : Apart p 0 x x := ⟨by simp, by simp⟩

theorem symm (apart : Apart p n x y) : Apart p n y x := ⟨apart.below, apart.above⟩

theorem trans (first : Apart p m x y) (second : Apart p n y z) : Apart p (m + n) x z := by
  have rest := pow_nonneg (part_nonneg p)
  refine ⟨?_, ?_⟩
  · calc x * (1 - 1 / 2 ^ p) ^ (m + n) = x * (1 - 1 / 2 ^ p) ^ m * (1 - 1 / 2 ^ p) ^ n := by
          rw [pow_add, mul_assoc]
      _ ≤ y * (1 - 1 / 2 ^ p) ^ n := mul_le_mul_of_nonneg_right first.above (rest n)
      _ ≤ z := second.above
  · calc z * (1 - 1 / 2 ^ p) ^ (m + n) = z * (1 - 1 / 2 ^ p) ^ n * (1 - 1 / 2 ^ p) ^ m := by
          rw [pow_add, mul_assoc, mul_comm ((1 - 1 / 2 ^ p) ^ m)]
      _ ≤ y * (1 - 1 / 2 ^ p) ^ m := mul_le_mul_of_nonneg_right second.below (rest m)
      _ ≤ x := first.below

theorem nonneg (apart : Apart p n x y) (nonneg : 0 ≤ x) : 0 ≤ y :=
  le_trans (mul_nonneg nonneg (pow_nonneg (part_nonneg p) n)) apart.above

theorem pos (apart : Apart p n x y) (some : 0 < p) (positive : 0 < x) : 0 < y := by
  have small : (1 : ℚ) / 2 ^ p < 1 :=
    (div_lt_one (by positivity)).mpr (one_lt_pow₀ one_lt_two some.ne')
  exact lt_of_lt_of_le (mul_pos positive (pow_pos (by linarith) n)) apart.above

/-- One rounding. -/
theorem round (r : Rounding p) (nonneg : 0 ≤ x) : Apart p 1 x (r.round x) := by
  obtain ⟨low, high⟩ := r.bounds nonneg
  refine ⟨by rwa [pow_one], ?_⟩
  have small : (0 : ℚ) ≤ (1 / 2 ^ p) * (1 / 2 ^ p) := by positivity
  calc r.round x * (1 - 1 / 2 ^ p) ^ 1 ≤ x * (1 + 1 / 2 ^ p) * (1 - 1 / 2 ^ p) := by
        rw [pow_one]
        exact mul_le_mul_of_nonneg_right high (part_nonneg p)
    _ = x - x * ((1 / 2 ^ p) * (1 / 2 ^ p)) := by ring
    _ ≤ x := by linarith [mul_nonneg nonneg small]

theorem mul_left {c : ℚ} (nonneg : 0 ≤ c) (apart : Apart p n x y) : Apart p n (c * x) (c * y) := by
  refine ⟨?_, ?_⟩
  · rw [mul_assoc]
    exact mul_le_mul_of_nonneg_left apart.above nonneg
  · rw [mul_assoc]
    exact mul_le_mul_of_nonneg_left apart.below nonneg

theorem mul_right {c : ℚ} (nonneg : 0 ≤ c) (apart : Apart p n x y) : Apart p n (x * c) (y * c) := by
  rw [mul_comm x, mul_comm y]
  exact apart.mul_left nonneg

theorem div_right {c : ℚ} (nonneg : 0 ≤ c) (apart : Apart p n x y) : Apart p n (x / c) (y / c) := by
  rw [div_eq_mul_inv, div_eq_mul_inv]
  exact apart.mul_right (inv_nonneg.mpr nonneg)

/-- Quotients by the two numbers. -/
theorem div_left {c : ℚ} (nonneg : 0 ≤ c) (positive : 0 < x) (positive' : 0 < y)
    (apart : Apart p n x y) : Apart p n (c / x) (c / y) := by
  refine ⟨?_, ?_⟩
  · rw [div_mul_eq_mul_div, div_le_div_iff₀ positive positive', mul_assoc,
      mul_comm _ y]
    exact mul_le_mul_of_nonneg_left apart.below nonneg
  · rw [div_mul_eq_mul_div, div_le_div_iff₀ positive' positive, mul_assoc,
      mul_comm _ x]
    exact mul_le_mul_of_nonneg_left apart.above nonneg

/-- The difference is a part of either number. -/
theorem sub_le (apart : Apart p n x y) (nonneg : 0 ≤ x) : x - y ≤ x * (n / 2 ^ p) := by
  have some : (1 : ℚ) - n * (1 / 2 ^ p) ≤ (1 - 1 / 2 ^ p) ^ n := by
    have bernoulli := one_add_mul_le_pow (a := -(1 / 2 ^ p : ℚ))
      (by linarith [part_nonneg p]) n
    rw [mul_neg, ← sub_eq_add_neg, ← sub_eq_add_neg] at bernoulli
    exact bernoulli
  have kept := le_trans (mul_le_mul_of_nonneg_left some nonneg) apart.above
  have split : x * (1 - n * (1 / 2 ^ p)) = x - x * (n / 2 ^ p) := by ring
  linarith

/-- Numbers of few digits are less than one apart. -/
theorem sub_lt_one (apart : Apart p n x y) (nonneg : 0 ≤ x) (small : (x + 1) * n < 2 ^ p) :
    x - 1 < y ∧ y < x + 1 := by
  have unit : (0 : ℚ) < 2 ^ p := by positivity
  have count : (0 : ℚ) ≤ n := Nat.cast_nonneg n
  have part : (x + 1) * (n / 2 ^ p) < 1 := by
    rwa [mul_div_assoc', div_lt_one unit]
  have some : (0 : ℚ) ≤ n / 2 ^ p := div_nonneg count unit.le
  have less := apart.sub_le nonneg
  have more := apart.symm.sub_le (apart.nonneg nonneg)
  constructor
  · nlinarith
  · by_contra far
    -- what is lost grows by less than the number does
    have all : (n : ℚ) / 2 ^ p ≤ 1 := by nlinarith
    nlinarith [mul_le_mul_of_nonneg_right (not_lt.mp far) (sub_nonneg.mpr all)]

/-- So are what they are without what is behind the point. -/
theorem floor_le (apart : Apart p n x y) (nonneg : 0 ≤ x) (small : (x + 1) * n < 2 ^ p) :
    ⌊y⌋₊ ≤ ⌊x⌋₊ + 1 ∧ ⌊x⌋₊ ≤ ⌊y⌋₊ + 1 := by
  obtain ⟨low, high⟩ := apart.sub_lt_one nonneg small
  rw [← Nat.floor_add_one nonneg, ← Nat.floor_add_one (apart.nonneg nonneg)]
  exact ⟨Nat.floor_le_floor high.le, Nat.floor_le_floor (by linarith)⟩

end Apart

end VNams.Lib
