import VNams.Lib.Rounding
import VNams.Types

/-!
Doubles that round.

`Double` has no laws. Where a result depends on what the numbers are worth, it is stated for
`Rounded` numbers: each has an exact value, and an operation rounds the exact result. Exact
arithmetic is such a type, and so is `Binary64`, the nearest number of 53 digits with a tie
going to the even one. The exponents are not bounded: no value that the results are about comes
near the ends of those of a `double`. A division by zero has no value.
-/

namespace VNams

open Lib

/-- Numbers that are worth what the exact operations give, rounded. -/
class Rounded (D : Type) extends Double D where
  val : D → ℚ
  rounding : Rounding 53
  /-- an exact number, as it is stored -/
  ofRat : ℚ → D
  val_ofRat : ∀ q, val (ofRat q) = rounding.round q
  ofInt_eq : ∀ n : Int, toDouble.ofInt n = ofRat n
  val_add : ∀ x y : D, val (x + y) = rounding.round (val x + val y)
  val_mul : ∀ x y : D, val (x * y) = rounding.round (val x * val y)
  val_div : ∀ x y : D, val y ≠ 0 → val (x / y) = rounding.round (val x / val y)
  lt_iff : ∀ x y : D, x < y ↔ val x < val y
  le_iff : ∀ x y : D, x ≤ y ↔ val x ≤ val y

namespace Rounded

variable {D : Type} [Rounded D]

/-- What a number becomes when it is stored. -/
def stored (D : Type) [Rounded D] (q : ℚ) : ℚ := (rounding (D := D)).round q

theorem val_ofInt (n : Int) : val (Double.ofInt n : D) = stored D n := by
  rw [ofInt_eq, val_ofRat]
  rfl

theorem val_ofNat (n : Nat) : val (Double.ofInt n : D) = stored D n := by
  rw [val_ofInt, Int.cast_natCast]

/-- An integer of 53 digits is kept. -/
theorem stored_natCast {n : Nat} (small : n ≤ 2 ^ 53) : stored D n = n :=
  (rounding (D := D)).keeps n small

theorem val_ofNat_of_le {n : Nat} (small : n ≤ 2 ^ 53) : val (Double.ofInt n : D) = n := by
  rw [val_ofNat, stored_natCast small]

theorem stored_pos {q : ℚ} (positive : 0 < q) : 0 < stored D q :=
  (rounding (D := D)).round_pos (by decide) positive

theorem stored_nonneg {q : ℚ} (nonneg : 0 ≤ q) : 0 ≤ stored D q :=
  (rounding (D := D)).round_nonneg nonneg

/-- What is stored is one rounding away. -/
theorem apart_stored {q : ℚ} (nonneg : 0 ≤ q) : Apart 53 1 q (stored D q) :=
  .round (rounding (D := D)) nonneg

/-! ### Chains of operations -/

theorem val_ofNat_nonneg (n : Nat) : 0 ≤ val (Double.ofInt n : D) := by
  rw [val_ofNat]
  exact stored_nonneg (Nat.cast_nonneg n)

theorem val_ofNat_pos {n : Nat} (positive : 0 < n) : 0 < val (Double.ofInt n : D) := by
  rw [val_ofNat]
  exact stored_pos (Nat.cast_pos.mpr positive)

theorem apart_ofNat (n : Nat) : Apart 53 1 n (val (Double.ofInt n : D)) := by
  rw [val_ofNat]
  exact apart_stored (Nat.cast_nonneg n)

/-- A product is a rounding more away than its first factor. -/
theorem apart_mul {q : ℚ} {n : Nat} {x y : D} (nonneg : 0 ≤ val x) (nonneg' : 0 ≤ val y)
    (apart : Apart 53 n q (val x)) :
    Apart 53 (n + 1) (q * val y) (val (x * y)) ∧ 0 ≤ val (x * y) := by
  rw [val_mul]
  have whole := mul_nonneg nonneg nonneg'
  exact ⟨(apart.mul_right nonneg').trans (apart_stored whole), stored_nonneg whole⟩

/-- A quotient is a rounding more away than its two numbers. -/
theorem apart_div {q r : ℚ} {n m : Nat} {x y : D} (nonneg : 0 ≤ q) (nonneg' : 0 ≤ val x)
    (positive : 0 < r) (positive' : 0 < val y) (first : Apart 53 n q (val x))
    (second : Apart 53 m r (val y)) : Apart 53 (m + n + 1) (q / r) (val (x / y)) := by
  rw [val_div x y positive'.ne']
  have divided := (second.div_left nonneg positive positive').trans (first.div_right positive'.le)
  exact divided.trans (apart_stored (div_nonneg nonneg' positive'.le))

end Rounded

/-- Exact arithmetic does not round. -/
instance : Rounded ℚ where
  toDouble := Double.exact
  val x := x
  rounding := .exact 53
  ofRat q := q
  val_ofRat _ := rfl
  ofInt_eq _ := rfl
  val_add _ _ := rfl
  val_mul _ _ := rfl
  val_div _ _ _ := rfl
  lt_iff _ _ := Iff.rfl
  le_iff _ _ := Iff.rfl

/-- A number of 53 binary digits. -/
structure Binary64 where
  val : ℚ
  digits : nearestEven 53 val = val
  deriving DecidableEq

namespace Binary64

/-- The nearest of them. -/
def ofRat (q : ℚ) : Binary64 := ⟨nearestEven 53 q, nearestEven_idem (by decide) q⟩

instance : Rounded Binary64 where
  add x y := ofRat (x.val + y.val)
  sub x y := ofRat (x.val - y.val)
  mul x y := ofRat (x.val * y.val)
  div x y := ofRat (x.val / y.val)
  lt x y := x.val < y.val
  le x y := x.val ≤ y.val
  ofInt n := ofRat n
  decLt x y := inferInstanceAs (Decidable (x.val < y.val))
  decLe x y := inferInstanceAs (Decidable (x.val ≤ y.val))
  val := Binary64.val
  rounding := .toNearest 53 (by decide)
  ofRat := ofRat
  val_ofRat _ := rfl
  ofInt_eq _ := rfl
  val_add _ _ := rfl
  val_mul _ _ := rfl
  val_div _ _ _ := rfl
  lt_iff _ _ := Iff.rfl
  le_iff _ _ := Iff.rfl

end Binary64

end VNams
