import Mathlib.Data.Int.ModEq
import Mathlib.Data.UInt

/-!
Differences of 64-bit counters, as integers.

An unsigned difference is exact while the counter does not decrease and 2⁶⁴ too large when
it does (`toNat_sub_add`), so a sum of differences is decided by how many of the counters
decreased. `Represents` is the same for computations of any length, whose intermediate
values may wrap any number of times.
-/

namespace VNams.Lib

/-- One if the counter decreased. -/
def wraps (last now : UInt64) : Nat := if now < last then 1 else 0

/-- The difference and the last value make up the new value, and 2⁶⁴ more if it wrapped. -/
theorem toNat_sub_add (now last : UInt64) :
    (now - last).toNat + last.toNat = now.toNat + wraps last now * 2 ^ 64 := by
  have small := now.toNat_lt
  have small' := last.toNat_lt
  simp only [wraps, UInt64.toNat_sub, UInt64.lt_iff_toNat_lt]
  split <;> omega

/-- A counter that did not decrease did not wrap. -/
theorem wraps_of_le {last now : UInt64} (le : last ≤ now) : wraps last now = 0 :=
  if_neg (UInt64.not_lt.mpr le)

/-- The word is the integer modulo 2⁶⁴. -/
def Represents (x : UInt64) (n : Int) : Prop := (x.toNat : Int) ≡ n [ZMOD 2 ^ 64]

theorem Represents.toNat (x : UInt64) : Represents x x.toNat := Int.ModEq.refl _

theorem Represents.add {x y : UInt64} {m n : Int} (first : Represents x m)
    (second : Represents y n) : Represents (x + y) (m + n) := by
  have sum : ((x + y).toNat : Int) ≡ x.toNat + y.toNat [ZMOD 2 ^ 64] := by
    rw [UInt64.toNat_add]
    push_cast
    exact Int.mod_modEq _ _
  exact sum.trans (Int.ModEq.add first second)

theorem Represents.sub {x y : UInt64} {m n : Int} (first : Represents x m)
    (second : Represents y n) : Represents (x - y) (m - n) := by
  have difference : ((x - y).toNat : Int) ≡ x.toNat - y.toNat [ZMOD 2 ^ 64] := by
    have small := y.toNat_lt
    rw [UInt64.toNat_sub, Int.ModEq]
    omega
  exact difference.trans (Int.ModEq.sub first second)

/-- The value of a word that represents an integer. -/
theorem Represents.toNat_eq {x : UInt64} {n : Int} (represents : Represents x n) :
    (x.toNat : Int) = n % 2 ^ 64 := by
  have small := x.toNat_lt
  rw [← represents]
  exact (Int.emod_eq_of_lt (by omega) (by omega)).symm

end VNams.Lib
