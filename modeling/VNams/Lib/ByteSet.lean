import Mathlib.Data.List.Basic

/-!
A row of bytes as a set of numbers: the number `c` is in the set when bit `c % 8` of byte
`c / 8` is on.

`bit_set` is the rule for switching one bit on, however the new byte is computed, and
`eq_of_bit` says that rows of one length with the same set are the same row.
-/

namespace VNams.Lib

/-- Whether the number is in the set. -/
def bit (bytes : List UInt8) (c : Nat) : Bool := (bytes.getD (c / 8) 0).toNat.testBit (c % 8)

/-- A cleared row is the empty set. -/
theorem bit_clear (length c : Nat) : bit (List.replicate length 0) c = false := by
  unfold bit
  rw [List.getD_eq_getElem?_getD, List.getElem?_replicate]
  split <;> simp

/-- The new byte has bit `n % 8` besides the bits that it had: the set has got `n`. -/
theorem bit_set {bytes : List UInt8} {n : Nat} {old byte : UInt8}
    (here : bytes[n / 8]? = some old)
    (switched : ∀ i < 8, byte.toNat.testBit i = (old.toNat.testBit i || decide (i = n % 8)))
    (c : Nat) : bit (bytes.set (n / 8) byte) c = (bit bytes c || decide (c = n)) := by
  have inside : n / 8 < bytes.length := (List.getElem?_eq_some_iff.mp here).1
  unfold bit
  rw [List.getD_eq_getElem?_getD, List.getD_eq_getElem?_getD]
  by_cases same : n / 8 = c / 8
  · have cell : (bytes.set (n / 8) byte)[c / 8]? = some byte := by
      rw [← same, List.getElem?_set_self inside]
    have number : (c % 8 = n % 8) ↔ c = n := by omega
    rw [cell, ← same, here, Option.getD_some, Option.getD_some,
      switched (c % 8) (Nat.mod_lt c (by omega))]
    simp only [number]
  · have other : c ≠ n := by
      rintro rfl
      exact same rfl
    rw [List.getElem?_set_ne same]
    simp [other]

/-- Bytes with the same bits are equal. -/
theorem byte_eq_of_testBit {a b : UInt8} (same : ∀ i < 8, a.toNat.testBit i = b.toNat.testBit i) :
    a = b := by
  apply UInt8.toNat_inj.mp
  apply Nat.eq_of_testBit_eq
  intro i
  by_cases low : i < 8
  · exact same i low
  · have bound : 2 ^ 8 ≤ 2 ^ i := Nat.pow_le_pow_right (by omega) (by omega)
    rw [Nat.testBit_lt_two_pow (Nat.lt_of_lt_of_le a.toNat_lt bound),
      Nat.testBit_lt_two_pow (Nat.lt_of_lt_of_le b.toNat_lt bound)]

/-- The set determines the row of a given length. -/
theorem eq_of_bit {bytes bytes' : List UInt8} (length : bytes.length = bytes'.length)
    (same : ∀ c, bit bytes c = bit bytes' c) : bytes = bytes' := by
  apply List.ext_getElem length
  intro k inside inside'
  apply byte_eq_of_testBit
  intro i low
  have number := same (8 * k + i)
  have cell : (8 * k + i) / 8 = k := by omega
  have place : (8 * k + i) % 8 = i := by omega
  unfold bit at number
  simpa [cell, place, inside, inside'] using number

end VNams.Lib
