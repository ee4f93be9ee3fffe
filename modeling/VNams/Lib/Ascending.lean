import Mathlib.Data.List.Sort
import Mathlib.Data.Finset.Card
import Mathlib.Data.List.Range

/-!
Strictly ascending lists of natural numbers: when a number stands at the position it names.
-/

namespace VNams.Lib

variable {l : List Nat}

/-- If every number is below the length the list is the range. -/
theorem eq_range_of_lt_length (ascending : l.Pairwise (· < ·)) (below : ∀ c ∈ l, c < l.length) :
    l = List.range l.length := by
  refine ascending.sortedLT.eq_of_mem_iff (List.sortedLT_range l.length) fun c => ?_
  have nodup : l.Nodup := ascending.imp fun less => Nat.ne_of_lt less
  have all : l.toFinset = Finset.range l.length := by
    refine Finset.eq_of_subset_of_card_le (fun c mem => ?_) ?_
    · exact Finset.mem_range.mpr (below c (List.mem_toFinset.mp mem))
    · rw [Finset.card_range, List.toFinset_card_of_nodup nodup]
  rw [← List.mem_toFinset, all, Finset.mem_range, List.mem_range]

/-- Numbers in order stand at positions in order. -/
theorem lt_of_getElem?_lt (ascending : l.Pairwise (· < ·)) {i j a b : Nat} (first : l[i]? = some a)
    (second : l[j]? = some b) (less : a < b) : i < j := by
  obtain ⟨iIn, rfl⟩ := List.getElem?_eq_some_iff.mp first
  obtain ⟨jIn, rfl⟩ := List.getElem?_eq_some_iff.mp second
  by_contra notBefore
  rcases Nat.lt_or_eq_of_le (Nat.not_lt.mp notBefore) with after | same
  · exact absurd (List.pairwise_iff_getElem.mp ascending j i jIn iIn after) (Nat.lt_asymm less)
  · subst same
    exact Nat.lt_irrefl _ less

/-- If all numbers up to `c` are there, `c` stands at position `c`. -/
theorem getElem?_eq_self (ascending : l.Pairwise (· < ·)) {c : Nat} (all : ∀ x ≤ c, x ∈ l) :
    l[c]? = some c := by
  induction c with
  | zero =>
      obtain ⟨j, at_⟩ := List.getElem?_of_mem (all 0 (Nat.le_refl 0))
      cases j with
      | zero => exact at_
      | succ j =>
          obtain ⟨inRange, _⟩ := List.getElem?_eq_some_iff.mp at_
          have first := List.getElem?_eq_getElem (l := l) (show 0 < l.length by omega)
          have less := List.pairwise_iff_getElem.mp ascending 0 (j + 1) (by omega) inRange
            (Nat.succ_pos j)
          rw [List.getElem?_eq_getElem inRange, Option.some.injEq] at at_
          omega
  | succ c ih =>
      have before := ih fun x le => all x (Nat.le_succ_of_le le)
      obtain ⟨j, at_⟩ := List.getElem?_of_mem (all (c + 1) (Nat.le_refl _))
      have after := lt_of_getElem?_lt ascending before at_ (Nat.lt_succ_self c)
      rcases Nat.lt_or_eq_of_le (Nat.succ_le_of_lt after) with later | same
      · obtain ⟨inRange, here⟩ := List.getElem?_eq_some_iff.mp at_
        obtain ⟨inRange', here'⟩ := List.getElem?_eq_some_iff.mp before
        have low := List.pairwise_iff_getElem.mp ascending c (c + 1) inRange' (by omega) (by omega)
        have high := List.pairwise_iff_getElem.mp ascending (c + 1) j (by omega) inRange later
        omega
      · cases same
        exact at_

end VNams.Lib
