import Mathlib.Data.List.Sort
import Mathlib.Data.List.Perm.Basic

/-!
An unstable sort, with its freedom kept.

A library sort that is not stable may order ties any way it likes, and need not
order them the same way twice. `UnstableSort` is therefore a parameter of the
programs that call it: a rearrangement for every call number, which is always a
permutation and which is ascending whenever the comparison is a strict weak order
on the elements at hand (the library's own precondition).
-/

namespace VNams.Lib

variable {α : Type*}

/-- `lt` is a strict weak order on the elements of `l`. -/
def StrictWeakOn (lt : α → α → Prop) (l : List α) : Prop :=
  (∀ a ∈ l, ∀ b ∈ l, lt a b → ¬ lt b a) ∧
    ∀ a ∈ l, ∀ b ∈ l, ∀ c ∈ l, ¬ lt b a → ¬ lt c b → ¬ lt c a

/-- What the `k`-th call of an unstable sort returns. -/
structure UnstableSort (α : Type*) (lt : α → α → Prop) where
  order : Nat → List α → List α
  perm : ∀ k l, (order k l).Perm l
  ascending : ∀ k l, StrictWeakOn lt l → (order k l).Pairwise fun a b => ¬ lt b a

namespace UnstableSort

variable {lt : α → α → Prop}

@[simp] theorem length_order (sort : UnstableSort α lt) (k : Nat) (l : List α) :
    (sort.order k l).length = l.length :=
  (sort.perm k l).length_eq

@[simp] theorem mem_order {sort : UnstableSort α lt} {k : Nat} {l : List α} {a : α} :
    a ∈ sort.order k l ↔ a ∈ l :=
  (sort.perm k l).mem_iff

end UnstableSort

/-- A linear order is a strict weak order. -/
theorem lt_strictWeakOn {β : Type*} [LinearOrder β] (l : List β) :
    StrictWeakOn (fun a b : β => a < b) l := by
  refine ⟨fun a _ b _ less => not_lt.mpr less.le, ?_⟩
  intro a _ b _ c _ hab hbc
  exact not_lt.mpr ((not_lt.mp hab).trans (not_lt.mp hbc))

/-- Comparing pairs by a linearly ordered second component. -/
def secondLt {κ β : Type*} [LT β] (p q : κ × β) : Prop := p.2 < q.2

instance {κ β : Type*} [LT β] [DecidableLT β] (p q : κ × β) : Decidable (secondLt p q) :=
  inferInstanceAs (Decidable (p.2 < q.2))

/-- A linear order on the second component is a strict weak order on pairs. -/
theorem secondLt_strictWeakOn {κ β : Type*} [LinearOrder β] (l : List (κ × β)) :
    StrictWeakOn (secondLt (κ := κ) (β := β)) l := by
  refine ⟨fun a _ b _ less => not_lt.mpr (le_of_lt less), ?_⟩
  intro a _ b _ c _ hab hbc
  exact not_lt.mpr ((not_lt.mp hab).trans (not_lt.mp hbc))

/-- Sorting pairs by a linearly ordered second component does sort them. -/
theorem UnstableSort.pairwise_le {κ β : Type*} [LinearOrder β]
    (sort : UnstableSort (κ × β) secondLt) (k : Nat) (l : List (κ × β)) :
    (sort.order k l).Pairwise fun a b => a.2 ≤ b.2 :=
  (sort.ascending k l (secondLt_strictWeakOn l)).imp fun h => not_lt.mp h

/-- The order of pairs by second component, ties broken by `rank`. -/
def RankLe {κ β : Type*} [LT β] (rank : κ → Nat) (p q : κ × β) : Prop :=
  p.2 < q.2 ∨ (p.2 = q.2 ∧ rank p.1 ≤ rank q.1)

instance {κ β : Type*} [LinearOrder β] (rank : κ → Nat) (p q : κ × β) :
    Decidable (RankLe rank p q) :=
  inferInstanceAs (Decidable (_ ∨ _))

section Rank

variable {κ β : Type*} [LinearOrder β] (rank : κ → Nat)

/-- Sorting by second component and `rank` leaves no inversion of either. -/
theorem pairwise_rankLe (l : List (κ × β)) :
    (l.insertionSort (RankLe rank)).Pairwise (RankLe rank) := by
  have total : Std.Total (RankLe (κ := κ) (β := β) rank) := ⟨fun p q => by
    rcases lt_trichotomy p.2 q.2 with less | equal | more
    · exact .inl (.inl less)
    · rcases le_total (rank p.1) (rank q.1) with le | le
      · exact .inl (.inr ⟨equal, le⟩)
      · exact .inr (.inr ⟨equal.symm, le⟩)
    · exact .inr (.inl more)⟩
  have trans : IsTrans (κ × β) (RankLe rank) := ⟨fun p q r pq qr => by
    rcases pq with pq | ⟨pq, pqRank⟩ <;> rcases qr with qr | ⟨qr, qrRank⟩
    · exact .inl (pq.trans qr)
    · exact .inl (qr ▸ pq)
    · exact .inl (pq ▸ qr)
    · exact .inr ⟨pq.trans qr, pqRank.trans qrRank⟩⟩
  exact List.pairwise_insertionSort _ l

/-- The sort that orders ties by `rank`, lowest first. -/
def UnstableSort.byRank : UnstableSort (κ × β) secondLt where
  order _ l := l.insertionSort (RankLe rank)
  perm _ l := List.perm_insertionSort _ l
  ascending _ l _ := (pairwise_rankLe rank l).imp fun ordered => by
    rcases ordered with less | ⟨equal, _⟩
    · exact not_lt.mpr less.le
    · exact not_lt.mpr equal.le

end Rank

end VNams.Lib
