import VNams.Lib.Leveling

/-!
How few items have to be relocated until the loads are level.

Items of a finite set `S` have a place each, and the load of a place is how many it has. No
level vector of the same total holds more than one unit above the average on a place, nor
less than the average, so `need` units have to leave their places however the loads are
levelled (`need_le_card_relocated`). A move from a fullest to an emptiest place lowers the
need by one (`need_shift_lt`): who only makes such moves relocates as few items as anyone.
-/

namespace VNams.Lib

variable {ι : Type*}

/-- The load that every place has in a level vector, up to one. -/
def average (s : Finset ι) (f : ι → ℕ) : ℕ := total s f / s.card

/-- The units above the load of a level vector. -/
def surplus (s : Finset ι) (f : ι → ℕ) : ℕ := ∑ i ∈ s, (f i - (average s f + 1))

/-- The units missing to the load of a level vector. -/
def shortage (s : Finset ι) (f : ι → ℕ) : ℕ := ∑ i ∈ s, (average s f - f i)

/-- The units that leave their places, at least, when the loads are levelled. -/
def need (s : Finset ι) (f : ι → ℕ) : ℕ := max (surplus s f) (shortage s f)

section Average

variable {s : Finset ι} {f g : ι → ℕ}

theorem card_mul_average_le (s : Finset ι) (f : ι → ℕ) : s.card * average s f ≤ total s f :=
  Nat.mul_div_le _ _

theorem lt_card_mul_average (nonempty : s.Nonempty) (f : ι → ℕ) :
    total s f < s.card * (average s f + 1) :=
  Nat.lt_mul_div_succ _ (Finset.card_pos.mpr nonempty)

theorem card_mul_eq_sum (s : Finset ι) (m : ℕ) : s.card * m = ∑ _i ∈ s, m := by
  rw [Finset.sum_const, nsmul_eq_mul, Nat.cast_id]

/-- Some place holds the average at most. -/
theorem le_average {b : ι} (mem : b ∈ s) (bottom : ∀ i ∈ s, f b ≤ f i) : f b ≤ average s f := by
  have least : s.card * f b ≤ total s f := by
    rw [card_mul_eq_sum]
    exact Finset.sum_le_sum bottom
  have bound := lt_of_le_of_lt least (lt_card_mul_average ⟨b, mem⟩ f)
  exact Nat.lt_succ_iff.mp (lt_of_mul_lt_mul_left' bound)

/-- The fullest place is above the average, unless all loads are the same. -/
theorem average_lt {a b : ι} (mem : b ∈ s) (top : ∀ i ∈ s, f i ≤ f a) (lt : f b < f a) :
    average s f < f a := by
  have most : total s f < s.card * f a := by
    rw [card_mul_eq_sum]
    exact Finset.sum_lt_sum top ⟨b, mem, lt⟩
  exact lt_of_mul_lt_mul_left' (lt_of_le_of_lt (card_mul_average_le s f) most)

/-- A level vector holds the average on every place, or one more. -/
theorem Level.average_le (level : Level s f) {i : ι} (mem : i ∈ s) :
    average s f ≤ f i ∧ f i ≤ average s f + 1 := by
  constructor
  · by_contra below
    push Not at below
    have small : total s f < s.card * average s f := by
      rw [card_mul_eq_sum]
      refine Finset.sum_lt_sum (fun j hj => ?_) ⟨i, mem, below⟩
      exact (level j hj i mem).trans below
    exact absurd (card_mul_average_le s f) (not_le.mpr small)
  · by_contra above
    push Not at above
    have large : s.card * (average s f + 1) ≤ total s f := by
      rw [card_mul_eq_sum]
      refine Finset.sum_le_sum fun j hj => ?_
      have near := level i mem j hj
      omega
    exact absurd (lt_card_mul_average ⟨i, mem⟩ f) (not_lt.mpr large)

/-- What two vectors of one total have more than each other is the same. -/
theorem sum_tsub_comm (same : total s g = total s f) :
    ∑ i ∈ s, (f i - g i) = ∑ i ∈ s, (g i - f i) := by
  have joined : ∑ i ∈ s, (f i - g i + g i) = ∑ i ∈ s, (g i - f i + f i) :=
    Finset.sum_congr rfl fun i _ => by omega
  rw [Finset.sum_add_distrib, Finset.sum_add_distrib] at joined
  unfold total at same
  omega

/-- Every level vector of the same total takes away at least the need. -/
theorem Level.need_le (level : Level s g) (same : total s g = total s f) :
    need s f ≤ ∑ i ∈ s, (f i - g i) := by
  have average_eq : average s g = average s f := by rw [average, average, same]
  refine max_le (Finset.sum_le_sum fun i mem => ?_) ?_
  · have bound := (level.average_le mem).2
    omega
  · rw [sum_tsub_comm same]
    refine Finset.sum_le_sum fun i mem => ?_
    have bound := (level.average_le mem).1
    omega

end Average

section Shift

variable [DecidableEq ι] {s : Finset ι} {f : ι → ℕ} {a b : ι}

/-- A sum over a vector after a move. -/
theorem sum_shift_add (ne : a ≠ b) (ha : a ∈ s) (hb : b ∈ s) (g : ℕ → ℕ) :
    (∑ i ∈ s, g (shift f a b i)) + g (f a) + g (f b)
      = (∑ i ∈ s, g (f i)) + g (f a - 1) + g (f b + 1) := by
  have taken := sum_update_add f ha (f a - 1) g
  have given := sum_update_add (Function.update f a (f a - 1)) hb
    (Function.update f a (f a - 1) b + 1) g
  rw [Function.update_of_ne ne.symm] at given
  unfold shift
  rw [Function.update_of_ne ne.symm]
  omega

theorem average_shift (ha : a ∈ s) (hb : b ∈ s) (pos : 0 < f a) :
    average s (shift f a b) = average s f := by
  rw [average, average, total_shift ha hb pos]

/-- A move from a fullest to an emptiest place lowers the need. -/
theorem need_shift_lt (ha : a ∈ s) (hb : b ∈ s) (top : ∀ i ∈ s, f i ≤ f a)
    (bottom : ∀ i ∈ s, f b ≤ f i) (gap : f b + 2 ≤ f a) :
    need s (shift f a b) + 1 ≤ need s f := by
  have ne : a ≠ b := by
    rintro rfl
    omega
  have low := le_average hb bottom
  have high := average_lt hb top (show f b < f a by omega)
  have above := sum_shift_add (f := f) ne ha hb (· - (average s f + 1))
  have below := sum_shift_add (f := f) ne ha hb (average s f - ·)
  -- one end of a gap of two is off the average; where the other is not, its sum is zero
  have noSurplus : f a = average s f + 1 → ∑ i ∈ s, (f i - (average s f + 1)) = 0 :=
    fun atTop => Finset.sum_eq_zero fun i mem => Nat.sub_eq_zero_of_le (atTop ▸ top i mem)
  have noShortage : f b = average s f → ∑ i ∈ s, (average s f - f i) = 0 :=
    fun atBottom => Finset.sum_eq_zero fun i mem => Nat.sub_eq_zero_of_le (atBottom ▸ bottom i mem)
  unfold need surplus shortage
  rw [average_shift ha hb (by omega)]
  omega

/-- Any move raises the need by one at most. -/
theorem need_shift_le (ne : a ≠ b) (ha : a ∈ s) (hb : b ∈ s) (pos : 0 < f a) :
    need s (shift f a b) ≤ need s f + 1 := by
  have above := sum_shift_add (f := f) ne ha hb (· - (average s f + 1))
  have below := sum_shift_add (f := f) ne ha hb (average s f - ·)
  unfold need surplus shortage
  rw [average_shift ha hb pos]
  omega

/-- A move onto a place with one unit less swaps two loads, and keeps the need. -/
theorem need_shift_eq (ha : a ∈ s) (hb : b ∈ s) (next : f a = f b + 1) :
    need s (shift f a b) = need s f := by
  have ne : a ≠ b := by
    rintro rfl
    omega
  have above := sum_shift_add (f := f) ne ha hb (· - (average s f + 1))
  have below := sum_shift_add (f := f) ne ha hb (average s f - ·)
  unfold need surplus shortage
  rw [average_shift ha hb (by omega)]
  simp only [next, Nat.add_sub_cancel] at above below
  omega

end Shift

section Relocation

variable {α : Type*} [DecidableEq ι] {S : Finset α} {home place : α → ι} {s : Finset ι}

/-- How many items are on a place. -/
def occupancy (S : Finset α) (place : α → ι) (i : ι) : ℕ := (S.filter fun x => place x = i).card

/-- The items that are not where they were. -/
def relocated (S : Finset α) (home place : α → ι) : Finset α := S.filter fun x => place x ≠ home x

theorem total_occupancy (within : ∀ x ∈ S, place x ∈ s) : total s (occupancy S place) = S.card :=
  (Finset.card_eq_sum_card_fiberwise within).symm

/-- What leaves a place was relocated. -/
theorem occupancy_le (i : ι) :
    occupancy S home i ≤
      occupancy S place i + ((relocated S home place).filter fun x => home x = i).card := by
  classical
  have cover : S.filter (fun x => home x = i) ⊆
      S.filter (fun x => place x = i) ∪ (relocated S home place).filter fun x => home x = i := by
    intro x mem
    obtain ⟨inS, isHome⟩ := Finset.mem_filter.mp mem
    by_cases stays : place x = i
    · exact Finset.mem_union_left _ (Finset.mem_filter.mpr ⟨inS, stays⟩)
    · refine Finset.mem_union_right _ (Finset.mem_filter.mpr ⟨?_, isHome⟩)
      exact Finset.mem_filter.mpr ⟨inS, fun same => stays (same.trans isHome)⟩
  exact (Finset.card_le_card cover).trans (Finset.card_union_le _ _)

theorem sum_tsub_occupancy_le (s : Finset ι) :
    ∑ i ∈ s, (occupancy S home i - occupancy S place i) ≤ (relocated S home place).card := by
  calc ∑ i ∈ s, (occupancy S home i - occupancy S place i)
      ≤ ∑ i ∈ s, ((relocated S home place).filter fun x => home x = i).card :=
        Finset.sum_le_sum fun i _ => Nat.sub_le_iff_le_add'.mpr (occupancy_le i)
    _ = ((relocated S home place).filter fun x => home x ∈ s).card :=
        Finset.sum_card_fiberwise_eq_card_filter _ _ _
    _ ≤ (relocated S home place).card := Finset.card_filter_le _ _

/-- However the items are placed, a level placement relocates as many as are needed. -/
theorem need_le_card_relocated (homes : ∀ x ∈ S, home x ∈ s) (places : ∀ x ∈ S, place x ∈ s)
    (level : Level s (occupancy S place)) :
    need s (occupancy S home) ≤ (relocated S home place).card := by
  have same : total s (occupancy S place) = total s (occupancy S home) := by
    rw [total_occupancy homes, total_occupancy places]
  exact (level.need_le same).trans (sum_tsub_occupancy_le s)

/-- Placing one item elsewhere relocates one more at most. -/
theorem card_relocated_le {place' : α → ι} {x : α} (others : ∀ y ∈ S, y ≠ x → place' y = place y) :
    (relocated S home place').card ≤ (relocated S home place).card + 1 := by
  classical
  have cover : relocated S home place' ⊆ insert x (relocated S home place) := by
    intro y mem
    obtain ⟨inS, away⟩ := Finset.mem_filter.mp mem
    by_cases same : y = x
    · exact same ▸ Finset.mem_insert_self _ _
    · rw [others y inS same] at away
      exact Finset.mem_insert_of_mem (Finset.mem_filter.mpr ⟨inS, away⟩)
  exact (Finset.card_le_card cover).trans (Finset.card_insert_le _ _)

end Relocation

end VNams.Lib
