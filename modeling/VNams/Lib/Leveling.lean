import Mathlib.Algebra.BigOperators.Group.Finset.Basic
import Mathlib.Algebra.BigOperators.Ring.Finset
import Mathlib.Algebra.Order.BigOperators.Group.Finset
import Mathlib.Tactic.Linarith

/-!
Levelling loads by single moves.

A load vector is a function `f : ι → ℕ` over a finite set `s` of places. `shift f a b`
moves one unit from `a` to `b`. A move keeps `total` and changes `energy`, the sum of
squares, by an amount that only depends on the two loads (`energy_shift`), so a move
from a place that holds at least two units more lowers it (`energy_shift_lt`). A vector is
`Level` when no place holds two units more than another.

Moves from a fullest to an emptiest place keep the places that give apart from those that
receive: `OneSided` is the invariant that says so. How far such moves come down is settled
before the first one: a fullest place with `c` units gives one away in some order of the moves
exactly when the vector `SinksTo` `c`, and no move above `c` changes that.
-/

namespace VNams.Lib

variable {ι : Type*} [DecidableEq ι]

/-- Move one unit from `a` to `b`. -/
def shift (f : ι → ℕ) (a b : ι) : ι → ℕ :=
  Function.update (Function.update f a (f a - 1)) b (Function.update f a (f a - 1) b + 1)

/-- The units on the places of `s`. -/
def total (s : Finset ι) (f : ι → ℕ) : ℕ := ∑ i ∈ s, f i

/-- The sum of the squared loads, the potential that levelling lowers. -/
def energy (s : Finset ι) (f : ι → ℕ) : ℕ := ∑ i ∈ s, f i ^ 2

/-- No place of `s` holds two units more than another. -/
def Level (s : Finset ι) (f : ι → ℕ) : Prop := ∀ a ∈ s, ∀ b ∈ s, f a ≤ f b + 1

section Shift

variable {f : ι → ℕ} {a b : ι}

theorem shift_source (ne : a ≠ b) : shift f a b a = f a - 1 := by
  simp [shift, Function.update_of_ne ne]

theorem shift_target (ne : a ≠ b) : shift f a b b = f b + 1 := by
  simp [shift, Function.update_of_ne ne.symm]

theorem shift_other {i : ι} (notSource : i ≠ a) (notTarget : i ≠ b) : shift f a b i = f i := by
  simp [shift, Function.update_of_ne notSource, Function.update_of_ne notTarget]

/-- Only the source loses a unit. -/
theorem le_shift {i : ι} (notSource : i ≠ a) : f i ≤ shift f a b i := by
  by_cases isTarget : i = b
  · simp [shift, isTarget, Function.update_of_ne (isTarget ▸ notSource)]
  · rw [shift_other notSource isTarget]

/-- The source loses at most one. -/
theorem le_shift_succ (i : ι) : f i ≤ shift f a b i + 1 := by
  by_cases isSource : i = a
  · by_cases isTarget : i = b
    · simp only [shift, ← isSource, ← isTarget, Function.update_self]
      omega
    · simp only [shift, isSource, Function.update_of_ne (isSource ▸ isTarget),
        Function.update_self]
      omega
  · exact (le_shift isSource).trans (Nat.le_succ _)

/-- Moving a unit back onto its own place changes nothing. -/
theorem shift_self (pos : 0 < f a) : shift f a a = f := by
  funext i
  by_cases same : i = a
  · subst same
    simp [shift]
    omega
  · simp [shift, Function.update_of_ne same]

variable {s : Finset ι}

/-- A sum over a vector changed at one place. -/
theorem sum_update_add (f : ι → ℕ) {k : ι} (mem : k ∈ s) (v : ℕ) (g : ℕ → ℕ) :
    (∑ i ∈ s, g (Function.update f k v i)) + g (f k) = (∑ i ∈ s, g (f i)) + g v := by
  have before := Finset.add_sum_erase s (fun i => g (f i)) mem
  have after := Finset.add_sum_erase s (fun i => g (Function.update f k v i)) mem
  have rest : ∑ i ∈ s.erase k, g (Function.update f k v i) = ∑ i ∈ s.erase k, g (f i) :=
    Finset.sum_congr rfl fun i hi => by rw [Function.update_of_ne (Finset.ne_of_mem_erase hi)]
  simp only [Function.update_self] at after
  omega

/-- A move keeps the total. -/
theorem total_shift (ha : a ∈ s) (hb : b ∈ s) (pos : 0 < f a) :
    total s (shift f a b) = total s f := by
  have taken := sum_update_add f ha (f a - 1) id
  have given := sum_update_add (Function.update f a (f a - 1)) hb
    (Function.update f a (f a - 1) b + 1) id
  simp only [id] at taken given
  unfold total shift
  omega

/-- What a move does to the energy. -/
theorem energy_shift (ne : a ≠ b) (ha : a ∈ s) (hb : b ∈ s) (pos : 0 < f a) :
    energy s (shift f a b) + 2 * f a = energy s f + 2 * f b + 2 := by
  have taken := sum_update_add f ha (f a - 1) (· ^ 2)
  have given := sum_update_add (Function.update f a (f a - 1)) hb
    (Function.update f a (f a - 1) b + 1) (· ^ 2)
  rw [Function.update_of_ne ne.symm] at given
  unfold energy shift
  rw [Function.update_of_ne ne.symm]
  obtain ⟨n, loaded⟩ : ∃ n, f a = n + 1 := ⟨f a - 1, by omega⟩
  rw [loaded] at taken given ⊢
  simp only [Nat.add_sub_cancel] at taken given ⊢
  nlinarith

/-- A move onto a place with at least two units less lowers the energy. -/
theorem energy_shift_lt (ha : a ∈ s) (hb : b ∈ s) (gap : f b + 2 ≤ f a) :
    energy s (shift f a b) < energy s f := by
  have ne : a ≠ b := by
    rintro rfl
    omega
  have change := energy_shift ne ha hb (show 0 < f a by omega)
  omega

omit [DecidableEq ι] in
/-- Energy never exceeds the squared total. -/
theorem energy_le_total_sq (f : ι → ℕ) : energy s f ≤ total s f ^ 2 := by
  unfold energy total
  rw [sq, Finset.sum_mul]
  refine Finset.sum_le_sum fun i hi => ?_
  rw [sq]
  exact Nat.mul_le_mul_left _ (Finset.single_le_sum (fun _ _ => Nat.zero_le _) hi)

end Shift

section Level

variable {s : Finset ι} {f : ι → ℕ}

omit [DecidableEq ι] in
/-- A vector between `m` and `m + 1` is level. -/
theorem level_of_bounds {m : ℕ} (lower : ∀ i ∈ s, m ≤ f i) (upper : ∀ i ∈ s, f i ≤ m + 1) :
    Level s f := by
  intro a ha b hb
  have := upper a ha
  have := lower b hb
  omega

/-- One unit per place on average, and a place with two: some place is empty. -/
theorem exists_empty {r : ι} (hr : r ∈ s) (two : 2 ≤ f r) (avg : total s f ≤ s.card) :
    ∃ z ∈ s, f z = 0 := by
  by_contra none
  push Not at none
  have apart := Finset.add_sum_erase s f hr
  have rest : (s.erase r).card ≤ ∑ i ∈ s.erase r, f i := by
    rw [Finset.card_eq_sum_ones]
    refine Finset.sum_le_sum fun i hi => ?_
    have := none i (Finset.mem_of_mem_erase hi)
    omega
  rw [Finset.card_erase_of_mem hr] at rest
  have card : 0 < s.card := Finset.card_pos.mpr ⟨r, hr⟩
  unfold total at avg
  omega

/-- With as many units as places, one place holding two and no other more than one,
exactly one place is empty. -/
theorem unique_empty {r z : ι} (hr : r ∈ s) (hz : z ∈ s) (two : f r = 2) (empty : f z = 0)
    (others : ∀ i ∈ s, i ≠ r → f i ≤ 1) (avg : total s f = s.card) :
    ∀ i ∈ s, i ≠ r → i ≠ z → f i = 1 := by
  intro i hi ir iz
  by_contra notOne
  have zr : z ≠ r := by
    rintro rfl
    omega
  have hz' : z ∈ s.erase r := Finset.mem_erase.mpr ⟨zr, hz⟩
  have hi' : i ∈ (s.erase r).erase z := Finset.mem_erase.mpr ⟨iz, Finset.mem_erase.mpr ⟨ir, hi⟩⟩
  have apart₁ := Finset.add_sum_erase s f hr
  have apart₂ := Finset.add_sum_erase (s.erase r) f hz'
  have apart₃ := Finset.add_sum_erase ((s.erase r).erase z) f hi'
  have rest : ∑ j ∈ ((s.erase r).erase z).erase i, f j ≤ (((s.erase r).erase z).erase i).card := by
    rw [Finset.card_eq_sum_ones]
    refine Finset.sum_le_sum fun j hj => ?_
    have hj' := Finset.mem_of_mem_erase (Finset.mem_of_mem_erase hj)
    exact others j (Finset.mem_of_mem_erase hj') (Finset.ne_of_mem_erase hj')
  have card₁ := Finset.card_erase_add_one hr
  have card₂ := Finset.card_erase_add_one hz'
  have card₃ := Finset.card_erase_add_one hi'
  have small := others i hi ir
  unfold total at avg
  omega

/-- Conversely, one place with two, one empty and one unit on every other is one unit
per place. -/
theorem total_eq_card {r z : ι} (hr : r ∈ s) (hz : z ∈ s) (ne : z ≠ r) (two : f r = 2)
    (empty : f z = 0) (others : ∀ i ∈ s, i ≠ r → i ≠ z → f i = 1) : total s f = s.card := by
  have hz' : z ∈ s.erase r := Finset.mem_erase.mpr ⟨ne, hz⟩
  have apart₁ := Finset.add_sum_erase s f hr
  have apart₂ := Finset.add_sum_erase (s.erase r) f hz'
  have rest : ∑ j ∈ (s.erase r).erase z, f j = ((s.erase r).erase z).card := by
    rw [Finset.card_eq_sum_ones]
    refine Finset.sum_congr rfl fun j hj => ?_
    have hj' := Finset.mem_of_mem_erase hj
    exact others j (Finset.mem_of_mem_erase hj') (Finset.ne_of_mem_erase hj')
      (Finset.ne_of_mem_erase hj)
  have card₁ := Finset.card_erase_add_one hr
  have card₂ := Finset.card_erase_add_one hz'
  unfold total
  omega

end Level

section OneSided

/-- The places that `gave` are at most one unit below the fullest, and those that `received`
at most one above the emptiest. -/
structure OneSided (s : Finset ι) (f : ι → ℕ) (gave received : ι → Prop) : Prop where
  gave : ∀ d ∈ s, gave d → ∀ i ∈ s, f i ≤ f d + 1
  received : ∀ r ∈ s, received r → ∀ i ∈ s, f r ≤ f i + 1

variable {s : Finset ι} {f : ι → ℕ} {gave received gave' received' : ι → Prop} {a b : ι}

omit [DecidableEq ι] in
theorem OneSided.mono (sides : OneSided s f gave received) (fewer : ∀ i, gave' i → gave i)
    (fewer' : ∀ i, received' i → received i) : OneSided s f gave' received' :=
  ⟨fun d hd given => sides.gave d hd (fewer d given),
    fun r hr taken => sides.received r hr (fewer' r taken)⟩

omit [DecidableEq ι] in
/-- On a level vector every place may have given and received. -/
theorem OneSided.of_level (level : Level s f) : OneSided s f gave received :=
  ⟨fun d hd _ i hi => level i hi d hd, fun r hr _ i hi => level r hr i hi⟩

omit [DecidableEq ι] in
/-- A place two units above another has not received. -/
theorem OneSided.not_received (sides : OneSided s f gave received) (ha : a ∈ s) (hb : b ∈ s)
    (gap : f b + 2 ≤ f a) : ¬ received a := by
  intro taken
  have bound := sides.received a ha taken b hb
  omega

omit [DecidableEq ι] in
/-- A place two units below another has not given. -/
theorem OneSided.not_gave (sides : OneSided s f gave received) (ha : a ∈ s) (hb : b ∈ s)
    (gap : f b + 2 ≤ f a) : ¬ gave b := by
  intro given
  have bound := sides.gave b hb given a ha
  omega

/-- A move from a fullest to an emptiest place keeps the sides, its ends included. -/
theorem OneSided.shift (sides : OneSided s f gave received) (ha : a ∈ s) (hb : b ∈ s)
    (top : ∀ i ∈ s, f i ≤ f a) (bottom : ∀ i ∈ s, f b ≤ f i) (gap : f b + 2 ≤ f a) :
    OneSided s (shift f a b) (fun i => gave i ∨ i = a) (fun i => received i ∨ i = b) := by
  have ne : a ≠ b := by
    rintro rfl
    omega
  have source := shift_source (f := f) ne
  have target := shift_target (f := f) ne
  -- afterwards every load is between that of the emptiest and that of the fullest place
  have upper : ∀ i ∈ s, Lib.shift f a b i ≤ f a := by
    intro i hi
    by_cases isSource : i = a
    · subst isSource
      omega
    · by_cases isTarget : i = b
      · subst isTarget
        omega
      · rw [shift_other isSource isTarget]
        exact top i hi
  have lower : ∀ i ∈ s, f b ≤ Lib.shift f a b i := by
    intro i hi
    by_cases isSource : i = a
    · subst isSource
      omega
    · by_cases isTarget : i = b
      · subst isTarget
        omega
      · rw [shift_other isSource isTarget]
        exact bottom i hi
  constructor
  · rintro d hd given i hi
    have before : f a ≤ Lib.shift f a b d + 1 := by
      rcases given with given | rfl
      · have bound := sides.gave d hd given a ha
        by_cases isSource : d = a
        · subst isSource
          omega
        · by_cases isTarget : d = b
          · subst isTarget
            omega
          · rwa [shift_other isSource isTarget]
      · omega
    exact (upper i hi).trans before
  · rintro r hr taken i hi
    have after : Lib.shift f a b r ≤ f b + 1 := by
      rcases taken with taken | rfl
      · have bound := sides.received r hr taken b hb
        by_cases isSource : r = a
        · subst isSource
          omega
        · by_cases isTarget : r = b
          · subst isTarget
            omega
          · rwa [shift_other isSource isTarget]
      · omega
    exact after.trans (Nat.add_le_add_right (lower i hi) 1)

end OneSided

section Sinking

/-- The units above level `c`. -/
def above (s : Finset ι) (f : ι → ℕ) (c : ℕ) : ℕ := ∑ i ∈ s, (f i - c)

/-- The units that are missing up to level `c`. -/
def below (s : Finset ι) (f : ι → ℕ) (c : ℕ) : ℕ := ∑ i ∈ s, (c - f i)

/-- The units above level `c` do not fill the places up to `c - 1`: when they are used up, some
place is still two units below `c`. -/
def SinksTo (s : Finset ι) (f : ι → ℕ) (c : ℕ) : Prop := above s f c < below s f (c - 1)

instance (s : Finset ι) (f : ι → ℕ) (c : ℕ) : Decidable (SinksTo s f c) :=
  inferInstanceAs (Decidable (_ < _))

variable {s : Finset ι} {f : ι → ℕ} {a b : ι} {c : ℕ}

omit [DecidableEq ι] in
theorem sinksTo_congr {g : ι → ℕ} (same : ∀ i ∈ s, f i = g i) : SinksTo s f c ↔ SinksTo s g c := by
  have higher : above s f c = above s g c := Finset.sum_congr rfl fun i hi => by rw [same i hi]
  have lower : below s f (c - 1) = below s g (c - 1) :=
    Finset.sum_congr rfl fun i hi => by rw [same i hi]
  rw [SinksTo, SinksTo, higher, lower]

omit [DecidableEq ι] in
theorem SinksTo.exists_low (sinks : SinksTo s f c) : ∃ j ∈ s, f j + 1 < c := by
  by_contra filled
  push Not at filled
  have none : below s f (c - 1) = 0 := by
    refine Finset.sum_eq_zero fun j hj => ?_
    have := filled j hj
    omega
  unfold SinksTo at sinks
  omega

omit [DecidableEq ι] in
/-- A fullest place with at most `c` units, and one with two less than it. -/
theorem sinksTo_of_le (hb : b ∈ s) (top : ∀ i ∈ s, f i ≤ f a) (gap : f b + 2 ≤ f a)
    (le : f a ≤ c) : SinksTo s f c := by
  have none : above s f c = 0 := by
    refine Finset.sum_eq_zero fun i hi => ?_
    have := top i hi
    omega
  have missing : c - 1 - f b ≤ below s f (c - 1) :=
    Finset.single_le_sum (f := fun i => c - 1 - f i) (fun _ _ => Nat.zero_le _) hb
  unfold SinksTo
  omega

/-- A move off a place above `c` onto an emptiest one changes nothing about `c`. -/
theorem sinksTo_shift_iff (ha : a ∈ s) (hb : b ∈ s) (bottom : ∀ i ∈ s, f b ≤ f i)
    (gap : f b + 2 ≤ f a) (higher : c < f a) : SinksTo s (shift f a b) c ↔ SinksTo s f c := by
  have ne : b ≠ a := by
    rintro rfl
    omega
  have change : ∀ g : ℕ → ℕ, (∑ i ∈ s, g (shift f a b i)) + g (f a) + g (f b)
      = (∑ i ∈ s, g (f i)) + g (f a - 1) + g (f b + 1) := by
    intro g
    have taken := sum_update_add f ha (f a - 1) g
    have given := sum_update_add (Function.update f a (f a - 1)) hb
      (Function.update f a (f a - 1) b + 1) g
    rw [Function.update_of_ne ne] at given
    unfold shift
    rw [Function.update_of_ne ne]
    omega
  have taken := change (· - c)
  have missing := change (c - 1 - ·)
  unfold SinksTo above below
  by_cases low : f b + 1 < c
  · -- one unit less above, and one place filled by one
    constructor <;> intro sinks <;> omega
  · -- nothing is missing before, and nothing after
    have full : ∑ i ∈ s, (c - 1 - f i) = 0 := by
      refine Finset.sum_eq_zero fun i hi => ?_
      have := bottom i hi
      omega
    constructor <;> intro sinks <;> omega

end Sinking

end VNams.Lib
