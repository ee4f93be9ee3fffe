import VNams.Lib.Rooms
import Mathlib.Algebra.Order.BigOperators.Group.Finset
import Mathlib.Logic.Function.Iterate

/-!
Requests that are made again and again.

A `Lodging` tells who is in which room and what is vacant, and a `pass` lets every guest of
a list ask for the room he wishes. Nobody who has arrived leaves again, and a pass that finds
a guest who could go sees more arrivals than before, so a list of `n` wishes is at rest
after `n` passes (`atRest_iterate`): whoever is not in his room wishes a full one. A room that
is full of the wrong guests keeps others waiting, but not all such rooms can have been wished
by fewer guests than they hold (`arrived_of_spare`).
-/

namespace VNams.Lib

variable {ι Guest : Type*}

/-- Which room each guest is in, and what is vacant. -/
@[ext] structure Lodging (ι Guest : Type*) where
  vacant : ι → ℕ
  room : Guest → ι

/-- The guest has the room he wishes. -/
def Arrived (lodging : Lodging ι Guest) (wish : Guest × ι) : Prop := lodging.room wish.1 = wish.2

/-- There is nothing to do for the guest: he has arrived, or he wishes a full room. -/
def AtRest (lodging : Lodging ι Guest) (wish : Guest × ι) : Prop :=
  Arrived lodging wish ∨ lodging.vacant wish.2 = 0

section Pass

variable [DecidableEq ι] [DecidableEq Guest]

instance (lodging : Lodging ι Guest) (wish : Guest × ι) : Decidable (Arrived lodging wish) :=
  inferInstanceAs (Decidable (_ = _))

/-- A guest asks for a room, and moves if he is admitted. -/
def ask (lodging : Lodging ι Guest) (wish : Guest × ι) : Lodging ι Guest :=
  if Admitted lodging.vacant (lodging.room wish.1, wish.2) then
    ⟨serve lodging.vacant (lodging.room wish.1, wish.2),
      Function.update lodging.room wish.1 wish.2⟩
  else lodging

/-- All ask in turn. -/
def pass (wishes : List (Guest × ι)) (lodging : Lodging ι Guest) : Lodging ι Guest :=
  wishes.foldl ask lodging

/-- How many have arrived. -/
def arrivals (wishes : List (Guest × ι)) (lodging : Lodging ι Guest) : ℕ :=
  wishes.countP fun wish => Arrived lodging wish

variable {lodging : Lodging ι Guest} {wish : Guest × ι} {wishes : List (Guest × ι)}

/-- Where everyone is after a guest asked. -/
theorem room_ask (lodging : Lodging ι Guest) (wish : Guest × ι) :
    (ask lodging wish).room = if Admitted lodging.vacant (lodging.room wish.1, wish.2) then
      Function.update lodging.room wish.1 wish.2 else lodging.room := by
  unfold ask
  split
  · rfl
  · rfl

/-- Asking at rest changes nothing. -/
theorem ask_of_atRest (rest : AtRest lodging wish) : ask lodging wish = lodging := by
  unfold ask
  split
  · rename_i admitted
    have same : lodging.room wish.1 = wish.2 := by
      rcases rest with arrived | full
      · exact arrived
      · exact admitted.resolve_right (not_not.mpr full)
    have served : serve lodging.vacant (lodging.room wish.1, wish.2) = lodging.vacant :=
      serve_of_same same
    rw [served, ← same, Function.update_eq_self]
  · rfl

/-- A guest who is not at rest arrives when he asks. -/
theorem arrived_ask (active : ¬ AtRest lodging wish) : Arrived (ask lodging wish) wish := by
  have admitted : Admitted lodging.vacant (lodging.room wish.1, wish.2) :=
    .inr fun full => active (.inr full)
  rw [Arrived, room_ask, if_pos admitted, Function.update_self]

/-- Nobody leaves the room he wishes. -/
theorem Arrived.ask {other : Guest × ι} (arrived : Arrived lodging wish)
    (apart : other.1 = wish.1 → other = wish) : Arrived (ask lodging other) wish := by
  rw [Arrived, room_ask]
  split
  · by_cases same : other.1 = wish.1
    · rw [apart same, Function.update_self]
    · rw [Function.update_of_ne (Ne.symm same)]
      exact arrived
  · exact arrived

/-- A pass over guests at rest changes nothing. -/
theorem pass_of_atRest (rest : ∀ wish ∈ wishes, AtRest lodging wish) :
    pass wishes lodging = lodging := by
  induction wishes with
  | nil => rfl
  | cons first later ih =>
      rw [pass, List.foldl_cons, ask_of_atRest (rest first List.mem_cons_self)]
      exact ih fun wish mem => rest wish (List.mem_cons_of_mem _ mem)

theorem Arrived.pass {wishes' : List (Guest × ι)} (once : (wishes.map Prod.fst).Nodup)
    (sub : ∀ w ∈ wishes', w ∈ wishes) (mem : wish ∈ wishes) (arrived : Arrived lodging wish) :
    Arrived (pass wishes' lodging) wish := by
  induction wishes' generalizing lodging with
  | nil => exact arrived
  | cons first later ih =>
      have next := arrived.ask
        (List.inj_on_of_nodup_map once (sub first List.mem_cons_self) mem)
      exact ih (fun w mem => sub w (List.mem_cons_of_mem _ mem)) next

/-- A pass that is not at rest has more arrivals. -/
theorem arrivals_lt_pass (once : (wishes.map Prod.fst).Nodup)
    (active : ∃ wish ∈ wishes, ¬ AtRest lodging wish) :
    arrivals wishes lodging < arrivals wishes (pass wishes lodging) := by
  classical
  -- the first guest who can go
  obtain ⟨wish, found⟩ : ∃ wish, wishes.find? (fun w => ¬ AtRest lodging w) = some wish :=
    Option.isSome_iff_exists.mp (List.find?_isSome.mpr (by simpa using active))
  obtain ⟨goes, before, after, whole, earlier⟩ := List.find?_eq_some_iff_append.mp found
  have goes : ¬ AtRest lodging wish := by simpa using goes
  have untouched : pass before lodging = lodging :=
    pass_of_atRest fun w mem => by simpa using earlier w mem
  have split : pass wishes lodging = pass after (ask lodging wish) := by
    rw [whole, pass, List.foldl_append, List.foldl_cons]
    exact congrArg (fun l => pass after (ask l wish)) untouched
  have mem : wish ∈ wishes := by simp [whole]
  have afterMem : ∀ w ∈ after, w ∈ wishes := fun w mem => by simp [whole, mem]
  have arrives : Arrived (pass wishes lodging) wish := by
    rw [split]
    exact (arrived_ask goes).pass once afterMem mem
  have keeps : ∀ w ∈ wishes, Arrived lodging w → Arrived (pass wishes lodging) w :=
    fun w mem arrived => arrived.pass once (fun _ mem => mem) mem
  have monotone : ∀ part : List (Guest × ι), (∀ w ∈ part, w ∈ wishes) →
      arrivals part lodging ≤ arrivals part (pass wishes lodging) := fun part sub =>
    List.countP_mono_left fun w mem => by simpa using keeps w (sub w mem)
  have beforeLe := monotone before fun w mem => by simp [whole, mem]
  have afterLe := monotone after afterMem
  have absent : ¬ Arrived lodging wish := fun arrived => goes (.inl arrived)
  have counted : ∀ l : Lodging ι Guest, arrivals wishes l
      = arrivals before l + (arrivals after l + if Arrived l wish then 1 else 0) := by
    intro l
    simp [arrivals, whole, List.countP_cons]
  rw [counted lodging, counted (pass wishes lodging), if_neg absent, if_pos arrives]
  omega

/-- After as many passes as there are wishes everyone is at rest. -/
theorem atRest_iterate (once : (wishes.map Prod.fst).Nodup) {n : ℕ}
    (enough : wishes.length ≤ n) :
    ∀ wish ∈ wishes, AtRest ((pass wishes)^[n] lodging) wish := by
  have progress : ∀ n, (∀ wish ∈ wishes, AtRest ((pass wishes)^[n] lodging) wish) ∨
      n ≤ arrivals wishes ((pass wishes)^[n] lodging) := by
    intro n
    induction n with
    | zero => exact .inr (Nat.zero_le _)
    | succ n ih =>
        rw [Function.iterate_succ_apply']
        by_cases rest : ∀ wish ∈ wishes, AtRest ((pass wishes)^[n] lodging) wish
        · left
          rwa [pass_of_atRest rest]
        · push Not at rest
          have more := arrivals_lt_pass once rest
          rcases ih with still | count
          · obtain ⟨wish, mem, active⟩ := rest
            exact absurd (still wish mem) active
          · exact .inr (by omega)
  rcases progress n with rest | count
  · exact rest
  · have all : arrivals wishes ((pass wishes)^[n] lodging) = wishes.length :=
      Nat.le_antisymm List.countP_le_length (enough.trans count)
    intro wish mem
    exact .inl (of_decide_eq_true (List.countP_eq_length.mp all wish mem))

end Pass

section Spare

variable [DecidableEq ι]

/-- Guests who wait for full rooms only do not all wait when every room they wish holds more
guests than wish it. -/
theorem arrived_of_spare (guests : Finset Guest) (room wished : Guest → ι) (capacity : ι → ℕ)
    (full : ∀ g ∈ guests, room g ≠ wished g →
      capacity (wished g) ≤ (guests.filter fun h => room h = wished g).card)
    (spare : ∀ g ∈ guests, (guests.filter fun h => wished h = wished g).card < capacity (wished g)) :
    ∀ g ∈ guests, room g = wished g := by
  classical
  by_contra waiting
  push Not at waiting
  obtain ⟨g₀, mem₀, away₀⟩ := waiting
  set waits := guests.filter fun g => room g ≠ wished g
  set rooms := waits.image wished
  -- more leave such a room than wait for it
  have more : ∀ r ∈ rooms, (waits.filter fun h => wished h = r).card
      < (waits.filter fun h => room h = r).card := by
    intro r mem
    obtain ⟨g, inWaits, rfl⟩ := Finset.mem_image.mp mem
    obtain ⟨inGuests, away⟩ := Finset.mem_filter.mp inWaits
    have crowd := (spare g inGuests).trans_le (full g inGuests away)
    have split : ∀ p : Guest → Prop, ∀ [DecidablePred p], (guests.filter p).card
        = (guests.filter fun h => p h ∧ room h = wished h).card
          + (waits.filter p).card := by
      intro p _
      rw [← Finset.card_filter_add_card_filter_not (s := guests.filter p)
        (fun h => room h = wished h), Finset.filter_filter, Finset.filter_filter]
      congr 2
      rw [Finset.filter_filter]
      exact Finset.filter_congr fun h _ => and_comm
    have sameStay : (guests.filter fun h => wished h = wished g ∧ room h = wished h)
        = guests.filter fun h => room h = wished g ∧ room h = wished h := by
      refine Finset.filter_congr fun h _ => ?_
      constructor
      · rintro ⟨same, stays⟩
        exact ⟨stays.trans same, stays⟩
      · rintro ⟨same, stays⟩
        exact ⟨stays.symm.trans same, stays⟩
    rw [split fun h => wished h = wished g, split fun h => room h = wished g, sameStay] at crowd
    omega
  have all : ∑ r ∈ rooms, (waits.filter fun h => wished h = r).card = waits.card :=
    (Finset.card_eq_sum_card_fiberwise fun g mem => Finset.mem_image_of_mem _ mem).symm
  have most : ∑ r ∈ rooms, (waits.filter fun h => room h = r).card ≤ waits.card := by
    rw [Finset.sum_card_fiberwise_eq_card_filter]
    exact Finset.card_filter_le _ _
  have inWaits : g₀ ∈ waits := Finset.mem_filter.mpr ⟨mem₀, away₀⟩
  have nonempty : rooms.Nonempty := ⟨_, Finset.mem_image_of_mem wished inWaits⟩
  exact absurd (most.trans_eq all.symm) (not_le.mpr (Finset.sum_lt_sum_of_nonempty nonempty more))

end Spare

end VNams.Lib
