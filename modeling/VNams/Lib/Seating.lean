import Mathlib.Logic.Function.Basic
import Mathlib.Tactic.SplitIfs

/-!
Two maps that describe one arrangement: which agent holds a slot, and which slot an
agent sits on.

`holder : Slot → Option Agent` and `seat : Agent → Option Slot` are maintained
separately, so neither determines the other. Two one-sided agreements matter:

* `Faithful`: an entry of `holder` names an agent that does sit there (no stale entry);
* `Covers`: every seat is marked as occupied (no slot looks free while in use).

Three update rules are considered: `claim` takes a slot only when nobody holds it,
`take` overwrites, and `release` gives a slot up only when the entry is the agent's own.
The lemmas say which agreement each rule keeps and what it has to assume; for the changes
of an `Arrangement`, that put the rules together, the assumptions are exact.
-/

namespace VNams.Lib

variable {Slot Agent : Type*} [DecidableEq Slot] [DecidableEq Agent]

/-- Every entry of `holder` names an agent seated there. -/
def Faithful (holder : Slot → Option Agent) (seat : Agent → Option Slot) : Prop :=
  ∀ c a, holder c = some a → seat a = some c

/-- Every seat is an occupied slot. -/
def Covers (occupied : Slot → Prop) (seat : Agent → Option Slot) : Prop :=
  ∀ a c, seat a = some c → occupied c

/-- Take `c` unless somebody holds it. -/
def claim (holder : Slot → Option Agent) (c : Slot) (a : Agent) : Slot → Option Agent :=
  if holder c = none then Function.update holder c (some a) else holder

/-- Take `c`, whoever held it. -/
def take (holder : Slot → Option Agent) (c : Slot) (a : Agent) : Slot → Option Agent :=
  Function.update holder c (some a)

/-- Give up `c` if the entry is `a`'s own. -/
def release (holder : Slot → Option Agent) (c : Slot) (a : Agent) : Slot → Option Agent :=
  if holder c = some a then Function.update holder c none else holder

section Faithful

variable {holder : Slot → Option Agent} {seat : Agent → Option Slot}

omit [DecidableEq Slot] [DecidableEq Agent] in
/-- In a faithful arrangement nobody holds two slots. -/
theorem Faithful.holder_injective (faithful : Faithful holder seat) {c c' : Slot} {a : Agent}
    (held : holder c = some a) (held' : holder c' = some a) : c = c' := by
  have same := (faithful c a held).symm.trans (faithful c' a held')
  exact Option.some.inj same

omit [DecidableEq Slot] [DecidableEq Agent] in
/-- In a faithful arrangement an unseated agent holds nothing. -/
theorem Faithful.unseated (faithful : Faithful holder seat) {a : Agent}
    (away : seat a = none) (c : Slot) : holder c ≠ some a := by
  intro held
  rw [faithful c a held] at away
  cases away

/-- What is left after a release was there before, and is not the released entry. -/
theorem release_eq_some {c x : Slot} {a b : Agent} :
    release holder c a x = some b ↔ holder x = some b ∧ (x = c → b ≠ a) := by
  unfold release
  split_ifs with own
  · by_cases here : x = c
    · subst here
      simp [own, eq_comm]
    · rw [Function.update_of_ne here]
      exact (and_iff_left fun there => absurd there here).symm
  · constructor
    · intro held
      refine ⟨held, ?_⟩
      rintro rfl rfl
      exact own held
    · exact And.left

/-- An agent that moves to a free slot takes nobody else's entry. -/
theorem take_release_keeps {c free x : Slot} {a b : Agent} (held : holder x = some b)
    (other : b ≠ a) (isFree : holder free = none) :
    take (release holder c a) free a x = some b := by
  have elsewhere : x ≠ free := by
    rintro rfl
    rw [held] at isFree
    cases isFree
  unfold take
  rw [Function.update_of_ne elsewhere]
  unfold release
  split_ifs with own
  · have notOwn : x ≠ c := by
      rintro rfl
      exact other (Option.some.inj (held.symm.trans own))
    rw [Function.update_of_ne notOwn, held]
  · exact held

omit [DecidableEq Slot] in
/-- An agent that holds nothing can be reseated anywhere without an entry. -/
theorem Faithful.reseat (faithful : Faithful holder seat) {a : Agent}
    (empty : ∀ c, holder c ≠ some a) (place : Option Slot) :
    Faithful holder (Function.update seat a place) := by
  intro c b held
  have other : b ≠ a := by
    rintro rfl
    exact empty c held
  rw [Function.update_of_ne other]
  exact faithful c b held

/-- Claiming a slot keeps faithfulness when the agent holds nothing elsewhere. -/
theorem Faithful.claim (faithful : Faithful holder seat) {c : Slot} {a : Agent}
    (only : ∀ c', holder c' = some a → c' = c) :
    Faithful (claim holder c a) (Function.update seat a (some c)) := by
  intro x b held
  by_cases self : b = a
  · subst self
    rw [Function.update_self]
    unfold Lib.claim at held
    split_ifs at held with free
    · by_cases here : x = c
      · rw [here]
      · rw [Function.update_of_ne here] at held
        rw [only x held]
    · rw [only x held]
  · rw [Function.update_of_ne self]
    unfold Lib.claim at held
    split_ifs at held with free
    · by_cases here : x = c
      · subst here
        simp only [Function.update_self, Option.some.injEq] at held
        exact absurd held.symm self
      · rw [Function.update_of_ne here] at held
        exact faithful x b held
    · exact faithful x b held

/-- An agent that gives its slot up and leaves, leaves no entry behind. -/
theorem Faithful.leave (faithful : Faithful holder seat) {c : Slot} {a : Agent}
    (sits : seat a = some c) (place : Option Slot) :
    Faithful (release holder c a) (Function.update seat a place) := by
  intro x b held
  obtain ⟨before, notOwn⟩ := release_eq_some.mp held
  have sitsThere := faithful x b before
  have other : b ≠ a := by
    rintro rfl
    exact notOwn (Option.some.inj (sitsThere.symm.trans sits)) rfl
  rw [Function.update_of_ne other]
  exact sitsThere

/-- Giving up the old slot and taking a new one keeps faithfulness, whoever held the
new one. -/
theorem Faithful.move (faithful : Faithful holder seat) {c c' : Slot} {a : Agent}
    (sits : seat a = some c) :
    Faithful (take (release holder c a) c' a) (Function.update seat a (some c')) := by
  have left := faithful.leave sits (some c')
  intro x b held
  unfold take at held
  by_cases here : x = c'
  · subst here
    simp only [Function.update_self, Option.some.injEq] at held
    rw [← held, Function.update_self]
  · rw [Function.update_of_ne here] at held
    exact left x b held

end Faithful

section Covers

variable {occupied : Slot → Prop} {seat : Agent → Option Slot}

omit [DecidableEq Slot] [DecidableEq Agent] in
/-- More occupied slots cover the same seats. -/
theorem Covers.mono {occupied' : Slot → Prop} (covers : Covers occupied seat)
    (more : ∀ c, occupied c → occupied' c) : Covers occupied' seat :=
  fun a c sits => more c (covers a c sits)

omit [DecidableEq Slot] in
/-- Reseating an agent on an occupied slot, or nowhere, keeps the cover. -/
theorem Covers.reseat (covers : Covers occupied seat) {a : Agent} {place : Option Slot}
    (marked : ∀ c, place = some c → occupied c) :
    Covers occupied (Function.update seat a place) := by
  intro b c sits
  by_cases self : b = a
  · subst self
    rw [Function.update_self] at sits
    exact marked c sits
  · rw [Function.update_of_ne self] at sits
    exact covers b c sits

end Covers

/-! ### Reassignments -/

/-- A reassignment to `dest` in progress: no entry is stale, and who sits on its destination
holds it. Neither says anything about the agents that still have to move, so it holds in the
middle of a chain or a cycle of exchanges. -/
structure Settles (dest : Agent → Option Slot) (holder : Slot → Option Agent)
    (seat : Agent → Option Slot) : Prop where
  faithful : Faithful holder seat
  holds : ∀ a c, seat a = some c → dest a = some c → holder c = some a

namespace Settles

variable {dest : Agent → Option Slot} {holder : Slot → Option Agent} {seat : Agent → Option Slot}

/-- An agent moves to its destination, which is nobody else's. -/
theorem move (settles : Settles dest holder seat) {a : Agent} {c c' : Slot}
    (sits : seat a = some c) (own : dest a = some c') (only : ∀ b, dest b = some c' → b = a) :
    Settles dest (take (release holder c a) c' a) (Function.update seat a (some c')) := by
  refine ⟨settles.faithful.move sits, fun b x sits' wanted => ?_⟩
  by_cases self : b = a
  · subst self
    cases own.symm.trans wanted
    exact Function.update_self ..
  · rw [Function.update_of_ne self] at sits'
    have elsewhere : x ≠ c' := by
      rintro rfl
      exact self (only b wanted)
    have kept : release holder c a x = some b :=
      release_eq_some.mpr ⟨settles.holds b x sits' wanted, fun _ => self⟩
    unfold take
    rwa [Function.update_of_ne elsewhere]

omit [DecidableEq Slot] [DecidableEq Agent] in
/-- When everybody has arrived the two maps are inverse to each other. -/
theorem exact_of_arrived (settles : Settles dest holder seat)
    (arrived : ∀ a c, seat a = some c → dest a = some c) (c : Slot) (a : Agent) :
    holder c = some a ↔ seat a = some c :=
  ⟨settles.faithful c a, fun sits => settles.holds a c sits (arrived a c sits)⟩

omit [DecidableEq Slot] [DecidableEq Agent] in
/-- Maps that are inverse to each other settle into any reassignment. -/
theorem of_exact (inverse : ∀ c a, holder c = some a ↔ seat a = some c) :
    Settles dest holder seat :=
  ⟨fun c a => (inverse c a).mp, fun a c sits _ => (inverse c a).mpr sits⟩

end Settles

/-! ### Arrangements -/

/-- Claim a place, if there is one. -/
def enter (holder : Slot → Option Agent) (a : Agent) : Option Slot → Slot → Option Agent
  | none => holder
  | some c => claim holder c a

/-- Both maps together. -/
structure Arrangement (Slot Agent : Type*) where
  holder : Slot → Option Agent
  seat : Agent → Option Slot

/-- The ways an arrangement changes. -/
inductive Change (Slot Agent : Type*) where
  /-- The agent is put on a place, or on none, without giving anything up. -/
  | enter (a : Agent) (place : Option Slot)
  /-- The agent gives its slot up and is gone. -/
  | leave (a : Agent)
  /-- The agent gives its slot up and takes another. -/
  | move (a : Agent) (c : Slot)

namespace Arrangement

/-- The holders after an agent gave up the slot it sits on. -/
def released (arr : Arrangement Slot Agent) (a : Agent) : Slot → Option Agent :=
  match arr.seat a with
  | none => arr.holder
  | some c => release arr.holder c a

def apply (arr : Arrangement Slot Agent) : Change Slot Agent → Arrangement Slot Agent
  | .enter a place => ⟨enter arr.holder a place, Function.update arr.seat a place⟩
  | .leave a => ⟨arr.released a, Function.update arr.seat a none⟩
  | .move a c => ⟨take (arr.released a) c a, Function.update arr.seat a (some c)⟩

/-- Every seat is a held slot. -/
def Covered (arr : Arrangement Slot Agent) : Prop :=
  Covers (fun c => arr.holder c ≠ none) arr.seat

/-- An agent that gives up a slot it holds is alone on it. -/
def LeavesAlone (arr : Arrangement Slot Agent) : Change Slot Agent → Prop
  | .enter _ _ => True
  | .leave a => ∀ c, arr.seat a = some c → arr.holder c = some a →
      ∀ b, b ≠ a → arr.seat b ≠ some c
  | .move a c' => ∀ c, arr.seat a = some c → c ≠ c' → arr.holder c = some a →
      ∀ b, b ≠ a → arr.seat b ≠ some c

/-- An agent that enters holds nothing but the place it enters. -/
def EntersClean (arr : Arrangement Slot Agent) : Change Slot Agent → Prop
  | .enter a place => ∀ c, arr.holder c = some a → place = some c
  | .leave _ => True
  | .move _ _ => True

variable {arr : Arrangement Slot Agent}

/-- A slot stays held through a release, unless it is the released entry. -/
theorem held_of_released {a : Agent} {x : Slot} (held : arr.holder x ≠ none)
    (other : ∀ c, arr.seat a = some c → arr.holder c = some a → x ≠ c) :
    arr.released a x ≠ none := by
  unfold released
  cases sits : arr.seat a with
  | none => exact held
  | some c =>
      simp only [release]
      split_ifs with own
      · rw [Function.update_of_ne (other c sits own)]
        exact held
      · exact held

/-- Of the released entry nothing is left. -/
theorem released_own {a : Agent} {c : Slot} (sits : arr.seat a = some c)
    (own : arr.holder c = some a) : arr.released a c = none := by
  simp [released, sits, release, own]

omit [DecidableEq Slot] in
theorem update_other {a b : Agent} {place : Option Slot} {c : Slot}
    (other : b ≠ a) (sits : arr.seat b = some c) :
    Function.update arr.seat a place b = some c := by
  rw [Function.update_of_ne other, sits]

/-- A change keeps every seat held exactly when the agent leaves alone. -/
theorem covered_apply_iff (covered : arr.Covered) (change : Change Slot Agent) :
    (arr.apply change).Covered ↔ arr.LeavesAlone change := by
  cases change with
  | enter a place =>
      refine ⟨fun _ => trivial, fun _ => ?_⟩
      cases place with
      | none => exact covered.reseat fun c impossible => by cases impossible
      | some c =>
          have more : Covers (fun x => claim arr.holder c a x ≠ none) arr.seat := by
            refine covered.mono fun x held => ?_
            unfold claim
            split_ifs with free
            · by_cases here : x = c
              · simp [here]
              · rwa [Function.update_of_ne here]
            · exact held
          refine more.reseat fun x here => ?_
          cases here
          unfold claim
          split_ifs with free
          · simp
          · exact free
  | leave a =>
      constructor
      · intro after c sits own b other sits'
        exact after b c (update_other other sits') (released_own sits own)
      · intro alone b x sits
        by_cases self : b = a
        · subst self
          simp only [apply, Function.update_self] at sits
          cases sits
        · simp only [apply, Function.update_of_ne self] at sits
          refine held_of_released (covered b x sits) fun c here own => ?_
          rintro rfl
          exact alone x here own b self sits
  | move a c' =>
      constructor
      · intro after c sits away own b other sits'
        apply after b c (update_other other sits')
        simp only [apply, take]
        rw [Function.update_of_ne away, released_own sits own]
      · intro alone b x sits
        by_cases here : x = c'
        · simp [apply, take, here]
        · by_cases self : b = a
          · subst self
            simp only [apply, Function.update_self, Option.some.injEq] at sits
            exact absurd sits.symm here
          · simp only [apply, Function.update_of_ne self] at sits
            simp only [apply, take, Function.update_of_ne here]
            refine held_of_released (covered b x sits) fun c sitsThere own => ?_
            rintro rfl
            exact alone x sitsThere here own b self sits

/-- A change keeps every entry true exactly when the agent enters clean. -/
theorem faithful_apply_iff (faithful : Faithful arr.holder arr.seat) (change : Change Slot Agent) :
    Faithful (arr.apply change).holder (arr.apply change).seat ↔ arr.EntersClean change := by
  cases change with
  | enter a place =>
      constructor
      · intro after c held
        have held' : (arr.apply (.enter a place)).holder c = some a := by
          cases place with
          | none => exact held
          | some c' =>
              simp only [apply, enter, claim]
              split_ifs with free
              · have away : c ≠ c' := by
                  rintro rfl
                  rw [free] at held
                  cases held
                rwa [Function.update_of_ne away]
              · exact held
        have sits := after c a held'
        simpa [apply] using sits
      · intro clean
        cases place with
        | none => exact faithful.reseat (fun c held => by cases clean c held) none
        | some c =>
            refine faithful.claim fun c' held => ?_
            exact (Option.some.inj (clean c' held)).symm
  | leave a =>
      refine ⟨fun _ => trivial, fun _ => ?_⟩
      simp only [apply, released]
      cases sits : arr.seat a with
      | none => exact faithful.reseat (fun c => faithful.unseated sits c) none
      | some c => exact faithful.leave sits none
  | move a c' =>
      refine ⟨fun _ => trivial, fun _ => ?_⟩
      simp only [apply, released]
      cases sits : arr.seat a with
      | none =>
          intro x b held
          by_cases here : x = c'
          · subst here
            simp only [take, Function.update_self, Option.some.injEq] at held
            rw [← held, Function.update_self]
          · simp only [take, Function.update_of_ne here] at held
            have other : b ≠ a := by
              rintro rfl
              exact faithful.unseated sits x held
            rw [Function.update_of_ne other]
            exact faithful x b held
      | some c => exact faithful.move sits

end Arrangement

end VNams.Lib
