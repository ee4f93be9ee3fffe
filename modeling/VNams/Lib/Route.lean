import Mathlib.Data.Int.CardIntervalMod
import Mathlib.Data.List.Chain

/-!
Following pointers.

`next` is where the pointer at a place leads, if there is one. `Route next stops goal` lists
the places that are passed from the first stop to the goal. Routes are put together end to
end (`Route.append`), carried over to other places (`Route.map`) and bent at the last stop
(`Route.redirect`). A route back to its own first stop that passes none twice is a `Circuit`:
after any number of steps the place is the one at that number modulo the length
(`Circuit.follow`), so every stop is passed equally often (`Circuit.visits`).
-/

namespace VNams.Lib

universe u v

variable {α : Type u} {β : Type v} {next next' : α → Option α} {stops : List α} {goal : α}

/-- `next` leads from each stop to the one behind it, and from the last one to the goal. -/
def Route (next : α → Option α) (stops : List α) (goal : α) : Prop :=
  (stops ++ [goal]).IsChain fun a b => next a = some b

/-- The place after so many steps. -/
def follow (next : α → Option α) : Nat → α → Option α
  | 0, a => some a
  | k + 1, a => (next a).bind (follow next k)

theorem follow_add (j k : Nat) (a : α) :
    follow next (j + k) a = (follow next j a).bind (follow next k) := by
  induction j generalizing a with
  | zero => rw [Nat.zero_add]; rfl
  | succ j ih =>
      rw [Nat.succ_add]
      show (next a).bind (follow next (j + k)) = ((next a).bind (follow next j)).bind _
      cases next a with
      | none => rfl
      | some b => exact ih b

/-! ### Routes -/

theorem route_nil (goal : α) : Route next [] goal := List.IsChain.singleton goal

/-- One more stop at the end. -/
theorem Route.extend {last : α} (route : Route next stops last) (leads : next last = some goal) :
    Route next (stops ++ [last]) goal := by
  unfold Route
  rw [List.append_assoc]
  exact List.isChain_append_cons_cons.mpr ⟨route, leads, .singleton goal⟩

/-- Routes end to end. -/
theorem Route.append {mid : α} {stops' : List α} (first : Route next stops mid)
    (second : Route next (mid :: stops') goal) : Route next (stops ++ mid :: stops') goal := by
  unfold Route
  rw [List.append_assoc, List.cons_append]
  exact List.isChain_split.mpr ⟨first, second⟩

/-- A route is the same for pointers that are the same on its stops. -/
theorem Route.congr (same : ∀ a ∈ stops, next' a = next a) (route : Route next stops goal) :
    Route next' stops goal := by
  induction stops with
  | nil => exact route_nil goal
  | cons a stops ih =>
      rw [List.forall_mem_cons] at same
      unfold Route at route ⊢
      rw [List.cons_append, List.isChain_cons] at route ⊢
      exact ⟨fun b head => same.1.trans (route.1 b head), ih same.2 route.2⟩

/-- A route carried over to other places, by a map that the pointers keep to. -/
theorem Route.map {f : α → β} {next' : β → Option β}
    (keeps : ∀ a ∈ stops, ∀ b, next a = some b → next' (f a) = some (f b))
    (route : Route next stops goal) : Route next' (stops.map f) (f goal) := by
  induction stops with
  | nil => exact route_nil (f goal)
  | cons a stops ih =>
      rw [List.forall_mem_cons] at keeps
      unfold Route at route ⊢
      rw [List.cons_append, List.isChain_cons] at route
      rw [List.map_cons, List.cons_append, List.isChain_cons]
      refine ⟨?_, ih keeps.2 route.2⟩
      intro b head
      have mapped : (stops ++ [goal]).head?.map f = some b := by
        rw [← List.head?_map, List.map_append]
        exact head
      obtain ⟨b', head', rfl⟩ := Option.map_eq_some_iff.mp mapped
      exact keeps.1 b' (route.1 b' head')

/-- Every stop leads to a stop or to the goal. -/
theorem Route.exists_next (route : Route next stops goal) {a : α} (mem : a ∈ stops) :
    ∃ b ∈ stops ++ [goal], next a = some b := by
  obtain ⟨before, after, rfl⟩ := List.append_of_mem mem
  unfold Route at route
  rw [List.append_assoc, List.cons_append] at route ⊢
  have behind := (List.isChain_split.mp route).2
  cases after with
  | nil => exact ⟨goal, by simp, (List.isChain_cons_cons.mp behind).1⟩
  | cons b after => exact ⟨b, by simp, (List.isChain_cons_cons.mp behind).1⟩

/-- The last stop leads to the goal. -/
theorem Route.last_leads {last : α} (route : Route next (stops ++ [last]) goal) :
    next last = some goal := by
  unfold Route at route
  rw [List.append_assoc] at route
  exact (List.isChain_append_cons_cons.mp route).2.1

/-- The route up to its last stop. -/
theorem Route.dropLast {last : α} (route : Route next (stops ++ [last]) goal) :
    Route next stops last := by
  unfold Route at route
  rw [List.append_assoc] at route
  exact (List.isChain_append_cons_cons.mp route).1

/-- The last pointer of a route that leads somewhere else. -/
theorem Route.redirect {last goal' : α} (route : Route next (stops ++ [last]) goal)
    (same : ∀ a ∈ stops, next' a = next a) (leads : next' last = some goal') :
    Route next' (stops ++ [last]) goal' :=
  (route.dropLast.congr same).extend leads

theorem follow_of_isChain {a : α} {rest : List α}
    (chain : (a :: rest).IsChain fun a b => next a = some b) {i : Nat} (within : i ≤ rest.length) :
    follow next i a = (a :: rest)[i]? := by
  induction i generalizing a rest with
  | zero => rfl
  | succ i ih =>
      cases rest with
      | nil => simp at within
      | cons b rest =>
          obtain ⟨leads, chain⟩ := List.isChain_cons_cons.mp chain
          have later := ih chain (Nat.le_of_succ_le_succ within)
          rw [List.getElem?_cons_succ, ← later, follow, leads]
          rfl

/-! ### Circuits -/

/-- A route back to its first stop that passes none twice. -/
structure Circuit (next : α → Option α) (stops : List α) (start : α) : Prop where
  nodup : stops.Nodup
  head : stops.head? = some start
  route : Route next stops start

namespace Circuit

variable {start : α}

theorem length_pos (circuit : Circuit next stops start) : 0 < stops.length := by
  cases stops with
  | nil => cases circuit.head
  | cons a stops => exact Nat.succ_pos _

/-- Within one round. -/
theorem follow_of_le (circuit : Circuit next stops start) {k : Nat} (within : k ≤ stops.length) :
    follow next k start = (stops ++ [start])[k]? := by
  obtain ⟨_, head, route⟩ := circuit
  cases stops with
  | nil => cases head
  | cons a stops =>
      obtain rfl : a = start := Option.some.inj head
      exact follow_of_isChain route (by simpa using within)

/-- After any number of steps. -/
theorem follow (circuit : Circuit next stops start) (k : Nat) :
    follow next k start = stops[k % stops.length]? := by
  have positive := circuit.length_pos
  have round : Lib.follow next stops.length start = some start := by
    rw [circuit.follow_of_le (Nat.le_refl _), List.getElem?_append_right (Nat.le_refl _),
      Nat.sub_self]
    rfl
  induction k using Nat.strong_induction_on with
  | _ k ih =>
      by_cases within : k < stops.length
      · rw [circuit.follow_of_le (Nat.le_of_lt within), List.getElem?_append_left within,
          Nat.mod_eq_of_lt within]
      · have again := ih (k - stops.length) (by omega)
        have split : k = stops.length + (k - stops.length) := by omega
        rw [split, follow_add, round]
        show Lib.follow next (k - stops.length) start = _
        rw [again, Nat.add_mod_left]

/-- In so many steps every stop is passed as often as any other, or once more. -/
theorem visits [DecidableEq α] (circuit : Circuit next stops start) {stop : α}
    (mem : stop ∈ stops) (steps : Nat) :
    steps / stops.length ≤ Nat.count (fun k => Lib.follow next k start = some stop) steps ∧
      Nat.count (fun k => Lib.follow next k start = some stop) steps ≤
        steps / stops.length + 1 := by
  have positive := circuit.length_pos
  obtain ⟨i, inRange, rfl⟩ := List.mem_iff_getElem.mp mem
  have same : ∀ k, Lib.follow next k start = some stops[i] ↔ k ≡ i [MOD stops.length] := by
    intro k
    rw [circuit.follow, List.getElem?_eq_getElem (Nat.mod_lt k positive), Option.some.injEq,
      circuit.nodup.getElem_inj_iff, Nat.ModEq, Nat.mod_eq_of_lt inRange]
  simp only [same, Nat.count_modEq_card _ positive]
  split <;> omega

end Circuit

end VNams.Lib
