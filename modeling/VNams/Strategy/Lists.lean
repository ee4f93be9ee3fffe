import VNams.Lib.Leveling
import VNams.Strategy.Simple
import Mathlib.Algebra.BigOperators.Intervals

/-!
The lists of the balancing loop under a move.

`moved` is what a successful `moveVm` leaves. It permutes the concatenation of the
lists (`flatten_moved`), and on the loads it is a `shift` (`load_moved`), which is how
the general facts about levelling reach the code.
-/

namespace VNams.Strategy

open Lib

/-- The places of the load vector: the nodes. -/
abbrev nodes (numaNumber : Nat) : Finset Nat := Finset.range numaNumber

/-- The lists after the VM at `pos` of `source` was moved to the end of `target`. -/
def moved (vmOnNode : List (List Int)) (source pos target : Nat) (vmId : Int) :
    List (List Int) :=
  (vmOnNode.modify source fun ls => ls.eraseIdx pos).modify target fun ls => ls ++ [vmId]

section Moved

variable {v : List (List Int)} {source pos target : Nat} {vmId : Int}

theorem load_of_getElem? {ls : List Int} {node : Nat} (found : v[node]? = some ls) :
    load v node = ls.length := by
  simp [load, List.getD_eq_getElem?_getD, found]

/-- A node with a VM on it is a position of the vector. -/
theorem lt_length_of_load_pos {node : Nat} (pos : 0 < load v node) : node < v.length := by
  by_contra beyond
  have missing : v[node]? = none := List.getElem?_eq_none (by omega)
  simp [load, List.getD_eq_getElem?_getD, missing] at pos

@[simp] theorem length_moved : (moved v source pos target vmId).length = v.length := by
  simp [moved]

/-- `moveVm` succeeds whenever the target is a node. -/
theorem moveVm_eq (inRange : target < v.length) :
    moveVm v source pos target vmId = .ok (moved v source pos target vmId) := by
  have inRange' : target < (v.modify source fun ls => ls.eraseIdx pos).length := by
    simpa using inRange
  have found := vecAt_eq_ok.mpr (List.getElem?_eq_getElem inRange')
  simp [moveVm, found, moved, bind, Except.bind]

/-- A successful `moveVm` is `moved`. -/
theorem moveVm_eq_ok {v' : List (List Int)} (done : moveVm v source pos target vmId = .ok v') :
    v' = moved v source pos target vmId ∧ target < v.length := by
  obtain ⟨ls, found, same⟩ := bind_eq_ok.mp done
  cases same
  refine ⟨rfl, ?_⟩
  obtain ⟨inRange, _⟩ := List.getElem?_eq_some_iff.mp (vecAt_eq_ok.mp found)
  simpa using inRange

/-- The list of a node after a move. -/
theorem getElem?_moved (v : List (List Int)) (source pos target : Nat) (vmId : Int) (node : Nat) :
    (moved v source pos target vmId)[node]? = v[node]?.map fun ls =>
      let ls := if source = node then ls.eraseIdx pos else ls
      if target = node then ls ++ [vmId] else ls := by
  simp only [moved, List.getElem?_modify, Option.map_eq_map, Option.map_map]
  rfl

/-- A move is a shift of the loads. -/
theorem load_moved (vmId : Int) (taken : pos < load v source) (inRange : target < v.length) :
    load (moved v source pos target vmId) = shift (load v) source target := by
  obtain ⟨ls, onSource⟩ : ∃ ls, v[source]? = some ls :=
    ⟨_, List.getElem?_eq_getElem (lt_length_of_load_pos (by omega))⟩
  have size := load_of_getElem? onSource
  obtain ⟨lt, onTarget⟩ : ∃ lt, v[target]? = some lt := ⟨_, List.getElem?_eq_getElem inRange⟩
  have sizeTarget := load_of_getElem? onTarget
  have shorter : (ls.eraseIdx pos).length = ls.length - 1 :=
    List.length_eraseIdx_of_lt (by omega)
  funext node
  by_cases ne : source = target
  · subst ne
    rw [shift_self (by omega)]
    by_cases here : source = node
    · subst here
      have after := getElem?_moved v source pos source vmId source
      rw [onSource] at after
      simp only [Option.map_some, if_true] at after
      rw [load_of_getElem? after, List.length_append, shorter, size, List.length_singleton]
      omega
    · simp [load, List.getD_eq_getElem?_getD, getElem?_moved, here]
  · by_cases isSource : node = source
    · subst isSource
      rw [shift_source ne, size]
      have after := getElem?_moved v node pos target vmId node
      rw [onSource] at after
      simp only [Option.map_some, if_true, if_neg (Ne.symm ne)] at after
      rw [load_of_getElem? after, shorter]
    · by_cases isTarget : node = target
      · subst isTarget
        rw [shift_target ne, sizeTarget]
        have after := getElem?_moved v source pos node vmId node
        rw [onTarget] at after
        simp only [Option.map_some, if_true, if_neg ne] at after
        rw [load_of_getElem? after, List.length_append, List.length_singleton]
      · rw [shift_other isSource isTarget]
        simp [load, List.getD_eq_getElem?_getD, getElem?_moved, Ne.symm isSource,
          Ne.symm isTarget]

/-- Appending to one list appends to the concatenation, up to order. -/
theorem flatten_push {α : Type} (x : α) :
    ∀ {v : List (List α)} {target : Nat}, target < v.length →
      (v.modify target fun ls => ls ++ [x]).flatten.Perm (x :: v.flatten)
  | [], _, inRange => absurd inRange (Nat.not_lt_zero _)
  | ls :: rest, 0, _ => by
      simp only [List.modify_zero_cons, List.flatten_cons, List.append_assoc]
      exact List.perm_middle
  | ls :: rest, target + 1, inRange => by
      simp only [List.modify_succ_cons, List.flatten_cons]
      exact ((flatten_push x (Nat.lt_of_succ_lt_succ inRange)).append_left ls).trans
        List.perm_middle

/-- Erasing one element of one list erases it from the concatenation, up to order. -/
theorem flatten_erase {α : Type} {x : α} :
    ∀ {v : List (List α)} {source pos : Nat} {ls : List α}, v[source]? = some ls →
      ls[pos]? = some x →
      (x :: (v.modify source fun ls => ls.eraseIdx pos).flatten).Perm v.flatten
  | [], _, _, _, onSource, _ => by simp at onSource
  | first :: rest, 0, pos, ls, onSource, here => by
      simp only [List.getElem?_cons_zero, Option.some.injEq] at onSource
      subst onSource
      obtain ⟨inRange, rfl⟩ := List.getElem?_eq_some_iff.mp here
      simp only [List.modify_zero_cons, List.flatten_cons]
      exact (List.getElem_cons_eraseIdx_perm inRange).append_right _
  | first :: rest, source + 1, pos, ls, onSource, here => by
      simp only [List.getElem?_cons_succ] at onSource
      simp only [List.modify_succ_cons, List.flatten_cons]
      exact List.perm_middle.symm.trans ((flatten_erase onSource here).append_left first)

/-- A move keeps the VMs: the concatenation of the lists is only permuted. -/
theorem flatten_moved {ls : List Int} (onSource : v[source]? = some ls)
    (here : ls[pos]? = some vmId) (inRange : target < v.length) :
    (moved v source pos target vmId).flatten.Perm v.flatten :=
  (flatten_push vmId (by simpa using inRange)).trans (flatten_erase onSource here)

end Moved

/-- The loads of all nodes add up to the number of VMs listed. -/
theorem total_load (v : List (List Int)) :
    total (nodes v.length) (load v) = v.flatten.length := by
  induction v with
  | nil => simp [total, nodes]
  | cons ls rest ih =>
      unfold total nodes at ih ⊢
      rw [List.length_cons, Finset.sum_range_succ', List.flatten_cons, List.length_append, ← ih]
      simp only [load, List.getD_cons_succ, List.getD_cons_zero]
      omega

end VNams.Strategy
