import VNams.Lib.Route

/-!
The random order in which the lines of a block are read.

`rand_array_init` links the slots of an array in the order in which `rand` first draws them,
from slot 0 on, until a single slot is left, which is where the last link ends. The array is
then a route through all slots in the order of the first draws (`randArrayInit_route`), and
the loop ends with just the draw that completes the slots (`randArrayInit_iff`).
-/

namespace VNams.Mgen

open Lib

/-- `RAND_ARRAY_SIZE` -/
def randArraySize : Nat := 8192

instance : NeZero randArraySize := ⟨by decide⟩

/-- `INVALID_RAND` -/
def invalidRand : Int := -1

/-- `s_rand_arr` -/
abbrev RandArr (n : Nat) := Vector Int n

variable {n : Nat}

/-- The loop of `last_free_elem`. -/
def countFree : List Int → Nat → Bool
  | [], cnt => cnt == 1
  | elem :: rest, cnt =>
      if elem = invalidRand then
        if cnt + 1 > 1 then false else countFree rest (cnt + 1)
      else countFree rest cnt

/-- Whether exactly one element is free. -/
def lastFreeElem (randArr : RandArr n) : Bool := countFree randArr.toList 0

/-- The link that `rand_array_init` sets for a free slot `r`: behind `index`, unless it is
`index` itself. -/
def linkSlot (randArr : RandArr n) (index r : Fin n) : RandArr n × Fin n :=
  if randArr[index] = invalidRand ∧ index ≠ r then
    (randArr.set index (r.val : Int) index.isLt, r)
  else (randArr, index)

/-- The two nested loops of `rand_array_init`, draw by draw; `none` while more draws are
needed. -/
def randLoop [NeZero n] (randArr : RandArr n) (index : Fin n) :
    List Nat → Option (RandArr n × List Nat)
  | [] => none
  | draw :: draws =>
      let r := Fin.ofNat n draw
      if randArr[r] = invalidRand then
        let linked := linkSlot randArr index r
        if lastFreeElem linked.1 then
          some (linked.1.set linked.2 (n : Int) linked.2.isLt, draws)
        else randLoop linked.1 linked.2 draws
      else randLoop randArr index draws

/-- `rand_array_init` on what `rand` returns, call by call: the array, and the calls that are
left. -/
def randArrayInit (n : Nat) [NeZero n] (draws : List Nat) : Option (RandArr n × List Nat) :=
  randLoop (Vector.replicate n invalidRand) 0 draws

/-! ### The array as links -/

/-- Where the link of a slot leads. -/
def link (randArr : RandArr n) (slot : Nat) : Option Nat := randArr[slot]?.bind Int.toNat?

theorem link_set_self (randArr : RandArr n) {index : Nat} (inRange : index < n) (r : Nat) :
    link (randArr.set index (r : Int) inRange) index = some r := by
  rw [link, Vector.getElem?_set_self]
  exact Int.mem_toNat?.mpr rfl

theorem link_set_ne (randArr : RandArr n) {index slot : Nat} (inRange : index < n)
    (other : slot ≠ index) (r : Int) :
    link (randArr.set index r inRange) slot = link randArr slot := by
  rw [link, Vector.getElem?_set_ne inRange other.symm]
  rfl

theorem countFree_iff {elems : List Int} {cnt : Nat} (few : cnt ≤ 1) :
    countFree elems cnt = true ↔ cnt + elems.count invalidRand = 1 := by
  induction elems generalizing cnt with
  | nil => simp [countFree]
  | cons elem rest ih =>
      unfold countFree
      by_cases free : elem = invalidRand
      · rw [if_pos free, free, List.count_cons_self]
        by_cases second : cnt + 1 > 1
        · rw [if_pos second]
          simp only [Bool.false_eq_true, false_iff]
          omega
        · rw [if_neg second, ih (by omega)]
          omega
      · rw [if_neg free, ih few, List.count_cons_of_ne free]

/-- What holds of the array while it is filled: `path` are the slots that are linked, one to
the next and the last one to `index`, and the other slots are free. -/
structure Linking (randArr : RandArr n) (path : List Nat) (index : Nat) : Prop where
  route : Route (link randArr) path index
  nodup : (path ++ [index]).Nodup
  index_lt : index < n
  free : ∀ slot, randArr[slot]? = some invalidRand ↔ slot < n ∧ slot ∉ path
  count : randArr.toList.count invalidRand + path.length = n

theorem Linking.start (pos : 0 < n) : Linking (Vector.replicate n invalidRand) [] 0 where
  route := route_nil 0
  nodup := List.nodup_singleton 0
  index_lt := pos
  free slot := by simp [Vector.getElem?_replicate]
  count := by simp

namespace Linking

variable {randArr : RandArr n} {path : List Nat} {index : Nat}

theorem path_lt (linking : Linking randArr path index) {slot : Nat} (mem : slot ∈ path) :
    slot < n := by
  obtain ⟨next, _, leads⟩ := linking.route.exists_next mem
  obtain ⟨elem, found, _⟩ := Option.bind_eq_some_iff.mp leads
  exact (Vector.getElem?_eq_some_iff.mp found).1

theorem ne_index (linking : Linking randArr path index) {slot : Nat} (mem : slot ∈ path) :
    slot ≠ index :=
  (List.nodup_append.mp linking.nodup).2.2 slot mem index (List.mem_singleton_self index)

/-- `index` is free itself. -/
theorem index_free (linking : Linking randArr path index) :
    randArr[index]? = some invalidRand :=
  (linking.free index).mpr ⟨linking.index_lt, fun mem => linking.ne_index mem rfl⟩

theorem count_pos (linking : Linking randArr path index) :
    0 < randArr.toList.count invalidRand := by
  obtain ⟨inRange, isFree⟩ := Vector.getElem?_eq_some_iff.mp linking.index_free
  exact List.count_pos_iff.mpr (Vector.mem_toList_iff.mpr (isFree ▸ Vector.getElem_mem inRange))

/-- Another free slot is linked behind `index`. -/
theorem extend (linking : Linking randArr path index) {r : Nat} (inRange : r < n)
    (free : r ∉ path) (other : index ≠ r) :
    Linking (randArr.set index (r : Int) linking.index_lt) (path ++ [index]) r := by
  refine ⟨?_, ?_, inRange, ?_, ?_⟩
  · refine (linking.route.congr fun slot mem => ?_).extend (link_set_self randArr linking.index_lt r)
    exact link_set_ne randArr linking.index_lt (linking.ne_index mem) r
  · refine List.nodup_append.mpr ⟨linking.nodup, List.nodup_singleton r, ?_⟩
    intro slot mem r' isR
    rw [List.mem_singleton.mp isR]
    rcases List.mem_append.mp mem with linked | last
    · rintro rfl
      exact free linked
    · rw [List.mem_singleton.mp last]
      exact other
  · intro slot
    rw [Vector.getElem?_set, List.mem_append, List.mem_singleton, not_or]
    by_cases same : index = slot
    · subst same
      rw [if_pos rfl]
      constructor
      · intro isFree
        have negative : (r : Int) = -1 := Option.some.inj isFree
        omega
      · rintro ⟨_, _, differs⟩
        exact absurd rfl differs
    · rw [if_neg same, linking.free]
      constructor
      · exact fun ⟨lt, notLinked⟩ => ⟨lt, notLinked, Ne.symm same⟩
      · exact fun ⟨lt, notLinked, _⟩ => ⟨lt, notLinked⟩
  · obtain ⟨inRange', isFree⟩ := Vector.getElem?_eq_some_iff.mp linking.index_free
    have notInvalid : ((r : Int) == invalidRand) = false := by
      rw [beq_eq_false_iff_ne]
      intro same
      have negative : (r : Int) = -1 := same
      omega
    have positive := linking.count_pos
    have total := linking.count
    rw [Vector.count_toList] at total positive ⊢
    rw [Vector.count_set, isFree, notInvalid, List.length_append, List.length_singleton]
    simp only [beq_self_eq_true, if_true, Bool.false_eq_true, if_false]
    omega

/-- The check of the loop: all slots but `index` are linked. -/
theorem lastFreeElem_iff (linking : Linking randArr path index) :
    lastFreeElem randArr = true ↔ path.length + 1 = n := by
  have total := linking.count
  unfold lastFreeElem
  rw [countFree_iff (Nat.zero_le 1)]
  omega

/-- Then they are a route through all slots. -/
theorem perm_range (linking : Linking randArr path index) (full : path.length + 1 = n) :
    (path ++ [index]).Perm (List.range n) := by
  apply (List.subperm_of_subset linking.nodup ?_).perm_of_length_le
  · simp [full]
  · intro slot mem
    rw [List.mem_range]
    rcases List.mem_append.mp mem with linked | last
    · exact linking.path_lt linked
    · rw [List.mem_singleton.mp last]
      exact linking.index_lt

end Linking

/-! ### The draws -/

/-- The slots in the order in which they are first drawn, behind slot 0. -/
def drawOrder (n : Nat) (draws : List Nat) : List Nat := (0 :: draws.map (· % n)).eraseDups

theorem drawOrder_nil (n : Nat) : drawOrder n [] = [0] := List.eraseDups_cons

theorem mem_drawOrder {draws : List Nat} {slot : Nat} :
    slot ∈ drawOrder n draws ↔ slot = 0 ∨ ∃ draw ∈ draws, draw % n = slot := by
  simp [drawOrder]

/-- One more draw: a slot that was drawn before changes nothing. -/
theorem drawOrder_concat (draws : List Nat) (draw : Nat) :
    drawOrder n (draws ++ [draw]) =
      if draw % n ∈ drawOrder n draws then drawOrder n draws
      else drawOrder n draws ++ [draw % n] := by
  have longer : drawOrder n (draws ++ [draw]) =
      drawOrder n draws ++ ([draw % n].removeAll (0 :: draws.map (· % n))).eraseDups := by
    unfold drawOrder
    rw [List.map_append, List.map_singleton, ← List.cons_append, List.eraseDups_append]
  rw [longer, List.cons_removeAll]
  by_cases seen : draw % n ∈ drawOrder n draws
  · rw [if_pos seen]
    simp [List.mem_eraseDups.mp seen]
  · have unseen : draw % n ∉ 0 :: draws.map (· % n) := fun mem => seen (List.mem_eraseDups.mpr mem)
    rw [if_neg seen]
    simp [unseen, List.eraseDups_cons]

section Loop

variable {randArr : RandArr n} {path : List Nat} {index : Fin n}

/-- A free slot that is drawn becomes the last of the order, if it is not already. -/
theorem linkSlot_spec (linking : Linking randArr path index) {r : Fin n}
    (free : randArr[r] = invalidRand) :
    ∃ path', Linking (linkSlot randArr index r).1 path' (linkSlot randArr index r).2 ∧
      path' ++ [(linkSlot randArr index r).2.val] =
        if r.val ∈ path ++ [index.val] then path ++ [index.val]
        else path ++ [index.val] ++ [r.val] := by
  have notLinked : r.val ∉ path := by
    have found : randArr[r.val]? = some invalidRand := by
      rw [Vector.getElem?_eq_getElem r.isLt]
      exact congrArg some free
    exact ((linking.free r).mp found).2
  have indexFree : randArr[index] = invalidRand := by
    obtain ⟨_, isFree⟩ := Vector.getElem?_eq_some_iff.mp linking.index_free
    exact isFree
  unfold linkSlot
  by_cases same : index = r
  · rw [if_neg fun both => both.2 same]
    refine ⟨path, linking, ?_⟩
    rw [if_pos (by simp [same])]
  · have apart : index.val ≠ r.val := fun equal => same (Fin.ext equal)
    rw [if_pos ⟨indexFree, same⟩]
    refine ⟨path ++ [index.val], linking.extend r.isLt notLinked apart, ?_⟩
    rw [if_neg]
    rw [List.mem_append, List.mem_singleton, not_or]
    exact ⟨notLinked, Ne.symm apart⟩

variable [NeZero n]

/-- What one draw does to the order: a taken slot nothing, a free one what `linkSlot` does. -/
theorem draw_cases (linking : Linking randArr path index) {used : List Nat}
    (order : path ++ [index.val] = drawOrder n used) (draw : Nat) :
    (randArr[Fin.ofNat n draw] ≠ invalidRand ∧ draw % n ∈ path ∧
      path ++ [index.val] = drawOrder n (used ++ [draw])) ∨
    (randArr[Fin.ofNat n draw] = invalidRand ∧ ∃ path',
      Linking (linkSlot randArr index (Fin.ofNat n draw)).1 path'
        (linkSlot randArr index (Fin.ofNat n draw)).2 ∧
      path' ++ [(linkSlot randArr index (Fin.ofNat n draw)).2.val] =
        drawOrder n (used ++ [draw])) := by
  have slot : (Fin.ofNat n draw).val = draw % n := rfl
  rw [drawOrder_concat, ← order]
  by_cases free : randArr[Fin.ofNat n draw] = invalidRand
  · exact .inr ⟨free, linkSlot_spec linking free⟩
  · have linked : draw % n ∈ path := by
      by_contra notLinked
      have found := (linking.free (draw % n)).mpr ⟨Nat.mod_lt _ (Nat.pos_of_neZero n), notLinked⟩
      obtain ⟨_, isFree⟩ := Vector.getElem?_eq_some_iff.mp found
      exact free isFree
    exact .inl ⟨free, linked, by rw [if_pos (List.mem_append_left _ linked)]⟩

/-- The loop that ends has made a route through all slots, in the order of the draws. -/
theorem randLoop_route {draws used rest : List Nat} {result : RandArr n}
    (linking : Linking randArr path index) (order : path ++ [index.val] = drawOrder n used)
    (done : randLoop randArr index draws = some (result, rest)) :
    ∃ more, draws = more ++ rest ∧ (drawOrder n (used ++ more)).Perm (List.range n) ∧
      Route (link result) (drawOrder n (used ++ more)) n := by
  induction draws generalizing randArr path index used with
  | nil => cases done
  | cons draw draws ih =>
      unfold randLoop at done
      rcases draw_cases linking order draw with ⟨taken, _, same⟩ | ⟨free, path', linking', order'⟩
      · simp only [if_neg taken] at done
        obtain ⟨more, rfl, perm, route⟩ := ih linking same done
        rw [List.append_assoc] at perm route
        exact ⟨draw :: more, rfl, perm, route⟩
      · simp only [if_pos free] at done
        split at done
        · rename_i last
          cases done
          have full := linking'.lastFreeElem_iff.mp last
          refine ⟨[draw], rfl, ?_, ?_⟩
          · rw [← order']
            exact linking'.perm_range full
          · rw [← order']
            refine (linking'.route.congr fun slot mem => ?_).extend
              (link_set_self _ linking'.index_lt n)
            exact link_set_ne _ linking'.index_lt (linking'.ne_index mem) n
        · obtain ⟨more, rfl, perm, route⟩ := ih linking' order' done
          rw [List.append_assoc] at perm route
          exact ⟨draw :: more, rfl, perm, route⟩

/-- The loop ends with the draw that completes the slots. -/
theorem randLoop_isSome {draws used : List Nat} (linking : Linking randArr path index)
    (order : path ++ [index.val] = drawOrder n used)
    (unfinished : path = [] ∨ path.length + 1 < n) :
    (∃ r, randLoop randArr index draws = some r) ↔
      draws ≠ [] ∧ ∀ slot < n, slot ∈ drawOrder n (used ++ draws) := by
  induction draws generalizing randArr path index used with
  | nil => simp [randLoop]
  | cons draw draws ih =>
      have whole : used ++ draw :: draws = used ++ [draw] ++ draws := List.append_cons _ _ _
      -- slots that are all drawn fill the path
      have filled : ∀ {path' : List Nat} {last : Nat}, path' ++ [last] = drawOrder n (used ++ [draw]) →
          draws = [] → (∀ slot < n, slot ∈ drawOrder n (used ++ [draw] ++ draws)) →
          n ≤ path'.length + 1 := by
        intro path' last order' none all
        rw [none, List.append_nil, ← order'] at all
        have within := (List.subperm_of_subset List.nodup_range
          fun slot mem => all slot (List.mem_range.mp mem)).length_le
        simpa using within
      unfold randLoop
      rw [whole]
      simp only [ne_eq, List.cons_ne_nil, not_false_eq_true, true_and]
      rcases draw_cases linking order draw with ⟨taken, mem, same⟩ | ⟨free, path', linking', order'⟩
      · have short : path.length + 1 < n :=
          unfinished.resolve_left fun none => by rw [none] at mem; cases mem
        simp only [if_neg taken]
        rw [ih linking same (.inr short), and_iff_right_iff_imp]
        intro all none
        have full := filled same none all
        omega
      · simp only [if_pos free]
        by_cases last : lastFreeElem (linkSlot randArr index (Fin.ofNat n draw)).1 = true
        · have full := linking'.lastFreeElem_iff.mp last
          simp only [if_pos last, Option.some.injEq, exists_eq', true_iff]
          intro slot inRange
          have drawn : slot ∈ drawOrder n (used ++ [draw]) := by
            rw [← order']
            exact (linking'.perm_range full).mem_iff.mpr (List.mem_range.mpr inRange)
          rw [mem_drawOrder] at drawn ⊢
          refine drawn.imp_right ?_
          rintro ⟨d, mem, isSlot⟩
          exact ⟨d, List.mem_append_left _ mem, isSlot⟩
        · have notFull : path'.length + 1 ≠ n := fun full => last (linking'.lastFreeElem_iff.mpr full)
          have positive := linking'.count_pos
          have total := linking'.count
          simp only [if_neg last]
          rw [ih linking' order' (.inr (by omega)), and_iff_right_iff_imp]
          intro all none
          have full := filled order' none all
          omega

/-- The array that `rand_array_init` returns is a route through all slots, in the order of the
draws that were used. -/
theorem randArrayInit_route {draws rest : List Nat} {result : RandArr n}
    (done : randArrayInit n draws = some (result, rest)) :
    ∃ used, draws = used ++ rest ∧ (drawOrder n used).Perm (List.range n) ∧
      Route (link result) (drawOrder n used) n := by
  have start : [] ++ [(0 : Fin n).val] = drawOrder n [] := (drawOrder_nil n).symm
  exact randLoop_route (.start (Nat.pos_of_neZero n)) start done

end Loop

/-- `rand_array_init` returns as soon as every slot but 0 has been drawn and not before, and
its array is the route through all slots in the order of the first draws. -/
theorem rand_array_complete (n : Nat) [NeZero n] (draws : List Nat) :
    ((∃ r, randArrayInit n draws = some r) ↔
      draws ≠ [] ∧ ∀ slot < n, slot ≠ 0 → ∃ draw ∈ draws, draw % n = slot) ∧
    ∀ (randArr : RandArr n) (rest : List Nat), randArrayInit n draws = some (randArr, rest) →
      ∃ used, draws = used ++ rest ∧ (drawOrder n used).Perm (List.range n) ∧
        Route (link randArr) (drawOrder n used) n := by
  constructor
  · unfold randArrayInit
    rw [randLoop_isSome (.start (Nat.pos_of_neZero n)) (drawOrder_nil n).symm (.inl rfl),
      List.nil_append]
    simp only [mem_drawOrder, or_iff_not_imp_left]
  · intro randArr rest done
    exact randArrayInit_route done

/-- Four slots, drawn in the order 2, 0, 2, 3, 1. -/
theorem rand_array_complete_four :
    ((∃ r, randArrayInit 4 [2, 4, 6, 3, 1, 5] = some r) ↔
      [2, 4, 6, 3, 1, 5] ≠ [] ∧ ∀ slot < 4, slot ≠ 0 → ∃ draw ∈ [2, 4, 6, 3, 1, 5],
        draw % 4 = slot) ∧
    ∀ (randArr : RandArr 4) (rest : List Nat),
      randArrayInit 4 [2, 4, 6, 3, 1, 5] = some (randArr, rest) →
      ∃ used, [2, 4, 6, 3, 1, 5] = used ++ rest ∧ (drawOrder 4 used).Perm (List.range 4) ∧
        Route (link randArr) (drawOrder 4 used) 4 :=
  rand_array_complete 4 [2, 4, 6, 3, 1, 5]

end VNams.Mgen
