import VNams.Strategy.Iteration

/-!
The cached counts of the balancing loop.

`Cached n snap b` says that `node_vm_vec` is a sort of the loads `snap` and that the
cached maximum, minimum and index are read off it. `snap` need not be the present
loads: only `rebuild` makes it so.
-/

namespace VNams.Strategy

open Lib

variable {D : Type} {n : Nat} {snap : Nat → Nat} {b : Balancer}

/-- The cached counts describe the loads `snap`. -/
structure Cached (n : Nat) (snap : Nat → Nat) (b : Balancer) : Prop where
  perm : b.nodeVmVec.Perm ((List.range n).map fun node => (node, snap node))
  sorted : b.nodeVmVec.Pairwise fun p q => p.2 ≤ q.2
  high : b.nodeVmVec[b.maxVmIdx]? = some (b.highLoadNode, b.maxVmCnt)
  low : ∃ node, b.nodeVmVec[0]? = some (node, b.minVmCnt)

namespace Cached

theorem length_vec (cached : Cached n snap b) : b.nodeVmVec.length = n := by
  rw [cached.perm.length_eq, List.length_map, List.length_range]

theorem mem_iff (cached : Cached n snap b) {node cnt : Nat} :
    (node, cnt) ∈ b.nodeVmVec ↔ node < n ∧ snap node = cnt := by
  rw [cached.perm.mem_iff, List.mem_map]
  constructor
  · rintro ⟨i, mem, same⟩
    cases same
    exact ⟨List.mem_range.mp mem, rfl⟩
  · rintro ⟨inRange, rfl⟩
    exact ⟨node, List.mem_range.mpr inRange, rfl⟩

/-- Two positions of the vector hold different nodes. -/
theorem node_injective (cached : Cached n snap b) {i j node cnt cnt' : Nat}
    (first : b.nodeVmVec[i]? = some (node, cnt)) (second : b.nodeVmVec[j]? = some (node, cnt')) :
    i = j := by
  have nodup : (b.nodeVmVec.map Prod.fst).Nodup := by
    have perm := cached.perm.map Prod.fst
    rw [List.map_map] at perm
    apply perm.nodup_iff.mpr
    simpa [Function.comp_def] using List.nodup_range
  have left : (b.nodeVmVec.map Prod.fst)[i]? = some node := by simp [first]
  have right : (b.nodeVmVec.map Prod.fst)[j]? = some node := by simp [second]
  obtain ⟨inRange, _⟩ := List.getElem?_eq_some_iff.mp left
  exact (List.getElem?_inj inRange nodup).mp (left.trans right.symm)

/-- A later position holds a larger count. -/
theorem le_of_le (cached : Cached n snap b) {i j : Nat} {p q : Nat × Nat} (le : i ≤ j)
    (first : b.nodeVmVec[i]? = some p) (second : b.nodeVmVec[j]? = some q) : p.2 ≤ q.2 := by
  obtain ⟨inRange, rfl⟩ := List.getElem?_eq_some_iff.mp first
  obtain ⟨inRange', rfl⟩ := List.getElem?_eq_some_iff.mp second
  rcases Nat.lt_or_eq_of_le le with lt | rfl
  · exact List.pairwise_iff_getElem.mp cached.sorted i j inRange inRange' lt
  · exact Nat.le_refl _

theorem high_lt (cached : Cached n snap b) : b.highLoadNode < n :=
  (cached.mem_iff.mp (List.mem_of_getElem? cached.high)).1

theorem maxVmCnt_eq (cached : Cached n snap b) : snap b.highLoadNode = b.maxVmCnt :=
  (cached.mem_iff.mp (List.mem_of_getElem? cached.high)).2

/-- Every node is at some position. -/
theorem position (cached : Cached n snap b) {node : Nat} (inRange : node < n) :
    ∃ i : Nat, b.nodeVmVec[i]? = some (node, snap node) :=
  List.mem_iff_getElem?.mp (cached.mem_iff.mpr ⟨inRange, rfl⟩)

/-- The cached minimum is a lower bound. -/
theorem minVmCnt_le (cached : Cached n snap b) {node : Nat} (inRange : node < n) :
    b.minVmCnt ≤ snap node := by
  obtain ⟨low, lowest⟩ := cached.low
  obtain ⟨i, there⟩ := cached.position inRange
  exact cached.le_of_le (Nat.zero_le i) lowest there

/-- The cached minimum is attained. -/
theorem exists_minVmCnt (cached : Cached n snap b) : ∃ node < n, snap node = b.minVmCnt := by
  obtain ⟨low, lowest⟩ := cached.low
  exact ⟨low, cached.mem_iff.mp (List.mem_of_getElem? lowest)⟩

/-- The cached maximum is never below the cached minimum. -/
theorem minVmCnt_le_maxVmCnt (cached : Cached n snap b) : b.minVmCnt ≤ b.maxVmCnt := by
  rw [← cached.maxVmCnt_eq]
  exact cached.minVmCnt_le cached.high_lt

/-- At the last position the cached maximum is an upper bound. -/
theorem le_maxVmCnt (cached : Cached n snap b) (last : b.maxVmIdx = n - 1) {node : Nat}
    (inRange : node < n) : snap node ≤ b.maxVmCnt := by
  obtain ⟨i, there⟩ := cached.position inRange
  obtain ⟨bound, _⟩ := List.getElem?_eq_some_iff.mp there
  rw [cached.length_vec] at bound
  exact cached.le_of_le (by omega) there cached.high

/-- One position before the last, it bounds every node but the last one. -/
theorem le_maxVmCnt_of_skipped (cached : Cached n snap b) (idx : b.maxVmIdx = n - 2)
    {top : Nat × Nat} (last : b.nodeVmVec[n - 1]? = some top) {node : Nat} (inRange : node < n)
    (ne : node ≠ top.1) : snap node ≤ b.maxVmCnt := by
  obtain ⟨i, there⟩ := cached.position inRange
  obtain ⟨bound, _⟩ := List.getElem?_eq_some_iff.mp there
  rw [cached.length_vec] at bound
  have notLast : i ≠ n - 1 := by
    rintro rfl
    rw [last] at there
    exact ne (by rw [Option.some.inj there])
  exact cached.le_of_le (by omega) there cached.high

end Cached

/-- The loop test on a cache: the unsigned difference is the true one. -/
theorem Cached.unbalanced_iff (cached : Cached n snap b) :
    b.unbalanced = true ↔ b.minVmCnt + 2 ≤ b.maxVmCnt := by
  simp only [Balancer.unbalanced, unsignedSub_of_le cached.minVmCnt_le_maxVmCnt,
    Bool.and_eq_true, decide_eq_true_eq]
  omega

/-- Rebuilding succeeds on a machine with a node, and caches the present loads. -/
theorem rebuild_spec (ties : NodeSort) (nonempty : 0 < n) (b : Balancer) :
    ∃ b', b.rebuild n ties = .ok b' ∧ Cached n (load b.vmOnNode) b' ∧
      b'.vmOnNode = b.vmOnNode ∧ b'.flag = b.flag ∧ b'.maxVmIdx = n - 1 ∧
      b'.nodeVmVec[0]? = some (b'.minLoadNode, b'.minVmCnt) ∧
      b'.nodeVmVec = ties.order b.sorts
        ((List.range n).map fun node => (node, load b.vmOnNode node)) := by
  set counts := (List.range n).map fun node => (node, load b.vmOnNode node) with countsDef
  have size : (ties.order b.sorts counts).length = n := by
    rw [UnstableSort.length_order, countsDef, List.length_map, List.length_range]
  obtain ⟨high, highest⟩ : ∃ p, (ties.order b.sorts counts)[n - 1]? = some p :=
    ⟨_, List.getElem?_eq_getElem (by omega)⟩
  obtain ⟨low, lowest⟩ : ∃ p, (ties.order b.sorts counts)[0]? = some p :=
    ⟨_, List.getElem?_eq_getElem (by omega)⟩
  refine ⟨{ b with
    nodeVmVec := ties.order b.sorts counts, maxVmIdx := n - 1, highLoadNode := high.1,
    maxVmCnt := high.2, minVmCnt := low.2, minLoadNode := low.1, sorts := b.sorts + 1 },
    ?_, ?_, rfl, rfl, rfl, lowest, rfl⟩
  · simp [Balancer.rebuild, ← countsDef, size, vecAt_eq_ok.mpr highest, vecAt_eq_ok.mpr lowest,
      bind, Except.bind]
  · exact {
      perm := ties.perm _ _
      sorted := ties.pairwise_le _ _
      high := highest
      low := ⟨low.1, lowest⟩ }

/-- An iteration that only goes on to the next node. -/
inductive Skip {D : Type} (args : ScheduleArgs D) (states : VmStateMap) (b : Balancer) :
    Balancer → Prop where
  | intro {ls : List Int} {high low : Nat × Nat} (atNic : b.AtNic args)
      (onHigh : b.vmOnNode[b.highLoadNode]? = some ls) (none : NotFound states .otherStat ls)
      (next : b.nodeVmVec[b.maxVmIdx - 1]? = some high) (lowest : b.nodeVmVec[0]? = some low) :
      Skip args states b { b with
        flag := true, maxVmIdx := b.maxVmIdx - 1, maxVmCnt := high.2,
        highLoadNode := high.1, minVmCnt := low.2 }

/-- An iteration that moves a VM: the one at `pos` of the list at hand goes to `target`. -/
structure Migration {D : Type} (args : ScheduleArgs D) (states : VmStateMap) (ties : NodeSort)
    (b b' : Balancer) (ls : List Int) (pos target : Nat) (vmId : Int) : Prop where
  onHigh : b.vmOnNode[b.highLoadNode]? = some ls
  here : ls[pos]? = some vmId
  chosen : Target args states b ls vmId target
  other : b.AtNic args → states.read vmId = .otherStat
  ioFirst : ¬ b.AtNic args → states.read vmId = .ioStat ∨ NotFound states .ioStat ls
  remembered : b.AtNic args → b' = { b with
    flag := true, vmOnNode := moved b.vmOnNode b.highLoadNode pos target vmId,
    minLoadNode := target }
  rebuilt : ¬ b.AtNic args → ∃ minLoadNode, Balancer.rebuild args.numaNumber ties { b with
    flag := true, vmOnNode := moved b.vmOnNode b.highLoadNode pos target vmId,
    minLoadNode := minLoadNode } = .ok b'
  lists : b'.vmOnNode = moved b.vmOnNode b.highLoadNode pos target vmId

/-- One iteration from a sane state succeeds, and skips a node or moves a VM, provided the
node at hand has a VM whenever the general branch is taken. -/
theorem balanceStep_migration {args : ScheduleArgs D} {states : VmStateMap} {ties : NodeSort}
    (topo : args.Topology) (sane : b.Sane args)
    (loaded : ¬ b.AtNic args → 0 < load b.vmOnNode b.highLoadNode) :
    ∃ b', balanceStep args states ties b = .ok b' ∧ (Skip args states b b' ∨
      ∃ ls pos target vmId, Migration args states ties b b' ls pos target vmId) := by
  have sane' : Balancer.Sane args { b with flag := true } :=
    ⟨sane.lists_length, sane.high_lt, sane.minLoad_lt, sane.idx_lt, sane.known⟩
  by_cases atNic : b.AtNic args
  · have taken : balanceStep args states ties b
        = balanceNetdev args states { b with flag := true } := if_pos atNic
    obtain ⟨ls, onHigh, ⟨none, skips⟩ | ⟨pos, vmId, target, here, state, nearby, leaves⟩⟩ :=
      balanceNetdev_spec states topo sane'
    · obtain ⟨high, next⟩ : ∃ p, b.nodeVmVec[b.maxVmIdx - 1]? = some p :=
        ⟨_, List.getElem?_eq_getElem (Nat.lt_of_le_of_lt (Nat.sub_le _ _) sane.idx_lt)⟩
      obtain ⟨low, lowest⟩ : ∃ p, b.nodeVmVec[0]? = some p :=
        ⟨_, List.getElem?_eq_getElem (Nat.zero_lt_of_lt sane.idx_lt)⟩
      refine ⟨_, ?_, .inl (.intro atNic onHigh none next lowest)⟩
      rw [taken, skips]
      simp [Balancer.nextNode, vecAt_eq_ok.mpr next, vecAt_eq_ok.mpr lowest, bind, Except.bind]
    · have isNic : b.highLoadNode = args.nic := by
        have same := atNic.1
        rw [topo.netdev_eq] at same
        exact Int.ofNat_inj.mp same
      exact ⟨_, taken.trans leaves, .inr ⟨ls, pos, target, vmId, {
        onHigh := onHigh
        here := here
        chosen := .nearby (fun _ away => absurd isNic away) nearby
        other := fun _ => state
        ioFirst := fun notNic => absurd atNic notNic
        remembered := fun _ => rfl
        rebuilt := fun notNic => absurd atNic notNic
        lists := rfl }⟩⟩
  · have taken : balanceStep args states ties b
        = (balanceMove args states { b with flag := true } >>= fun b =>
            b.rebuild args.numaNumber ties) := if_neg atNic
    obtain ⟨ls, onHigh, _⟩ := sane.list
    have nonempty : ls ≠ [] := by
      rintro rfl
      have size := load_of_getElem? onHigh
      have positive := loaded atNic
      rw [size] at positive
      exact absurd positive (Nat.lt_irrefl 0)
    obtain ⟨pos, vmId, target, minLoadNode, here, ioFirst, chosen, moves⟩ :=
      balanceMove_spec states topo sane' onHigh nonempty
    obtain ⟨b', rebuilt, _, lists, _⟩ := rebuild_spec ties (Nat.zero_lt_of_lt topo.nic_lt)
      { b with
        flag := true, vmOnNode := moved b.vmOnNode b.highLoadNode pos target vmId,
        minLoadNode := minLoadNode }
    refine ⟨b', ?_, .inr ⟨ls, pos, target, vmId, {
      onHigh := onHigh
      here := here
      chosen := ?_
      other := fun isNic => absurd isNic atNic
      ioFirst := fun _ => ioFirst
      remembered := fun isNic => absurd isNic atNic
      rebuilt := fun _ => ⟨minLoadNode, rebuilt⟩
      lists := lists }⟩⟩
    · rw [taken, moves]
      exact rebuilt
    · -- the target does not depend on the flag
      cases chosen with
      | nic io away atMin => exact .nic io away atMin
      | nearby notNic nearby => exact .nearby notNic nearby

section Iterations

variable {D : Type} {args : ScheduleArgs D} {states : VmStateMap} {ties : NodeSort}
  {b b' : Balancer}

theorem Skip.iteration (skip : Skip args states b b') : Iteration args states ties b b' := by
  cases skip with
  | intro atNic onHigh none next lowest => exact .skip atNic onHigh none next lowest

theorem Migration.iteration {ls : List Int} {pos target : Nat} {vmId : Int}
    (migration : Migration args states ties b b' ls pos target vmId) (topo : args.Topology)
    (sane : b.Sane args) : Iteration args states ties b b' := by
  have nearest := migration.chosen.nearest topo sane
  by_cases atNic : b.AtNic args
  · rw [migration.remembered atNic]
    exact .leave atNic migration.onHigh migration.here (migration.other atNic) nearest
  · obtain ⟨minLoadNode, rebuilt⟩ := migration.rebuilt atNic
    exact .level atNic migration.onHigh migration.here (migration.ioFirst atNic) nearest rebuilt

end Iterations

/-- One iteration from a sane state succeeds and is an `Iteration`, provided the node
at hand has a VM whenever the general branch is taken. -/
theorem balanceStep_iteration {args : ScheduleArgs D} {states : VmStateMap} {ties : NodeSort}
    (topo : args.Topology) (sane : b.Sane args)
    (loaded : ¬ b.AtNic args → 0 < load b.vmOnNode b.highLoadNode) :
    ∃ b', balanceStep args states ties b = .ok b' ∧ Iteration args states ties b b' := by
  obtain ⟨b', stepped, skip | ⟨_, _, _, _, migration⟩⟩ := balanceStep_migration topo sane loaded
  · exact ⟨b', stepped, skip.iteration⟩
  · exact ⟨b', stepped, migration.iteration topo sane⟩

end VNams.Strategy
