import VNams.Strategy.Whereabouts

/-!
Where a VM is moved to.

A move on current counts takes a VM from a node that really holds two more than the target,
to the NIC node or to the nearest node that really holds the fewest. The counts of
`node_vm_vec` are not current after a VM left the NIC node: the next VM to leave may go
without need, and a general move may find no node at the cached minimum and falls back on
the remembered one.
-/

namespace VNams.Strategy

open Lib

variable {D : Type}

/-- Moving the VM `id` from `source` to `target` levels the lists: the source holds two VMs
more, the target as few as any node. It is the NIC node for an IO intensive VM that comes
from elsewhere, if that has as few, and else the first such node in the latency list of the
source. -/
structure Improves (args : ScheduleArgs D) (states : VmStateMap) (vmOnNode : List (List Int))
    (source target : Nat) (id : Int) : Prop where
  gap : load vmOnNode target + 2 ≤ load vmOnNode source
  least : ∀ j < args.numaNumber, load vmOnNode target ≤ load vmOnNode j
  toNic : states.read id = .ioStat → source ≠ args.nic →
    load vmOnNode args.nic = load vmOnNode target → target = args.nic
  nearest : ¬ (states.read id = .ioStat ∧ source ≠ args.nic ∧
      load vmOnNode args.nic = load vmOnNode target) →
    ∃ node, args.numaNodes[source]? = some node ∧
      FirstWith vmOnNode (load vmOnNode target) target node.sortedLatNodeList

/-- The two counts that an iteration acts on are current: the node at hand holds
`max_vm_cnt` VMs, and some node holds `min_vm_cnt`. -/
def Balancer.Current (numaNumber : Nat) (b : Balancer) : Prop :=
  load b.vmOnNode b.highLoadNode = b.maxVmCnt ∧
    ∃ j < numaNumber, load b.vmOnNode j = b.minVmCnt

section Phase

variable {args : ScheduleArgs D} {states : VmStateMap} {ties : NodeSort} {homed : List Int}
  {snap : Nat → Nat} {k : Nat} {skipped : Bool} {b b' : Balancer}

/-- On current counts a migration improves the balance. -/
theorem Phase.improves_of_current {ls : List Int} {pos target : Nat} {vmId : Int}
    (phase : Phase args homed snap k skipped b) (enter : b.unbalanced = true)
    (migration : Migration args states ties b b' ls pos target vmId) (real : -1 ∉ ls)
    (current : b.Current args.numaNumber) :
    Improves args states b.vmOnNode b.highLoadNode target vmId := by
  obtain ⟨high, attained⟩ := current
  have gap := phase.cached.unbalanced_iff.mp enter
  have atMin := migration.chosen.atMin attained
  have least : ∀ j < args.numaNumber, load b.vmOnNode target ≤ load b.vmOnNode j := fun j jLt => by
    rw [atMin]
    exact phase.minVmCnt_le jLt
  refine ⟨by omega, least, fun io away same => ?_, fun notNic => ?_⟩
  · cases migration.chosen with
    | nic => rfl
    | nearby notNic => exact absurd (same.trans atMin) (notNic io away real)
  · cases migration.chosen with
    | nic io away _ => exact absurd ⟨io, away, rfl⟩ notNic
    | nearby _ nearby =>
        obtain ⟨node, present, first | ⟨_, none⟩⟩ := nearby
        · exact ⟨node, present, atMin.symm ▸ first⟩
        · obtain ⟨j, jLt, loaded⟩ := attained
          exact absurd loaded (none j jLt)

/-- A migration that levels the lists at all acts on current counts. -/
theorem Phase.current_of_gap {target : Nat} (phase : Phase args homed snap k skipped b)
    (topo : args.Topology) (enter : b.unbalanced = true) (inRange : target < args.numaNumber)
    (gap : load b.vmOnNode target + 2 ≤ load b.vmOnNode b.highLoadNode) :
    b.Current args.numaNumber := by
  by_cases fresh : k = 0
  · subst fresh
    have same := phase.drift.eq_of_zero
    unfold Balancer.Current
    rw [same]
    exact ⟨phase.cached.maxVmCnt_eq, phase.cached.exists_minVmCnt⟩
  · have two := phase.snap_nic (.inl fresh)
    have onNic := phase.drift.load_nic two
    obtain ⟨_, minimum, few⟩ := phase.stale (.inl fresh)
    cases skipped with
    | false =>
        -- the NIC node is at hand, and has at most one VM left
        have isNic := (phase.high_eq_nic fresh).1
        rw [isNic] at gap
        omega
    | true =>
        have notNic : ¬ b.AtNic args := fun atNic =>
          phase.high_ne_nic ((Phase.atNic_iff topo).mp atNic).1
        have high := phase.load_high topo enter notNic
        have top := few b.highLoadNode phase.cached.high_lt
        rw [phase.cached.maxVmCnt_eq] at top
        exact ⟨high, target, inRange, by omega⟩

end Phase

/-! ### Every move of every run -/

section Runs

variable [Double D] {strategy : SimpleStrategy} {args : ScheduleArgs D}
  {vmStateSlot : Nat → VmState} {ties : NodeSort} {c : Classified} {b b' : Balancer}

/-- The id -1 is not listed when no scheduled VM has it. -/
theorem Reached.real (reached : Reached strategy args vmStateSlot ties c b)
    (topo : args.Topology) (agree : KeysAgree args.vmInfosMap)
    (real : ∀ vm ∈ scheduled args vmStateSlot, vm.domId ≠ -1) : -1 ∉ b.vmOnNode.flatten := by
  intro mem
  obtain ⟨vm, listed, isMinusOne⟩ := List.mem_map.mp ((reached.mem_iff topo agree).mp mem)
  exact real vm listed isMinusOne

/-- The same of the list of one node. -/
theorem Reached.real_list (reached : Reached strategy args vmStateSlot ties c b)
    (topo : args.Topology) (agree : KeysAgree args.vmInfosMap)
    (real : ∀ vm ∈ scheduled args vmStateSlot, vm.domId ≠ -1) {node : Nat} {ls : List Int}
    (onNode : b.vmOnNode[node]? = some ls) : -1 ∉ ls :=
  fun mem => reached.real topo agree real
    (List.mem_flatten.mpr ⟨ls, List.mem_of_getElem? onNode, mem⟩)

/-- A move of the balancing loop improves the balance and goes to the nearest least loaded
node exactly when the iteration acts on current counts. -/
theorem improves_iff (strategy : SimpleStrategy) (args : ScheduleArgs D)
    (vmStateSlot : Nat → VmState) (ties : NodeSort) (topo : args.Topology)
    (agree : KeysAgree args.vmInfosMap)
    (real : ∀ vm ∈ scheduled args vmStateSlot, vm.domId ≠ -1) {c : Classified}
    {b b' : Balancer} (reached : Reached strategy args vmStateSlot ties c b)
    (stepped : BalanceStep args c.vmStateMap ties b b') {source target : Nat} {id : Int}
    (moves : Moves b b' source target id) :
    Improves args c.vmStateMap b.vmOnNode source target id ↔ b.Current args.numaNumber := by
  obtain ⟨snap, k, skipped, phase⟩ := reached.phase topo agree
  have nodup := reached.nodup topo agree
  rcases reached.migration topo agree stepped with skip | ⟨ls, pos, t, vmId, migration, inRange⟩
  · exact absurd moves (skip.not_moves nodup)
  · obtain ⟨rfl, rfl, rfl⟩ := migration.eq_of_moves nodup inRange moves
    have real' : -1 ∉ ls := reached.real_list topo agree real migration.onHigh
    constructor
    · intro improves
      rw [phase.lists_length] at inRange
      exact phase.current_of_gap topo stepped.1 inRange improves.gap
    · exact phase.improves_of_current stepped.1 migration real'

end Runs

/-! ### A second VM leaves for nothing -/

/-- The two iterations of the loop on `crowdedNic`, with the classes and the states. -/
def crowdedNicSteps : Except Fault (Classified × Balancer × Balancer × Balancer) := do
  let c ← classify {} crowdedNic fun _ => .otherStat
  let b₀ ← Balancer.start crowdedNic (UnstableSort.byRank id) c.vmOnNode
  let b ← balanceStep crowdedNic c.vmStateMap (UnstableSort.byRank id) b₀
  let b' ← balanceStep crowdedNic c.vmStateMap (UnstableSort.byRank id) b
  .ok (c, b₀, b, b')

/-- The second iteration moves VM 2 off the NIC node, where it is alone, to node 1, where
VM 1 already is. -/
theorem crowdedNic_second : ∃ c b b',
    Reached {} crowdedNic (fun _ => .otherStat) (UnstableSort.byRank id) c b ∧
      BalanceStep crowdedNic c.vmStateMap (UnstableSort.byRank id) b b' ∧ Moves b b' 0 1 2 ∧
      load b.vmOnNode 0 = 1 ∧ load b.vmOnNode 1 = 1 := by
  have computed : returns (fun r : Classified × Balancer × Balancer × Balancer =>
      r.2.1.unbalanced && r.2.2.1.unbalanced &&
        decide (2 ∈ listOf r.2.2.1.vmOnNode 0 ∧ 2 ∈ listOf r.2.2.2.vmOnNode 1 ∧
          load r.2.2.1.vmOnNode 0 = 1 ∧ load r.2.2.1.vmOnNode 1 = 1)) crowdedNicSteps = true := by
    decide +kernel
  obtain ⟨⟨c, b₀, b, b'⟩, steps, checked⟩ := returns_iff.mp computed
  obtain ⟨c', classified, steps⟩ := bind_eq_ok.mp steps
  obtain ⟨b₀', started, steps⟩ := bind_eq_ok.mp steps
  obtain ⟨b₁, first, steps⟩ := bind_eq_ok.mp steps
  obtain ⟨b₂, second, same⟩ := bind_eq_ok.mp steps
  cases same
  simp only [Bool.and_eq_true, decide_eq_true_eq] at checked
  obtain ⟨⟨enter₀, enter⟩, before, after, onNic, onOne⟩ := checked
  exact ⟨c, b, b', ⟨classified, b₀, started, .single ⟨enter₀, first⟩⟩, ⟨enter, second⟩,
    ⟨by decide, before, after⟩, onNic, onOne⟩

/-- So not every move improves the balance. -/
theorem crowdedNic_not_improving :
    ¬ ∀ c b b', Reached {} crowdedNic (fun _ => .otherStat) (UnstableSort.byRank id) c b →
      BalanceStep crowdedNic c.vmStateMap (UnstableSort.byRank id) b b' →
      ∀ source target id, Moves b b' source target id →
        Improves crowdedNic c.vmStateMap b.vmOnNode source target id := by
  intro always
  obtain ⟨c, b, b', reached, stepped, moves, onNic, onOne⟩ := crowdedNic_second
  have gap := (always c b b' reached stepped 0 1 2 moves).gap
  omega

theorem improves_iff_crowdedNic : ∃ (c : Classified) (b b' : Balancer),
    Moves b b' 0 1 2 ∧ (Improves crowdedNic c.vmStateMap b.vmOnNode 0 1 2 ↔
      b.Current crowdedNic.numaNumber) ∧ ¬ b.Current crowdedNic.numaNumber := by
  obtain ⟨c, b, b', reached, stepped, moves, onNic, onOne⟩ := crowdedNic_second
  have exactly := improves_iff {} crowdedNic _ _ (twoNodeArgs_topology _ _)
    (twoNodeArgs_agree _ _) (by decide +kernel) reached stepped moves
  refine ⟨c, b, b', moves, exactly, fun current => ?_⟩
  have gap := (exactly.mpr current).gap
  omega

end VNams.Strategy
