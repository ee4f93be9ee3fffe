import VNams.Strategy.Destination
import VNams.Strategy.FreeNic

/-!
Which VMs leave the NIC node.

The guard of the NIC branch decides: with at most two VMs on the NIC node the one that is
not IO intensive leaves, with more an IO intensive one leaves first. A NIC node that starts
with at most two VMs never counts more than two while another node is two below it
(`Spare`), so it keeps its IO intensive VMs.
-/

namespace VNams.Strategy

open Lib

/-- The NIC node holds at most two VMs, or at most one more than any node. -/
def Spare {D : Type} (args : ScheduleArgs D) (b : Balancer) : Prop :=
  load b.vmOnNode args.nic ≤ 2 ∨
    ∀ j < args.numaNumber, load b.vmOnNode args.nic ≤ load b.vmOnNode j + 1

section Step

variable {D : Type} {args : ScheduleArgs D} {states : VmStateMap} {ties : NodeSort}
  {homed : List Int} {snap : Nat → Nat} {k : Nat} {skipped : Bool} {b b' : Balancer}
  {ls : List Int} {pos target : Nat} {vmId : Int}

/-- A VM that leaves the NIC node while it holds at most two is taken by the NIC branch. -/
theorem Phase.atNic_of_le (phase : Phase args homed snap k skipped b) (topo : args.Topology)
    (enter : b.unbalanced = true) (isNic : b.highLoadNode = args.nic)
    (few : load b.vmOnNode args.nic ≤ 2) : b.AtNic args := by
  by_contra notNic
  have high := phase.load_high topo enter notNic
  rw [isNic] at high
  exact notNic ((Phase.atNic_iff topo).mpr ⟨isNic, by omega⟩)

/-- One that leaves it while it holds more is taken by the general branch, on current
counts. -/
theorem Phase.fresh_of_lt (phase : Phase args homed snap k skipped b) (topo : args.Topology)
    (isNic : b.highLoadNode = args.nic)
    (many : 2 < load b.vmOnNode args.nic) : ¬ b.AtNic args ∧ k = 0 := by
  have fresh : ¬ (k ≠ 0 ∨ skipped = true) := by
    intro away
    have bound := phase.drift.load_le (phase.stale away).2.2 topo.nic_lt
    omega
  push Not at fresh
  obtain ⟨rfl, _⟩ := fresh
  refine ⟨fun atNic => ?_, rfl⟩
  have few := ((Phase.atNic_iff topo).mp atNic).2
  have high := phase.cached.maxVmCnt_eq
  rw [← phase.drift.eq_of_zero, isNic] at high
  omega

/-- The NIC node receives a VM only while it holds as few as any node. -/
theorem Migration.nic_least (migration : Migration args states ties b b' ls pos target vmId)
    (phase : Phase args homed snap k skipped b) (isNic : target = args.nic) :
    load b.vmOnNode args.nic = b.minVmCnt := by
  subst isNic
  cases migration.chosen with
  | nic _ _ atMin => exact atMin
  | nearby _ nearby =>
      obtain ⟨_, _, ⟨_, _, _, _, atMin, _⟩ | ⟨remembered, none⟩⟩ := nearby
      · exact atMin
      · -- the remembered node is another one once a VM has left the NIC node
        by_cases fresh : k = 0
        · subst fresh
          obtain ⟨j, jLt, atMin⟩ := phase.cached.exists_minVmCnt
          rw [← phase.drift.eq_of_zero] at atMin
          exact absurd atMin (none j jLt)
        · exact absurd remembered.symm (phase.drift.away fresh)

theorem Spare.migrate (spare : Spare args b) (phase : Phase args homed snap k skipped b)
    (topo : args.Topology) (enter : b.unbalanced = true)
    (migration : Migration args states ties b b' ls pos target vmId)
    (inRange : target < b.vmOnNode.length) : Spare args b' := by
  have gap := phase.cached.unbalanced_iff.mp enter
  unfold Spare
  rw [migration.load_eq inRange]
  by_cases leaves : b.highLoadNode = args.nic
  · rw [leaves]
    by_cases stays : target = args.nic
    · have pos : 0 < load b.vmOnNode args.nic := by
        rw [← leaves, load_of_getElem? migration.onHigh]
        exact List.length_pos_of_mem (List.mem_of_getElem? migration.here)
      rw [stays, shift_self pos]
      exact spare
    · rw [shift_source (Ne.symm stays)]
      rcases spare with few | near
      · left
        omega
      · right
        intro j jLt
        have bound := near j jLt
        by_cases isNic : j = args.nic
        · rw [isNic, shift_source (Ne.symm stays)]
          omega
        · have kept : load b.vmOnNode j ≤ shift (load b.vmOnNode) args.nic target j :=
            le_shift isNic
          omega
  · have notNic : ¬ b.AtNic args := fun atNic => leaves ((Phase.atNic_iff topo).mp atNic).1
    have high := phase.load_high topo enter notNic
    by_cases comes : target = args.nic
    · right
      intro j jLt
      rw [comes, shift_target leaves, migration.nic_least phase comes]
      by_cases isHigh : j = b.highLoadNode
      · rw [isHigh, shift_source leaves]
        omega
      · have low := phase.minVmCnt_le jLt
        have kept : load b.vmOnNode j ≤ shift (load b.vmOnNode) b.highLoadNode args.nic j :=
          le_shift isHigh
        omega
    · rw [shift_other (Ne.symm leaves) (Ne.symm comes)]
      refine spare.imp_right fun near j jLt => ?_
      by_cases isHigh : j = b.highLoadNode
      · have bound := phase.load_le_maxVmCnt enter topo.nic_lt
        have kept : load b.vmOnNode j ≤ shift (load b.vmOnNode) b.highLoadNode target j + 1 :=
          le_shift_succ j
        rw [isHigh] at kept ⊢
        omega
      · have bound := near j jLt
        have kept : load b.vmOnNode j ≤ shift (load b.vmOnNode) b.highLoadNode target j :=
          le_shift isHigh
        omega

end Step

section Runs

variable {D : Type} [Double D] {strategy : SimpleStrategy} {args : ScheduleArgs D}
  {vmStateSlot : Nat → VmState} {ties : NodeSort} {c : Classified} {b b' : Balancer}

/-- The VM may leave the NIC node: among at most two it is not IO intensive, among more it is
unless none there is. -/
structure InOrder (strategy : SimpleStrategy) (args : ScheduleArgs D)
    (vmStateSlot : Nat → VmState) (b : Balancer) (vm : VmInfo D) : Prop where
  few : load b.vmOnNode args.nic ≤ 2 → ioClass strategy vm = .otherStat
  many : 2 < load b.vmOnNode args.nic → ioClass strategy vm = .ioStat ∨
    ∀ vm' ∈ scheduled args vmStateSlot, vm'.domId ∈ listOf b.vmOnNode args.nic →
      ioClass strategy vm' = .otherStat

theorem Reached.inOrder (reached : Reached strategy args vmStateSlot ties c b)
    (topo : args.Topology) (agree : KeysAgree args.vmInfosMap)
    (real : ∀ vm ∈ scheduled args vmStateSlot, vm.domId ≠ -1)
    (stepped : BalanceStep args c.vmStateMap ties b b') {vm : VmInfo D}
    (listed : vm ∈ scheduled args vmStateSlot) {target : Nat}
    (moves : Moves b b' args.nic target vm.domId) : InOrder strategy args vmStateSlot b vm := by
  have homed := reached.homed agree
  obtain ⟨snap, k, skipped, phase⟩ := reached.phase topo agree
  have nodup := reached.nodup topo agree
  rcases reached.migration topo agree stepped with skip | ⟨ls, pos, t, vmId, migration, inRange⟩
  · exact absurd moves (skip.not_moves nodup)
  obtain ⟨isHigh, rfl, rfl⟩ := migration.eq_of_moves nodup inRange moves
  have isNic := isHigh.symm
  constructor
  · intro few
    rw [← homed.class_ vm listed]
    exact migration.other (phase.atNic_of_le topo stepped.1 isNic few)
  · intro many
    rcases migration.ioFirst (phase.fresh_of_lt topo isNic many).1 with io | none
    · left
      rw [← homed.class_ vm listed, io]
    · right
      intro vm' listed' here
      have real' : -1 ∉ ls := reached.real_list topo agree real migration.onHigh
      rw [← isNic, listOf_of_getElem? migration.onHigh] at here
      have notIo := none.absent real' vm'.domId here
      rw [homed.class_ vm' listed'] at notIo
      exact (ioClass_cases strategy vm').resolve_left notIo

/-- No IO intensive VM has left the NIC node, and none will. -/
structure KeepsIo (strategy : SimpleStrategy) (args : ScheduleArgs D)
    (vmStateSlot : Nat → VmState) (c : Classified) (b : Balancer) : Prop where
  spare : Spare args b
  stays : ∀ vm ∈ scheduled args vmStateSlot, ioClass strategy vm = .ioStat →
    vm.domId ∈ listOf c.vmOnNode args.nic → vm.domId ∈ listOf b.vmOnNode args.nic

/-- A NIC node that homes at most two VMs keeps its IO intensive ones in the loop. -/
theorem Reached.keeps_io (reached : Reached strategy args vmStateSlot ties c b)
    (topo : args.Topology) (agree : KeysAgree args.vmInfosMap)
    (real : ∀ vm ∈ scheduled args vmStateSlot, vm.domId ≠ -1)
    (few : load c.vmOnNode args.nic ≤ 2) :
    KeepsIo strategy args vmStateSlot c b := by
  have homed := reached.homed agree
  refine reached.induct (fun b₀ started => ?_) fun b b' reached kept stepped => ?_
  · obtain ⟨b₁, started', _, same, _⟩ := start_spec ties topo homed.length
    obtain rfl : b₀ = b₁ := Except.ok.inj (started.symm.trans started')
    constructor
    · left
      rwa [same]
    · intro vm _ _ homedHere
      rwa [same]
  · obtain ⟨spare, stays⟩ := kept
    obtain ⟨snap, k, skipped, phase⟩ := reached.phase topo agree
    have nodup := reached.nodup topo agree
    rcases reached.migration topo agree stepped with skip | ⟨ls, pos, t, vmId, migration, inRange⟩
    · have lists := skip.lists
      constructor
      · unfold Spare
        rwa [lists]
      · rwa [lists]
    · refine ⟨spare.migrate phase topo stepped.1 migration inRange, fun vm listed io home => ?_⟩
      have here := stays vm listed io home
      rw [migration.mem_listOf nodup inRange]
      by_cases moved : vm.domId = vmId
      · -- it would leave the NIC node while that holds more than two, two above another
        rw [if_pos moved]
        by_contra away
        have isHigh := listOf_unique nodup (moved ▸ here) migration.mem_high
        have moves : Moves b b' args.nic t vm.domId := by
          refine ⟨away, here, ?_⟩
          rw [migration.mem_listOf nodup inRange, if_pos moved]
        have order := reached.inOrder topo agree real stepped listed moves
        have many : 2 < load b.vmOnNode args.nic := by
          by_contra few
          rw [order.few (by omega)] at io
          cases io
        obtain ⟨notNic, rfl⟩ := phase.fresh_of_lt topo isHigh.symm many
        have gap := phase.cached.unbalanced_iff.mp stepped.1
        have high := phase.load_high topo stepped.1 notNic
        obtain ⟨j, jLt, atMin⟩ := phase.cached.exists_minVmCnt
        rw [← phase.drift.eq_of_zero] at atMin
        rw [← isHigh] at high
        rcases spare with few | near
        · omega
        · have bound := near j jLt
          omega
      · rw [if_neg moved]
        exact here

/-- VMs leave the NIC node in the order of the guard, and an IO intensive VM that is homed on
a NIC node with at most two VMs is decided to stay there. -/
theorem nic_leaves_in_order (strategy : SimpleStrategy) (args : ScheduleArgs D)
    (vmStateSlot : Nat → VmState) (ties : NodeSort) (topo : args.Topology)
    (agree : KeysAgree args.vmInfosMap)
    (covered : ∀ vm ∈ args.vmInfosMap.values, Covered args vm)
    (homes : ∀ vm ∈ scheduled args vmStateSlot, HomeInRange args vm)
    (real : ∀ vm ∈ scheduled args vmStateSlot, vm.domId ≠ -1) :
    ∃ c acts, classify strategy args vmStateSlot = .ok c ∧
      analyze strategy args vmStateSlot ties = .ok acts ∧
      (∀ vm ∈ scheduled args vmStateSlot, ∀ b b' target,
        Reached strategy args vmStateSlot ties c b → BalanceStep args c.vmStateMap ties b b' →
        Moves b b' args.nic target vm.domId → InOrder strategy args vmStateSlot b vm) ∧
      ((homedOn args.nic (scheduled args vmStateSlot)).length ≤ 2 →
        ∀ vm ∈ scheduled args vmStateSlot, vm.memMainNodeId = args.netdevNumanode →
          ioClass strategy vm = .ioStat → vm.domId ∈ onNode acts args.nic) := by
  obtain ⟨c, classified⟩ := (classify_isOk strategy).mpr ⟨covered, homes⟩
  have homed := classify_spec agree classified
  obtain ⟨b, b', final, analyzed, done⟩ := analyze_of_classify topo agree ties classified
  refine ⟨c, _, classified, done, ?_, fun few vm listed home io => ?_⟩
  · intro vm listed b b' target reached stepped moves
    exact reached.inOrder topo agree real stepped listed moves
  have reached : Reached strategy args vmStateSlot ties c b' :=
    ⟨classified, b, analyzed.started, analyzed.path⟩
  have homedHere : vm.domId ∈ listOf c.vmOnNode args.nic := by
    rw [homed.listOf_eq topo.nic_lt]
    exact mem_homedOn.mpr ⟨vm, listed, by rw [home, topo.netdev_eq], rfl⟩
  rw [onNode_decisions]
  cases analyzed.adjusted with
  | keep =>
      have few' : load c.vmOnNode args.nic ≤ 2 := by
        rw [homed.load_eq topo.nic_lt]
        exact few
      exact (reached.keeps_io topo agree real few').stays vm listed io homedHere
  | toNic unentered _ free =>
      -- the adjustment fills a NIC node that nothing is homed on
      obtain ⟨b₀, started', phase₀, same, _⟩ := start_spec ties topo homed.length
      obtain rfl : b = b₀ := Except.ok.inj (analyzed.started.symm.trans started')
      obtain rfl := eq_of_flag topo (homed.known agree) ⟨_, _, _, phase₀⟩ analyzed.path unentered
      rw [same] at free
      have empty : listOf c.vmOnNode args.nic = [] := List.eq_nil_of_length_eq_zero free
      rw [empty] at homedHere
      cases homedHere

end Runs

/-- Three VMs on the NIC node of a machine with two nodes, the first IO intensive. -/
def threeOnNic : ScheduleArgs ℚ :=
  twoNodeArgs [steadyVm 1 0 0 200000 50, steadyVm 2 0 0 0 50, steadyVm 3 0 0 0 50] [60, 60, 60]

theorem nic_leaves_in_order_threeOnNic :
    ∃ c acts, classify {} threeOnNic (fun _ => .otherStat) = .ok c ∧
      analyze {} threeOnNic (fun _ => .otherStat) (UnstableSort.byRank id) = .ok acts ∧
      (∀ vm ∈ scheduled threeOnNic fun _ => .otherStat, ∀ b b' target,
        Reached {} threeOnNic (fun _ => .otherStat) (UnstableSort.byRank id) c b →
        BalanceStep threeOnNic c.vmStateMap (UnstableSort.byRank id) b b' →
        Moves b b' threeOnNic.nic target vm.domId →
        InOrder {} threeOnNic (fun _ => .otherStat) b vm) ∧
      ((homedOn threeOnNic.nic (scheduled threeOnNic fun _ => .otherStat)).length ≤ 2 →
        ∀ vm ∈ scheduled threeOnNic fun _ => .otherStat,
          vm.memMainNodeId = threeOnNic.netdevNumanode → ioClass {} vm = .ioStat →
          vm.domId ∈ onNode acts threeOnNic.nic) :=
  nic_leaves_in_order {} threeOnNic _ _ (twoNodeArgs_topology _ _) (twoNodeArgs_agree _ _)
    (by decide +kernel) (by decide +kernel) (by decide +kernel)

/-- The IO intensive VM leaves, and the two others stay on the NIC node. -/
theorem threeOnNic_io_leaves :
    analyze {} threeOnNic (fun _ => .otherStat) (UnstableSort.byRank id)
        = .ok [⟨2, 0, 0⟩, ⟨3, 0, 0⟩, ⟨1, 1, 1⟩] ∧
      ¬ ∃ acts, analyze {} threeOnNic (fun _ => .otherStat) (UnstableSort.byRank id) = .ok acts ∧
        ((∃ vm ∈ scheduled threeOnNic fun _ => .otherStat,
            vm.memMainNodeId = threeOnNic.netdevNumanode ∧ ioClass {} vm = .ioStat ∧
            vm.domId ∉ onNode acts threeOnNic.nic) →
          ∀ vm ∈ scheduled threeOnNic fun _ => .otherStat,
            vm.memMainNodeId = threeOnNic.netdevNumanode → ioClass {} vm = .otherStat →
            vm.domId ∉ onNode acts threeOnNic.nic) := by
  have computed : analyze {} threeOnNic (fun _ => .otherStat) (UnstableSort.byRank id)
      = .ok [⟨2, 0, 0⟩, ⟨3, 0, 0⟩, ⟨1, 1, 1⟩] := by decide +kernel
  refine ⟨computed, ?_⟩
  rintro ⟨acts, done, otherFirst⟩
  rw [computed] at done
  cases done
  have leaves : ∃ vm ∈ scheduled threeOnNic fun _ => .otherStat,
      vm.memMainNodeId = threeOnNic.netdevNumanode ∧ ioClass {} vm = .ioStat ∧
        vm.domId ∉ onNode [⟨2, 0, 0⟩, ⟨3, 0, 0⟩, ⟨1, 1, 1⟩] threeOnNic.nic := by decide +kernel
  have stays : ∃ vm ∈ scheduled threeOnNic fun _ => .otherStat,
      vm.memMainNodeId = threeOnNic.netdevNumanode ∧ ioClass {} vm = .otherStat ∧
        vm.domId ∈ onNode [⟨2, 0, 0⟩, ⟨3, 0, 0⟩, ⟨1, 1, 1⟩] threeOnNic.nic := by decide +kernel
  obtain ⟨vm, listed, home, other, here⟩ := stays
  exact otherFirst leaves vm listed home other here

end VNams.Strategy
