import VNams.Strategy.Crossing
import VNams.Strategy.Totality

/-!
A free NIC node.

When every node homes at most one VM the loop is not entered, and the adjustment after it
looks at one node only: the one that the sort put last. Its VM goes to the free NIC node if
it is IO intensive; an IO intensive VM of any other node stays where it is.
-/

namespace VNams.Strategy

open Lib

/-- The final adjustment for a free NIC node, once the last node has a VM. -/
theorem adjustNetdev_eq {D : Type} {args : ScheduleArgs D} {b : Balancer} {vmId : Int}
    {rest : List Int} (states : VmStateMap) (topo : args.Topology) (sane : b.Sane args)
    (unentered : b.flag = false) (one : b.maxVmCnt = 1) (free : load b.vmOnNode args.nic = 0)
    (onHigh : b.vmOnNode[b.highLoadNode]? = some (vmId :: rest)) :
    adjustNetdev args states b = .ok (if states.read vmId = .ioStat
      then moved b.vmOnNode b.highLoadNode 0 args.nic vmId else b.vmOnNode) := by
  have nicLt : args.nic < b.vmOnNode.length := by
    rw [sane.lists_length]
    exact topo.nic_lt
  have onNic := List.getElem?_eq_getElem nicLt
  rw [load_of_getElem? onNic] at free
  obtain ⟨vm, present, sameId⟩ := sane.known vmId
    (List.mem_flatten.mpr ⟨_, List.mem_of_getElem? onHigh, List.mem_cons_self⟩)
  have nic : args.netdevNumanode.toNat = args.nic := rfl
  unfold adjustNetdev
  rw [if_pos ⟨unentered, one⟩, topo.netdev_eq, vecAtInt_natCast, vecAt_eq_ok.mpr onNic]
  simp only [bind, Except.bind, free, vecAt_eq_ok.mpr onHigh, present, sameId]
  rw [← topo.netdev_eq, nic, moveVm_eq nicLt]
  by_cases io : states.read vmId = .ioStat
  · simp [io]
  · simp [io]

variable {D : Type} [Double D] {strategy : SimpleStrategy} {args : ScheduleArgs D}
  {vmStateSlot : Nat → VmState} {ties : NodeSort} {c : Classified} {b : Balancer}

/-- The number of VMs that classification puts on each node. -/
def homeCounts (args : ScheduleArgs D) (vmStateSlot : Nat → VmState) : List (Nat × Nat) :=
  (List.range args.numaNumber).map fun node =>
    (node, (homedOn node (scheduled args vmStateSlot)).length)

/-- The node that the sort before the loop puts last. -/
def lastNode (args : ScheduleArgs D) (vmStateSlot : Nat → VmState) (ties : NodeSort) :
    Option Nat :=
  (ties.order 0 (homeCounts args vmStateSlot)).getLast?.map Prod.fst

/-- The NIC node is decided exactly one VM, an IO intensive one, and every other VM stays on
its home node. -/
def Attracts (strategy : SimpleStrategy) (args : ScheduleArgs D) (vmStateSlot : Nat → VmState)
    (acts : List Decision) : Prop :=
  ∃ vm ∈ scheduled args vmStateSlot, ioClass strategy vm = .ioStat ∧
    onNode acts args.nic = [vm.domId] ∧
    ∀ vm' ∈ scheduled args vmStateSlot, vm'.domId ≠ vm.domId →
      vm'.domId ∈ onNode acts vm'.memMainNodeId.toNat

omit [Double D] in
theorem HomeInRange.toNat_lt {vm : VmInfo D} (home : HomeInRange args vm) :
    vm.memMainNodeId.toNat < args.numaNumber := by
  obtain ⟨lower, upper⟩ : 0 ≤ vm.memMainNodeId ∧ vm.memMainNodeId < args.numaNumber := home
  omega

theorem Homed.load_eq (homed : Homed strategy args vmStateSlot c) {node : Nat}
    (inRange : node < args.numaNumber) :
    load c.vmOnNode node = (homedOn node (scheduled args vmStateSlot)).length :=
  congrArg List.length (homed.listOf_eq inRange)

omit [Double D] in
theorem mem_homedOn {vms : List (VmInfo D)} {node : Nat} {id : Int} :
    id ∈ homedOn node vms ↔ ∃ vm ∈ vms, vm.memMainNodeId = (node : Int) ∧ vm.domId = id := by
  simp only [homedOn, List.mem_map, List.mem_filter, decide_eq_true_eq, and_assoc]

/-- The node at hand in the state in which the loop is entered is the one sorted last. -/
theorem lastNode_eq (homed : Homed strategy args vmStateSlot c)
    (phase : Phase args c.vmOnNode.flatten (load c.vmOnNode) 0 false b)
    (vec : b.nodeVmVec = ties.order 0
      ((List.range args.numaNumber).map fun node => (node, load c.vmOnNode node))) :
    lastNode args vmStateSlot ties = some b.highLoadNode := by
  have counts : homeCounts args vmStateSlot
      = (List.range args.numaNumber).map fun node => (node, load c.vmOnNode node) := by
    refine List.map_congr_left fun node mem => ?_
    rw [homed.load_eq (List.mem_range.mp mem)]
  have idx := phase.idx
  simp only [Bool.false_eq_true, if_false] at idx
  rw [lastNode, counts, ← vec, List.getLast?_eq_getElem?, phase.cached.length_vec, ← idx,
    phase.cached.high]
  rfl

/-- With at most one VM homed on every node and a VM listed, the largest count is one. -/
theorem maxVmCnt_eq_one (homed : Homed strategy args vmStateSlot c)
    (phase : Phase args c.vmOnNode.flatten (load c.vmOnNode) 0 false b)
    (single : ∀ node < args.numaNumber,
      (homedOn node (scheduled args vmStateSlot)).length ≤ 1)
    {vm : VmInfo D} (listed : vm ∈ scheduled args vmStateSlot) (home : HomeInRange args vm) :
    b.maxVmCnt = 1 := by
  have homeLt := home.toNat_lt
  have mem : vm.domId ∈ listOf c.vmOnNode vm.memMainNodeId.toNat := by
    rw [homed.listOf_eq homeLt]
    exact mem_homedOn.mpr ⟨vm, listed, (Int.toNat_of_nonneg home.1).symm, rfl⟩
  have loaded : 0 < load c.vmOnNode vm.memMainNodeId.toNat := List.length_pos_of_mem mem
  have idx := phase.idx
  simp only [Bool.false_eq_true, if_false] at idx
  have lower := phase.cached.le_maxVmCnt idx homeLt
  have upper : load c.vmOnNode b.highLoadNode ≤ 1 := by
    rw [homed.load_eq phase.cached.high_lt]
    exact single _ phase.cached.high_lt
  rw [phase.cached.maxVmCnt_eq] at upper
  omega

/-- How such a round ends: the node `last` that is sorted last homes `top`, which alone may move
to the NIC node. -/
structure SpreadOut (strategy : SimpleStrategy) (args : ScheduleArgs D)
    (vmStateSlot : Nat → VmState) (ties : NodeSort) (lists : List (List Int)) (last : Nat)
    (top : VmInfo D) : Prop where
  listed : top ∈ scheduled args vmStateSlot
  home : top.memMainNodeId = (last : Int)
  sorted : lastNode args vmStateSlot ties = some last
  alone : lists[last]? = some [top.domId]
  homes : ∀ node < args.numaNumber, listOf lists node = homedOn node (scheduled args vmStateSlot)
  nodup : lists.flatten.Nodup
  nicLt : args.nic < lists.length
  free : listOf lists args.nic = []
  decided : analyze strategy args vmStateSlot ties
    = .ok (decisions (if ioClass strategy top = .ioStat
        then moved lists last 0 args.nic top.domId else lists))

theorem exists_spreadOut (topo : args.Topology) (agree : KeysAgree args.vmInfosMap)
    (ties : NodeSort) (classified : classify strategy args vmStateSlot = .ok c)
    (single : ∀ node < args.numaNumber,
      (homedOn node (scheduled args vmStateSlot)).length ≤ 1)
    (free : homedOn args.nic (scheduled args vmStateSlot) = [])
    {vm : VmInfo D} (listed : vm ∈ scheduled args vmStateSlot) (home : HomeInRange args vm) :
    ∃ last top, SpreadOut strategy args vmStateSlot ties c.vmOnNode last top := by
  have homed := classify_spec agree classified
  have known := homed.known agree
  obtain ⟨b, b', started, balanced, path, done⟩ :=
    balance_total c.vmStateMap ties topo homed.length known
  obtain ⟨b₀, started', phase, same, unset, vec⟩ := start_spec ties topo homed.length
  obtain rfl : b = b₀ := Except.ok.inj (started.symm.trans started')
  have one := maxVmCnt_eq_one homed phase single listed home
  -- so the loop is not entered
  have exit : b.unbalanced = false := by
    rw [Bool.eq_false_iff, ne_eq, phase.cached.unbalanced_iff]
    omega
  obtain rfl := eq_of_exit exit path
  have sane := phase.sane topo known
  have nicLists : listOf c.vmOnNode args.nic = [] := by
    rw [homed.listOf_eq topo.nic_lt, free]
  have freeNic : load b'.vmOnNode args.nic = 0 := by
    rw [same]
    exact congrArg List.length nicLists
  have high : load b'.vmOnNode b'.highLoadNode = 1 := by
    rw [same, phase.cached.maxVmCnt_eq, one]
  obtain ⟨first, rest, onHigh⟩ := sane.front (by omega)
  obtain rfl : rest = [] := by
    rw [load_of_getElem? onHigh, List.length_cons] at high
    exact List.eq_nil_of_length_eq_zero (Nat.succ.inj high)
  have onLast : homedOn b'.highLoadNode (scheduled args vmStateSlot) = [first] := by
    rw [← homed.listOf_eq phase.cached.high_lt, ← same, listOf_of_getElem? onHigh]
  obtain ⟨top, topListed, topHome, rfl⟩ : ∃ vm ∈ scheduled args vmStateSlot,
      vm.memMainNodeId = (b'.highLoadNode : Int) ∧ vm.domId = first :=
    mem_homedOn.mp (onLast ▸ List.mem_cons_self)
  have adjusts := adjustNetdev_eq c.vmStateMap topo sane unset one freeNic onHigh
  rw [homed.class_ top topListed, same] at adjusts
  have flag : c.flag = true := by
    rw [homed.flag]
    cases all : scheduled args vmStateSlot with
    | nil =>
        rw [all] at listed
        cases listed
    | cons => rfl
  have nicLt : args.nic < c.vmOnNode.length := by
    rw [homed.length]
    exact topo.nic_lt
  exact ⟨b'.highLoadNode, top, {
    listed := topListed
    home := topHome
    sorted := lastNode_eq homed phase vec
    alone := same ▸ onHigh
    homes := fun node inRange => homed.listOf_eq inRange
    nodup := homed.perm.nodup_iff.mpr (scheduledIds_nodup agree vmStateSlot)
    nicLt := nicLt
    free := nicLists
    decided := by simp [analyze, classified, flag, balanced, adjusts, bind, Except.bind] }⟩

/-- An IO intensive VM on the last node is decided the NIC node, and no other VM moves. -/
theorem SpreadOut.attracts {lists : List (List Int)} {last : Nat} {top : VmInfo D}
    (spread : SpreadOut strategy args vmStateSlot ties lists last top)
    (homes : ∀ vm ∈ scheduled args vmStateSlot, HomeInRange args vm)
    (isIo : ioClass strategy top = .ioStat) :
    Attracts strategy args vmStateSlot
      (decisions (moved lists last 0 args.nic top.domId)) := by
  have apart : last ≠ args.nic := by
    intro isNic
    have nicList := listOf_of_getElem? spread.alone
    rw [isNic, spread.free] at nicList
    cases nicList
  refine ⟨top, spread.listed, isIo, ?_, fun vm' listed' ne => ?_⟩
  · have nicList := spread.free
    rw [listOf_of_getElem? (List.getElem?_eq_getElem spread.nicLt)] at nicList
    rw [onNode_decisions]
    simp [List.getD_eq_getElem?_getD, getElem?_moved, List.getElem?_eq_getElem spread.nicLt,
      nicList, apart]
  · have home := homes vm' listed'
    rw [onNode_decisions]
    apply (mem_listOf_moved spread.nodup spread.alone rfl spread.nicLt).mpr
    rw [if_neg ne, spread.homes _ home.toNat_lt]
    exact mem_homedOn.mpr ⟨vm', listed', (Int.toNat_of_nonneg home.1).symm, rfl⟩

/-- Where every node homes at most one VM, the NIC node none and some VM is IO intensive, the
NIC node attracts an IO intensive VM exactly when the node that is sorted last homes one. -/
theorem attracts_iff (strategy : SimpleStrategy) (args : ScheduleArgs D)
    (vmStateSlot : Nat → VmState) (ties : NodeSort) (topo : args.Topology)
    (agree : KeysAgree args.vmInfosMap)
    (covered : ∀ vm ∈ args.vmInfosMap.values, Covered args vm)
    (homes : ∀ vm ∈ scheduled args vmStateSlot, HomeInRange args vm)
    (single : ∀ node < args.numaNumber,
      (homedOn node (scheduled args vmStateSlot)).length ≤ 1)
    (free : homedOn args.nic (scheduled args vmStateSlot) = [])
    (io : ∃ vm ∈ scheduled args vmStateSlot, ioClass strategy vm = .ioStat) :
    (∃ acts, analyze strategy args vmStateSlot ties = .ok acts ∧
        Attracts strategy args vmStateSlot acts) ↔
      ∃ vm ∈ scheduled args vmStateSlot, ioClass strategy vm = .ioStat ∧
        lastNode args vmStateSlot ties = some vm.memMainNodeId.toNat := by
  obtain ⟨c, classified⟩ := (classify_isOk strategy).mpr ⟨covered, homes⟩
  obtain ⟨some, someListed, _⟩ := io
  obtain ⟨last, top, spread⟩ :=
    exists_spreadOut topo agree ties classified single free someListed (homes some someListed)
  constructor
  · rintro ⟨acts, done, vm, listed, isIo, onNic, _⟩
    obtain rfl := Except.ok.inj (done.symm.trans spread.decided)
    by_cases topIo : ioClass strategy top = .ioStat
    · exact ⟨top, spread.listed, topIo, by rw [spread.sorted, spread.home, Int.toNat_natCast]⟩
    · have nicList := spread.free
      rw [if_neg topIo, onNode_decisions] at onNic
      rw [listOf, onNic] at nicList
      cases nicList
  · rintro ⟨vm, listed, isIo, isLast⟩
    rw [spread.sorted, Option.some.injEq] at isLast
    -- the VM is homed where `top` is, and `top` is alone there
    have lastLt : last < args.numaNumber := isLast ▸ (homes vm listed).toNat_lt
    have mem : vm.domId ∈ homedOn last (scheduled args vmStateSlot) := by
      apply mem_homedOn.mpr
      exact ⟨vm, listed, by rw [isLast, Int.toNat_of_nonneg (homes vm listed).1], rfl⟩
    rw [← spread.homes last lastLt, listOf_of_getElem? spread.alone, List.mem_singleton] at mem
    have homed := classify_spec agree classified
    have topIo : ioClass strategy top = .ioStat := by
      rw [← homed.class_ top spread.listed, ← mem, homed.class_ vm listed, isIo]
    have decided := spread.decided
    rw [if_pos topIo] at decided
    exact ⟨_, decided, spread.attracts homes topIo⟩

/-- An IO intensive VM on node 1 and another VM on node 2, with nodes 0 and 3 free. -/
def twoApart : ScheduleArgs ℚ :=
  fourNodeArgs [steadyVm 1 1 1 200000 50, steadyVm 2 2 2 0 50]

/-- Ties are broken towards the lower node. -/
def lowerLast : NodeSort :=
  UnstableSort.byRank fun node => 4 - node

theorem attracts_iff_twoApart : ∃ acts,
    analyze {} twoApart (fun _ => .otherStat) lowerLast = .ok acts ∧
      Attracts {} twoApart (fun _ => .otherStat) acts :=
  (attracts_iff {} twoApart _ lowerLast (fourNodeArgs_topology _) (fourNodeArgs_agree _)
    (by decide +kernel) (by decide +kernel) (by decide +kernel) (by decide +kernel)
    (by decide +kernel)).mpr (by decide +kernel)

/-- With the ties the other way the other VM is the one that is looked at, and the NIC node
stays free. -/
theorem twoApart_not_attracted :
    let ties : NodeSort := UnstableSort.byRank id
    (∀ node < twoApart.numaNumber,
        (homedOn node (scheduled twoApart fun _ => .otherStat)).length ≤ 1) ∧
      homedOn twoApart.nic (scheduled twoApart fun _ => .otherStat) = [] ∧
      (∃ vm ∈ scheduled twoApart fun _ => .otherStat, ioClass {} vm = .ioStat) ∧
      analyze {} twoApart (fun _ => .otherStat) ties = .ok [⟨1, 1, 1⟩, ⟨2, 2, 2⟩] ∧
      ¬ ∃ acts, analyze {} twoApart (fun _ => .otherStat) ties = .ok acts ∧
        Attracts {} twoApart (fun _ => .otherStat) acts := by
  intro ties
  have computed : analyze {} twoApart (fun _ => .otherStat) ties
      = .ok [⟨1, 1, 1⟩, ⟨2, 2, 2⟩] := by decide +kernel
  refine ⟨by decide +kernel, by decide +kernel, by decide +kernel, computed, ?_⟩
  rintro ⟨acts, done, vm, _, _, onNic, _⟩
  rw [computed] at done
  cases done
  have empty : onNode [⟨1, 1, 1⟩, ⟨2, 2, 2⟩] twoApart.nic = [] := by decide +kernel
  rw [empty] at onNic
  cases onNic

end VNams.Strategy
