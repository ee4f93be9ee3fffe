import VNams.Strategy.Analyze

/-!
Which VMs get a decision.

Balancing neither loses nor duplicates a VM: after any number of iterations, and after the
final adjustment, the lists hold the VMs that classification put there. So the decisions are
for the scheduled VMs, and whether those are the busy ones depends on the uninitialised
`vm_state`: an iteration that finds "idle" in it skips a busy VM.
-/

namespace VNams.Strategy

open Lib

/-! ### A machine with two nodes -/

/-- Uninitialised members that happen to be zero. -/
def zeroed : Indeterminate ℚ := ⟨0, 0, 0, 0, 0, 0, 0, 0, 0, 0, 0, 0, 0, 0⟩

/-- A VM with a steady packet rate. -/
def steadyVm (domId realCpuNo memMainNodeId : Int) (rate usage : ℚ) : VmInfo ℚ :=
  { VmInfo.new zeroed with
    domId := domId, realCpuNo := realCpuNo, memMainNodeId := memMainNodeId,
    packetsPerSec := rate, packetsPerSecHistory := rate, realCpuUsage := usage }

/-- Two nodes of one CPU each, the NIC on node 0. -/
def twoNodes : List (NumaNode ℚ) :=
  [⟨0, [0], [(0, 10), (1, 20)]⟩, ⟨1, [1], [(1, 10), (0, 20)]⟩]

/-- The arguments of a round on that machine. -/
def twoNodeArgs (vms : List (VmInfo ℚ)) (cpuUsage : List ℚ) : ScheduleArgs ℚ where
  vmInfosMap := vmMapOf vms
  cpuUsage := cpuUsage
  numaNodes := twoNodes
  numaNumber := 2
  netdevNumanode := 0

theorem twoNodeArgs_topology (vms : List (VmInfo ℚ)) (cpuUsage : List ℚ) :
    (twoNodeArgs vms cpuUsage).Topology where
  netdev_nonneg := Int.le_refl 0
  netdev_lt := show (0 : Int) < 2 by decide
  numaNodes_length := rfl
  lat_covers := show ∀ node ∈ twoNodes, ∀ j < 2, ∃ p ∈ node.sortedLatNodeList, p.1 = j by decide
  lat_valid := show ∀ node ∈ twoNodes, ∀ p ∈ node.sortedLatNodeList, p.1 < 2 by decide

theorem twoNodeArgs_agree (vms : List (VmInfo ℚ)) (cpuUsage : List ℚ) :
    KeysAgree (twoNodeArgs vms cpuUsage).vmInfosMap :=
  vmMapOf_agree vms

/-! ### Balancing keeps the VMs -/

/-- After any number of iterations, and after the final adjustment, the lists are a
permutation of the homed VMs; `analyze` emits one decision for each, onto a node. -/
theorem balancing_conserves {D : Type} [Double D] (strategy : SimpleStrategy)
    (args : ScheduleArgs D) (vmStateSlot : Nat → VmState) (ties : NodeSort)
    (topo : args.Topology) (agree : KeysAgree args.vmInfosMap)
    (covered : ∀ vm ∈ args.vmInfosMap.values, Covered args vm)
    (homes : ∀ vm ∈ scheduled args vmStateSlot, HomeInRange args vm) :
    ∃ c b acts, classify strategy args vmStateSlot = .ok c ∧
      Balancer.start args ties c.vmOnNode = .ok b ∧
      analyze strategy args vmStateSlot ties = .ok acts ∧
      c.vmOnNode.flatten.Perm (scheduledIds args vmStateSlot) ∧
      (scheduledIds args vmStateSlot).Nodup ∧
      (∀ b', Relation.ReflTransGen (BalanceStep args c.vmStateMap ties) b b' →
        b'.vmOnNode.flatten.Perm c.vmOnNode.flatten ∧
        ∃ final, adjustNetdev args c.vmStateMap b' = .ok final ∧
          final.flatten.Perm c.vmOnNode.flatten) ∧
      (acts.map Decision.domId).Perm (scheduledIds args vmStateSlot) ∧
      ∀ act ∈ acts, 0 ≤ act.cpuNodeId ∧ act.cpuNodeId < args.numaNumber ∧
        act.memNodeId = act.cpuNodeId := by
  obtain ⟨c, classified⟩ := (classify_isOk strategy).mpr ⟨covered, homes⟩
  obtain ⟨b, b', final, analyzed, done⟩ := analyze_of_classify topo agree ties classified
  obtain ⟨ids, inRange⟩ := analyze_domId topo agree done
  refine ⟨c, b, _, classified, analyzed.started, done, analyzed.homed.perm,
    scheduledIds_nodup agree vmStateSlot, ?_, ids, inRange⟩
  intro b' path
  obtain ⟨sane, perm, final, adjusts, adjusted⟩ :=
    adjust_of_path topo analyzed.homed.length (analyzed.homed.known agree) analyzed.started path
  exact ⟨perm, final, adjusts, (adjusted.perm topo sane).1.trans perm⟩

/-- Three busy VMs on the NIC node. -/
theorem balancing_conserves_three :
    let args := twoNodeArgs
      [steadyVm 1 0 0 200000 50, steadyVm 2 0 0 0 50, steadyVm 3 1 0 0 50] [120, 60, 60]
    let slot := fun _ : Nat => VmState.otherStat
    let ties : NodeSort := UnstableSort.byRank id
    ∃ c b acts, classify {} args slot = .ok c ∧ Balancer.start args ties c.vmOnNode = .ok b ∧
      analyze {} args slot ties = .ok acts ∧
      c.vmOnNode.flatten.Perm (scheduledIds args slot) ∧ (scheduledIds args slot).Nodup ∧
      (∀ b', Relation.ReflTransGen (BalanceStep args c.vmStateMap ties) b b' →
        b'.vmOnNode.flatten.Perm c.vmOnNode.flatten ∧
        ∃ final, adjustNetdev args c.vmStateMap b' = .ok final ∧
          final.flatten.Perm c.vmOnNode.flatten) ∧
      (acts.map Decision.domId).Perm (scheduledIds args slot) ∧
      ∀ act ∈ acts, 0 ≤ act.cpuNodeId ∧ act.cpuNodeId < args.numaNumber ∧
        act.memNodeId = act.cpuNodeId :=
  balancing_conserves {} _ _ _ (twoNodeArgs_topology _ _) (twoNodeArgs_agree _ _)
    (by decide +kernel) (by decide +kernel)

/-! ### Idle filtering -/

/-- The smoothed usage of a VM, where its CPU has one, is above the idle limit. -/
def AboveIdle (args : ScheduleArgs ℚ) (vm : VmInfo ℚ) : Prop :=
  ∃ usage, vecAtInt args.cpuUsage (vm.realCpuNo + 1) = .ok usage ∧ 8 < smoothedUsage usage vm

theorem busy_iff {args : ScheduleArgs ℚ} {vm : VmInfo ℚ} :
    busy args vm = true ↔ AboveIdle args vm := by
  unfold busy AboveIdle
  cases vecAtInt args.cpuUsage (vm.realCpuNo + 1) with
  | error e => simp
  | ok usage =>
      have limit : (Double.ofInt 8 : ℚ) = 8 := rfl
      simp [limit]

/-- `analyze` decides exactly for the VMs above the idle limit. -/
def FiltersExactly (strategy : SimpleStrategy) (args : ScheduleArgs ℚ)
    (vmStateSlot : Nat → VmState) (ties : NodeSort) : Prop :=
  ∃ acts, analyze strategy args vmStateSlot ties = .ok acts ∧
    ∀ (k : Int) (vm : VmInfo ℚ), args.vmInfosMap[k]? = some vm →
      ((∃ act ∈ acts, act.domId = k) ↔ AboveIdle args vm)

/-- Filtering is exact if and only if every CPU has a usage, and every VM above the limit
has a node as its home and is reached with something other than "idle" in `vm_state`. -/
theorem filtersExactly_iff (strategy : SimpleStrategy) (args : ScheduleArgs ℚ)
    (vmStateSlot : Nat → VmState) (ties : NodeSort) (topo : args.Topology)
    (agree : KeysAgree args.vmInfosMap) :
    FiltersExactly strategy args vmStateSlot ties ↔
      ∀ (i : Nat) (vm : VmInfo ℚ), args.vmInfosMap.values[i]? = some vm → Covered args vm ∧
        (AboveIdle args vm → vmStateSlot i ≠ .idleStat ∧ HomeInRange args vm) := by
  have present : ∀ {i : Nat} {vm : VmInfo ℚ}, args.vmInfosMap.values[i]? = some vm →
      args.vmInfosMap[vm.domId]? = some vm := by
    intro i vm here
    obtain ⟨k, found⟩ := mem_values.mp (List.mem_of_getElem? here)
    rw [agree k vm found]
    exact found
  have decided : ∀ {acts}, analyze strategy args vmStateSlot ties = .ok acts →
      ∀ id, (∃ act ∈ acts, act.domId = id) ↔ id ∈ scheduledIds args vmStateSlot := by
    intro acts done id
    rw [← (analyze_domId topo agree done).1.mem_iff, List.mem_map]
  constructor
  · rintro ⟨acts, done, exactly⟩ i vm here
    obtain ⟨covered, homes⟩ := (analyze_isOk strategy topo agree ties).mp ⟨acts, done⟩
    refine ⟨covered vm (List.mem_of_getElem? here), fun above => ?_⟩
    have listed := (decided done vm.domId).mp ((exactly _ _ (present here)).mpr above)
    obtain ⟨vm', mem, sameId⟩ := List.mem_map.mp listed
    obtain ⟨j, there, at_⟩ := mem_scheduledFrom.mp mem
    -- distinct ids: the scheduled VM is the one at position `i`
    have same : (args.vmInfosMap.values.map VmInfo.domId)[j]?
        = (args.vmInfosMap.values.map VmInfo.domId)[i]? := by simp [there, here, sameId]
    obtain ⟨inRange, _⟩ := List.getElem?_eq_some_iff.mp there
    obtain rfl := (List.getElem?_inj (by simpa using inRange) agree.nodup).mp same
    rw [here] at there
    cases there
    obtain ⟨_, notIdle⟩ := Bool.and_eq_true_iff.mp at_
    rw [Nat.zero_add] at notIdle
    exact ⟨of_decide_eq_true notIdle, homes vm mem⟩
  · intro condition
    have scheduledOk : ∀ vm ∈ scheduled args vmStateSlot, HomeInRange args vm := by
      intro vm mem
      obtain ⟨j, there, at_⟩ := mem_scheduledFrom.mp mem
      exact ((condition j vm there).2 (busy_iff.mp (Bool.and_eq_true_iff.mp at_).1)).2
    have covered : ∀ vm ∈ args.vmInfosMap.values, Covered args vm := by
      intro vm mem
      obtain ⟨i, here⟩ := List.mem_iff_getElem?.mp mem
      exact (condition i vm here).1
    obtain ⟨acts, done⟩ := (analyze_isOk strategy topo agree ties).mpr
      ⟨covered, scheduledOk⟩
    refine ⟨acts, done, fun k vm found => ?_⟩
    rw [decided done, ← busy_iff]
    constructor
    · intro listed
      obtain ⟨vm', mem, sameId⟩ := List.mem_map.mp listed
      obtain ⟨j, there, at_⟩ := mem_scheduledFrom.mp mem
      have found' := present there
      rw [sameId, found] at found'
      cases found'
      exact (Bool.and_eq_true_iff.mp at_).1
    · intro isBusy
      obtain ⟨i, here⟩ := List.mem_iff_getElem?.mp (mem_values.mpr ⟨k, found⟩)
      obtain ⟨notIdle, _⟩ := (condition i vm here).2 (busy_iff.mp isBusy)
      refine List.mem_map.mpr ⟨vm, mem_scheduledFrom.mpr ⟨i, here, ?_⟩, agree k vm found⟩
      simp [scheduledAt, isBusy, notIdle]

/-- A busy VM after an idle one: its iteration finds the "idle" of the one before. -/
def idleThenBusy : ScheduleArgs ℚ :=
  twoNodeArgs [steadyVm 1 0 0 0 0, steadyVm 2 1 0 0 50] [60, 0, 60]

theorem filtersExactly_iff_idleThenBusy :
    FiltersExactly {} idleThenBusy (fun _ => .otherStat) (UnstableSort.byRank id) ↔
      ∀ (i : Nat) (vm : VmInfo ℚ), idleThenBusy.vmInfosMap.values[i]? = some vm →
        Covered idleThenBusy vm ∧ (AboveIdle idleThenBusy vm →
          VmState.otherStat ≠ .idleStat ∧ HomeInRange idleThenBusy vm) :=
  filtersExactly_iff {} idleThenBusy (fun _ => .otherStat) _ (twoNodeArgs_topology _ _)
    (twoNodeArgs_agree _ _)

/-- With the state of the idle VM still in `vm_state`, the busy VM gets no decision. -/
theorem idleThenBusy_loses_busy :
    analyze {} idleThenBusy (fun i => if i = 0 then .otherStat else .idleStat)
        (UnstableSort.byRank id) = .ok [] ∧
      ¬ FiltersExactly {} idleThenBusy (fun i => if i = 0 then .otherStat else .idleStat)
        (UnstableSort.byRank id) := by
  have none : analyze {} idleThenBusy (fun i => if i = 0 then .otherStat else .idleStat)
      (UnstableSort.byRank id) = .ok [] := by decide +kernel
  refine ⟨none, ?_⟩
  rintro ⟨acts, done, exactly⟩
  rw [none] at done
  cases done
  have found : idleThenBusy.vmInfosMap[(2 : Int)]? = some (steadyVm 2 1 0 0 50) := by
    decide +kernel
  have above : AboveIdle idleThenBusy (steadyVm 2 1 0 0 50) := ⟨60, by decide +kernel⟩
  obtain ⟨act, mem, _⟩ := (exactly 2 _ found).mpr above
  cases mem

end VNams.Strategy
