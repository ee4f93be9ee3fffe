import VNams.Strategy.Bounds
import VNams.Nuiod.Records

/-!
Which element accesses of a round are in bounds.

Of the four indices of `schedule`, the usage vector has as many entries as `/proc/stat` has
cpu lines in the round, whatever the machine looked like before; a home is a node once a page
was counted, and otherwise whatever the object happens to contain; and nothing checks the
number in the NIC's `numa_node` file. `inBounds_iff` is the exact condition in every state
that a run reaches, for all orders that `std::sort` may give to ties.
-/

namespace VNams.Nuiod

open Lib Monitor Strategy

variable {D : Type} [Double D]

/-- The cpu lines of a reading; none when the file cannot be opened. -/
def statLines (file : ProcStat) : Nat := (file.getD []).length

theorem usageLines_length {cpuNumber cnt : Nat} {lines : List CpuLine} {stats stats' : List (CpuStat D)}
    {usage usage' : List D}
    (read : usageLines cpuNumber cnt lines stats usage = .ok (stats', usage')) :
    usage'.length = usage.length + lines.length := by
  induction lines generalizing cnt stats usage with
  | nil =>
      cases read
      rfl
  | cons line rest ih =>
      simp only [usageLines] at read
      split at read
      · cases read
      · have later := ih read
        rw [List.length_append, List.length_singleton] at later
        rw [later, List.length_cons]
        omega

/-- An initialised monitor leaves one entry for each line, also when it fails. -/
theorem getCpuUsage_length {monitor monitor' : CpuMonitor D} {file : ProcStat}
    {usage usage' : List D} {ret : Int} (initialised : monitor.cpuStatArray ≠ none)
    (measured : getCpuUsage monitor file usage = .ok (ret, monitor', usage')) :
    usage'.length = statLines file ∧ monitor'.cpuStatArray ≠ none := by
  obtain ⟨stats, present⟩ := Option.ne_none_iff_exists'.mp initialised
  simp only [getCpuUsage, present] at measured
  cases file with
  | none =>
      cases measured
      exact ⟨rfl, initialised⟩
  | some lines =>
      obtain ⟨⟨stats', usage''⟩, read, stored⟩ := bind_eq_ok.mp measured
      cases stored
      have length := usageLines_length read
      rw [List.length_nil, Nat.zero_add] at length
      exact ⟨length, by simp⟩

/-- The nodes that `init` finds: each has a latency list of all nodes. -/
theorem initNumaInfo_latencies {numaNumber : Nat} {machine : Machine D} {nodes : List (NumaNode D)}
    (numa : initNumaInfo numaNumber machine = some nodes) :
    nodes.length = numaNumber ∧ ∀ node ∈ nodes,
      (∀ j < numaNumber, ∃ p ∈ node.sortedLatNodeList, p.1 = j) ∧
        ∀ p ∈ node.sortedLatNodeList, p.1 < numaNumber := by
  obtain ⟨length, sources⟩ := mapM_eq_some numa
  rw [List.length_range] at length
  refine ⟨length, fun node mem => ?_⟩
  obtain ⟨i, _, found⟩ := sources node mem
  obtain ⟨cpus, _, stored⟩ := Option.bind_eq_some_iff.mp found
  cases stored
  constructor
  · intro j inRange
    refine ⟨(j, machine.numaLatency i j), UnstableSort.mem_order.mpr ?_, rfl⟩
    exact List.mem_map.mpr ⟨j, List.mem_range.mpr inRange, rfl⟩
  · intro p listed
    obtain ⟨j, inRange, rfl⟩ := List.mem_map.mp (UnstableSort.mem_order.mp listed)
    exact List.mem_range.mp inRange

/-- What a successful `init` leaves for all rounds. -/
structure Ready (nuiod : Nuiod D) : Prop where
  latencies : nuiod.scheduleArgs.Latencies
  monitoring : nuiod.cpuMonitor.cpuStatArray ≠ none

omit [Double D] in
theorem initCpuMonitor_ready {cpuNumber : Nat} {fresh : Nat → CpuStat D} {file : ProcStat}
    {ret : Int} {monitor : CpuMonitor D}
    (started : initCpuMonitor cpuNumber fresh file = .ok (ret, monitor)) :
    monitor.cpuStatArray ≠ none := by
  unfold initCpuMonitor at started
  cases file with
  | none =>
      cases started
      simp
  | some lines =>
      obtain ⟨stats, _, stored⟩ := bind_eq_ok.mp started
      cases stored
      simp

omit [Double D] in
theorem SameMachine.latencies {nuiod nuiod' : Nuiod D} (same : SameMachine nuiod nuiod')
    (lats : nuiod.scheduleArgs.Latencies) : nuiod'.scheduleArgs.Latencies := by
  obtain ⟨length, covers, valid⟩ := lats
  simp only [scheduleArgs] at length covers valid
  refine ⟨?_, ?_, ?_⟩
  · simp only [scheduleArgs, same.numaNodes, same.conf]
    exact length
  · simp only [scheduleArgs, same.numaNodes, same.conf]
    exact covers
  · simp only [scheduleArgs, same.numaNodes, same.conf]
    exact valid

omit [Double D] in
/-- Operations that measure nothing keep the daemon ready. -/
theorem Ready.keeps {nuiod nuiod' : Nuiod D} (ready : Ready nuiod)
    (same : SameMachine nuiod nuiod') (sameMonitor : nuiod'.cpuMonitor = nuiod.cpuMonitor) :
    Ready nuiod' := by
  refine ⟨same.latencies ready.latencies, ?_⟩
  rw [sameMonitor]
  exact ready.monitoring

/-- Every operation keeps the daemon ready. -/
theorem step_ready {nuiod nuiod' : Nuiod D} {op : Op D} (agree : KeysAgree nuiod.vmInfosMap)
    (ready : Ready nuiod) (own : OwnDecisions nuiod op) (done : nuiod.step op = .ok nuiod') :
    Ready nuiod' := by
  cases op with
  | event e rest =>
      obtain ⟨⟨ret, mid⟩, handled, stored⟩ := bind_eq_ok.mp done
      cases stored
      cases virVMEventCallBack_spec handled with
      | started _ _ => exact ready.keeps ⟨rfl, rfl, rfl, rfl⟩ rfl
      | removed _ _ _ => exact ready.keeps ⟨rfl, rfl, rfl, rfl⟩ rfl
      | recorded _ _ _ => exact ready.keeps ⟨rfl, rfl, rfl, rfl⟩ rfl
      | ignored _ _ => exact ready
  | refresh report =>
      have quiet : (Op.refresh report : Op D).Quiet := trivial
      have keeps := step_keeps agree own quiet done
      exact ready.keeps keeps.toSameMachine keeps.cpuMonitor
  | monitor env =>
      have monitored := monitor_spec done
      obtain ⟨ret, measured⟩ := monitored.usage
      have same : SameMachine nuiod nuiod' := by
        rw [monitored.rest]
        exact ⟨rfl, rfl, rfl, rfl⟩
      exact ⟨same.latencies ready.latencies, (getCpuUsage_length ready.monitoring measured).2⟩
  | decide env =>
      have quiet : (Op.decide env).Quiet := trivial
      have keeps := step_keeps agree own quiet done
      exact ready.keeps keeps.toSameMachine keeps.cpuMonitor
  | perform acts sort pins => exact absurd own id

theorem ready_of_init {conf : DomainConf} {cpuNumber : Nat} {strategy : SimpleStrategy}
    {machine : Machine D} {nuiod₀ : Nuiod D}
    (booted : (Nuiod.new conf cpuNumber strategy).init machine = .ok (0, nuiod₀)) :
    Ready nuiod₀ := by
  cases init_spec booted with
  | ready listed monitoring netdev numa =>
      obtain ⟨length, lists⟩ := initNumaInfo_latencies numa
      obtain ⟨_, _, sameConf⟩ := initVminfo_invariant (fun _ nuiod => nuiod.toDomainConf = conf)
        (fun _ nuiod domId flag nuiod' _ sameConf added => by
          obtain ⟨vm, filled, rfl⟩ := addVm_spec added
          exact sameConf)
        rfl listed
      refine ⟨⟨?_, ?_, ?_⟩, initCpuMonitor_ready monitoring⟩
      · simp only [scheduleArgs, sameConf]
        exact length
      · simp only [scheduleArgs, sameConf]
        exact fun node mem => (lists node mem).1
      · simp only [scheduleArgs, sameConf]
        exact fun node mem => (lists node mem).2

/-- The state before `schedule` in which all its element accesses are in bounds, after a round
of the monitors that read `lines` cpu lines. -/
structure WithinLines (nuiod : Nuiod D) (lines : Nat) (vmStateSlot : Nat → VmState) : Prop where
  /-- every CPU of a node has a line -/
  nodeCpus : ∀ node ∈ nuiod.numaNodes, ∀ cpuid ∈ node.cpuIds, cpuid + 1 < lines
  /-- every VM's CPU has a line; the entry for an unknown one is the total -/
  vmCpus : ∀ vm ∈ nuiod.vmInfosMap.values, -1 ≤ vm.realCpuNo ∧ vm.realCpuNo + 1 < lines
  /-- every VM that is not skipped has a page, or happens to have a node as its home -/
  homes : ∀ vm ∈ scheduled nuiod.scheduleArgs vmStateSlot,
    HasPages vm ∨ HomeInRange nuiod.scheduleArgs vm
  /-- the NIC is on a node, or the VMs on their homes do not need its list -/
  nic : nuiod.scheduleArgs.NicOnNode ∨
    ¬ NicNeeded nuiod.strategy nuiod.scheduleArgs vmStateSlot

omit [Double D] in
theorem vecAtInt_isOk {v : List D} {i : Int} :
    (∃ x, vecAtInt v i = .ok x) ↔ 0 ≤ i ∧ i < v.length := by
  simp only [vecAtInt_eq_ok]
  constructor
  · rintro ⟨x, nonneg, found⟩
    obtain ⟨inRange, _⟩ := List.getElem?_eq_some_iff.mp found
    exact ⟨nonneg, by omega⟩
  · rintro ⟨nonneg, inRange⟩
    have inRange' : i.toNat < v.length := by omega
    exact ⟨v[i.toNat], nonneg, List.getElem?_eq_getElem inRange'⟩

/-- With the vector as long as the lines, and pages counted for nodes only, these are the
conditions of `schedule`. -/
theorem inBounds_iff_withinLines {nuiod : Nuiod D} {lines : Nat} {vmStateSlot : Nat → VmState}
    (length : nuiod.cpuUsage.length = lines)
    (paged : ∀ vm ∈ nuiod.vmInfosMap.values, HasPages vm → HomeInRange nuiod.scheduleArgs vm) :
    InBounds nuiod.strategy nuiod.scheduleArgs vmStateSlot ↔
      WithinLines nuiod lines vmStateSlot := by
  have covered : ∀ vm : VmInfo D, Covered nuiod.scheduleArgs vm ↔
      -1 ≤ vm.realCpuNo ∧ vm.realCpuNo + 1 < lines := by
    intro vm
    have read : Covered nuiod.scheduleArgs vm ↔
        0 ≤ vm.realCpuNo + 1 ∧ vm.realCpuNo + 1 < nuiod.cpuUsage.length := vecAtInt_isOk
    rw [read, length]
    omega
  have known : ∀ vm ∈ scheduled nuiod.scheduleArgs vmStateSlot,
      vm ∈ nuiod.vmInfosMap.values :=
    fun vm mem => (scheduledFrom_sublist nuiod.scheduleArgs vmStateSlot 0 _).subset mem
  constructor
  · rintro ⟨nodeCpus, vmCpus, homes, nic⟩
    rw [← length]
    refine ⟨nodeCpus, fun vm mem => ?_, fun vm mem => .inr (homes vm mem), nic⟩
    rw [length]
    exact (covered vm).mp (vmCpus vm mem)
  · rintro ⟨nodeCpus, vmCpus, homes, nic⟩
    rw [← length] at nodeCpus
    refine ⟨nodeCpus, fun vm mem => (covered vm).mpr (vmCpus vm mem), fun vm mem => ?_, nic⟩
    rcases homes vm mem with pages | inRange
    · exact paged vm (known vm mem) pages
    · exact inRange

/-- In every state that a run of the daemon reaches, after every outcome of the monitors: under
every order of the ties the element accesses of `schedule` are in bounds exactly when the CPUs
have lines, the homes are nodes, and the NIC's list is not needed without a node of the NIC. -/
theorem inBounds_iff {conf : DomainConf} {cpuNumber : Nat} {strategy : SimpleStrategy}
    {machine : Machine D} {nuiod₀ nuiod nuiod' : Nuiod D} {ops : List (Op D)} {env : MonitorEnv}
    (booted : (Nuiod.new conf cpuNumber strategy).init machine = .ok (0, nuiod₀))
    (run : Run step OwnDecisions nuiod₀ ops nuiod) (measured : nuiod.monitor env = .ok nuiod')
    (strat : StrategyEnv D) :
    (∀ ties, nuiod'.scheduleActs { strat with ties := ties } ≠ .error .indexOutOfRange) ↔
      WithinLines nuiod' (statLines env.procStat) strat.vmStateSlot := by
  have keeps : ∀ (nuiod : Nuiod D) op nuiod', KeysAgree nuiod.vmInfosMap ∧ Ready nuiod →
      OwnDecisions nuiod op → nuiod.step op = .ok nuiod' →
      KeysAgree nuiod'.vmInfosMap ∧ Ready nuiod' :=
    fun _ _ _ kept own done =>
      ⟨step_keysAgree kept.1 own done, step_ready kept.1 kept.2 own done⟩
  have start := And.intro (keysAgree_of_init booted) (ready_of_init booted)
  have last : Run step OwnDecisions nuiod [Op.monitor env] nuiod' := .single trivial measured
  obtain ⟨agree, ready⟩ := Run.invariant keeps start (run.append last)
  obtain ⟨records, recording⟩ := (run.append last).exists_history note nuiod₀.firstRecords
  obtain ⟨_, recorded⟩ := recorded_run booted recording
  have lines : nuiod'.scheduleArgs.cpuUsage.length = statLines env.procStat := by
    obtain ⟨ret, measured⟩ := (monitor_spec measured).usage
    exact (getCpuUsage_length (Run.invariant keeps start run).2.monitoring measured).1
  obtain ⟨kind, succeeds⟩ := schedule_inBounds nuiod'.strategy ready.latencies agree
    strat.vmStateSlot
  have paged : ∀ vm ∈ nuiod'.vmInfosMap.values,
      HasPages vm → HomeInRange nuiod'.scheduleArgs vm := by
    rintro vm mem ⟨pages, counted, positive⟩
    obtain ⟨k, tracked⟩ := mem_values.mp mem
    obtain ⟨record, _, accounts⟩ := recorded k vm tracked
    rw [accounts.memNodeDistr] at counted
    unfold HomeInRange
    rw [accounts.memMainNodeId]
    exact accounts.isNew.home ⟨pages, counted, positive⟩
  have returns : ∀ ties,
      nuiod'.scheduleActs { strat with ties := ties } ≠ .error .indexOutOfRange ↔
      ∃ acts, schedule nuiod'.strategy nuiod'.scheduleArgs strat.vmStateSlot ties = .ok acts :=
    fun ties => (kind ties).ne_error_iff
  rw [forall_congr' returns, succeeds]
  exact inBounds_iff_withinLines lines paged

/-! ### A round without `/proc/stat` -/

/-- No line covers a CPU then. -/
theorem inBounds_iff_unreadableStat :
    ∃ nuiod₀ nuiod : Nuiod ℚ, smallNuiod.init (smallMachine [(1, 3)]) = .ok (0, nuiod₀) ∧
      nuiod₀.monitor (statOnly none) = .ok nuiod ∧
      ((∀ ties, nuiod.scheduleActs { plainStrategy with ties := ties } ≠ .error .indexOutOfRange) ↔
        WithinLines nuiod 0 plainStrategy.vmStateSlot) ∧
      ¬ WithinLines nuiod 0 plainStrategy.vmStateSlot := by
  obtain ⟨nuiod₀, nuiod, booted, run, checked⟩ := exists_run step [Op.monitor (statOnly none)]
    (smallNuiod.init (smallMachine [(1, 3)]))
    (fun nuiod => decide (∃ node ∈ nuiod.numaNodes, node.cpuIds ≠ [])) (by decide +kernel)
  cases run with
  | cons _ measured rest =>
      cases rest
      refine ⟨nuiod₀, nuiod, booted, measured,
        inBounds_iff booted (.nil nuiod₀) measured plainStrategy, fun within => ?_⟩
      obtain ⟨node, mem, some'⟩ := of_decide_eq_true checked
      obtain ⟨cpu, here⟩ := List.exists_mem_of_ne_nil _ some'
      exact absurd (within.nodeCpus node mem cpu here) (Nat.not_lt_zero _)

/-- When `/proc/stat` cannot be opened, the usage vector is empty, and the log of the first
node's load reads past its end. -/
theorem unreadableStat_outOfRange :
    ∃ nuiod₀ nuiod : Nuiod ℚ, smallNuiod.init (smallMachine [(1, 3)]) = .ok (0, nuiod₀) ∧
      nuiod₀.monitor (statOnly none) = .ok nuiod ∧
      nuiod.scheduleActs plainStrategy = .error .indexOutOfRange := by
  obtain ⟨nuiod₀, nuiod, booted, run, checked⟩ := exists_run step [Op.monitor (statOnly none)]
    (smallNuiod.init (smallMachine [(1, 3)]))
    (fun nuiod => decide (fault (nuiod.scheduleActs plainStrategy) = some .indexOutOfRange))
    (by decide +kernel)
  cases run with
  | cons _ measured rest =>
      cases rest
      exact ⟨nuiod₀, nuiod, booted, measured, fault_eq_some.mp (of_decide_eq_true checked)⟩

end VNams.Nuiod
