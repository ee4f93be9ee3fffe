import VNams.Nuiod.Startup
import VNams.Nuiod.Bounds
import VNams.Nuiod.Steady
import VNams.Monitor.Attribution
import VNams.Monitor.Counters

/-!
The daemon goes on.

A round can end the daemon in many places: an object without a handle or a name, a text that a
scan runs out of, `popen` that fails, a CPU, a node or a line that is not there. What the world
has to keep for none of them to be reached is `Roomy` at the start, and `Tolerable` in each
round: it says nothing about the daemon's own state. A daemon in such a world is always `Sturdy`,
and its loop goes through round after round (`rounds_go_on`).
-/

namespace VNams.Nuiod

open Lib Lib.CText Monitor Strategy

variable {D : Type} [Double D] {conf : DomainConf} {cpuNumber : Nat} {nuiod nuiod' : Nuiod D}

/-! ### A sturdy daemon -/

/-- The VM is on a CPU of the machine, if its CPU is known, and has a node for its home. -/
structure Housed (conf : DomainConf) (cpuNumber : Nat) (vm : VmInfo D) : Prop where
  place : -1 ≤ vm.realCpuNo ∧ vm.realCpuNo < cpuNumber
  home : 0 ≤ vm.memMainNodeId ∧ vm.memMainNodeId < conf.numaNumber

/-- Nothing that a round indexes with is out of range. -/
structure Sturdy (conf : DomainConf) (cpuNumber : Nat) (nuiod : Nuiod D) : Prop where
  config : nuiod.toDomainConf = conf
  number : nuiod.cpuNumber = cpuNumber
  agree : KeysAgree nuiod.vmInfosMap
  topology : nuiod.scheduleArgs.Topology
  nodeCpus : ∀ node ∈ nuiod.numaNodes, ∀ cpu ∈ node.cpuIds, cpu < cpuNumber
  lines : ∃ stats, nuiod.cpuMonitor.cpuStatArray = some stats ∧ stats.length = cpuNumber + 1
  housed : ∀ (id : Int) (vm : VmInfo D), nuiod.vmInfosMap[id]? = some vm → Housed conf cpuNumber vm

omit [Double D] in
/-- What only changes the VMs. -/
theorem Sturdy.with_vms (sturdy : Sturdy conf cpuNumber nuiod) (machine : SameMachine nuiod nuiod')
    (number : nuiod'.cpuNumber = nuiod.cpuNumber) (monitor : nuiod'.cpuMonitor = nuiod.cpuMonitor)
    (agree : KeysAgree nuiod'.vmInfosMap)
    (housed : ∀ (id : Int) (vm : VmInfo D), nuiod'.vmInfosMap[id]? = some vm →
      Housed conf cpuNumber vm) : Sturdy conf cpuNumber nuiod' where
  config := machine.conf.trans sturdy.config
  number := number.trans sturdy.number
  agree := agree
  topology := by
    refine ⟨machine.latencies sturdy.topology.toLatencies, ?_, ?_⟩
    · simp only [scheduleArgs, machine.netdevNumanode]
      exact sturdy.topology.netdev_nonneg
    · simp only [scheduleArgs, machine.netdevNumanode, machine.conf]
      exact sturdy.topology.netdev_lt
  nodeCpus := by
    rw [machine.numaNodes]
    exact sturdy.nodeCpus
  lines := by
    rw [monitor]
    exact sturdy.lines
  housed := housed

omit [Double D] in
/-- A VM that moves to a CPU of the machine. -/
theorem Sturdy.change (sturdy : Sturdy conf cpuNumber nuiod) {id cpu : Int} {vm : VmInfo D}
    (tracked : nuiod.vmInfosMap[id]? = some vm) (place : -1 ≤ cpu ∧ cpu < cpuNumber) :
    Sturdy conf cpuNumber (nuiod.changeCpuVmMapping id vm cpu) :=
  sturdy.with_vms ⟨rfl, rfl, rfl, rfl⟩ rfl rfl (keysAgree_insert sturdy.agree tracked rfl)
    (forall_insert sturdy.housed ⟨place, (sturdy.housed id vm tracked).home⟩)

/-! ### What the world keeps -/

/-- A domain that the daemon can take in: the steps of `set_vm_info` come to an end, its CPU is
one of the machine if it is known, and a page is counted on some node. -/
structure Welcome (conf : DomainConf) (cpuNumber : Nat) (env : DomainEnv) : Prop where
  steps : StepsEnd conf env
  cpu : -1 ≤ getVmRealCpu env.handle env.vcpu ∧ getVmRealCpu env.handle env.vcpu < cpuNumber
  pages : ∀ ret distr, getProcMemNumaDistribution conf.numaNumber (env.numaMaps (newPid env)) []
    = .ok (ret, distr) → ∃ pages ∈ distr, 0 < pages

/-- A round that no step of the daemon dies of. -/
structure Tolerable (conf : DomainConf) (cpuNumber : Nat) (round : Round D) : Prop where
  starts : ∀ e ∈ round.events, e.1.event = .started → Welcome conf cpuNumber e.1.domain
  report : ∀ id cpu, round.report id = some cpu → -1 ≤ cpu ∧ cpu < cpuNumber
  /-- every CPU has its line, besides the aggregate one -/
  stat : statLines round.monitor.procStat = cpuNumber + 1
  /-- `popen` works, and every line has the letters that are looked for -/
  perf : ∀ id, ∃ text, round.monitor.perfOutput id = some text ∧
    ∀ line ∈ fgets perfBufSize text, HasLetters line

/-- A machine that the daemon can start on. -/
structure Roomy (conf : DomainConf) (cpuNumber : Nat) (machine : Machine D) : Prop where
  listed : ∀ id ∈ machine.listing.runningDomIds.getD [],
    Welcome conf cpuNumber (machine.listing.domain id)
  netdev : ∀ node, machine.netdevFile.bind scanInt = some node → 0 ≤ node ∧ node < conf.numaNumber
  cpus : ∀ i < conf.numaNumber, ∀ cpus, machine.nodeCpus i = some cpus →
    ∀ cpu ∈ cpus, cpu < cpuNumber

omit [Double D] in
theorem Filled.housed {env : DomainEnv} {rest : Indeterminate D} {id : Int} {vm : VmInfo D}
    (filled : Filled conf env rest id vm) (welcome : Welcome conf cpuNumber env) :
    Housed conf cpuNumber vm := by
  obtain ⟨ret, read⟩ := filled.pages
  have pid : vm.pid = newPid env := filled.pid
  rw [pid] at read
  refine ⟨?_, filled.isNew.home (welcome.pages ret vm.memNodeDistr read)⟩
  rw [filled.cpu]
  exact welcome.cpu

/-! ### Events and the refresh -/

theorem event_goes_on (sturdy : Sturdy conf cpuNumber nuiod) {e : Event} {rest : Indeterminate D}
    (welcome : e.event = .started → Welcome conf cpuNumber e.domain) :
    ∃ nuiod', nuiod.step (.event e rest) = .ok nuiod' ∧ Sturdy conf cpuNumber nuiod' := by
  obtain ⟨r, handled⟩ : ∃ r, nuiod.virVMEventCallBack e rest = .ok r := by
    unfold virVMEventCallBack
    split
    · rename_i isStarted
      have steps := (welcome isStarted).steps
      rw [← sturdy.config] at steps
      obtain ⟨r, added⟩ := addVm_ok_iff.mpr steps
      exact ⟨_, bind_eq_ok.mpr ⟨r, added, rfl⟩⟩
    · split
      · split
        · exact ⟨_, rfl⟩
        · split
          · exact ⟨_, rfl⟩
          · exact ⟨_, rfl⟩
      · exact ⟨_, rfl⟩
  obtain ⟨ret, mid⟩ := r
  have done : nuiod.step (.event e rest) = .ok mid := bind_eq_ok.mpr ⟨(ret, mid), handled, rfl⟩
  have agree := move_keysAgree (m := .event e rest) sturdy.agree trivial done
  refine ⟨mid, done, ?_⟩
  cases virVMEventCallBack_spec handled with
  | @started vm isStarted filled =>
      rw [sturdy.config] at filled
      have new := filled.housed (welcome isStarted)
      exact sturdy.with_vms ⟨rfl, rfl, rfl, rfl⟩ rfl rfl agree
        (forall_modify (forall_insert sturdy.housed new) fun _ old => ⟨old.place, old.home⟩)
  | removed _ _ _ =>
      exact sturdy.with_vms ⟨rfl, rfl, rfl, rfl⟩ rfl rfl agree (forall_erase sturdy.housed)
  | @recorded vm _ tracked _ =>
      have old := sturdy.housed _ vm tracked
      exact sturdy.with_vms ⟨rfl, rfl, rfl, rfl⟩ rfl rfl agree
        (forall_insert sturdy.housed ⟨old.place, old.home⟩)
  | ignored _ _ => exact sturdy

omit [Double D] in
theorem refresh_goes_on (sturdy : Sturdy conf cpuNumber nuiod) {report : Int → Option Int}
    (known : ∀ id cpu, report id = some cpu → -1 ≤ cpu ∧ cpu < cpuNumber) :
    ∃ nuiod', nuiod.refreshCpuMapping report = .ok nuiod' ∧ Sturdy conf cpuNumber nuiod' := by
  have visit : ∀ key ∈ nuiod.vmInfosMap.keys, ∀ s : Nuiod D, Sturdy conf cpuNumber s →
      ∃ s', refreshVm report s key = .ok s' ∧ Sturdy conf cpuNumber s' := by
    intro key _ s sturdy
    obtain ⟨s', visited⟩ := exists_refreshVm report s key
    refine ⟨s', visited, ?_⟩
    rcases refreshVm_spec visited with ⟨vm, cpu, relocates, rfl⟩ | ⟨_, rfl⟩
    · exact sturdy.change relocates.tracked (known key cpu relocates.reported)
    · exact sturdy
  obtain ⟨nuiod', run, sturdy'⟩ := Run.exists_of_progress visit sturdy
  exact ⟨nuiod', Run.foldlM_iff.mpr run, sturdy'⟩

/-! ### The monitors -/

omit [Double D] in
theorem perfLines_go_on {chunks : List Text} (letters : ∀ line ∈ chunks, HasLetters line)
    (buffer : Text) (vm : VmInfo D) : ∃ vm', perfLines chunks buffer vm = .ok vm' := by
  induction chunks generalizing buffer vm with
  | nil => exact ⟨vm, rfl⟩
  | cons line chunks ih =>
      rw [List.forall_mem_cons] at letters
      obtain ⟨next, one⟩ : ∃ next, perfLine (fill buffer line) vm = .ok next := by
        rw [perfLine_eq, chosen_fill letters.1]
        cases made : chosen (fill [] line) with
        | error fault =>
            rw [eq_overread_of_chosen made] at made
            exact absurd made (chosen_ne_error_iff.mpr letters.1)
        | ok e => exact ⟨_, rfl⟩
      obtain ⟨vm', later⟩ := ih letters.2 (fill buffer line) next
      exact ⟨vm', bind_eq_ok.mpr ⟨next, one, later⟩⟩

omit [Double D] in
theorem perfVm_goes_on {env : MonitorEnv} (perf : ∀ id, ∃ text, env.perfOutput id = some text ∧
    ∀ line ∈ fgets perfBufSize text, HasLetters line) (id : Int) (vm : VmInfo D) :
    ∃ vm', perfVm env id vm = .ok vm' := by
  obtain ⟨text, output, letters⟩ := perf id
  obtain ⟨vm', lines⟩ := perfLines_go_on letters (env.perfBuffer id) vm
  refine ⟨vm', bind_eq_ok.mpr ⟨(0, vm'), ?_, rfl⟩⟩
  rw [output]
  exact bind_eq_ok.mpr ⟨vm', lines, rfl⟩

theorem visitAll_goes_on {β ε : Type} {f : Int → β → Except ε β} (goes : ∀ k v, ∃ v', f k v = .ok v')
    (m : Std.TreeMap Int β) : ∃ m', visitAll f m = .ok m' := by
  have visit : ∀ key ∈ m.keys, ∀ s : Std.TreeMap Int β, True → ∃ s', visitKey f s key = .ok s' ∧ True := by
    intro key _ s _
    unfold visitKey
    split
    · exact ⟨_, rfl, trivial⟩
    · rename_i v _
      obtain ⟨v', applied⟩ := goes key v
      exact ⟨_, bind_eq_ok.mpr ⟨v', applied, rfl⟩, trivial⟩
  obtain ⟨m', run, _⟩ := Run.exists_of_progress visit trivial
  exact ⟨m', Run.foldlM_iff.mpr run⟩

/-- After the monitors there is a usage for every CPU. -/
theorem monitor_goes_on (sturdy : Sturdy conf cpuNumber nuiod) {env : MonitorEnv}
    (stat : statLines env.procStat = cpuNumber + 1)
    (perf : ∀ id, ∃ text, env.perfOutput id = some text ∧
      ∀ line ∈ fgets perfBufSize text, HasLetters line) :
    ∃ nuiod', nuiod.monitor env = .ok nuiod' ∧ Sturdy conf cpuNumber nuiod' ∧
      nuiod'.cpuUsage.length = cpuNumber + 1 := by
  obtain ⟨stats, present, size⟩ := sturdy.lines
  obtain ⟨vms, visited⟩ := visitAll_goes_on (perfVm_goes_on perf) (monitorIo env nuiod.vmInfosMap)
  cases file : env.procStat with
  | none =>
      rw [file] at stat
      cases stat
  | some lines =>
      have count : lines.length = cpuNumber + 1 := by
        rw [← stat, file]
        rfl
      obtain ⟨⟨stats', usage⟩, read⟩ :=
        @exists_usageLines D _ nuiod.cpuMonitor.cpuNumber 0 lines stats [] (by omega)
      have measured : getCpuUsage nuiod.cpuMonitor env.procStat nuiod.cpuUsage =
          .ok (0, { nuiod.cpuMonitor with cpuStatArray := some stats' }, usage) := by
        simp only [getCpuUsage, present, file]
        exact bind_eq_ok.mpr ⟨(stats', usage), read, rfl⟩
      have done : nuiod.monitor env = .ok { nuiod with
          vmInfosMap := vms
          cpuMonitor := { nuiod.cpuMonitor with cpuStatArray := some stats' }
          cpuUsage := usage } :=
        bind_eq_ok.mpr ⟨_, measured, bind_eq_ok.mpr ⟨vms, visited, rfl⟩⟩
      have monitored := monitor_spec done
      have reads := usageLines_spec read
      have length : usage.length = cpuNumber + 1 := by
        rw [reads.length, List.length_nil, count]
        omega
      have housed : ∀ (id : Int) (vm' : VmInfo D), vms[id]? = some vm' → Housed conf cpuNumber vm' := by
        intro id vm' found'
        obtain ⟨vm, found, same⟩ := monitored.source found'
        have old := sturdy.housed id vm found
        exact ⟨by rw [same.realCpuNo]; exact old.place, by rw [same.memMainNodeId]; exact old.home⟩
      have agree : KeysAgree vms := fun id vm' found' => by
        obtain ⟨vm, found, same⟩ := monitored.source found'
        exact same.domId.trans (sturdy.agree id vm found)
      exact ⟨_, done, ⟨sturdy.config, sturdy.number, agree, ⟨⟨sturdy.topology.numaNodes_length,
        sturdy.topology.lat_covers, sturdy.topology.lat_valid⟩, sturdy.topology.netdev_nonneg,
        sturdy.topology.netdev_lt⟩, sturdy.nodeCpus, ⟨stats', rfl, reads.lengthStats.trans size⟩,
        housed⟩, length⟩

/-! ### The decisions -/

theorem schedule_goes_on (sturdy : Sturdy conf cpuNumber nuiod)
    (usage : nuiod.cpuUsage.length = cpuNumber + 1) (env : StrategyEnv D) :
    ∃ acts, nuiod.scheduleActs env = .ok acts ∧
      ∀ act ∈ acts, 0 ≤ act.cpuNodeId ∧ act.cpuNodeId < nuiod.numaNumber := by
  have number : nuiod.numaNumber = conf.numaNumber := congrArg DomainConf.numaNumber sturdy.config
  have each : ∀ vm ∈ nuiod.vmInfosMap.values, Housed conf cpuNumber vm := by
    intro vm mem
    obtain ⟨id, found⟩ := mem_values.mp mem
    exact sturdy.housed id vm found
  have length : nuiod.scheduleArgs.cpuUsage.length = cpuNumber + 1 := usage
  have inBounds : InBounds nuiod.strategy nuiod.scheduleArgs env.vmStateSlot := by
    refine ⟨fun node mem cpu here => ?_, fun vm mem => vecAtInt_isOk.mpr ?_, fun vm mem => ?_,
      .inl ⟨sturdy.topology.netdev_nonneg, sturdy.topology.netdev_lt⟩⟩
    · have small := sturdy.nodeCpus node mem cpu here
      omega
    · have place := (each vm mem).place
      omega
    · have home := (each vm ((scheduledFrom_sublist nuiod.scheduleArgs env.vmStateSlot 0 _).subset
        mem)).home
      rw [← number] at home
      exact home
  obtain ⟨acts, decided⟩ := (schedule_inBounds nuiod.strategy sturdy.topology.toLatencies sturdy.agree
    env.vmStateSlot).2.mpr inBounds env.ties
  obtain ⟨_, _, analyzed⟩ := bind_eq_ok.mp decided
  obtain ⟨_, within⟩ := analyze_domId sturdy.topology sturdy.agree analyzed
  exact ⟨acts, decided, fun act mem => ⟨(within act mem).1, (within act mem).2.1⟩⟩

/-- The lists that the decisions choose from are there, and hold CPUs of the machine. -/
theorem lists_go_on (sturdy : Sturdy conf cpuNumber nuiod) (sort : CpuSort D) :
    ∃ lists, nuiod.nodeSortedCpuList sort = .ok lists ∧
      ∀ node : Int, 0 ≤ node → node < nuiod.numaNumber →
        ∃ cpus, vecAtInt lists node = .ok cpus ∧ ∀ p ∈ cpus, p.1 < cpuNumber := by
  obtain ⟨lists, sorted, listed⟩ := nodeSortedCpuList_spec sort sturdy.topology.numaNodes_length
  refine ⟨lists, sorted, fun i nonneg upper => ?_⟩
  obtain ⟨node, found, here⟩ := listed i.toNat (by omega)
  refine ⟨_, vecAtInt_eq_ok.mpr ⟨nonneg, here⟩, fun p mem => ?_⟩
  have onNode := (mem_cpuList.mp (UnstableSort.mem_order.mp mem)).1
  exact sturdy.nodeCpus node (List.mem_of_getElem? found) p.1 onNode

/-- One decision for a VM that is there. -/
theorem act_goes_on (sturdy : Sturdy conf cpuNumber nuiod) {lists : List (List (Nat × D))}
    {env : PinEnv D} {entry : Decision × Nat} (tracked : entry.1.domId ∈ nuiod.vmInfosMap)
    (listed : ∃ cpus, vecAtInt lists entry.1.cpuNodeId = .ok cpus ∧ ∀ p ∈ cpus, p.1 < cpuNumber) :
    ∃ nuiod', performAct lists env nuiod entry = .ok nuiod' ∧ Sturdy conf cpuNumber nuiod' := by
  obtain ⟨cpus, listed, small⟩ := listed
  have inMap : ∀ p ∈ cpus, p.1 / 8 < nuiod.cpuNumber / 8 + 1 := by
    intro p mem
    have inRange := small p mem
    rw [sturdy.number]
    omega
  obtain ⟨nuiod', performed⟩ := exists_performAct env tracked listed inMap
  have same : ∀ x : Int, (nuiod.touched env entry).vmInfosMap[x]? = nuiod.vmInfosMap[x]? :=
    touched_tracked tracked
  have left : Sturdy conf cpuNumber (nuiod.touched env entry) :=
    sturdy.with_vms ⟨rfl, rfl, rfl, rfl⟩ rfl rfl
      (fun x vm' found' => sturdy.agree x vm' ((same x).symm.trans found'))
      (fun x vm' found' => sturdy.housed x vm' ((same x).symm.trans found'))
  refine ⟨nuiod', performed, ?_⟩
  rcases performAct_spec performed with ⟨vm, cpu, pins, rfl⟩ | ⟨_, rfl⟩
  · obtain ⟨cpus', listed', target⟩ := pins.target
    obtain rfl : cpus = cpus' := Except.ok.inj (listed.symm.trans listed')
    obtain ⟨p, mem, rfl⟩ := mem_of_targetCpuno target
    have inRange := small p mem
    exact left.change ((same _).trans pins.tracked) (by omega)
  · exact left

/-- The decisions of the strategy can be performed. -/
theorem decide_goes_on (sturdy : Sturdy conf cpuNumber nuiod)
    (usage : nuiod.cpuUsage.length = cpuNumber + 1) (env : StrategyEnv D) :
    ∃ nuiod', nuiod.step (.decide env) = .ok nuiod' ∧ Sturdy conf cpuNumber nuiod' := by
  obtain ⟨acts, decided, inRange⟩ := schedule_goes_on sturdy usage env
  obtain ⟨lists, sorted, listed⟩ := lists_go_on sturdy env.sort
  have tracked := scheduleActs_tracked sturdy.agree decided
  have act : ∀ entry ∈ acts.zipIdx, ∀ s : Nuiod D, Sturdy conf cpuNumber s →
      entry.1.domId ∈ s.vmInfosMap →
      ∃ s', performAct lists env.pins s entry = .ok s' ∧ Sturdy conf cpuNumber s' := by
    intro entry mem s sturdy here
    obtain ⟨nonneg, upper⟩ := inRange entry.1 (List.fst_mem_of_mem_zipIdx mem)
    exact act_goes_on sturdy here (listed _ nonneg upper)
  obtain ⟨nuiod', run, sturdy'⟩ := performs_of_progress act sturdy fun entry mem =>
    tracked entry.1 (List.fst_mem_of_mem_zipIdx mem)
  have performed : nuiod.perform acts env.sort env.pins = .ok nuiod' :=
    bind_eq_ok.mpr ⟨lists, sorted, Run.foldlM_iff.mpr run⟩
  exact ⟨nuiod', bind_eq_ok.mpr ⟨acts, decided, performed⟩, sturdy'⟩

/-! ### Rounds -/

theorem round_goes_on (sturdy : Sturdy conf cpuNumber nuiod) {round : Round D}
    (tolerable : Tolerable conf cpuNumber round) :
    ∃ nuiod', nuiod.round round = .ok nuiod' ∧ Sturdy conf cpuNumber nuiod' := by
  have event : ∀ e ∈ round.events, ∀ s : Nuiod D, Sturdy conf cpuNumber s →
      ∃ s', s.step (.event e.1 e.2) = .ok s' ∧ Sturdy conf cpuNumber s' :=
    fun e mem _ sturdy => event_goes_on sturdy (tolerable.starts e mem)
  obtain ⟨known, events, sturdy⟩ := Run.exists_of_progress event sturdy
  obtain ⟨fresh, refreshed, sturdy⟩ := refresh_goes_on sturdy tolerable.report
  obtain ⟨measured, monitored, sturdy, usage⟩ :=
    monitor_goes_on sturdy tolerable.stat tolerable.perf
  obtain ⟨final, decided, sturdy⟩ := decide_goes_on sturdy usage round.strategy
  have measuring := measuring_eq_ok.mpr
    ⟨known, fresh, Run.foldlM_iff.mpr events, refreshed, monitored⟩
  have whole := (Run.foldlM_iff.mp measuring).append (.single trivial decided)
  exact ⟨final, Run.foldlM_iff.mpr whole, sturdy⟩

/-- What `init` leaves is sturdy. -/
theorem sturdy_of_init {strategy : SimpleStrategy} {machine : Machine D}
    (roomy : Roomy conf cpuNumber machine)
    (booted : (Nuiod.new conf cpuNumber strategy).init machine = .ok (0, nuiod)) :
    Sturdy conf cpuNumber nuiod := by
  have agree := keysAgree_of_init booted
  have ready := ready_of_init booted
  cases init_spec booted with
  | @ready added monitor netdev nodes listed monitoring slot numa =>
      obtain ⟨_, _, config, number, housed⟩ := initVminfo_invariant
        (fun _ s => s.toDomainConf = conf ∧ s.cpuNumber = cpuNumber ∧
          ∀ (id : Int) (vm : VmInfo D), s.vmInfosMap[id]? = some vm → Housed conf cpuNumber vm)
        (fun done s domId flag s' later kept addition => by
          obtain ⟨config, number, housed⟩ := kept
          obtain ⟨vm, filled, rfl⟩ := addVm_spec addition
          rw [config] at filled
          have known := later.subset (List.mem_append_right done List.mem_cons_self)
          exact ⟨config, number,
            forall_insert housed (filled.housed (roomy.listed domId known))⟩)
        ⟨rfl, rfl, fun id vm found => by simp [Nuiod.new] at found⟩ listed
      obtain ⟨nonneg, upper⟩ := roomy.netdev netdev slot
      have nodeCpus : ∀ node ∈ nodes, ∀ cpu ∈ node.cpuIds, cpu < cpuNumber := by
        intro node mem
        obtain ⟨i, inRange, made⟩ := (mapM_eq_some numa).2 node mem
        obtain ⟨cpus, found, made⟩ := Option.bind_eq_some_iff.mp made
        cases made
        exact roomy.cpus i (List.mem_range.mp inRange) cpus found
      refine ⟨config, number, agree, ⟨ready.latencies, nonneg, ?_⟩, nodeCpus, ?_, housed⟩
      · simp only [scheduleArgs, config]
        exact upper
      · unfold initCpuMonitor at monitoring
        cases file : machine.procStat with
        | none =>
            rw [file] at monitoring
            cases monitoring
        | some lines =>
            rw [file] at monitoring
            obtain ⟨stats, read, made⟩ := bind_eq_ok.mp monitoring
            cases made
            refine ⟨stats, rfl, (initLines_spec read).1.trans ?_⟩
            rw [List.length_map, List.length_range]
            rfl

/-- A daemon that could start goes through any number of rounds in a world that is tolerable,
whatever its measurements and the strategy's decisions. -/
theorem rounds_go_on {strategy : SimpleStrategy} {machine : Machine D}
    (booted : (Nuiod.new conf cpuNumber strategy).init machine = .ok (0, nuiod))
    (roomy : Roomy conf cpuNumber machine) {rounds : List (Round D)}
    (tolerable : ∀ round ∈ rounds, Tolerable conf cpuNumber round) :
    ∃ final, Run Nuiod.round Anything nuiod rounds final ∧ Sturdy conf cpuNumber final :=
  Run.exists_of_progress (fun round mem _ sturdy => round_goes_on sturdy (tolerable round mem))
    (sturdy_of_init roomy booted)

theorem guest_welcome {vcpu : Option Int} (known : -1 ≤ vcpu.getD (-1) ∧ vcpu.getD (-1) < 4) :
    Welcome smallNuiod.toDomainConf 4 (guest vcpu) := by
  have distr : getProcMemNumaDistribution 2 (some "N0=5".toList) [] = .ok (0, [5, 0]) := by
    decide +kernel
  refine ⟨⟨Option.some_ne_none _, Option.some_ne_none _, ⟨_, distr⟩, ⟨some 3, ?_⟩⟩, known, ?_⟩
  · simp only [vfFound, guest]
    decide +kernel
  · intro ret pages read
    obtain ⟨-, rfl⟩ := Prod.mk.inj (Except.ok.inj (distr.symm.trans read))
    exact ⟨5, List.mem_cons_self, by decide⟩

/-- One domain starts, another one stops, the first has moved, and perf counts cycles. -/
def livelyRound : Round ℚ where
  events := [(⟨.started, 3, guest (some 1)⟩, zeroed), (⟨.stopped, 2, guest none⟩, zeroed)]
  report id := if id = 1 then some 3 else none
  monitor := { statOnly (evenStat 200) with
    perfOutput := fun _ => some "250,,cycles,100,100.00\n".toList }
  strategy := plainStrategy

theorem livelyRound_tolerable : Tolerable smallNuiod.toDomainConf 4 livelyRound := by
  refine ⟨fun e mem isStarted => ?_, fun id cpu reported => ?_, by decide, fun id => ⟨_, rfl, ?_⟩⟩
  · simp only [livelyRound, List.mem_cons, List.not_mem_nil, or_false] at mem
    rcases mem with rfl | rfl
    · exact guest_welcome (by decide)
    · cases isStarted
  · simp only [livelyRound] at reported
    split at reported
    · cases reported
      decide
    · cases reported
  · have one : fgets perfBufSize "250,,cycles,100,100.00\n".toList
        = ["250,,cycles,100,100.00\n".toList] := by decide +kernel
    rw [one]
    intro line mem
    obtain rfl := List.mem_singleton.mp mem
    exact chosen_ne_error_iff.mp (by decide +kernel)

/-- The same events come again in the second round. -/
theorem rounds_go_on_livelyRound : ∃ nuiod final : Nuiod ℚ,
    smallNuiod.init (smallMachine [(1, 2), (2, 0)]) = .ok (0, nuiod) ∧
      Run Nuiod.round Anything nuiod [livelyRound, livelyRound] final ∧
      Sturdy smallNuiod.toDomainConf 4 final := by
  obtain ⟨nuiod, _, booted, _⟩ := exists_run Nuiod.round []
    (smallNuiod.init (smallMachine [(1, 2), (2, 0)])) (fun _ => true) (by decide +kernel)
  have roomy : Roomy smallNuiod.toDomainConf 4 (smallMachine [(1, 2), (2, 0)]) := by
    refine ⟨fun id mem => ?_, fun node read => ?_, fun i inRange cpus listed cpu mem => ?_⟩
    · obtain rfl | rfl : id = 1 ∨ id = 2 := by simpa [smallMachine] using mem
      · exact guest_welcome (by decide)
      · exact guest_welcome (by decide)
    · obtain rfl : 0 = node := Option.some.inj
        ((show (some "0".toList).bind scanInt = some 0 by decide +kernel).symm.trans read)
      decide
    · cases listed
      have two : i < 2 := inRange
      rcases List.mem_pair.mp mem with rfl | rfl <;> omega
  obtain ⟨final, run, sturdy⟩ := @rounds_go_on ℚ _ smallNuiod.toDomainConf 4 nuiod {} _ booted roomy
    [livelyRound, livelyRound] (by simpa using livelyRound_tolerable)
  exact ⟨nuiod, final, booted, run, sturdy⟩

end VNams.Nuiod
