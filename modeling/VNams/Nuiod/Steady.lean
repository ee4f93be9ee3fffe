import VNams.Nuiod.Bounds
import VNams.Nuiod.Repeats
import VNams.Strategy.Sight

/-!
A machine that keeps its load.

The decisions of a round depend on where the VMs have their memory and on what the strategy
makes of their rates and usages, not on where they run. So rounds that look alike
(`Resembles`) decide alike, and the CPU maps come to rest on these decisions: each round is a
pass over them (`steady_round`). `steady_rounds_settle` is the whole of it, from the
measurements to the placement. What the VMs are that nobody decides about does not matter:
idle ones stay where they are.
-/

namespace VNams.Nuiod

open Lib Monitor Strategy

variable {D : Type} [Double D]

/-- What the strategy is shown. -/
def shown (nuiod : Nuiod D) (env : StrategyEnv D) : List Sight :=
  sights nuiod.strategy nuiod.scheduleArgs env.vmStateSlot

/-- A round from `nuiod` that looks like `first` did when it had measured `m`: no VM comes or
goes, libvirt reports the CPUs that the VMs are pinned to, and the measurements show the
strategy the same. -/
structure Resembles (m : Nuiod D) (first : Round D) (nuiod : Nuiod D) (round : Round D) : Prop where
  quiet : round.events = []
  reported : ∀ (id : Int) (vm : VmInfo D) (cpu : Int), nuiod.vmInfosMap[id]? = some vm →
    round.report id = some cpu → cpu = -1 ∨ cpu = vm.realCpuNo
  shown : ∀ m', nuiod.monitor round.monitor = .ok m' →
    m'.shown round.strategy = m.shown first.strategy
  ties : round.strategy.ties = first.strategy.ties
  pins : PinsSucceed nuiod round.strategy.pins

/-- What a round decides, once it has measured. -/
def roundActs (nuiod : Nuiod D) (round : Round D) : Except Fault (List Decision) := do
  let measured ← round.measuring.foldlM step nuiod
  measured.scheduleActs round.strategy

variable {nuiod nuiod' m : Nuiod D} {first round : Round D} {acts : List Decision}

/-! ### The measuring part of a round -/

/-- The measuring part, operation by operation. -/
theorem measuring_eq_ok {measured : Nuiod D} :
    round.measuring.foldlM step nuiod = .ok measured ↔ ∃ known refreshed,
      round.events.foldlM (fun (s : Nuiod D) e => s.step (.event e.1 e.2)) nuiod = .ok known ∧
      known.refreshCpuMapping round.report = .ok refreshed ∧
      refreshed.monitor round.monitor = .ok measured := by
  rw [Round.measuring, List.foldlM_append, List.foldlM_map, bind_eq_ok]
  simp only [List.foldlM_cons, List.foldlM_nil, bind_eq_ok]
  constructor
  · rintro ⟨known, events, refreshed, refreshes, _, monitors, last⟩
    cases last
    exact ⟨known, refreshed, events, refreshes, monitors⟩
  · rintro ⟨known, refreshed, events, refreshes, monitors⟩
    exact ⟨known, events, refreshed, refreshes, measured, monitors, rfl⟩

/-- A round in which no VM comes or goes, operation by operation. -/
theorem round_eq_ok (quiet : round.events = []) :
    nuiod.round round = .ok nuiod' ↔ ∃ refreshed measured acts,
      nuiod.refreshCpuMapping round.report = .ok refreshed ∧
      refreshed.monitor round.monitor = .ok measured ∧
      measured.scheduleActs round.strategy = .ok acts ∧
      measured.perform acts round.strategy.sort round.strategy.pins = .ok nuiod' := by
  rw [Nuiod.round, Round.ops, List.foldlM_append, bind_eq_ok]
  simp only [measuring_eq_ok, quiet, List.foldlM_cons, List.foldlM_nil, bind_eq_ok]
  constructor
  · rintro ⟨measured, ⟨_, refreshed, none, refreshes, monitors⟩, _, decides, last⟩
    obtain ⟨acts, decided, performs⟩ := bind_eq_ok.mp decides
    cases none
    cases last
    exact ⟨refreshed, measured, acts, refreshes, monitors, decided, performs⟩
  · rintro ⟨refreshed, measured, acts, refreshes, monitors, decided, performs⟩
    exact ⟨measured, ⟨nuiod, refreshed, rfl, refreshes, monitors⟩, nuiod',
      bind_eq_ok.mpr ⟨acts, decided, performs⟩, rfl⟩

omit [Double D] in
theorem exists_refreshVm (report : Int → Option Int) (nuiod : Nuiod D) (key : Int) :
    ∃ nuiod', refreshVm report nuiod key = .ok nuiod' := by
  unfold refreshVm
  split
  · exact ⟨_, rfl⟩
  · dsimp only
    split
    · exact ⟨_, rfl⟩
    · exact ⟨_, rfl⟩

omit [Double D] in
/-- Without a VM that left its CPU there is nothing to refresh. -/
theorem refresh_quiet {report : Int → Option Int}
    (stay : ∀ key vm cpu, ¬ Relocates nuiod report key vm cpu) :
    nuiod.refreshCpuMapping report = .ok nuiod := by
  have one : ∀ key : Int, refreshVm report nuiod key = .ok nuiod := by
    intro key
    obtain ⟨mid, visited⟩ := exists_refreshVm report nuiod key
    rcases refreshVm_spec visited with ⟨vm, cpu, relocates, _⟩ | ⟨_, rfl⟩
    · exact absurd relocates (stay key vm cpu)
    · exact visited
  have visit : ∀ keys : List Int, keys.foldlM (refreshVm report) nuiod = .ok nuiod := by
    intro keys
    induction keys with
    | nil => rfl
    | cons key keys ih =>
        rw [List.foldlM_cons, one key]
        exact ih
  exact visit _

/-- Monitoring moves no VM. -/
theorem Monitored.recordedCpu_eq {env : MonitorEnv} (monitored : Monitored nuiod env nuiod') :
    nuiod'.recordedCpu = nuiod.recordedCpu := by
  funext id
  cases found : nuiod.vmInfosMap[id]? with
  | none => rw [recordedCpu, recordedCpu, found, monitored.absent id found]
  | some vm =>
      obtain ⟨vm', found', sampled⟩ := monitored.sampled id vm found
      rw [recordedCpu, recordedCpu, found, found', Option.map_some, Option.map_some,
        sampled.same.realCpuNo]

/-- What monitoring finds under an id. -/
theorem Monitored.source {env : MonitorEnv} (monitored : Monitored nuiod env nuiod') {id : Int}
    {vm' : VmInfo D} (found' : nuiod'.vmInfosMap[id]? = some vm') :
    ∃ vm, nuiod.vmInfosMap[id]? = some vm ∧ SameVm vm vm' := by
  cases found : nuiod.vmInfosMap[id]? with
  | none => cases (monitored.absent id found).symm.trans found'
  | some vm =>
      obtain ⟨vm'', found'', sampled⟩ := monitored.sampled id vm found
      cases found''.symm.trans found'
      exact ⟨vm, rfl, sampled.same⟩

theorem Monitored.mem_iff {env : MonitorEnv} (monitored : Monitored nuiod env nuiod') (id : Int) :
    id ∈ nuiod'.vmInfosMap ↔ id ∈ nuiod.vmInfosMap := by
  rw [mem_iff_getElem?, mem_iff_getElem?]
  constructor
  · rintro ⟨vm', found'⟩
    obtain ⟨vm, found, _⟩ := monitored.source found'
    exact ⟨vm, found⟩
  · rintro ⟨vm, found⟩
    obtain ⟨vm', found', _⟩ := monitored.sampled id vm found
    exact ⟨vm', found'⟩

theorem Monitored.nodeCpus_eq {env : MonitorEnv} (monitored : Monitored nuiod env nuiod') :
    nuiod'.nodeCpus = nuiod.nodeCpus := by
  funext node
  rw [monitored.rest]
  rfl

theorem Monitored.lodging_eq {env : MonitorEnv} (monitored : Monitored nuiod env nuiod') :
    nuiod'.lodging = nuiod.lodging := by
  have vacant : nuiod'.vacant = nuiod.vacant := by
    rw [Nuiod.vacant, monitored.nodeCpus_eq, monitored.rest]
    rfl
  have rooms : nuiod'.nodeOf = nuiod.nodeOf := by
    funext id
    rw [nodeOf, monitored.recordedCpu_eq, monitored.rest]
    rfl
  rw [lodging, lodging, vacant, rooms]

theorem Placed.monitored {env : MonitorEnv} (placed : Placed nuiod)
    (monitored : Monitored nuiod env nuiod') : Placed nuiod' where
  agree id vm' found' := by
    obtain ⟨vm, found, same⟩ := monitored.source found'
    exact same.domId.trans (placed.agree id vm found)
  inverse c id := by
    have cpus : nuiod'.cpuVmMapping = nuiod.cpuVmMapping := by rw [monitored.rest]
    rw [cpus, monitored.recordedCpu_eq]
    exact placed.inverse c id
  mapped node cpu here := by
    have nodes : nuiod'.cpuNodeMapping = nuiod.cpuNodeMapping := by rw [monitored.rest]
    rw [monitored.nodeCpus_eq] at here
    rw [nodes]
    exact placed.mapped node cpu here
  onNode id c sits := by
    rw [monitored.recordedCpu_eq] at sits
    rw [monitored.nodeCpus_eq]
    exact placed.onNode id c sits

theorem PinsSucceed.monitored {env : MonitorEnv} {pins : PinEnv D} (succeed : PinsSucceed nuiod pins)
    (monitored : Monitored nuiod env nuiod') : PinsSucceed nuiod' pins := by
  intro id vm' found' node cpu here k
  obtain ⟨vm, found, same⟩ := monitored.source found'
  have number : nuiod'.cpuNumber = nuiod.cpuNumber := by rw [monitored.rest]
  rw [monitored.nodeCpus_eq] at here
  rw [number, same.domPtr]
  exact succeed id vm found node cpu here k

/-- The members that nothing writes. -/
theorem Monitored.sameMachine {env : MonitorEnv} (monitored : Monitored nuiod env nuiod') :
    SameMachine nuiod nuiod' := by
  rw [monitored.rest]
  exact ⟨rfl, rfl, rfl, rfl⟩

/-! ### The decisions -/

/-- Rounds that show the strategy the same decide the same. -/
theorem scheduleActs_of_shown {m' : Nuiod D} {env env' : StrategyEnv D} {acts' : List Decision}
    (same : SameMachine m m') (agree : KeysAgree m.vmInfosMap) (agree' : KeysAgree m'.vmInfosMap)
    (shown : m'.shown env' = m.shown env) (ties : env'.ties = env.ties)
    (decided : m.scheduleActs env = .ok acts) (decided' : m'.scheduleActs env' = .ok acts') :
    acts' = acts := by
  obtain ⟨_, _, analyzed⟩ := bind_eq_ok.mp decided
  obtain ⟨_, _, analyzed'⟩ := bind_eq_ok.mp decided'
  have args : m'.scheduleArgs = { m.scheduleArgs with
      vmInfosMap := m'.vmInfosMap, cpuUsage := m'.cpuUsage } := by
    simp only [scheduleArgs, same.numaNodes, same.conf, same.netdevNumanode]
  rw [Nuiod.shown, Nuiod.shown, args, same.strategy] at shown
  rw [args, same.strategy, ties, analyze_sights agree agree' shown] at analyzed'
  exact Except.ok.inj (analyzed'.symm.trans analyzed)

/-- `schedule` has read the usage of every CPU of the nodes. -/
theorem covered_of_scheduleActs {env : StrategyEnv D} (nodes : nuiod.numaNodes.length = nuiod.numaNumber)
    (decided : nuiod.scheduleActs env = .ok acts) {node : Int} {cpu : Nat}
    (here : cpu ∈ nuiod.nodeCpus node) : cpu + 1 < nuiod.cpuUsage.length := by
  obtain ⟨totals, logged, _⟩ := bind_eq_ok.mp decided
  unfold nodeCpus at here
  cases read : vecAtInt nuiod.numaNodes node with
  | error e =>
      rw [read] at here
      cases here
  | ok info =>
      rw [read, List.mem_toFinset] at here
      obtain ⟨nonneg, found⟩ := vecAtInt_eq_ok.mp read
      have inRange := (List.getElem?_eq_some_iff.mp found).1
      rw [nodes] at inRange
      obtain ⟨total, summed⟩ := Meets.mapM_isOk.mp ⟨totals, logged⟩ node.toNat
        (List.mem_range.mpr inRange)
      simp only [scheduleArgs, vecAt_eq_ok.mpr found] at summed
      exact nodeTotalCpuUsage_isOk.mp ⟨total, summed⟩ cpu here

omit [Double D] in
theorem SameMachine.topology (same : SameMachine m nuiod) (topo : m.scheduleArgs.Topology) :
    nuiod.scheduleArgs.Topology := by
  obtain ⟨lats, nonneg, upper⟩ := topo
  refine ⟨same.latencies lats, ?_, ?_⟩
  · simpa only [scheduleArgs, same.netdevNumanode] using nonneg
  · simpa only [scheduleArgs, same.netdevNumanode, same.conf] using upper

/-- What the strategy decides can be performed. -/
theorem performable_of_decided {env : StrategyEnv D} (topo : nuiod.scheduleArgs.Topology)
    (agree : KeysAgree nuiod.vmInfosMap) (decided : nuiod.scheduleActs env = .ok acts) :
    Performable nuiod acts := by
  obtain ⟨_, _, analyzed⟩ := bind_eq_ok.mp decided
  obtain ⟨perm, within⟩ := analyze_domId topo agree analyzed
  have ids : KeysAgree nuiod.scheduleArgs.vmInfosMap := agree
  refine ⟨perm.nodup_iff.mpr (scheduledIds_nodup ids _), fun act mem => ?_, topo.numaNodes_length,
    fun act mem => ⟨(within act mem).1, (within act mem).2.1⟩,
    fun node cpu here => covered_of_scheduleActs topo.numaNodes_length decided here⟩
  obtain ⟨vm, present, _⟩ := scheduledIds_known ids _ act.domId
    (perm.mem_iff.mp (List.mem_map_of_mem mem))
  exact mem_iff_getElem?.mpr ⟨vm, present⟩

/-! ### A round -/

/-- What holds between rounds that look like the first one. -/
structure Steady (m : Nuiod D) (acts : List Decision) (nuiod : Nuiod D) : Prop where
  placed : Placed nuiod
  sameMachine : SameMachine m nuiod
  named : ∀ act ∈ acts, act.domId ∈ nuiod.vmInfosMap

/-- What such a round leaves. -/
structure Steadied (m : Nuiod D) (acts : List Decision) (round : Round D) (nuiod nuiod' : Nuiod D) :
    Prop extends Steady m acts nuiod' where
  decides : nuiod.roundActs round = .ok acts
  sameCpus : nuiod'.nodeCpus = nuiod.nodeCpus
  lodging_eq : nuiod'.lodging = pass (acts.map wish) nuiod.lodging
  others : ∀ id ∉ acts.map Decision.domId, nuiod'.recordedCpu id = nuiod.recordedCpu id
  rest : (∀ act ∈ acts, AtRest nuiod.lodging (wish act)) →
    nuiod'.recordedCpu = nuiod.recordedCpu ∧ nuiod'.cpuVmMapping = nuiod.cpuVmMapping

/-- Such a round is a pass over the decisions. -/
theorem steady_round (topo : m.scheduleArgs.Topology) (agree : KeysAgree m.vmInfosMap)
    (decided : m.scheduleActs first.strategy = .ok acts) (steady : Steady m acts nuiod)
    (resembles : Resembles m first nuiod round) (done : nuiod.round round = .ok nuiod') :
    Steadied m acts round nuiod nuiod' := by
  obtain ⟨refreshed, m', acts', refreshes, monitors, decided', performs⟩ :=
    (round_eq_ok resembles.quiet).mp done
  have quiet := refresh_quiet fun key vm cpu relocates => by
    rcases resembles.reported key vm cpu relocates.tracked relocates.reported with unknown | stays
    · exact relocates.known unknown
    · exact relocates.elsewhere stays
  obtain rfl : refreshed = nuiod := Except.ok.inj (refreshes.symm.trans quiet)
  have monitored := monitor_spec monitors
  have placed' := steady.placed.monitored monitored
  have same' := steady.sameMachine.trans monitored.sameMachine
  have shown := resembles.shown m' monitors
  obtain rfl : acts' = acts :=
    scheduleActs_of_shown same' agree placed'.agree shown resembles.ties decided decided'
  have performable' := performable_of_decided (same'.topology topo) placed'.agree decided'
  obtain ⟨final, performed', passed⟩ := perform_passed round.strategy.sort placed' performable'
    (resembles.pins.monitored monitored)
  obtain rfl : nuiod' = final := Except.ok.inj (performs.symm.trans performed')
  have keeps : Keeps m' nuiod' := @step_keeps D _ m' nuiod' (.decide round.strategy)
    placed'.agree trivial trivial (bind_eq_ok.mpr ⟨_, decided', performs⟩)
  have measures : round.measuring.foldlM step refreshed = .ok m' :=
    measuring_eq_ok.mpr ⟨refreshed, refreshed, by rw [resembles.quiet]; rfl, refreshes, monitors⟩
  exact {
    placed := passed.placed
    sameMachine := same'.trans keeps.toSameMachine
    decides := bind_eq_ok.mpr ⟨m', measures, decided'⟩
    named := (passed.performable _ performable').named
    sameCpus := passed.sameCpus.trans monitored.nodeCpus_eq
    lodging_eq := by rw [passed.lodging_eq, monitored.lodging_eq]
    others := fun id unnamed => by rw [passed.others id unnamed, monitored.recordedCpu_eq]
    rest := fun rest => by
      obtain ⟨again, performed'', sameMaps⟩ := perform_rest round.strategy.sort round.strategy.pins
        placed' performable' fun act mem => by
          rw [monitored.lodging_eq]
          exact rest act mem
      obtain rfl : nuiod' = again := Except.ok.inj (performs.symm.trans performed'')
      have cpus : m'.cpuVmMapping = refreshed.cpuVmMapping := by rw [monitored.rest]
      refine ⟨?_, sameMaps.cpus.trans cpus⟩
      rw [← monitored.recordedCpu_eq]
      funext id
      rw [recordedCpu, recordedCpu, sameMaps.vms] }

/-- The rounds of a run that decide `acts`. -/
abbrev DecidingRun (acts : List Decision) : Nuiod D → List (Round D) → Nuiod D → Prop :=
  Run Nuiod.round fun nuiod round => nuiod.roundActs round = .ok acts

/-- Rounds that look like the first one are passes, one after the other. -/
theorem steady_rounds (topo : m.scheduleArgs.Topology) (agree : KeysAgree m.vmInfosMap)
    (decided : m.scheduleActs first.strategy = .ok acts) {rounds : List (Round D)}
    (run : Run Nuiod.round (Resembles m first) nuiod rounds nuiod') (steady : Steady m acts nuiod) :
    Steady m acts nuiod' ∧ DecidingRun acts nuiod rounds nuiod' ∧ nuiod'.nodeCpus = nuiod.nodeCpus ∧
      nuiod'.lodging = (pass (acts.map wish))^[rounds.length] nuiod.lodging ∧
      ∀ id ∉ acts.map Decision.domId, nuiod'.recordedCpu id = nuiod.recordedCpu id := by
  induction run with
  | nil => exact ⟨steady, .nil _, rfl, rfl, fun _ _ => rfl⟩
  | cons resembles done _ ih =>
      have steadied := steady_round topo agree decided steady resembles done
      obtain ⟨steady', decides, sameCpus, lodging, others⟩ := ih steadied.toSteady
      refine ⟨steady', .cons steadied.decides done decides, sameCpus.trans steadied.sameCpus, ?_,
        fun id unnamed => (others id unnamed).trans (steadied.others id unnamed)⟩
      rw [lodging, steadied.lodging_eq, List.length_cons, Function.iterate_succ_apply]

/-- At rest they change nothing. -/
theorem steady_rounds_rest (topo : m.scheduleArgs.Topology) (agree : KeysAgree m.vmInfosMap)
    (decided : m.scheduleActs first.strategy = .ok acts) {rounds : List (Round D)}
    (run : Run Nuiod.round (Resembles m first) nuiod rounds nuiod') (steady : Steady m acts nuiod)
    (rest : ∀ act ∈ acts, AtRest nuiod.lodging (wish act)) :
    nuiod'.recordedCpu = nuiod.recordedCpu ∧ nuiod'.cpuVmMapping = nuiod.cpuVmMapping := by
  induction run with
  | nil => exact ⟨rfl, rfl⟩
  | @cons nuiod mid _ _ _ resembles done _ ih =>
      have steadied := steady_round topo agree decided steady resembles done
      obtain ⟨sameSeats, sameCpus⟩ := steadied.rest rest
      have stays : mid.lodging = nuiod.lodging := by
        rw [steadied.lodging_eq]
        apply pass_of_atRest
        intro w mem
        obtain ⟨act, mem', rfl⟩ := List.mem_map.mp mem
        exact rest act mem'
      obtain ⟨later, later'⟩ := ih steadied.toSteady fun act mem => by
        rw [stays]
        exact rest act mem
      exact ⟨later.trans sameSeats, later'.trans sameCpus⟩

/-- As long as the rounds look like the first one, every round decides the same, and the
placement comes to rest within as many rounds as there are decisions: every decided VM is on its
node, or that node is full, no other VM has moved, and no further round moves a VM. Where the
decided nodes have a CPU to spare, every decided VM arrives. -/
theorem steady_rounds_settle {final : Nuiod D} {later : List (Round D)} (placed : Placed nuiod)
    (topo : nuiod.scheduleArgs.Topology) (measured : nuiod.monitor first.monitor = .ok m)
    (decided : m.scheduleActs first.strategy = .ok acts)
    (run : Run Nuiod.round (Resembles m first) nuiod (first :: later) final)
    (often : acts.length ≤ later.length + 1) :
    InverseMaps final ∧ DecidingRun acts nuiod (first :: later) final ∧
    (∀ act ∈ acts, OnDecidedNode final act ∨
      ∀ cpu ∈ nuiod.nodeCpus act.cpuNodeId, (cpu : Int) ∈ final.cpuVmMapping) ∧
    (∀ id ∉ acts.map Decision.domId, final.recordedCpu id = nuiod.recordedCpu id) ∧
    (Spare nuiod acts → ∀ act ∈ acts, OnDecidedNode final act) ∧
    ∀ more final', Run Nuiod.round (Resembles m first) final more final' →
      DecidingRun acts final more final' ∧ final'.recordedCpu = final.recordedCpu ∧
        final'.cpuVmMapping = final.cpuVmMapping := by
  have monitored := monitor_spec measured
  have agree := (placed.monitored monitored).agree
  have same := monitored.sameMachine
  have topo' := same.topology topo
  have performable := performable_of_decided topo' agree decided
  have start : Steady m acts nuiod := by
    refine ⟨placed, ?_, fun act mem => (monitored.mem_iff _).mp (performable.named act mem)⟩
    rw [monitored.rest]
    exact ⟨rfl, rfl, rfl, rfl⟩
  obtain ⟨steady, decides, sameCpus, lodging, others⟩ := steady_rounds topo' agree decided run start
  have rest : ∀ act ∈ acts, AtRest final.lodging (wish act) := fun act mem => by
    rw [lodging]
    refine atRest_iterate ?_ ?_ _ (List.mem_map_of_mem mem)
    · rw [map_wish_fst]
      exact performable.once
    · rwa [List.length_map, List.length_cons]
  refine ⟨steady.placed.inverse, decides, fun act mem => ?_, others, fun spare => ?_,
    fun more final' run' => ?_⟩
  · rw [← sameCpus]
    exact steady.placed.onNode_or_full (steady.named act mem) (rest act mem)
  · refine steady.placed.all_onNode steady.named rest ?_
    unfold Spare
    rw [sameCpus, placed.heldByOthers_eq steady.placed sameCpus others]
    exact spare
  · exact ⟨(steady_rounds topo' agree decided run' steady).2.1,
      steady_rounds_rest topo' agree decided run' steady rest⟩

/-! ### A VM away from its memory -/

omit [Double D]

/-- A VM on node 1 whose memory is on node 0. -/
def strayed : VmInfo ℚ := { steadyVm 1 1 0 0 50 with domPtr := some 1 }

/-- It is alone on two nodes of one CPU each. -/
def oneStrayed : Nuiod ℚ :=
  { onBothCpus with
    vmInfosMap := vmMapOf [strayed]
    cpuVmMapping := (∅ : IntMap).insert 1 1 }

/-- A round in which nothing is measured anew. -/
def idleRound : Round ℚ := ⟨[], fun _ => none, statOnly none, plainStrategy⟩

theorem oneStrayed_vms (id : Int) :
    oneStrayed.vmInfosMap[id]? = if id = 1 then some strayed else none := by
  have own : strayed.domId = 1 := rfl
  simp only [oneStrayed, vmMapOf, List.foldr_cons, List.foldr_nil, Std.TreeMap.getElem?_insert,
    compare_eq_iff_eq, own, eq_comm (a := id)]
  rfl

theorem oneStrayed_recordedCpu (id : Int) :
    oneStrayed.recordedCpu id = if id = 1 then some 1 else none := by
  rw [recordedCpu, oneStrayed_vms]
  split
  · rfl
  · rfl

theorem oneStrayed_placed : Placed oneStrayed where
  agree := vmMapOf_agree _
  inverse c id := by
    rw [oneStrayed_recordedCpu]
    simp only [oneStrayed, Std.TreeMap.getElem?_insert]
    grind
  mapped node cpu here := onBothCpus_placed.mapped node cpu here
  onNode id c sits := by
    rw [oneStrayed_recordedCpu] at sits
    split_ifs at sits
    cases sits
    have here : 1 ∈ onBothCpus.nodeCpus 1 := onBothCpus_cpus.mpr ⟨rfl, by omega⟩
    exact ⟨1, 1, here, rfl⟩

theorem oneStrayed_pins : PinsSucceed oneStrayed idleRound.strategy.pins := by
  intro id vm tracked node cpu here k
  have small := (onBothCpus_cpus.mp here).2
  rw [oneStrayed_vms] at tracked
  split_ifs at tracked
  cases tracked
  have inMap : cpu / 8 < oneStrayed.cpuNumber / 8 + 1 := by
    show cpu / 8 < 4 / 8 + 1
    omega
  exact ⟨_, pinVcpuTo_eq (some 1) 0 0 inMap⟩

theorem oneStrayed_topology : oneStrayed.scheduleArgs.Topology where
  netdev_nonneg := Int.le_refl 0
  netdev_lt := show (0 : Int) < 2 by decide
  numaNodes_length := rfl
  lat_covers := show ∀ node ∈ twoNodes, ∀ j < 2, ∃ p ∈ node.sortedLatNodeList, p.1 = j by decide
  lat_valid := show ∀ node ∈ twoNodes, ∀ p ∈ node.sortedLatNodeList, p.1 < 2 by decide

theorem steady_rounds_settle_oneStrayed : ∃ m final,
    oneStrayed.monitor idleRound.monitor = .ok m ∧
    m.scheduleActs idleRound.strategy = .ok [⟨1, 0, 0⟩] ∧
    oneStrayed.round idleRound = .ok final ∧ final.recordedCpu 1 = some 0 ∧
    InverseMaps final ∧ DecidingRun [⟨1, 0, 0⟩] oneStrayed [idleRound] final ∧
    (∀ act ∈ [(⟨1, 0, 0⟩ : Decision)], OnDecidedNode final act ∨
      ∀ cpu ∈ oneStrayed.nodeCpus act.cpuNodeId, (cpu : Int) ∈ final.cpuVmMapping) ∧
    ∀ more final', Run Nuiod.round (Resembles m idleRound) final more final' →
      DecidingRun [⟨1, 0, 0⟩] final more final' ∧ final'.recordedCpu = final.recordedCpu ∧
        final'.cpuVmMapping = final.cpuVmMapping := by
  obtain ⟨m, measured, checked⟩ := exists_returned (oneStrayed.monitor idleRound.monitor)
    (fun m => returns (fun acts => acts == [⟨1, 0, 0⟩]) (m.scheduleActs idleRound.strategy))
    (by decide +kernel)
  obtain ⟨acts, decided, isActs⟩ := returns_iff.mp checked
  obtain rfl := eq_of_beq isActs
  obtain ⟨final, done, moved⟩ := exists_returned (oneStrayed.round idleRound)
    (fun final => final.recordedCpu 1 == some 0) (by decide +kernel)
  have resembles : Resembles m idleRound oneStrayed idleRound := by
    refine ⟨rfl, fun id vm cpu _ reported => ?_, fun m' measured' => ?_, rfl, oneStrayed_pins⟩
    · cases reported
    · rw [Except.ok.inj (measured'.symm.trans measured)]
  obtain ⟨inverse, decides, placed, _, _, rest⟩ := @steady_rounds_settle ℚ _ oneStrayed m idleRound
    _ final [] oneStrayed_placed oneStrayed_topology measured decided
    (.cons resembles done (.nil final)) (Nat.le_refl 1)
  exact ⟨m, final, measured, decided, done, eq_of_beq moved, inverse, decides, placed, rest⟩

end VNams.Nuiod
