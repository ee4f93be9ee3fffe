import VNams.Strategy.Reads
import VNams.Nuiod.Records

/-!
Do decisions depend on measured data only?

Two runs see the same outside world and differ in what uninitialised members of their VMs
contain. They stay in step (`InStep`): the same keys, the same CPU maps, and the same samples,
as long as they decide the same. They do so when, before each decision, the contents agree
where nothing was measured (`Settled`): the CPU usage that should be the previous one, which
no monitor writes; the rates of a VM without two complete samples; the home of a VM without a
counted page.
-/

namespace VNams.Nuiod

open Lib Monitor Strategy

variable {D : Type}

/-! ### States in step -/

/-- The members of a VM that are known from the start and steer the daemon. -/
structure KnownVm where
  domId : Int
  domPtr : Option DomainPtr
  realCpuNo : Int
  memNodeDistr : List UInt32
  vmEventState : VirDomainEventType

def known (vm : VmInfo D) : KnownVm :=
  ⟨vm.domId, vm.domPtr, vm.realCpuNo, vm.memNodeDistr, vm.vmEventState⟩

/-- The states differ in unknown members of their VMs only. -/
inductive Twins : Nuiod D → Nuiod D → Prop where
  | mk {nuiod : Nuiod D} {vms : VmMap D} (same : AgreeUnder known nuiod.vmInfosMap vms) :
      Twins nuiod { nuiod with vmInfosMap := vms }

theorem Twins.vms {nuiod nuiod' : Nuiod D} (twins : Twins nuiod nuiod') :
    AgreeUnder known nuiod.vmInfosMap nuiod'.vmInfosMap := by
  cases twins with
  | mk same => exact same

theorem Twins.symm {nuiod nuiod' : Nuiod D} (twins : Twins nuiod nuiod') : Twins nuiod' nuiod := by
  cases twins with
  | mk same => exact .mk same.symm

variable [Double D]

omit [Double D] in
/-- Two objects that were filled in from the same answers. -/
theorem filled_twins {conf : DomainConf} {env : DomainEnv} {rest rest' : Indeterminate D}
    {domId : Int} {vm vm' : VmInfo D} (filled : Filled conf env rest domId vm)
    (filled' : Filled conf env rest' domId vm') :
    known vm = known vm' ∧ (HasPages vm → vm'.memMainNodeId = vm.memMainNodeId) := by
  have samePages : vm.memNodeDistr = vm'.memNodeDistr := by
    obtain ⟨ret, read⟩ := filled.pages
    obtain ⟨ret', read'⟩ := filled'.pages
    rw [filled.pid] at read
    rw [filled'.pid, read] at read'
    exact (Prod.ext_iff.mp (Except.ok.inj read')).2
  constructor
  · simp only [known, filled.domId_eq, filled'.domId_eq, filled.handle_eq, filled'.handle_eq,
      filled.cpu, filled'.cpu, samePages, filled.state, filled'.state]
  · intro paged
    rw [filled.home, filled'.home, ← samePages]
    exact mainNodeFrom_congr paged 0 _ _

omit [Double D] in
/-- A refresh moves the same VM. -/
theorem relocates_twin {nuiod nuiod' : Nuiod D} {report : Int → Option Int} {key cpu : Int}
    {vm : VmInfo D} (twins : Twins nuiod nuiod') (relocates : Relocates nuiod report key vm cpu) :
    ∃ vm', known vm = known vm' ∧ Relocates nuiod' report key vm' cpu := by
  obtain ⟨vm', tracked, sees⟩ := twins.vms.of_some relocates.tracked
  obtain ⟨_, handle, place, _, _⟩ := KnownVm.mk.inj sees
  refine ⟨vm', sees, tracked, ?_, relocates.reported, relocates.known, ?_⟩
  · rw [← handle]
    exact relocates.handle
  · rw [← place]
    exact relocates.elsewhere

omit [Double D] in
/-- Moving a VM and its twin. -/
theorem Twins.change {nuiod nuiod' : Nuiod D} (twins : Twins nuiod nuiod') (k cpu : Int)
    {vm vm' : VmInfo D} (sees : known vm = known vm') :
    Twins (nuiod.changeCpuVmMapping k vm cpu) (nuiod'.changeCpuVmMapping k vm' cpu) := by
  cases twins with
  | mk same =>
      obtain ⟨id, handle, place, pages, event⟩ := KnownVm.mk.inj sees
      unfold changeCpuVmMapping
      rw [← id, ← place]
      refine .mk (same.insert k ?_)
      simp only [known, id, handle, pages, event]

omit [Double D] in
theorem refreshVm_twins {nuiod nuiod' next next' : Nuiod D} {report : Int → Option Int} {key : Int}
    (twins : Twins nuiod nuiod') (done : refreshVm report nuiod key = .ok next)
    (done' : refreshVm report nuiod' key = .ok next') : Twins next next' := by
  rcases refreshVm_spec done with ⟨vm, cpu, relocates, rfl⟩ | ⟨stays, rfl⟩
  · obtain ⟨vm', sees, relocates'⟩ := relocates_twin twins relocates
    rcases refreshVm_spec done' with ⟨vm'', cpu', moved, rfl⟩ | ⟨stays, rfl⟩
    · obtain rfl : vm' = vm'' := Option.some.inj (relocates'.tracked.symm.trans moved.tracked)
      obtain rfl : cpu = cpu' := Option.some.inj (relocates'.reported.symm.trans moved.reported)
      exact twins.change key cpu sees
    · exact absurd relocates' (stays vm' cpu)
  · rcases refreshVm_spec done' with ⟨vm', cpu', moved, rfl⟩ | ⟨_, rfl⟩
    · obtain ⟨vm, _, relocates⟩ := relocates_twin twins.symm moved
      exact absurd relocates (stays vm cpu')
    · exact twins

omit [Double D] in
theorem refresh_twins {nuiod nuiod' next next' : Nuiod D} {report : Int → Option Int}
    (twins : Twins nuiod nuiod') (done : nuiod.refreshCpuMapping report = .ok next)
    (done' : nuiod'.refreshCpuMapping report = .ok next') : Twins next next' := by
  unfold refreshCpuMapping at done done'
  rw [← twins.vms.keys] at done'
  exact foldlM_related (fun _ _ _ _ _ _ twins one one' => refreshVm_twins twins one one') twins
    done done'

omit [Double D] in
/-- A decision moves the same VM to the same CPU. -/
theorem pins_twin {nuiod nuiod' : Nuiod D} {lists : List (List (Nat × D))} {pins pins' : PinEnv D}
    {entry : Decision × Nat} {vm : VmInfo D} {cpu : Nat} (twins : Twins nuiod nuiod')
    (answers : pins.pin = pins'.pin) (moves : Pins nuiod lists pins entry vm cpu) :
    ∃ vm', known vm = known vm' ∧ Pins nuiod' lists pins' entry vm' cpu := by
  obtain ⟨vm', tracked, sees⟩ := twins.vms.of_some moves.tracked
  obtain ⟨_, handle, place, _, _⟩ := KnownVm.mk.inj sees
  cases twins with
  | mk same =>
      refine ⟨vm', sees, tracked, ?_, ?_, moves.target, ?_⟩
      · rw [← handle]
        exact moves.handle
      · rw [← place]
        exact moves.elsewhere
      · rw [← answers]
        exact moves.succeeded

/-- Reading a VM with `operator[]` on both sides. -/
theorem touched_twins {nuiod nuiod' : Nuiod D} {pins pins' : PinEnv D} {entry : Decision × Nat}
    (twins : Twins nuiod nuiod') :
    Twins (nuiod.touched pins entry) (nuiod'.touched pins' entry) := by
  have sees : known (nuiod.vmInfosMap.getD entry.1.domId (VmInfo.new (pins.rest entry.2)))
      = known (nuiod'.vmInfosMap.getD entry.1.domId (VmInfo.new (pins'.rest entry.2))) := by
    rw [Std.TreeMap.getD_eq_getD_getElem?, Std.TreeMap.getD_eq_getD_getElem?]
    rcases twins.vms.cases entry.1.domId with ⟨missing, missing'⟩ | ⟨vm, vm', found, found', sees⟩
    · rw [missing, missing']
      rfl
    · rw [found, found']
      exact sees
  cases twins with
  | mk same =>
      unfold touched
      simp only
      rw [← (KnownVm.mk.inj sees).2.2.1]
      apply Twins.mk
      intro x
      rw [getElem?_insertIfNew_getD, getElem?_insertIfNew_getD]
      split
      · simp only [Option.map_some, sees]
      · exact same x

theorem performAct_twins {nuiod nuiod' next next' : Nuiod D} {lists : List (List (Nat × D))}
    {pins pins' : PinEnv D} {entry : Decision × Nat} (twins : Twins nuiod nuiod')
    (answers : pins.pin = pins'.pin) (done : performAct lists pins nuiod entry = .ok next)
    (done' : performAct lists pins' nuiod' entry = .ok next') : Twins next next' := by
  have touched : Twins (nuiod.touched pins entry) (nuiod'.touched pins' entry) :=
    touched_twins twins
  rcases performAct_spec done with ⟨vm, cpu, moves, rfl⟩ | ⟨stays, rfl⟩
  · obtain ⟨vm', sees, moves'⟩ := pins_twin twins answers moves
    rcases performAct_spec done' with ⟨vm'', cpu', moved, rfl⟩ | ⟨stays, rfl⟩
    · obtain rfl : vm' = vm'' := Option.some.inj (moves'.tracked.symm.trans moved.tracked)
      obtain ⟨cpus, listed, picked⟩ := moves'.target
      obtain ⟨cpus', listed', picked'⟩ := moved.target
      obtain rfl : cpus = cpus' := Except.ok.inj (listed.symm.trans listed')
      obtain rfl : cpu = cpu' := Option.some.inj (picked.symm.trans picked')
      exact touched.change entry.1.domId cpu sees
    · exact absurd moves' (stays vm' cpu)
  · rcases performAct_spec done' with ⟨vm', cpu', moved, rfl⟩ | ⟨_, rfl⟩
    · obtain ⟨vm, _, moves⟩ := pins_twin twins.symm answers.symm moved
      exact absurd moves (stays vm cpu')
    · exact touched

/-- Performing the same decisions. -/
theorem perform_twins {nuiod nuiod' next next' : Nuiod D} {acts : List Decision}
    {sort : CpuSort D} {pins pins' : PinEnv D} (twins : Twins nuiod nuiod')
    (answers : pins.pin = pins'.pin) (done : nuiod.perform acts sort pins = .ok next)
    (done' : nuiod'.perform acts sort pins' = .ok next') : Twins next next' := by
  obtain ⟨lists, sorted, folded⟩ := bind_eq_ok.mp done
  obtain ⟨lists', sorted', folded'⟩ := bind_eq_ok.mp done'
  have sameLists : lists = lists' := by
    cases twins with
    | mk same => exact Except.ok.inj (sorted.symm.trans sorted')
  subst sameLists
  exact foldlM_related
    (fun _ _ _ _ _ _ twins one one' => performAct_twins twins answers one one') twins
    folded folded'

/-- The monitors leave what is known alone, and measure the same usage. -/
theorem monitor_twins {nuiod nuiod' next next' : Nuiod D} {env : MonitorEnv}
    (twins : Twins nuiod nuiod') (done : nuiod.monitor env = .ok next)
    (done' : nuiod'.monitor env = .ok next') : Twins next next' := by
  have monitored := monitor_spec done
  have monitored' := monitor_spec done'
  obtain ⟨ret, usage⟩ := monitored.usage
  obtain ⟨ret', usage'⟩ := monitored'.usage
  have kept : ∀ {files : IoFiles} {vm vm' : VmInfo D}, Sampled files vm vm' → known vm' = known vm := by
    intro files vm vm' sampled
    simp only [known, sampled.same.domId, sampled.same.domPtr, sampled.same.realCpuNo,
      sampled.same.memNodeDistr, sampled.same.vmEventState]
  have same : AgreeUnder known next.vmInfosMap next'.vmInfosMap := by
    intro k
    rcases twins.vms.cases k with ⟨missing, missing'⟩ | ⟨vm, vm', found, found', sees⟩
    · rw [monitored.absent k missing, monitored'.absent k missing']
    · obtain ⟨after, stored, sampled⟩ := monitored.sampled k vm found
      obtain ⟨after', stored', sampled'⟩ := monitored'.sampled k vm' found'
      rw [stored, stored', Option.map_some, Option.map_some, kept sampled, kept sampled', sees]
  cases twins with
  | mk _ =>
      rw [usage] at usage'
      obtain ⟨_, sameMonitor, sameUsage⟩ : ret = ret' ∧ next.cpuMonitor = next'.cpuMonitor ∧
          next.cpuUsage = next'.cpuUsage := by simpa using usage'
      rw [monitored.rest, monitored'.rest, ← sameMonitor, ← sameUsage]
      exact .mk same

/-- A VM that is added on both sides. -/
theorem addVm_twins {nuiod nuiod' next next' : Nuiod D} {env : DomainEnv}
    {rest rest' : Indeterminate D} {domId flag flag' : Int} (twins : Twins nuiod nuiod')
    (done : nuiod.addVm env rest domId = .ok (flag, next))
    (done' : nuiod'.addVm env rest' domId = .ok (flag', next')) :
    Twins next next' ∧ ∃ vm vm', next.vmInfosMap = nuiod.vmInfosMap.insert domId vm ∧
      next'.vmInfosMap = nuiod'.vmInfosMap.insert domId vm' ∧
      (HasPages vm → vm'.memMainNodeId = vm.memMainNodeId) := by
  obtain ⟨vm, filled, rfl⟩ := addVm_spec done
  obtain ⟨vm', filled', rfl⟩ := addVm_spec done'
  cases twins with
  | mk same =>
      obtain ⟨sees, homes⟩ := filled_twins filled filled'
      refine ⟨?_, vm, vm', rfl, rfl, homes⟩
      rw [← (KnownVm.mk.inj sees).2.2.1]
      exact .mk (same.insert domId sees)

omit [Double D] in
/-- The same event recorded on both sides. -/
theorem known_modify {vms vms' : VmMap D} (same : AgreeUnder known vms vms') (k : Int)
    (event : VirDomainEventType) :
    AgreeUnder known (vms.modify k fun vm => { vm with vmEventState := event })
      (vms'.modify k fun vm => { vm with vmEventState := event }) := by
  intro x
  rw [getElem?_modify_state, getElem?_modify_state]
  split
  · rcases same.cases x with ⟨missing, missing'⟩ | ⟨vm, vm', found, found', sees⟩
    · rw [missing, missing']
    · obtain ⟨id, handle, place, pages, _⟩ := KnownVm.mk.inj sees
      rw [found, found']
      simp only [Option.map_some, known, id, handle, place, pages]
  · exact same x

/-- The callback on both sides. -/
theorem event_twins {nuiod nuiod' next next' : Nuiod D} {e : Event} {rest rest' : Indeterminate D}
    {ret ret' : Int} (twins : Twins nuiod nuiod')
    (done : nuiod.virVMEventCallBack e rest = .ok (ret, next))
    (done' : nuiod'.virVMEventCallBack e rest' = .ok (ret', next')) :
    Twins next next' ∧ (e.event = .started → ∃ vm vm',
      next.vmInfosMap[e.domId]? = some vm ∧ next'.vmInfosMap[e.domId]? = some vm' ∧
      (HasPages vm → vm'.memMainNodeId = vm.memMainNodeId)) := by
  unfold virVMEventCallBack at done done'
  by_cases isStarted : e.event = .started
  · rw [if_pos isStarted] at done done'
    obtain ⟨⟨flag, added⟩, adds, stored⟩ := bind_eq_ok.mp done
    obtain ⟨⟨flag', added'⟩, adds', stored'⟩ := bind_eq_ok.mp done'
    cases stored
    cases stored'
    obtain ⟨both, vm, vm', here, here', homes⟩ := addVm_twins twins adds adds'
    constructor
    · cases both with
      | mk same =>
          exact .mk (known_modify same e.domId e.event)
    · intro _
      refine ⟨{ vm with vmEventState := e.event }, { vm' with vmEventState := e.event }, ?_, ?_,
        homes⟩
      · rw [getElem?_modify_state, if_pos rfl, here, Std.TreeMap.getElem?_insert_self]
        rfl
      · rw [getElem?_modify_state, if_pos rfl, here', Std.TreeMap.getElem?_insert_self]
        rfl
  · rw [if_neg isStarted] at done done'
    refine ⟨?_, fun started => absurd started isStarted⟩
    by_cases recorded : isRecorded e.event = true
    · rw [if_pos recorded] at done done'
      rcases twins.vms.cases e.domId with ⟨missing, missing'⟩ | ⟨vm, vm', found, found', sees⟩
      · rw [missing] at done
        rw [missing'] at done'
        cases done
        cases done'
        exact twins
      · obtain ⟨id, handle, place, pages, event⟩ := KnownVm.mk.inj sees
        simp only [found] at done
        simp only [found', ← event] at done'
        split at done
        · rename_i down
          rw [if_pos down] at done'
          cases done
          cases done'
          cases twins with
          | mk same =>
              unfold removeVm
              rw [← id, ← place]
              exact .mk (same.erase e.domId)
        · rename_i up
          rw [if_neg up] at done'
          cases done
          cases done'
          cases twins with
          | mk same =>
              refine .mk (same.insert e.domId ?_)
              simp only [known, id, handle, place, pages]
    · rw [if_neg recorded] at done done'
      cases done
      cases done'
      exact twins

/-! ### Samples in step -/

/-- All four files of a sample can be opened, and the rates are computed anew. -/
def opens (files : IoFiles) : Bool :=
  files.rxPackets.isSome && files.txPackets.isSome && files.rxBytes.isSome && files.txBytes.isSome

/-- How many samples computed the rates. -/
def Record.samples (record : Record D) : Nat :=
  record.readings.countP fun reading => opens reading.io

/-- The members that a sample compares with. -/
structure SameCounters (vm vm' : VmInfo D) : Prop where
  rxPackets : vm.rxPackets = vm'.rxPackets
  txPackets : vm.txPackets = vm'.txPackets
  ioTimestampUsec : vm.ioTimestampUsec = vm'.ioTimestampUsec

/-- A sample on both sides. It computes the rates from the counters, or leaves them alone. -/
theorem sample_twins {vm vm' : VmInfo D} (same : SameCounters vm vm') (reading : Reading D) :
    SameCounters (sample vm reading) (sample vm' reading) ∧
      if opens reading.io then
        (sample vm reading).packetsPerSec = (sample vm' reading).packetsPerSec ∧
          (sample vm reading).packetsPerSecHistory = vm.packetsPerSec ∧
          (sample vm' reading).packetsPerSecHistory = vm'.packetsPerSec
      else
        (sample vm reading).packetsPerSec = vm.packetsPerSec ∧
          (sample vm reading).packetsPerSecHistory = vm.packetsPerSecHistory ∧
          (sample vm' reading).packetsPerSec = vm'.packetsPerSec ∧
          (sample vm' reading).packetsPerSecHistory = vm'.packetsPerSecHistory := by
  obtain ⟨rx, tx, time⟩ := same
  unfold sample Monitor.monitorIo opens
  cases reading.io.rxPackets with
  | none => exact ⟨⟨rx, tx, time⟩, rfl, rfl, rfl, rfl⟩
  | some rxPackets =>
      cases reading.io.txPackets with
      | none => exact ⟨⟨by simp only [rx], tx, time⟩, rfl, rfl, rfl, rfl⟩
      | some txPackets =>
          cases reading.io.rxBytes with
          | none => exact ⟨⟨by simp only [rx], by simp only [tx], time⟩, rfl, rfl, rfl, rfl⟩
          | some rxBytes =>
              cases reading.io.txBytes with
              | none => exact ⟨⟨by simp only [rx], by simp only [tx], time⟩, rfl, rfl, rfl, rfl⟩
              | some txBytes =>
                  refine ⟨⟨?_, ?_, rfl⟩, ?_, rfl, rfl⟩
                  · simp only [updateRates, rx]
                  · simp only [updateRates, tx]
                  · simp only [updateRates, rx, tx, time]

/-- Samples wash out what the rates were before: the new rate after one sample, and the
history after two. -/
theorem samples_twins (readings : List (Reading D)) {vm vm' : VmInfo D}
    (same : SameCounters vm vm')
    (rate : 2 ≤ readings.countP (fun reading => opens reading.io) ∨
      vm.packetsPerSec = vm'.packetsPerSec)
    (history : 1 ≤ readings.countP (fun reading => opens reading.io) ∨
      vm.packetsPerSecHistory = vm'.packetsPerSecHistory) :
    (readings.foldl sample vm).packetsPerSec = (readings.foldl sample vm').packetsPerSec ∧
      (readings.foldl sample vm).packetsPerSecHistory
        = (readings.foldl sample vm').packetsPerSecHistory := by
  induction readings generalizing vm vm' with
  | nil => exact ⟨rate.resolve_left (by simp), history.resolve_left (by simp)⟩
  | cons reading rest ih =>
      obtain ⟨counters, rates⟩ := sample_twins same reading
      rw [List.countP_cons] at rate history
      rw [List.foldl_cons, List.foldl_cons]
      cases opened : opens reading.io with
      | false =>
          simp only [opened, Bool.false_eq_true, if_false, Nat.add_zero] at rates rate history
          obtain ⟨kept, keptHistory, kept', keptHistory'⟩ := rates
          apply ih counters
          · rw [kept, kept']
            exact rate
          · rw [keptHistory, keptHistory']
            exact history
      | true =>
          simp only [opened, if_true] at rates rate history
          obtain ⟨computed, moved, moved'⟩ := rates
          apply ih counters
          · exact .inr computed
          · rw [moved, moved']
            exact rate.imp_left (by omega)

/-! ### Two runs -/

/-- The outside world answers the same to both operations. -/
inductive SameInputs : Op D → Op D → Prop where
  | event (e : Event) (rest rest' : Indeterminate D) : SameInputs (.event e rest) (.event e rest')
  | refresh (report : Int → Option Int) : SameInputs (.refresh report) (.refresh report)
  | monitor (env : MonitorEnv) : SameInputs (.monitor env) (.monitor env)
  | decide {env env' : StrategyEnv D} (slots : env.vmStateSlot = env'.vmStateSlot)
      (ties : env.ties = env'.ties) (sort : env.sort = env'.sort)
      (answers : env.pins.pin = env'.pins.pin) : SameInputs (.decide env) (.decide env')

/-- The same machine, but for what the objects of the listed VMs contain. -/
def SameFiles (machine machine' : Machine D) : Prop :=
  machine' = { machine with listing := { machine.listing with rest := machine'.listing.rest } }

/-- The same was read of a VM, and a counted page gave it the same home. -/
structure SameReadings (record record' : Record D) : Prop where
  readings : record.readings = record'.readings
  homes : HasPages record.filled → record'.filled.memMainNodeId = record.filled.memMainNodeId

/-- The records of all VMs say the same. -/
def SameRecords (records records' : Records D) : Prop :=
  ∀ k record record', records k = some record → records' k = some record' →
    SameReadings record record'

/-- The two runs so far decided the same. -/
structure InStep (s s' : Nuiod D × Records D) : Prop where
  twins : Twins s.1 s'.1
  agree : KeysAgree s.1.vmInfosMap
  agree' : KeysAgree s'.1.vmInfosMap
  recorded : Recorded s
  recorded' : Recorded s'
  same : SameRecords s.2 s'.2

/-- What was not measured of a VM is the same in both runs. -/
structure Settled (record record' : Record D) : Prop where
  /-- no monitor ever writes it -/
  realCpuUsage : record.filled.realCpuUsage = record'.filled.realCpuUsage
  /-- after the first sample it is the history -/
  packetsPerSec : 2 ≤ record.samples ∨
    record.filled.packetsPerSec = record'.filled.packetsPerSec
  packetsPerSecHistory : 1 ≤ record.samples ∨
    record.filled.packetsPerSecHistory = record'.filled.packetsPerSecHistory
  memMainNodeId : HasPages record.filled ∨
    record.filled.memMainNodeId = record'.filled.memMainNodeId

/-- That for every tracked VM. -/
def AllSettled (s s' : Nuiod D × Records D) : Prop :=
  ∀ k ∈ s.1.vmInfosMap, ∀ record record', s.2 k = some record → s'.2 k = some record' →
    Settled record record'

/-- The guard of two runs: the same inputs, and contents that agree where nothing was measured
when the strategy is called. -/
def InputsAgree (s : (Nuiod D × Records D) × (Nuiod D × Records D)) (op : Op D × Op D) : Prop :=
  SameInputs op.1 op.2 ∧ ∀ env, op.1 = .decide env → AllSettled s.1 s.2

/-- In step and settled, the VMs look the same to the strategy. -/
theorem InStep.views {s s' : Nuiod D × Records D} (inStep : InStep s s')
    (settled : AllSettled s s') : AgreeUnder view s.1.vmInfosMap s'.1.vmInfosMap := by
  intro k
  rcases inStep.twins.vms.cases k with ⟨missing, missing'⟩ | ⟨vm, vm', found, found', sees⟩
  · rw [missing, missing']
  · obtain ⟨record, noted, accounts⟩ := inStep.recorded k vm found
    obtain ⟨record', noted', accounts'⟩ := inStep.recorded' k vm' found'
    obtain ⟨id, _, place, _, _⟩ := KnownVm.mk.inj sees
    have same := inStep.same k record record' noted noted'
    have here := settled k (mem_iff_getElem?.mpr ⟨vm, found⟩) record record' noted noted'
    have start : SameCounters record.filled record'.filled := by
      obtain ⟨rx, tx, time⟩ := accounts.isNew.unsampled
      obtain ⟨rx', tx', time'⟩ := accounts'.isNew.unsampled
      exact ⟨rx.trans rx'.symm, tx.trans tx'.symm, time.trans time'.symm⟩
    obtain ⟨newest, history⟩ :=
      samples_twins record.readings start here.packetsPerSec here.packetsPerSecHistory
    have home : vm.memMainNodeId = vm'.memMainNodeId := by
      rw [accounts.memMainNodeId, accounts'.memMainNodeId]
      rcases here.memMainNodeId with paged | equal
      · exact (same.homes paged).symm
      · exact equal
    have usage : vm.realCpuUsage = vm'.realCpuUsage := by
      rw [accounts.realCpuUsage, accounts'.realCpuUsage]
      exact here.realCpuUsage
    have rate : vm.packetsPerSec = vm'.packetsPerSec := by
      rw [accounts.rates.packetsPerSec, accounts'.rates.packetsPerSec, ← same.readings]
      exact newest
    have former : vm.packetsPerSecHistory = vm'.packetsPerSecHistory := by
      rw [accounts.rates.packetsPerSecHistory, accounts'.rates.packetsPerSecHistory,
        ← same.readings]
      exact history
    rw [found, found', Option.map_some, Option.map_some]
    simp only [view, id, rate, former, place, usage, home]

/-- In step and settled, the strategy decides the same. -/
theorem InStep.scheduleActs {s s' : Nuiod D × Records D} (inStep : InStep s s')
    (settled : AllSettled s s') {env env' : StrategyEnv D} (slots : env.vmStateSlot = env'.vmStateSlot)
    (ties : env.ties = env'.ties) : s.1.scheduleActs env = s'.1.scheduleActs env' := by
  have views := inStep.views settled
  have twins := inStep.twins
  obtain ⟨nuiod, records⟩ := s
  obtain ⟨nuiod', records'⟩ := s'
  cases twins with
  | mk same =>
      unfold Nuiod.scheduleActs
      rw [← slots, ← ties]
      have shown : AgreeUnder view nuiod.scheduleArgs.vmInfosMap _ := views
      exact (schedule_congr shown env.ties).symm

/-- A VM that started gets the same record on both sides. -/
theorem note_started_same {next next' : Nuiod D} {records records' : Records D}
    {e : Event} {rest rest' : Indeterminate D} (same : SameRecords records records')
    (isStarted : e.event = .started) {vm vm' : VmInfo D}
    (here : next.vmInfosMap[e.domId]? = some vm) (here' : next'.vmInfosMap[e.domId]? = some vm')
    (homes : HasPages vm → vm'.memMainNodeId = vm.memMainNodeId) :
    SameRecords (note records (.event e rest) next) (note records' (.event e rest') next') := by
  intro k record record' noted noted'
  simp only [note, if_pos isStarted] at noted noted'
  by_cases self : k = e.domId
  · subst self
    simp only [Function.update_self, firstRecords, here, here', Option.map_some,
      Option.some.injEq] at noted noted'
    subst noted noted'
    exact ⟨rfl, homes⟩
  · rw [Function.update_of_ne self] at noted noted'
    exact same k record record' noted noted'

/-- A round of the monitors adds the same reading on both sides. -/
theorem note_monitor_same {next next' : Nuiod D} {records records' : Records D}
    {env : MonitorEnv} (same : SameRecords records records') (twins : Twins next next') :
    SameRecords (note records (.monitor env) next) (note records' (.monitor env) next') := by
  intro k record record' noted noted'
  obtain ⟨vm, found, extended⟩ := Option.bind_eq_some_iff.mp noted
  obtain ⟨vm', found', extended'⟩ := Option.bind_eq_some_iff.mp noted'
  obtain ⟨old, before, rfl⟩ := Option.map_eq_some_iff.mp extended
  obtain ⟨old', before', rfl⟩ := Option.map_eq_some_iff.mp extended'
  have kept := same k old old' before before'
  have sameUsage : next.cpuUsageOf vm = next'.cpuUsageOf vm' := by
    obtain ⟨vm'', tracked, sees⟩ := twins.vms.of_some found
    obtain rfl : vm' = vm'' := Option.some.inj (found'.symm.trans tracked)
    cases twins with
    | mk _ =>
        unfold cpuUsageOf
        rw [(KnownVm.mk.inj sees).2.2.1]
  constructor
  · simp only [kept.readings, sameUsage]
  · exact kept.homes

/-- The callback on both sides, with the records. -/
theorem event_inStep {s s' t t' : Nuiod D × Records D} {e : Event} {rest rest' : Indeterminate D}
    (inStep : InStep s s') (done : recorded s (.event e rest) = .ok t)
    (done' : recorded s' (.event e rest') = .ok t') : Twins t.1 t'.1 ∧ SameRecords t.2 t'.2 := by
  obtain ⟨stepped, noted⟩ := withHistory_eq_ok.mp done
  obtain ⟨stepped', noted'⟩ := withHistory_eq_ok.mp done'
  obtain ⟨⟨ret, next⟩, handled, stored⟩ := bind_eq_ok.mp stepped
  obtain ⟨⟨ret', next'⟩, handled', stored'⟩ := bind_eq_ok.mp stepped'
  obtain ⟨twins, started⟩ := event_twins inStep.twins handled handled'
  have here : t.1 = next := (Except.ok.inj stored).symm
  have here' : t'.1 = next' := (Except.ok.inj stored').symm
  rw [noted, noted', here, here']
  refine ⟨twins, ?_⟩
  by_cases isStarted : e.event = .started
  · obtain ⟨vm, vm', found, found', homes⟩ := started isStarted
    exact note_started_same inStep.same isStarted found found' homes
  · simp only [note, if_neg isStarted]
    exact inStep.same

/-- An operation of both runs leads to states in step. -/
theorem step_inStep {s s' t t' : Nuiod D × Records D} {op op' : Op D} (inStep : InStep s s')
    (guarded : InputsAgree (s, s') (op, op')) (done : recorded s op = .ok t)
    (done' : recorded s' op' = .ok t') : InStep t t' := by
  obtain ⟨inputs, settled⟩ := guarded
  obtain ⟨stepped, noted⟩ := withHistory_eq_ok.mp done
  obtain ⟨stepped', noted'⟩ := withHistory_eq_ok.mp done'
  have own : OwnDecisions s.1 op ∧ OwnDecisions s'.1 op' := by
    cases inputs with
    | event e rest rest' => exact ⟨trivial, trivial⟩
    | refresh report => exact ⟨trivial, trivial⟩
    | monitor env => exact ⟨trivial, trivial⟩
    | decide slots ties sort answers => exact ⟨trivial, trivial⟩
  have related : Twins t.1 t'.1 ∧ SameRecords t.2 t'.2 := by
    cases inputs with
    | event e rest rest' => exact event_inStep inStep done done'
    | refresh report =>
        rw [noted, noted']
        exact ⟨refresh_twins inStep.twins stepped stepped', inStep.same⟩
    | monitor env =>
        have twins := monitor_twins inStep.twins stepped stepped'
        rw [noted, noted']
        exact ⟨twins, note_monitor_same inStep.same twins⟩
    | @decide env env' slots ties sort answers =>
        obtain ⟨acts, scheduled, performed⟩ := bind_eq_ok.mp stepped
        obtain ⟨acts', scheduled', performed'⟩ := bind_eq_ok.mp stepped'
        rw [inStep.scheduleActs (settled env rfl) slots ties, scheduled'] at scheduled
        obtain rfl : acts' = acts := Except.ok.inj scheduled
        rw [← sort] at performed'
        rw [noted, noted']
        exact ⟨perform_twins inStep.twins answers performed performed', inStep.same⟩
  exact ⟨related.1, step_keysAgree inStep.agree own.1 stepped,
    step_keysAgree inStep.agree' own.2 stepped',
    recorded_keeps inStep.agree inStep.recorded own.1 done,
    recorded_keeps inStep.agree' inStep.recorded' own.2 done', related.2⟩

/-- The VMs that both sides added so far have the same homes where a page was counted. -/
def SameHomes (nuiod nuiod' : Nuiod D) : Prop :=
  ∀ (k : Int) (vm vm' : VmInfo D), nuiod.vmInfosMap[k]? = some vm →
    nuiod'.vmInfosMap[k]? = some vm' → HasPages vm → vm'.memMainNodeId = vm.memMainNodeId

theorem initVminfo_twins {nuiod next next' : Nuiod D} {listing : Listing D}
    {rest : Nat → Indeterminate D} {flag flag' : Int} (empty : nuiod.vmInfosMap = ∅)
    (done : nuiod.initVminfo listing = .ok (flag, next))
    (done' : nuiod.initVminfo { listing with rest := rest } = .ok (flag', next')) :
    Twins next next' ∧ SameHomes next next' := by
  have start : Twins nuiod nuiod ∧ SameHomes nuiod nuiod := by
    refine ⟨.mk fun k => rfl, fun k vm vm' tracked => ?_⟩
    simp [empty] at tracked
  unfold initVminfo at done done'
  split at done
  · cases done
  · rename_i nonneg
    simp only [nonneg, if_false] at done'
    cases listed : listing.runningDomIds with
    | none =>
        simp only [listed] at done done'
        cases done
        cases done'
        exact start
    | some ids =>
        simp only [listed] at done done'
        have keeps : ∀ entry ∈ (ids.take listing.domNum.toNat).zipIdx,
            ∀ acc acc' mid mid' : Int × Nuiod D, Twins acc.2 acc'.2 ∧ SameHomes acc.2 acc'.2 →
            initDomain listing acc entry = .ok mid →
            initDomain { listing with rest := rest } acc' entry = .ok mid' →
            Twins mid.2 mid'.2 ∧ SameHomes mid.2 mid'.2 := by
          rintro entry - acc acc' mid mid' ⟨twins, sameHomes⟩ one one'
          obtain ⟨⟨ret, added⟩, adds, stored⟩ := bind_eq_ok.mp one
          obtain ⟨⟨ret', added'⟩, adds', stored'⟩ := bind_eq_ok.mp one'
          cases stored
          cases stored'
          obtain ⟨next, vm, vm', here, here', homes⟩ := addVm_twins twins adds adds'
          refine ⟨next, fun k old old' tracked tracked' => ?_⟩
          simp only [here, here', Std.TreeMap.getElem?_insert] at tracked tracked'
          split at tracked
          · rename_i self
            rw [if_pos self] at tracked'
            cases tracked
            cases tracked'
            exact homes
          · rename_i other
            rw [if_neg other] at tracked'
            exact sameHomes k old old' tracked tracked'
        exact foldlM_related keeps start done done'

/-- `init` on both sides. -/
theorem init_inStep {conf : DomainConf} {cpuNumber : Nat} {strategy : SimpleStrategy}
    {machine machine' : Machine D} {nuiod₀ nuiod₀' : Nuiod D} (same : SameFiles machine machine')
    (booted : (Nuiod.new conf cpuNumber strategy).init machine = .ok (0, nuiod₀))
    (booted' : (Nuiod.new conf cpuNumber strategy).init machine' = .ok (0, nuiod₀')) :
    InStep (nuiod₀, nuiod₀.firstRecords) (nuiod₀', nuiod₀'.firstRecords) := by
  have both : Twins nuiod₀ nuiod₀' ∧ SameHomes nuiod₀ nuiod₀' := by
    rw [same] at booted'
    cases init_spec booted with
    | ready listed monitoring netdev numa =>
        cases init_spec booted' with
        | ready listed' monitoring' netdev' numa' =>
            obtain ⟨twins, homes⟩ := initVminfo_twins rfl listed listed'
            refine ⟨?_, homes⟩
            obtain rfl := (Prod.ext_iff.mp (Except.ok.inj (monitoring.symm.trans monitoring'))).2
            obtain rfl := Option.some.inj (netdev.symm.trans netdev')
            obtain rfl := Option.some.inj (numa.symm.trans numa')
            cases twins with
            | mk sees => exact .mk sees
  refine ⟨both.1, keysAgree_of_init booted, keysAgree_of_init booted', recorded_of_init booted,
    recorded_of_init booted', ?_⟩
  intro k record record' noted noted'
  obtain ⟨vm, tracked, rfl⟩ := Option.map_eq_some_iff.mp noted
  obtain ⟨vm', tracked', rfl⟩ := Option.map_eq_some_iff.mp noted'
  exact ⟨rfl, both.2 k vm vm' tracked tracked'⟩

/-- In every two runs that see the same outside world: as long as the contents agree where
nothing was measured, whenever the strategy is called, all decisions are the same. -/
theorem decisions_measured {conf : DomainConf} {cpuNumber : Nat} {strategy : SimpleStrategy}
    {machine machine' : Machine D} {nuiod₀ nuiod₀' : Nuiod D} (same : SameFiles machine machine')
    (booted : (Nuiod.new conf cpuNumber strategy).init machine = .ok (0, nuiod₀))
    (booted' : (Nuiod.new conf cpuNumber strategy).init machine' = .ok (0, nuiod₀'))
    {ops : List (Op D × Op D)} {s s' : Nuiod D × Records D}
    (run : Run (both recorded) InputsAgree
      ((nuiod₀, nuiod₀.firstRecords), (nuiod₀', nuiod₀'.firstRecords)) ops (s, s'))
    (settled : AllSettled s s') (env : StrategyEnv D) :
    s.1.scheduleActs env = s'.1.scheduleActs env := by
  have keeps : ∀ (p : (Nuiod D × Records D) × (Nuiod D × Records D)) op q, InStep p.1 p.2 →
      InputsAgree p op → both recorded p op = .ok q → InStep q.1 q.2 := by
    intro p op q inStep guarded done
    obtain ⟨first, second⟩ := both_eq_ok.mp done
    exact step_inStep inStep guarded first second
  have inStep : InStep s s' := Run.invariant keeps (init_inStep same booted booted') run
  exact inStep.scheduleActs settled rfl rfl

/-! ### One domain with different contents -/

/-- The small machine with domain 1, whose object contains `rest`. -/
def contentMachine (rest : Indeterminate ℚ) : Machine ℚ :=
  { smallMachine [(1, 3)] with listing := { (smallMachine [(1, 3)]).listing with rest := fun _ => rest } }

/-- `/proc/stat` after another 100 jiffies, of which 10 were busy. -/
def lightStat : ProcStat :=
  some ((List.range 5).map fun cnt =>
    ⟨if cnt = 0 then none else some (cnt - 1), ⟨110, 0, 0, 190, 0, 0, 0, 0, 0, 0⟩⟩)

/-- A round of the monitors after so many packets. -/
def packetMonitor (packets time : UInt64) : MonitorEnv where
  io _ := ⟨some (some packets), some (some packets), some (some 0), some (some 0), time⟩
  procStat := evenStat time
  perfBuffer _ := []
  perfOutput _ := some []

/-- Everything but the previous usage, which no monitor writes, happens to be something else. -/
def otherContents : Indeterminate ℚ :=
  { zeroed with packetsPerSec := 500000, packetsPerSecHistory := 700000, memMainNodeId := 7 }

/-- Domain 1 alone, sampled twice, with a page and the same previous usage on both sides. -/
def domainSettled (s : (Nuiod ℚ × Records ℚ) × (Nuiod ℚ × Records ℚ)) : Bool :=
  s.1.1.vmInfosMap.keys == [1] &&
    match s.1.2 1, s.2.2 1 with
    | some record, some record' =>
        record.filled.realCpuUsage == record'.filled.realCpuUsage && 2 ≤ record.samples &&
          record.filled.memNodeDistr == [5, 0]
    | _, _ => false

theorem allSettled_of_domain {s s' : Nuiod ℚ × Records ℚ} (settled : domainSettled (s, s') = true) :
    AllSettled s s' := by
  intro k here record record' noted noted'
  unfold domainSettled at settled
  rw [Bool.and_eq_true, beq_iff_eq] at settled
  obtain ⟨keys, settled⟩ := settled
  obtain rfl : k = 1 := by
    rw [← Std.TreeMap.mem_keys, keys] at here
    exact List.mem_singleton.mp here
  simp only [noted, noted', Bool.and_eq_true, beq_iff_eq, decide_eq_true_eq] at settled
  obtain ⟨⟨usage, sampled⟩, pages⟩ := settled
  refine ⟨usage, .inl sampled, .inl (by omega), .inl ⟨5, ?_, by decide⟩⟩
  rw [pages]
  exact List.mem_cons_self

/-- The rates and the home that an object happens to contain are washed out by two samples and a
page: both runs move the VM home, and keep it there after the next sample. -/
theorem decisions_measured_washedOut : ∃ (nuiod₀ nuiod₀' : Nuiod ℚ) (mid s : Nuiod ℚ × Records ℚ)
    (mid' s' : Nuiod ℚ × Records ℚ),
    smallNuiod.init (contentMachine zeroed) = .ok (0, nuiod₀) ∧
    smallNuiod.init (contentMachine otherContents) = .ok (0, nuiod₀') ∧
    Run (both recorded) InputsAgree
      ((nuiod₀, nuiod₀.firstRecords), (nuiod₀', nuiod₀'.firstRecords))
      [(.monitor (packetMonitor 10 1000), .monitor (packetMonitor 10 1000)),
        (.monitor (packetMonitor 30 2000), .monitor (packetMonitor 30 2000))] (mid, mid') ∧
    mid.1.cpuVmMapping[(3 : Int)]? = some 1 ∧
    mid.1.scheduleActs plainStrategy = mid'.1.scheduleActs plainStrategy ∧
    Run (both recorded) InputsAgree (mid, mid')
      [(.decide plainStrategy, .decide plainStrategy),
        (.monitor (packetMonitor 50 3000), .monitor (packetMonitor 50 3000))] (s, s') ∧
    s.1.cpuVmMapping[(0 : Int)]? = some 1 ∧ s'.1.cpuVmMapping[(0 : Int)]? = some 1 ∧
    s.1.scheduleActs plainStrategy = .ok [⟨1, 0, 0⟩] ∧
    s.1.scheduleActs plainStrategy = s'.1.scheduleActs plainStrategy := by
  obtain ⟨⟨ret, nuiod₀⟩, booted, checked⟩ := exists_returned
    (smallNuiod.init (contentMachine zeroed))
    (fun r => r.1 == 0 && returns (fun r' => r'.1 == 0 &&
      returns (fun m => domainSettled m && m.1.1.cpuVmMapping[(3 : Int)]? == some 1 &&
        returns (fun s => domainSettled s && s.1.1.cpuVmMapping[(0 : Int)]? == some 1 &&
            s.2.1.cpuVmMapping[(0 : Int)]? == some 1 &&
            returns (fun acts => acts == [⟨1, 0, 0⟩]) (s.1.1.scheduleActs plainStrategy))
          ([(Op.decide plainStrategy, Op.decide plainStrategy),
            (.monitor (packetMonitor 50 3000), .monitor (packetMonitor 50 3000))].foldlM
              (both recorded) m))
        ([(Op.monitor (packetMonitor 10 1000), Op.monitor (packetMonitor 10 1000)),
          (.monitor (packetMonitor 30 2000), .monitor (packetMonitor 30 2000))].foldlM
            (both recorded) ((r.2, r.2.firstRecords), (r'.2, r'.2.firstRecords))))
      (smallNuiod.init (contentMachine otherContents))) (by decide +kernel)
  simp only [Bool.and_eq_true, beq_iff_eq, returns_iff] at checked
  obtain ⟨rfl, ⟨_, nuiod₀'⟩, booted', rfl, ⟨mid, mid'⟩, first, ⟨settled, stays⟩, ⟨s, s'⟩, second,
    ⟨⟨settled', moved⟩, moved'⟩, acts, decides, rfl⟩ := checked
  have same : SameFiles (contentMachine zeroed) (contentMachine otherContents) := rfl
  have monitors : ∀ env (p : (Nuiod ℚ × Records ℚ) × (Nuiod ℚ × Records ℚ)),
      InputsAgree p (.monitor env, .monitor env) := fun env p => ⟨.monitor env, nofun⟩
  have sampling : Run (both recorded) InputsAgree
      ((nuiod₀, nuiod₀.firstRecords), (nuiod₀', nuiod₀'.firstRecords))
      [(.monitor (packetMonitor 10 1000), .monitor (packetMonitor 10 1000)),
        (.monitor (packetMonitor 30 2000), .monitor (packetMonitor 30 2000))] (mid, mid') := by
    refine (Run.foldlM_iff.mp first).of_forall fun op mem p => ?_
    rcases List.mem_pair.mp mem with rfl | rfl
    · exact monitors _ p
    · exact monitors _ p
  have deciding : Run (both recorded) InputsAgree (mid, mid')
      [(.decide plainStrategy, .decide plainStrategy),
        (.monitor (packetMonitor 50 3000), .monitor (packetMonitor 50 3000))] (s, s') := by
    cases Run.foldlM_iff.mp second with
    | cons _ decided rest =>
        refine .cons ⟨.decide rfl rfl rfl rfl, fun _ _ => allSettled_of_domain settled⟩ decided ?_
        refine rest.of_forall fun op mem p => ?_
        obtain rfl := List.mem_singleton.mp mem
        exact monitors _ p
  exact ⟨nuiod₀, nuiod₀', mid, s, mid', s', booted, booted', sampling, stays,
    decisions_measured same booted booted' sampling (allSettled_of_domain settled) plainStrategy,
    deciding, moved, moved', decides,
    decisions_measured same booted booted' (sampling.append deciding)
      (allSettled_of_domain settled') plainStrategy⟩

/-- A VM whose CPU is used to 10 percent: if the member for the previous usage happens to
contain 0 the VM is idle and nothing is decided, if it contains 100 the VM is kept on its
home. -/
theorem contents_decide :
    ∃ nuiod₀ nuiod₀' nuiod nuiod' : Nuiod ℚ,
      SameFiles (contentMachine zeroed) (contentMachine { zeroed with realCpuUsage := 100 }) ∧
      smallNuiod.init (contentMachine zeroed) = .ok (0, nuiod₀) ∧
      smallNuiod.init (contentMachine { zeroed with realCpuUsage := 100 }) = .ok (0, nuiod₀') ∧
      nuiod₀.monitor (statOnly lightStat) = .ok nuiod ∧
      nuiod₀'.monitor (statOnly lightStat) = .ok nuiod' ∧
      nuiod.scheduleActs plainStrategy = .ok [] ∧
      nuiod'.scheduleActs plainStrategy = .ok [⟨1, 0, 0⟩] := by
  obtain ⟨nuiod₀, nuiod, booted, run, checked⟩ := exists_run step
    [Op.monitor (statOnly lightStat)] (smallNuiod.init (contentMachine zeroed))
    (fun nuiod => returns (fun acts => acts == []) (nuiod.scheduleActs plainStrategy))
    (by decide +kernel)
  obtain ⟨nuiod₀', nuiod', booted', run', checked'⟩ := exists_run step
    [Op.monitor (statOnly lightStat)]
    (smallNuiod.init (contentMachine { zeroed with realCpuUsage := 100 }))
    (fun nuiod => returns (fun acts => acts == [⟨1, 0, 0⟩]) (nuiod.scheduleActs plainStrategy))
    (by decide +kernel)
  obtain ⟨acts, scheduled, none⟩ := returns_iff.mp checked
  obtain ⟨acts', scheduled', kept⟩ := returns_iff.mp checked'
  rw [eq_of_beq none] at scheduled
  rw [eq_of_beq kept] at scheduled'
  cases run with
  | cons _ measured rest =>
      cases run' with
      | cons _ measured' rest' =>
          cases rest
          cases rest'
          exact ⟨nuiod₀, nuiod₀', nuiod, nuiod', rfl, booted, booted', measured, measured',
            scheduled, scheduled'⟩

end VNams.Nuiod
