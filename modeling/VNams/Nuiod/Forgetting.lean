import VNams.Nuiod.World
import VNams.Nuiod.Measured
import VNams.Nuiod.Bounds
import VNams.Monitor.Usage

/-!
What the daemon forgets.

Two daemons on one machine track the same VMs, but disagree on where these run and on what was
measured last: one of them was just started, say. From then on they see the same. The counters,
the rate and the rate before it are replaced one complete sample after the other, the CPU times
by a reading of all CPUs, the places by every refresh. After three complete samples they decide
the same and have the same maps (`rounds_forget`).
-/

namespace VNams.Nuiod

open Lib Monitor Strategy

variable {D : Type} [Double D]

/-! ### The CPU times -/

/-- The times of the lines after a reading of `/proc/stat`. -/
def readTimes (times : List CpuTimes) (file : ProcStat) : List CpuTimes :=
  (file.getD []).map CpuLine.times ++ times.drop (statLines file)

theorem readTimes_length {times : List CpuTimes} {file : ProcStat}
    (fits : statLines file ≤ times.length) : (readTimes times file).length = times.length := by
  have lines : (file.getD []).length = statLines file := rfl
  rw [readTimes, List.length_append, List.length_map, List.length_drop]
  omega

/-- A reading of all lines leaves nothing. -/
theorem readTimes_all {times : List CpuTimes} {file : ProcStat}
    (all : times.length = statLines file) :
    readTimes times file = (file.getD []).map CpuLine.times := by
  rw [readTimes, List.drop_of_length_le all.le, List.append_nil]

/-- The times of all lines, if there is an array for them. -/
def cpuTimes (nuiod : Nuiod D) : Option (List CpuTimes) :=
  nuiod.cpuMonitor.cpuStatArray.map fun stats => stats.map CpuStat.times

theorem usageLines_times {cpuNumber : Nat} {lines : List CpuLine} {stats stats' : List (CpuStat D)}
    {usage : List D} (read : usageLines cpuNumber 0 lines stats [] = .ok (stats', usage)) :
    stats'.map CpuStat.times = readTimes (stats.map CpuStat.times) (some lines) ∧
      lines.length ≤ stats.length := by
  have reads := usageLines_spec read
  constructor
  · apply List.ext_getElem?
    intro j
    have count : statLines (some lines) = lines.length := rfl
    rw [readTimes, Option.getD_some, count, List.getElem?_append, List.length_map, List.getElem?_map]
    split
    · rename_i here
      obtain ⟨_, _, _, stored⟩ := reads.entry j lines[j] (List.getElem?_eq_getElem here)
      rw [Nat.zero_add] at stored
      rw [stored, List.getElem?_map, List.getElem?_eq_getElem here]
      rfl
    · rename_i behind
      rw [reads.others j (.inr (by omega)), List.getElem?_drop, List.getElem?_map]
      congr 2
      omega
  · rcases reads.fits with rfl | fits
    · exact Nat.zero_le _
    · omega

/-- What a line reports comes from its times. -/
theorem usageLines_usage {cpuNumber cnt : Nat} {lines : List CpuLine}
    {stats stats' next next' : List (CpuStat D)} {usage now now' : List D}
    (same : stats.map CpuStat.times = stats'.map CpuStat.times)
    (read : usageLines cpuNumber cnt lines stats usage = .ok (next, now))
    (read' : usageLines cpuNumber cnt lines stats' usage = .ok (next', now')) : now = now' := by
  induction lines generalizing cnt stats stats' usage with
  | nil =>
      cases read
      cases read'
      rfl
  | cons line lines ih =>
      simp only [usageLines] at read read'
      have here := congrArg (fun times => times[cnt]?) same
      simp only [List.getElem?_map] at here
      cases found : stats[cnt]? with
      | none =>
          rw [found] at read
          cases read
      | some stat =>
          cases found' : stats'[cnt]? with
          | none =>
              rw [found'] at read'
              cases read'
          | some stat' =>
              rw [found, found', Option.map_some, Option.map_some, Option.some.injEq] at here
              simp only [found] at read
              simp only [found', ← here] at read'
              refine ih ?_ read read'
              rw [List.map_set, List.map_set, same]

/-- What monitoring makes of the times, and that it has read lines that fit. -/
theorem Monitored.cpuTimes_eq {nuiod nuiod' : Nuiod D} {env : MonitorEnv} {times : List CpuTimes}
    (monitored : Monitored nuiod env nuiod') (known : nuiod.cpuTimes = some times) :
    nuiod'.cpuTimes = some (readTimes times env.procStat) ∧
      statLines env.procStat ≤ times.length := by
  obtain ⟨stats, present, rfl⟩ := Option.map_eq_some_iff.mp known
  obtain ⟨ret, measured⟩ := monitored.usage
  simp only [getCpuUsage, present] at measured
  cases file : env.procStat with
  | none =>
      simp only [file] at measured
      obtain ⟨rfl, same, _⟩ : ret = -1 ∧ nuiod'.cpuMonitor = nuiod.cpuMonitor ∧ nuiod'.cpuUsage = [] := by
        simpa [eq_comm] using measured
      rw [cpuTimes, same, present]
      exact ⟨rfl, Nat.zero_le _⟩
  | some lines =>
      simp only [file] at measured
      obtain ⟨⟨stats', usage⟩, read, stored⟩ := bind_eq_ok.mp measured
      have same : nuiod'.cpuMonitor = { nuiod.cpuMonitor with cpuStatArray := some stats' } :=
        (congrArg (fun r => r.2.1) (Except.ok.inj stored)).symm
      obtain ⟨written, fits⟩ := usageLines_times read
      rw [cpuTimes, same, Option.map_some, written, List.length_map]
      exact ⟨rfl, fits⟩

theorem Monitored.number {nuiod nuiod' : Nuiod D} {env : MonitorEnv}
    (monitored : Monitored nuiod env nuiod') :
    nuiod'.cpuMonitor.cpuNumber = nuiod.cpuMonitor.cpuNumber := by
  obtain ⟨ret, measured⟩ := monitored.usage
  unfold getCpuUsage at measured
  split at measured
  · exact congrArg (fun r => r.2.1.cpuNumber) (Except.ok.inj measured).symm
  · split at measured
    · exact congrArg (fun r => r.2.1.cpuNumber) (Except.ok.inj measured).symm
    · obtain ⟨_, _, stored⟩ := bind_eq_ok.mp measured
      exact congrArg (fun r => r.2.1.cpuNumber) (Except.ok.inj stored).symm

/-- The same times lead to the same usage. -/
theorem Monitored.cpuUsage_eq {nuiod nuiod' next next' : Nuiod D} {env : MonitorEnv}
    {times : List CpuTimes} (monitored : Monitored nuiod env next)
    (monitored' : Monitored nuiod' env next') (known : nuiod.cpuTimes = some times)
    (known' : nuiod'.cpuTimes = some times)
    (number : nuiod'.cpuMonitor.cpuNumber = nuiod.cpuMonitor.cpuNumber) :
    next'.cpuUsage = next.cpuUsage := by
  obtain ⟨stats, present, isTimes⟩ := Option.map_eq_some_iff.mp known
  obtain ⟨stats', present', isTimes'⟩ := Option.map_eq_some_iff.mp known'
  obtain ⟨ret, measured⟩ := monitored.usage
  obtain ⟨ret', measured'⟩ := monitored'.usage
  simp only [getCpuUsage, present] at measured
  simp only [getCpuUsage, present'] at measured'
  cases file : env.procStat with
  | none =>
      simp only [file] at measured measured'
      have empty : next.cpuUsage = [] := (congrArg (fun r => r.2.2) (Except.ok.inj measured)).symm
      have empty' : next'.cpuUsage = [] := (congrArg (fun r => r.2.2) (Except.ok.inj measured')).symm
      rw [empty, empty']
  | some lines =>
      simp only [file] at measured measured'
      obtain ⟨⟨_, usage⟩, read, stored⟩ := bind_eq_ok.mp measured
      obtain ⟨⟨_, usage'⟩, read', stored'⟩ := bind_eq_ok.mp measured'
      have here : next.cpuUsage = usage := (congrArg (fun r => r.2.2) (Except.ok.inj stored)).symm
      have here' : next'.cpuUsage = usage' := (congrArg (fun r => r.2.2) (Except.ok.inj stored')).symm
      rw [number] at read'
      rw [here, here']
      exact (usageLines_usage (isTimes.trans isTimes'.symm) read read').symm

/-! ### A VM through its samples -/

/-- What no round writes. -/
structure Identity (D : Type) where
  domId : Int
  domPtr : Option DomainPtr
  memMainNodeId : Int
  /-- no monitor ever writes it -/
  realCpuUsage : D

def identity (vm : VmInfo D) : Identity D :=
  ⟨vm.domId, vm.domPtr, vm.memMainNodeId, vm.realCpuUsage⟩

/-- The VM after these readings, wherever it runs. -/
structure Becomes (readings : List (Reading D)) (vm vm' : VmInfo D) : Prop where
  same : identity vm' = identity vm
  rates : SameRates (readings.foldl sample vm) vm'

theorem Becomes.refl (vm : VmInfo D) : Becomes [] vm vm := ⟨rfl, ⟨rfl, rfl, rfl, rfl, rfl, rfl, rfl⟩⟩

theorem samples_rates {readings : List (Reading D)} {vm vm' : VmInfo D} (same : SameRates vm vm') :
    SameRates (readings.foldl sample vm) (readings.foldl sample vm') := by
  induction readings generalizing vm vm' with
  | nil => exact same
  | cons reading readings ih => exact ih (sample_rates same reading)

theorem Becomes.trans {before after : List (Reading D)} {vm mid vm' : VmInfo D}
    (first : Becomes before vm mid) (second : Becomes after mid vm') :
    Becomes (before ++ after) vm vm' := by
  refine ⟨second.same.trans first.same, ?_⟩
  rw [List.foldl_append]
  exact (samples_rates first.rates).trans second.rates

/-- What a round of the monitors reads of the VM with this id. -/
def readingOf (id : Int) (round : Round D) : Reading D := ⟨round.monitor.io id, none⟩

/-- All four files can be opened, and the packet counters are numbers. -/
def Complete (files : IoFiles) : Prop :=
  opens files = true ∧ (∃ rx, files.rxPackets = some (some rx)) ∧ ∃ tx, files.txPackets = some (some tx)

/-- A complete sample replaces the counters. -/
theorem Complete.counters {reading : Reading D} (complete : Complete reading.io)
    (vm vm' : VmInfo D) : SameCounters (sample vm reading) (sample vm' reading) := by
  obtain ⟨opened, ⟨rx, rxFile⟩, tx, txFile⟩ := complete
  simp only [opens, Bool.and_eq_true, Option.isSome_iff_exists] at opened
  obtain ⟨⟨_, rxBytes, rxBytesFile⟩, txBytes, txBytesFile⟩ := opened
  unfold sample Monitor.monitorIo
  rw [rxFile, txFile, rxBytesFile, txBytesFile]
  exact ⟨rfl, rfl, rfl⟩

/-- The VM was sampled completely, and then two more times. -/
def Resampled (id : Int) (rounds : List (Round D)) : Prop :=
  ∃ before first later, rounds = before ++ first :: later ∧ Complete (first.monitor.io id) ∧
    2 ≤ later.countP fun round => opens (round.monitor.io id)

/-- Then its rates do not depend on what they were. -/
theorem Resampled.rates {id : Int} {rounds : List (Round D)} (resampled : Resampled id rounds)
    {vm vm' aged aged' : VmInfo D} (becomes : Becomes (rounds.map (readingOf id)) vm aged)
    (becomes' : Becomes (rounds.map (readingOf id)) vm' aged') :
    aged.packetsPerSec = aged'.packetsPerSec ∧
      aged.packetsPerSecHistory = aged'.packetsPerSecHistory := by
  obtain ⟨before, first, later, rfl, complete, often⟩ := resampled
  have rates := becomes.rates
  have rates' := becomes'.rates
  rw [List.map_append, List.map_cons, List.foldl_append, List.foldl_cons] at rates rates'
  have counters := @Complete.counters D _ (readingOf id first) complete
    ((before.map (readingOf id)).foldl sample vm) ((before.map (readingOf id)).foldl sample vm')
  have counted : 2 ≤ (later.map (readingOf id)).countP fun reading : Reading D => opens reading.io := by
    rw [List.countP_map]
    exact often
  obtain ⟨rate, history⟩ := samples_twins (later.map (readingOf id)) counters (.inl counted)
    (.inl (by omega))
  rw [rates.packetsPerSec, rates'.packetsPerSec, rates.packetsPerSecHistory,
    rates'.packetsPerSecHistory]
  exact ⟨rate, history⟩

/-! ### A run of rounds -/

/-- No VM comes or goes, and libvirt reports a CPU of its own for each. -/
def Undisturbed (nuiod : Nuiod D) (round : Round D) : Prop :=
  round.events = [] ∧ Reassigns nuiod round.report

/-- The same VMs are tracked, and the same nodes are read of the CPUs. -/
structure SameFrame (nuiod nuiod' : Nuiod D) : Prop where
  nodeOf : ∀ c : Int, nuiod'.cpuNodeMapping.getD c 0 = nuiod.cpuNodeMapping.getD c 0
  tracked : ∀ id : Int, id ∈ nuiod'.vmInfosMap ↔ id ∈ nuiod.vmInfosMap

omit [Double D] in
theorem SameFrame.refl (nuiod : Nuiod D) : SameFrame nuiod nuiod := ⟨fun _ => rfl, fun _ => Iff.rfl⟩

omit [Double D] in
theorem SameFrame.trans {nuiod mid nuiod' : Nuiod D} (first : SameFrame nuiod mid)
    (second : SameFrame mid nuiod') : SameFrame nuiod nuiod' :=
  ⟨fun c => (second.nodeOf c).trans (first.nodeOf c),
    fun id => (second.tracked id).trans (first.tracked id)⟩

/-- The daemon after these rounds: the machine, its VMs with their samples, and the times. -/
structure Aged (nuiod : Nuiod D) (rounds : List (Round D)) (nuiod' : Nuiod D) : Prop
    extends SameMachine nuiod nuiod', SameFrame nuiod nuiod' where
  vms : ∀ (id : Int) (vm' : VmInfo D), nuiod'.vmInfosMap[id]? = some vm' →
    ∃ vm, nuiod.vmInfosMap[id]? = some vm ∧ Becomes (rounds.map (readingOf id)) vm vm'
  number : nuiod'.cpuMonitor.cpuNumber = nuiod.cpuMonitor.cpuNumber
  times : ∀ times, nuiod.cpuTimes = some times →
    nuiod'.cpuTimes = some (rounds.foldl (fun t round => readTimes t round.monitor.procStat) times) ∧
      ∀ round ∈ rounds, statLines round.monitor.procStat ≤ times.length

theorem Aged.refl (nuiod : Nuiod D) : Aged nuiod [] nuiod where
  toSameMachine := .refl nuiod
  toSameFrame := .refl nuiod
  vms _ vm' found := ⟨vm', found, .refl vm'⟩
  number := rfl
  times _ known := ⟨known, by simp⟩

theorem foldl_readTimes_length {rounds : List (Round D)} {times : List CpuTimes}
    (fits : ∀ round ∈ rounds, statLines round.monitor.procStat ≤ times.length) :
    (rounds.foldl (fun t round => readTimes t round.monitor.procStat) times).length
      = times.length := by
  induction rounds generalizing times with
  | nil => rfl
  | cons round rounds ih =>
      rw [List.forall_mem_cons] at fits
      have kept := readTimes_length fits.1
      rw [List.foldl_cons, ih, kept]
      rw [kept]
      exact fits.2

/-- After a reading of all lines the times do not depend on what they were. -/
theorem foldl_readTimes_eq {rounds : List (Round D)} {times times' : List CpuTimes}
    (same : times'.length = times.length)
    (fits : ∀ round ∈ rounds, statLines round.monitor.procStat ≤ times.length)
    (all : ∃ round ∈ rounds, times.length = statLines round.monitor.procStat) :
    rounds.foldl (fun t round => readTimes t round.monitor.procStat) times =
      rounds.foldl (fun t round => readTimes t round.monitor.procStat) times' := by
  induction rounds generalizing times times' with
  | nil => simp at all
  | cons round rounds ih =>
      rw [List.forall_mem_cons] at fits
      rw [List.foldl_cons, List.foldl_cons]
      by_cases here : times.length = statLines round.monitor.procStat
      · rw [readTimes_all here, readTimes_all (same.trans here)]
      · have kept := readTimes_length fits.1
        apply ih
        · rw [readTimes_length (same ▸ fits.1), kept, same]
        · rw [kept]
          exact fits.2
        · rw [kept]
          simpa [here] using all

theorem Aged.append {nuiod mid nuiod' : Nuiod D} {before after : List (Round D)}
    (first : Aged nuiod before mid) (second : Aged mid after nuiod') :
    Aged nuiod (before ++ after) nuiod' where
  toSameMachine := first.toSameMachine.trans second.toSameMachine
  toSameFrame := first.toSameFrame.trans second.toSameFrame
  vms id vm'' found'' := by
    obtain ⟨vm', found', later⟩ := second.vms id vm'' found''
    obtain ⟨vm, found, earlier⟩ := first.vms id vm' found'
    rw [List.map_append]
    exact ⟨vm, found, earlier.trans later⟩
  number := second.number.trans first.number
  times times known := by
    obtain ⟨mid, fits⟩ := first.times times known
    obtain ⟨after, fits'⟩ := second.times _ mid
    rw [foldl_readTimes_length fits] at fits'
    rw [List.foldl_append]
    refine ⟨after, fun round mem => ?_⟩
    rcases List.mem_append.mp mem with here | there
    · exact fits round here
    · exact fits' round there

/-- What only moves VMs leaves the daemon as old as it is. -/
theorem Aged.of_keeps {nuiod nuiod' : Nuiod D} (keeps : Keeps nuiod nuiod')
    (frame : SameFrame nuiod nuiod') : Aged nuiod [] nuiod' where
  toSameMachine := keeps.toSameMachine
  toSameFrame := frame
  vms id vm' found' := by
    obtain ⟨vm, cpu, event, found, rfl⟩ := keeps.vms id vm' found'
    exact ⟨vm, found, rfl, rfl, rfl, rfl, rfl, rfl, rfl, rfl⟩
  number := by rw [keeps.cpuMonitor]
  times times known := by
    refine ⟨?_, by simp⟩
    rw [cpuTimes, keeps.cpuMonitor]
    exact known

theorem refresh_aged {nuiod nuiod' : Nuiod D} {report : Int → Option Int}
    (agree : KeysAgree nuiod.vmInfosMap) (done : nuiod.refreshCpuMapping report = .ok nuiod') :
    Aged nuiod [] nuiod' := by
  have keeps : ∀ (s : Nuiod D) key s', SameFrame nuiod s → Anything s key →
      refreshVm report s key = .ok s' → SameFrame nuiod s' := by
    intro s key s' frame _ visited
    rcases refreshVm_spec visited with ⟨vm, cpu, relocates, rfl⟩ | ⟨_, rfl⟩
    · exact frame.trans ⟨fun _ => rfl,
        mem_insert_of_mem (mem_iff_getElem?.mpr ⟨vm, relocates.tracked⟩) _⟩
    · exact frame
  exact .of_keeps (@step_keeps D _ nuiod nuiod' (.refresh report) agree trivial trivial done)
    ((Run.foldlM_iff.mp done).invariant keeps (.refl nuiod))

/-- What `operator[]` inserts is what it would read. -/
theorem nodeOf_performAct {nuiod nuiod' : Nuiod D} {lists : List (List (Nat × D))}
    {pins : PinEnv D} {entry : Decision × Nat} (done : performAct lists pins nuiod entry = .ok nuiod')
    (c : Int) : nuiod'.cpuNodeMapping.getD c 0 = nuiod.cpuNodeMapping.getD c 0 := by
  have touched : (nuiod.touched pins entry).cpuNodeMapping.getD c 0
      = nuiod.cpuNodeMapping.getD c 0 := by
    simp only [Nuiod.touched]
    rw [Std.TreeMap.getD_insertIfNew]
    split
    · rename_i missing
      rw [← compare_eq_iff_eq.mp missing.1]
      exact (Std.TreeMap.getD_eq_fallback missing.2).symm
    · rfl
  rcases performAct_spec done with ⟨vm, cpu, _, rfl⟩ | ⟨_, rfl⟩
  · exact touched
  · exact touched

theorem perform_aged {nuiod nuiod' : Nuiod D} {env : StrategyEnv D} {acts : List Decision}
    (agree : KeysAgree nuiod.vmInfosMap) (decided : nuiod.scheduleActs env = .ok acts)
    (done : nuiod.perform acts env.sort env.pins = .ok nuiod') : Aged nuiod [] nuiod' := by
  obtain ⟨lists, _, folded⟩ := bind_eq_ok.mp done
  have own := scheduleActs_tracked agree decided
  have run : Run (performAct lists env.pins) (fun _ entry => entry.1.domId ∈ nuiod.vmInfosMap)
      nuiod acts.zipIdx nuiod' :=
    (Run.foldlM_iff.mp folded).of_forall fun entry mem _ =>
      own entry.1 (List.fst_mem_of_mem_zipIdx mem)
  have keeps : ∀ (s : Nuiod D) (entry : Decision × Nat) s', SameFrame nuiod s →
      entry.1.domId ∈ nuiod.vmInfosMap → performAct lists env.pins s entry = .ok s' →
      SameFrame nuiod s' := fun s entry s' frame tracked acted =>
    frame.trans ⟨nodeOf_performAct acted, act_keys ((frame.tracked _).mpr tracked) acted⟩
  exact .of_keeps (@step_keeps D _ nuiod nuiod' (.decide env) agree trivial trivial
    (bind_eq_ok.mpr ⟨acts, decided, done⟩)) (run.invariant keeps (.refl nuiod))

theorem monitor_aged {nuiod nuiod' : Nuiod D} {round : Round D}
    (done : nuiod.monitor round.monitor = .ok nuiod') : Aged nuiod [round] nuiod' := by
  have monitored := monitor_spec done
  refine ⟨monitored.sameMachine, ⟨fun c => by rw [monitored.rest], monitored.mem_iff⟩,
    fun id vm' found' => ?_, monitored.number, fun times known => ?_⟩
  · cases found : nuiod.vmInfosMap[id]? with
    | none => cases (monitored.absent id found).symm.trans found'
    | some vm =>
        obtain ⟨vm'', found'', sampled⟩ := monitored.sampled id vm found
        cases found''.symm.trans found'
        refine ⟨vm, rfl, ?_, sampled.rates⟩
        rw [identity, identity, sampled.same.domId, sampled.same.domPtr, sampled.same.memMainNodeId,
          sampled.same.realCpuUsage]
  · obtain ⟨read, fits⟩ := monitored.cpuTimes_eq known
    exact ⟨read, by simpa using fits⟩

/-- A round, up to its decisions: the VMs are where libvirt reports them. -/
theorem measure_aged {nuiod refreshed measured : Nuiod D} {round : Round D} (orderly : Orderly nuiod)
    (undisturbed : Undisturbed nuiod round)
    (refreshes : nuiod.refreshCpuMapping round.report = .ok refreshed)
    (monitors : refreshed.monitor round.monitor = .ok measured) :
    Aged nuiod [round] measured ∧ InTouch (measured, round.report) :=
  ⟨(refresh_aged orderly.agree refreshes).append (monitor_aged monitors),
    orderly.measured undisturbed.2 refreshes monitors⟩

theorem round_aged {nuiod nuiod' : Nuiod D} {round : Round D} (orderly : Orderly nuiod)
    (undisturbed : Undisturbed nuiod round) (done : nuiod.round round = .ok nuiod') :
    Aged nuiod [round] nuiod' ∧ Orderly nuiod' := by
  obtain ⟨refreshed, measured, acts, refreshes, monitors, decided, performs⟩ :=
    (round_eq_ok undisturbed.1).mp done
  obtain ⟨aged, touch⟩ := measure_aged orderly undisturbed refreshes monitors
  exact ⟨aged.append (perform_aged touch.agree decided performs),
    touch.toOrderly.performed (scheduleActs_tracked touch.agree decided) performs⟩

theorem run_aged {nuiod nuiod' : Nuiod D} {rounds : List (Round D)} (orderly : Orderly nuiod)
    (run : Run Nuiod.round Undisturbed nuiod rounds nuiod') :
    Aged nuiod rounds nuiod' ∧ Orderly nuiod' := by
  induction run with
  | nil nuiod => exact ⟨.refl nuiod, orderly⟩
  | cons undisturbed done _ ih =>
      obtain ⟨aged, orderly'⟩ := round_aged orderly undisturbed done
      obtain ⟨later, orderly''⟩ := ih orderly'
      exact ⟨aged.append later, orderly''⟩

/-! ### Two daemons -/

/-- One machine with the same VMs. Where these run and what was measured of them may differ. -/
structure SameHouse (nuiod nuiod' : Nuiod D) : Prop extends SameMachine nuiod nuiod' where
  nodeOf : ∀ c : Int, nuiod'.cpuNodeMapping.getD c 0 = nuiod.cpuNodeMapping.getD c 0
  vms : AgreeUnder identity nuiod.vmInfosMap nuiod'.vmInfosMap
  number : nuiod'.cpuMonitor.cpuNumber = nuiod.cpuMonitor.cpuNumber
  times : ∃ times times', nuiod.cpuTimes = some times ∧ nuiod'.cpuTimes = some times' ∧
    times'.length = times.length

variable {nuiod nuiod' m m' : Nuiod D} {rounds : List (Round D)}

/-- The VMs that are left look the same to the strategy, and have the same seats. -/
theorem SameHouse.aged (house : SameHouse nuiod nuiod') {report : Int → Option Int}
    (aged : Aged nuiod rounds m) (aged' : Aged nuiod' rounds m')
    (sampled : ∀ id ∈ nuiod.vmInfosMap, Resampled id rounds)
    (here : ∀ id ∈ m.vmInfosMap, m.recordedCpu id = report id)
    (here' : ∀ id ∈ m'.vmInfosMap, m'.recordedCpu id = report id) :
    AgreeUnder (fun vm => (view vm, seatOf vm)) m.vmInfosMap m'.vmInfosMap := by
  intro id
  have tracked : id ∈ m'.vmInfosMap ↔ id ∈ m.vmInfosMap := by
    rw [aged'.tracked, ← house.vms.mem_iff, aged.tracked]
  cases found : m.vmInfosMap[id]? with
  | none =>
      have missing : id ∉ m'.vmInfosMap := by
        rw [tracked, mem_iff_getElem?, found]
        simp
      rw [Std.TreeMap.getElem?_eq_none missing]
  | some vm =>
      have mem : id ∈ m.vmInfosMap := mem_iff_getElem?.mpr ⟨vm, found⟩
      have mem' := tracked.mpr mem
      obtain ⟨vm', found'⟩ := mem_iff_getElem?.mp mem'
      obtain ⟨old, before, becomes⟩ := aged.vms id vm found
      obtain ⟨old', before', becomes'⟩ := aged'.vms id vm' found'
      obtain ⟨old'', before'', sees⟩ := house.vms.of_some before
      obtain rfl : old' = old'' := Option.some.inj (before'.symm.trans before'')
      obtain ⟨id_eq, handle, home, usage⟩ :=
        Identity.mk.inj ((becomes.same.trans sees).trans becomes'.same.symm)
      obtain ⟨rate, history⟩ := (sampled id ((aged.tracked id).mp mem)).rates becomes becomes'
      have place : vm.realCpuNo = vm'.realCpuNo := by
        have sits := (recordedCpu_eq_some.mpr ⟨vm, found, rfl⟩).symm.trans (here id mem)
        have sits' := (recordedCpu_eq_some.mpr ⟨vm', found', rfl⟩).symm.trans (here' id mem')
        exact Option.some.inj (sits.trans sits'.symm)
      rw [found', Option.map_some, Option.map_some]
      simp only [view, seatOf, id_eq, handle, home, usage, rate, history, place]

/-- The times that are left are the same, once all CPUs were read. -/
theorem SameHouse.times_aged (house : SameHouse nuiod nuiod') (aged : Aged nuiod rounds m)
    (aged' : Aged nuiod' rounds m')
    (all : ∃ round ∈ rounds, nuiod.cpuTimes.map List.length = some (statLines round.monitor.procStat)) :
    ∃ times, m.cpuTimes = some times ∧ m'.cpuTimes = some times := by
  obtain ⟨times, times', known, known', same⟩ := house.times
  obtain ⟨left, fits⟩ := aged.times times known
  obtain ⟨left', _⟩ := aged'.times times' known'
  obtain ⟨round, mem, count⟩ := all
  rw [known, Option.map_some, Option.some.injEq] at count
  rw [← foldl_readTimes_eq same fits ⟨round, mem, count⟩] at left'
  exact ⟨_, left, left'⟩

/-- The maps say the same, as far as `perform` reads them. -/
structure Alike (nuiod nuiod' : Nuiod D) : Prop where
  vms : AgreeUnder seatOf nuiod.vmInfosMap nuiod'.vmInfosMap
  holders : ∀ c : Int, nuiod'.cpuVmMapping[c]? = nuiod.cpuVmMapping[c]?
  nodeOf : ∀ c : Int, nuiod'.cpuNodeMapping.getD c 0 = nuiod.cpuNodeMapping.getD c 0

omit [Double D] in
theorem Alike.symm (alike : Alike nuiod nuiod') : Alike nuiod' nuiod :=
  ⟨alike.vms.symm, fun c => (alike.holders c).symm, fun c => (alike.nodeOf c).symm⟩

omit [Double D] in
/-- Inverse maps with the same seats. -/
theorem Alike.of_seats (orderly : Orderly nuiod) (orderly' : Orderly nuiod')
    (vms : AgreeUnder seatOf nuiod.vmInfosMap nuiod'.vmInfosMap)
    (nodeOf : ∀ c : Int, nuiod'.cpuNodeMapping.getD c 0 = nuiod.cpuNodeMapping.getD c 0) :
    Alike nuiod nuiod' := by
  refine ⟨vms, fun c => Option.ext fun id => ?_, nodeOf⟩
  have seats : nuiod'.recordedCpu id = nuiod.recordedCpu id :=
    (vms.comp (fun seat => seat.2.1) id).symm
  rw [orderly'.inverse, orderly.inverse, seats]

omit [Double D] in
theorem Alike.recordedCpu (alike : Alike nuiod nuiod') : nuiod'.recordedCpu = nuiod.recordedCpu := by
  funext id
  exact (alike.vms.comp (fun seat => seat.2.1) id).symm

omit [Double D] in
/-- A decision that moves a VM here moves it there. -/
theorem Alike.pins (alike : Alike nuiod nuiod') {lists : List (List (Nat × D))} {pins : PinEnv D}
    {entry : Decision × Nat} {vm : VmInfo D} {cpu : Nat} (moves : Pins nuiod lists pins entry vm cpu) :
    ∃ vm', seatOf vm = seatOf vm' ∧ Pins nuiod' lists pins entry vm' cpu := by
  obtain ⟨vm', tracked', sees⟩ := alike.vms.of_some moves.tracked
  obtain ⟨_, place, handle⟩ : vm.domId = vm'.domId ∧ vm.realCpuNo = vm'.realCpuNo ∧
      vm.domPtr = vm'.domPtr := by simpa [seatOf] using sees
  refine ⟨vm', sees, tracked', handle ▸ moves.handle, ?_, ?_, moves.succeeded⟩
  · rw [alike.nodeOf, ← place]
    exact moves.elsewhere
  · have taken : ∀ c : Int, nuiod'.cpuVmMapping.contains c = nuiod.cpuVmMapping.contains c := by
      intro c
      rw [Std.TreeMap.contains_eq_isSome_getElem?, Std.TreeMap.contains_eq_isSome_getElem?,
        alike.holders]
    simp only [targetCpuno, taken]
    exact moves.target

/-- A decision on both sides. -/
theorem Alike.act (alike : Alike nuiod nuiod') {lists : List (List (Nat × D))} {pins : PinEnv D}
    {entry : Decision × Nat} (tracked : entry.1.domId ∈ nuiod.vmInfosMap)
    (done : performAct lists pins nuiod entry = .ok m)
    (done' : performAct lists pins nuiod' entry = .ok m') : Alike m m' := by
  have nodes : ∀ c : Int, m'.cpuNodeMapping.getD c 0 = m.cpuNodeMapping.getD c 0 := fun c =>
    (nodeOf_performAct done' c).trans ((alike.nodeOf c).trans (nodeOf_performAct done c).symm)
  have tracked' := (alike.vms.mem_iff _).mp tracked
  have same := SameMaps.of_touched pins tracked
  have same' := SameMaps.of_touched pins tracked'
  have touched : AgreeUnder seatOf (nuiod.touched pins entry).vmInfosMap
      (nuiod'.touched pins entry).vmInfosMap := by
    intro x
    rw [same.vms, same'.vms]
    exact alike.vms x
  rcases performAct_spec done with ⟨vm, cpu, moves, rfl⟩ | ⟨stays, rfl⟩
  · obtain ⟨vm', sees, moves'⟩ := alike.pins moves
    rcases performAct_spec done' with ⟨vm'', cpu', moved, rfl⟩ | ⟨stays, rfl⟩
    · obtain rfl : vm' = vm'' := Option.some.inj (moves'.tracked.symm.trans moved.tracked)
      obtain ⟨cpus, listed, picked⟩ := moves'.target
      obtain ⟨cpus', listed', picked'⟩ := moved.target
      obtain rfl : cpus = cpus' := Except.ok.inj (listed.symm.trans listed')
      obtain rfl : cpu = cpu' := Option.some.inj (picked.symm.trans picked')
      obtain ⟨own, place, handle⟩ : vm.domId = vm'.domId ∧ vm.realCpuNo = vm'.realCpuNo ∧
          vm.domPtr = vm'.domPtr := by simpa [seatOf] using sees
      refine ⟨touched.insert entry.1.domId ?_, fun c => ?_, nodes⟩
      · simp only [seatOf, own, handle]
      · simp only [changeCpuVmMapping, own, place]
        rw [Std.TreeMap.getElem?_insert, Std.TreeMap.getElem?_insert]
        split
        · rfl
        · have holders := funext alike.holders
          have released := congrFun (getElem?_releaseCpu nuiod.cpuVmMapping vm'.realCpuNo vm'.domId) c
          have released' := congrFun (getElem?_releaseCpu nuiod'.cpuVmMapping vm'.realCpuNo vm'.domId) c
          rw [holders] at released'
          exact released'.trans released.symm
    · exact absurd moves' (stays vm' cpu)
  · rcases performAct_spec done' with ⟨vm', cpu', moved, rfl⟩ | ⟨_, rfl⟩
    · obtain ⟨vm, _, moves⟩ := alike.symm.pins moved
      exact absurd moves (stays vm cpu')
    · exact ⟨touched, alike.holders, nodes⟩

theorem Alike.acts (alike : Alike nuiod nuiod') {lists : List (List (Nat × D))} {pins : PinEnv D}
    {entries : List (Decision × Nat)} (tracked : ∀ entry ∈ entries, entry.1.domId ∈ nuiod.vmInfosMap)
    (done : entries.foldlM (performAct lists pins) nuiod = .ok m)
    (done' : entries.foldlM (performAct lists pins) nuiod' = .ok m') : Alike m m' := by
  induction entries generalizing nuiod nuiod' with
  | nil =>
      cases done
      cases done'
      exact alike
  | cons entry entries ih =>
      rw [List.forall_mem_cons] at tracked
      rw [List.foldlM_cons] at done done'
      obtain ⟨next, one, later⟩ := bind_eq_ok.mp done
      obtain ⟨next', one', later'⟩ := bind_eq_ok.mp done'
      exact ih (alike.act tracked.1 one one')
        (fun entry' mem => (act_keys tracked.1 one _).mpr (tracked.2 entry' mem)) later later'

omit [Double D] in
theorem SameMachine.symm (same : SameMachine nuiod nuiod') : SameMachine nuiod' nuiod :=
  ⟨same.conf.symm, same.netdevNumanode.symm, same.strategy.symm, same.numaNodes.symm⟩

/-- The strategy decides the same for VMs that look the same. -/
theorem SameMachine.scheduleActs (machine : SameMachine nuiod nuiod')
    (usage : nuiod'.cpuUsage = nuiod.cpuUsage)
    (vms : AgreeUnder view nuiod.vmInfosMap nuiod'.vmInfosMap) (env : StrategyEnv D) :
    nuiod'.scheduleActs env = nuiod.scheduleActs env := by
  have args : nuiod'.scheduleArgs = nuiod.scheduleArgs.withVms nuiod'.vmInfosMap := by
    simp only [scheduleArgs, ScheduleArgs.withVms, machine.conf, machine.numaNodes,
      machine.netdevNumanode, usage]
  rw [Nuiod.scheduleActs, args, machine.strategy]
  exact schedule_congr vms env.ties

/-- Performing the same decisions with the same usage. -/
theorem Alike.perform (alike : Alike nuiod nuiod') (machine : SameMachine nuiod nuiod')
    (usage : nuiod'.cpuUsage = nuiod.cpuUsage) {acts : List Decision} {sort : CpuSort D}
    {pins : PinEnv D} (tracked : ∀ act ∈ acts, act.domId ∈ nuiod.vmInfosMap)
    (done : nuiod.perform acts sort pins = .ok m) (done' : nuiod'.perform acts sort pins = .ok m') :
    Alike m m' := by
  obtain ⟨lists, sorted, folded⟩ := bind_eq_ok.mp done
  obtain ⟨lists', sorted', folded'⟩ := bind_eq_ok.mp done'
  have same : nuiod'.nodeSortedCpuList sort = nuiod.nodeSortedCpuList sort := by
    simp only [nodeSortedCpuList, machine.conf, machine.numaNodes, usage]
  rw [same, sorted] at sorted'
  obtain rfl := Except.ok.inj sorted'
  exact alike.acts (fun entry mem => tracked entry.1 (List.fst_mem_of_mem_zipIdx mem)) folded folded'

/-- What a round decides. -/
def decided (nuiod : Nuiod D) (round : Round D) : Except Fault (List Decision) := do
  let measured ← round.measuring.foldlM step nuiod
  measured.scheduleActs round.strategy

theorem decided_eq {nuiod refreshed measured : Nuiod D} {round : Round D} (quiet : round.events = [])
    (refreshes : nuiod.refreshCpuMapping round.report = .ok refreshed)
    (monitors : refreshed.monitor round.monitor = .ok measured) :
    nuiod.decided round = measured.scheduleActs round.strategy := by
  have measures : round.measuring.foldlM step nuiod = .ok measured :=
    measuring_eq_ok.mpr ⟨nuiod, refreshed, by rw [quiet]; rfl, refreshes, monitors⟩
  rw [decided, measures]
  rfl

/-- Two daemons in one house that see the same rounds: once each VM was sampled completely three
times, the last time in the last round, and all CPUs were read before, the last round decides
the same on both sides and leaves the same maps. Whatever they believed at first is forgotten. -/
theorem rounds_forget {last : Round D} {final final' : Nuiod D} (house : SameHouse nuiod nuiod')
    (orderly : Orderly nuiod) (orderly' : Orderly nuiod')
    (run : Run Nuiod.round Undisturbed nuiod (rounds ++ [last]) final)
    (run' : Run Nuiod.round Undisturbed nuiod' (rounds ++ [last]) final')
    (sampled : ∀ id ∈ nuiod.vmInfosMap, Resampled id (rounds ++ [last]))
    (all : ∃ round ∈ rounds, nuiod.cpuTimes.map List.length = some (statLines round.monitor.procStat)) :
    (∃ mid mid' acts, Run Nuiod.round Undisturbed nuiod rounds mid ∧
      Run Nuiod.round Undisturbed nuiod' rounds mid' ∧
      mid.decided last = .ok acts ∧ mid'.decided last = .ok acts) ∧
    final'.recordedCpu = final.recordedCpu ∧
    ∀ c : Int, final'.cpuVmMapping[c]? = final.cpuVmMapping[c]? := by
  obtain ⟨mid, earlier, undisturbed, done⟩ := run.of_snoc
  obtain ⟨mid', earlier', undisturbed', done'⟩ := run'.of_snoc
  obtain ⟨aged, tidy⟩ := run_aged orderly earlier
  obtain ⟨aged', tidy'⟩ := run_aged orderly' earlier'
  obtain ⟨refreshed, m, acts, refreshes, monitors, decides, performs⟩ :=
    (round_eq_ok undisturbed.1).mp done
  obtain ⟨refreshed', m', acts', refreshes', monitors', decides', performs'⟩ :=
    (round_eq_ok undisturbed'.1).mp done'
  -- the usage of the last round
  have started := aged.append (refresh_aged tidy.agree refreshes)
  have started' := aged'.append (refresh_aged tidy'.agree refreshes')
  rw [List.append_nil] at started started'
  obtain ⟨times, known, known'⟩ := house.times_aged started started' all
  have number : refreshed'.cpuMonitor.cpuNumber = refreshed.cpuMonitor.cpuNumber :=
    (started'.number.trans house.number).trans started.number.symm
  have usage := (monitor_spec monitors).cpuUsage_eq (monitor_spec monitors') known known' number
  -- what the strategy and `perform` are shown
  obtain ⟨one, touch⟩ := measure_aged tidy undisturbed refreshes monitors
  obtain ⟨one', touch'⟩ := measure_aged tidy' undisturbed' refreshes' monitors'
  have whole := aged.append one
  have whole' := aged'.append one'
  have vms := house.aged whole whole' sampled touch.here touch'.here
  have machine : SameMachine m m' :=
    (whole.toSameMachine.symm.trans house.toSameMachine).trans whole'.toSameMachine
  have alike : Alike m m' := .of_seats touch.toOrderly touch'.toOrderly (vms.comp Prod.snd)
    fun c => ((whole'.nodeOf c).trans (house.nodeOf c)).trans (whole.nodeOf c).symm
  have same := machine.scheduleActs usage (vms.comp Prod.fst) last.strategy
  obtain rfl : acts' = acts := Except.ok.inj ((decides'.symm.trans same).trans decides)
  have after := alike.perform machine usage (scheduleActs_tracked touch.agree decides)
    performs performs'
  refine ⟨⟨mid, mid', acts', earlier, earlier', ?_, ?_⟩, after.recordedCpu, after.holders⟩
  · rw [decided_eq undisturbed.1 refreshes monitors, decides]
  · rw [decided_eq undisturbed'.1 refreshes' monitors', decides']

/-! ### A daemon that was restarted -/

/-- A daemon is in one house with what it was before. -/
theorem Aged.house (aged : Aged nuiod rounds m) {times : List CpuTimes}
    (known : nuiod.cpuTimes = some times) : SameHouse nuiod m where
  toSameMachine := aged.toSameMachine
  nodeOf := aged.nodeOf
  vms id := by
    cases found : m.vmInfosMap[id]? with
    | none =>
        have missing : id ∉ nuiod.vmInfosMap := by
          rw [← aged.tracked, mem_iff_getElem?, found]
          simp
        rw [Std.TreeMap.getElem?_eq_none missing]
    | some vm' =>
        obtain ⟨vm, found, becomes⟩ := aged.vms id vm' found
        rw [found, Option.map_some, Option.map_some, becomes.same]
  number := aged.number
  times := by
    obtain ⟨left, fits⟩ := aged.times times known
    exact ⟨times, _, known, left, foldl_readTimes_length fits⟩

omit [Double D]

/-- A round in which VM 1 and VM 2 are found on the CPUs given, after so many packets. -/
def packetRound (first second : Int) (packets time : UInt64) : Round ℚ where
  events := []
  report := twoOn first second
  monitor := packetMonitor packets time
  strategy := plainStrategy

/-- Rounds with these VMs are undisturbed. -/
theorem undisturbed_packetRounds {nuiod nuiod' : Nuiod ℚ} {rounds : List (UInt64 × UInt64)}
    (orderly : Orderly nuiod) (either : ∀ id ∈ nuiod.vmInfosMap, id = 1 ∨ id = 2)
    (run : Run Nuiod.round Anything nuiod (rounds.map fun r => packetRound 2 0 r.1 r.2) nuiod') :
    Run Nuiod.round Undisturbed nuiod (rounds.map fun r => packetRound 2 0 r.1 r.2) nuiod' := by
  induction rounds generalizing nuiod with
  | nil =>
      cases run
      exact .nil _
  | cons r rounds ih =>
      rw [List.map_cons] at run ⊢
      cases run with
      | @cons nuiod mid _ _ _ _ done later =>
          have undisturbed : Undisturbed nuiod (packetRound 2 0 r.1 r.2) :=
            ⟨rfl, reassigns_twoOn orderly either (by omega) (by omega)⟩
          obtain ⟨aged, orderly'⟩ := round_aged orderly undisturbed done
          exact .cons undisturbed done (ih orderly' (fun id here => either id ((aged.tracked id).mp here))
            later)

/-- The rounds that both see. -/
def packetRounds : List (Round ℚ) :=
  [(10, 1000), (30, 2000)].map fun r : UInt64 × UInt64 => packetRound 2 0 r.1 r.2

/-- One daemon has just started. The other has run for a round, has VM 2 on another CPU, and
decides differently at first. -/
theorem rounds_forget_restarted : ∃ nuiod nuiod' final final' : Nuiod ℚ,
    smallNuiod.init (smallMachine [(1, 2), (2, 0)]) = .ok (0, nuiod) ∧
    nuiod.round (packetRound 2 3 5000000 300) = .ok nuiod' ∧
    nuiod'.recordedCpu 2 ≠ nuiod.recordedCpu 2 ∧
    nuiod.decided (packetRound 2 0 10 1000) = .ok [⟨1, 1, 1⟩, ⟨2, 1, 1⟩] ∧
    nuiod'.decided (packetRound 2 0 10 1000) = .ok [⟨1, 0, 0⟩, ⟨2, 0, 0⟩] ∧
    (∃ mid mid' acts, Run Nuiod.round Undisturbed nuiod packetRounds mid ∧
      Run Nuiod.round Undisturbed nuiod' packetRounds mid' ∧
      mid.decided (packetRound 2 0 50 3000) = .ok acts ∧
      mid'.decided (packetRound 2 0 50 3000) = .ok acts) ∧
    final'.recordedCpu = final.recordedCpu ∧
    ∀ c : Int, final'.cpuVmMapping[c]? = final.cpuVmMapping[c]? := by
  obtain ⟨⟨ret, nuiod⟩, booted, checked⟩ := exists_returned
    (smallNuiod.init (smallMachine [(1, 2), (2, 0)]))
    (fun r => r.1 == 0 && r.2.vmInfosMap.keys == [1, 2] && r.2.cpuTimes.map List.length == some 5 &&
      returns (fun acts => acts == [⟨1, 1, 1⟩, ⟨2, 1, 1⟩]) (r.2.decided (packetRound 2 0 10 1000)) &&
      returns (fun _ => true) ((packetRounds ++ [packetRound 2 0 50 3000]).foldlM Nuiod.round r.2) &&
      returns (fun nuiod' : Nuiod ℚ => nuiod'.recordedCpu 2 != r.2.recordedCpu 2 &&
          returns (fun acts => acts == [⟨1, 0, 0⟩, ⟨2, 0, 0⟩])
            (nuiod'.decided (packetRound 2 0 10 1000)) &&
          returns (fun _ => true)
            ((packetRounds ++ [packetRound 2 0 50 3000]).foldlM Nuiod.round nuiod'))
        (r.2.round (packetRound 2 3 5000000 300))) (by decide +kernel)
  simp only [Bool.and_eq_true, beq_iff_eq, bne_iff_ne, returns_iff] at checked
  obtain ⟨⟨⟨⟨⟨rfl, both⟩, lines⟩, _, decides, rfl⟩, final, runs, _⟩, nuiod', done,
    ⟨moved, _, decides', rfl⟩, final', runs', _⟩ := checked
  obtain ⟨times, known, _⟩ := Option.map_eq_some_iff.mp lines
  have orderly : Orderly nuiod :=
    @Orderly.init ℚ _ nuiod smallNuiod.toDomainConf 4 {} _ 0
      ⟨by decide, by decide, by decide⟩ booted
  have either := either_of_keys both
  obtain ⟨aged, orderly'⟩ := round_aged orderly
    ⟨rfl, reassigns_twoOn orderly either (by omega) (by omega)⟩ done
  have run := @undisturbed_packetRounds nuiod final [(10, 1000), (30, 2000), (50, 3000)] orderly
    either (Run.foldlM_iff.mp runs)
  have run' := @undisturbed_packetRounds nuiod' final' [(10, 1000), (30, 2000), (50, 3000)] orderly'
    (fun id here => either id ((aged.tracked id).mp here)) (Run.foldlM_iff.mp runs')
  have resampled : ∀ id ∈ nuiod.vmInfosMap,
      Resampled id (packetRounds ++ [packetRound 2 0 50 3000]) := fun id _ =>
    ⟨[], _, _, rfl, ⟨rfl, ⟨_, rfl⟩, _, rfl⟩, Nat.le_refl 2⟩
  have all : ∃ round ∈ packetRounds,
      nuiod.cpuTimes.map List.length = some (statLines round.monitor.procStat) :=
    ⟨_, List.mem_cons_self, lines⟩
  exact ⟨nuiod, nuiod', final, final', booted, done, moved, decides, decides',
    rounds_forget (aged.house known) orderly orderly' run run' resampled all⟩

end VNams.Nuiod
