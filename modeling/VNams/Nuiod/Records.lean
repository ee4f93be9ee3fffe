import VNams.Nuiod.Keys

/-!
What was read of each VM.

A `Record` goes along with the code: the VM as it was when its object was filled in, and one
reading for each round of the monitors since. The daemon keeps no such record; what its VMs
hold is a function of it (`Accounts`), whatever else happened between the rounds, because
nothing but `set_vm_info` and the monitors writes the members the strategy reads.
-/

namespace VNams.Nuiod

open Lib Monitor Strategy

variable {D : Type} [Double D]

/-! ### What an operation keeps -/

/-- The members that nothing writes after `init`. -/
structure SameMachine (nuiod nuiod' : Nuiod D) : Prop where
  conf : nuiod'.toDomainConf = nuiod.toDomainConf
  netdevNumanode : nuiod'.netdevNumanode = nuiod.netdevNumanode
  strategy : nuiod'.strategy = nuiod.strategy
  numaNodes : nuiod'.numaNodes = nuiod.numaNodes

/-- Nothing is measured and no VM is added: a VM may only have another CPU or another event
recorded. -/
structure Keeps (nuiod nuiod' : Nuiod D) : Prop extends SameMachine nuiod nuiod' where
  cpuMonitor : nuiod'.cpuMonitor = nuiod.cpuMonitor
  cpuUsage : nuiod'.cpuUsage = nuiod.cpuUsage
  vms : ∀ (k : Int) (vm' : VmInfo D), nuiod'.vmInfosMap[k]? = some vm' →
    ∃ vm cpu event, nuiod.vmInfosMap[k]? = some vm ∧
      vm' = { vm with realCpuNo := cpu, vmEventState := event }

omit [Double D] in
theorem SameMachine.refl (nuiod : Nuiod D) : SameMachine nuiod nuiod := ⟨rfl, rfl, rfl, rfl⟩

omit [Double D] in
theorem SameMachine.trans {nuiod mid nuiod' : Nuiod D} (first : SameMachine nuiod mid)
    (second : SameMachine mid nuiod') : SameMachine nuiod nuiod' :=
  ⟨second.conf.trans first.conf, second.netdevNumanode.trans first.netdevNumanode,
    second.strategy.trans first.strategy, second.numaNodes.trans first.numaNodes⟩

omit [Double D] in
theorem Keeps.refl (nuiod : Nuiod D) : Keeps nuiod nuiod where
  toSameMachine := .refl nuiod
  cpuMonitor := rfl
  cpuUsage := rfl
  vms _ vm' tracked := ⟨vm', vm'.realCpuNo, vm'.vmEventState, tracked, rfl⟩

omit [Double D] in
theorem Keeps.trans {nuiod mid nuiod' : Nuiod D} (first : Keeps nuiod mid)
    (second : Keeps mid nuiod') : Keeps nuiod nuiod' where
  toSameMachine := first.toSameMachine.trans second.toSameMachine
  cpuMonitor := second.cpuMonitor.trans first.cpuMonitor
  cpuUsage := second.cpuUsage.trans first.cpuUsage
  vms k vm'' tracked := by
    obtain ⟨vm', cpu', event', tracked', rfl⟩ := second.vms k vm'' tracked
    obtain ⟨vm, cpu, event, before, rfl⟩ := first.vms k vm' tracked'
    exact ⟨vm, cpu', event', before, rfl⟩

omit [Double D] in
/-- A VM in place of one that differs in its CPU and its event. -/
theorem keeps_insert {nuiod : Nuiod D} {k : Int} {vm : VmInfo D} (cpu : Int)
    (event : VirDomainEventType) (mapping : IntMap) (tracked : nuiod.vmInfosMap[k]? = some vm) :
    Keeps nuiod { nuiod with
      vmInfosMap := nuiod.vmInfosMap.insert k { vm with realCpuNo := cpu, vmEventState := event }
      cpuVmMapping := mapping } where
  toSameMachine := ⟨rfl, rfl, rfl, rfl⟩
  cpuMonitor := rfl
  cpuUsage := rfl
  vms x vm' stored := by
    simp only [Std.TreeMap.getElem?_insert] at stored
    split at stored
    · rename_i here
      obtain rfl : k = x := compare_eq_iff_eq.mp here
      exact ⟨vm, cpu, event, tracked, (Option.some.inj stored).symm⟩
    · exact ⟨vm', vm'.realCpuNo, vm'.vmEventState, stored, rfl⟩

/-- A move that adds no VM and measures nothing. -/
def Move.Quiet : Move D → Prop
  | .event e _ => e.event ≠ .started
  | .monitor _ => False
  | _ => True

/-- A quiet move for a tracked VM keeps what was read. -/
theorem move_keeps {nuiod nuiod' : Nuiod D} {m : Move D} (own : ForTracked nuiod m)
    (quiet : m.Quiet) (done : nuiod.move m = .ok nuiod') : Keeps nuiod nuiod' := by
  cases m with
  | event e rest =>
      obtain ⟨⟨ret, mid⟩, handled, stored⟩ := bind_eq_ok.mp done
      cases stored
      cases virVMEventCallBack_spec handled with
      | started isStarted _ => exact absurd isStarted quiet
      | @removed vm isStopped tracked down =>
          refine ⟨⟨rfl, rfl, rfl, rfl⟩, rfl, rfl, fun x vm' left => ?_⟩
          simp only [removeVm, Std.TreeMap.getElem?_erase] at left
          split at left
          · cases left
          · exact ⟨vm', vm'.realCpuNo, vm'.vmEventState, left, rfl⟩
      | @recorded vm isRecorded tracked up =>
          exact keeps_insert vm.realCpuNo e.event _ tracked
      | ignored => exact .refl _
  | refresh report key =>
      rcases refreshVm_spec done with ⟨vm, cpu, relocates, rfl⟩ | ⟨_, rfl⟩
      · exact keeps_insert cpu vm.vmEventState _ relocates.tracked
      · exact .refl _
  | monitor env => exact absurd quiet id
  | act lists pins entry =>
      have touched : Keeps nuiod (nuiod.touched pins entry) := by
        refine ⟨⟨rfl, rfl, rfl, rfl⟩, rfl, rfl, fun x vm' tracked => ?_⟩
        rw [touched_tracked own] at tracked
        exact ⟨vm', vm'.realCpuNo, vm'.vmEventState, tracked, rfl⟩
      rcases performAct_spec done with ⟨vm, cpu, moved, rfl⟩ | ⟨_, rfl⟩
      · refine touched.trans (keeps_insert (cpu : Int) vm.vmEventState _ ?_)
        rw [touched_tracked own]
        exact moved.tracked
      · exact touched

/-- Decisions for tracked VMs meet the guard one after another. -/
theorem acts_forTracked {lists : List (List (Nat × D))} {pins : PinEnv D}
    {entries : List (Decision × Nat)} {nuiod nuiod' : Nuiod D}
    (tracked : ∀ entry ∈ entries, entry.1.domId ∈ nuiod.vmInfosMap)
    (run : Run move Anything nuiod (entries.map (.act lists pins)) nuiod') :
    Run move ForTracked nuiod (entries.map (.act lists pins)) nuiod' := by
  induction entries generalizing nuiod with
  | nil =>
      cases run
      exact .nil _
  | cons entry rest ih =>
      cases run with
      | @cons _ mid _ _ _ _ done later =>
          have own := tracked entry List.mem_cons_self
          refine .cons own done (ih (fun e mem => ?_) later)
          exact (act_keys own done _).mpr (tracked e (List.mem_cons_of_mem _ mem))

theorem run_keeps {nuiod nuiod' : Nuiod D} {moves : List (Move D)}
    (quiet : ∀ m ∈ moves, m.Quiet) (run : Run move ForTracked nuiod moves nuiod') :
    Keeps nuiod nuiod' := by
  induction run with
  | nil => exact .refl _
  | cons own done _ ih =>
      exact (move_keeps own (quiet _ List.mem_cons_self) done).trans
        (ih fun m mem => quiet m (List.mem_cons_of_mem _ mem))

/-- An operation that adds no VM and measures nothing. -/
def Op.Quiet : Op D → Prop
  | .event e _ => e.event ≠ .started
  | .monitor _ => False
  | _ => True

/-- A quiet operation of the daemon keeps what was read. -/
theorem step_keeps {nuiod nuiod' : Nuiod D} {op : Op D} (agree : KeysAgree nuiod.vmInfosMap)
    (own : OwnDecisions nuiod op) (quiet : op.Quiet) (done : nuiod.step op = .ok nuiod') :
    Keeps nuiod nuiod' := by
  rw [step_eq_moves] at done
  obtain ⟨moves, made, folded⟩ := bind_eq_ok.mp done
  have run := Run.foldlM_iff.mp folded
  cases op with
  | event e rest =>
      cases made
      refine run_keeps (fun m mem => ?_) (run.of_forall fun m mem before => ?_)
      · rw [List.mem_singleton.mp mem]
        exact quiet
      · rw [List.mem_singleton.mp mem]
        trivial
  | refresh report =>
      cases made
      refine run_keeps (fun m mem => ?_) (run.of_forall fun m mem before => ?_)
      · obtain ⟨key, _, rfl⟩ := List.mem_map.mp mem
        trivial
      · obtain ⟨key, _, rfl⟩ := List.mem_map.mp mem
        trivial
  | monitor env => exact absurd quiet id
  | decide env =>
      obtain ⟨acts, scheduled, made⟩ := bind_eq_ok.mp made
      obtain ⟨lists, rfl⟩ := performMoves_eq_ok made
      have tracked := scheduleActs_tracked agree scheduled
      refine run_keeps (fun m mem => ?_) (acts_forTracked (fun entry mem => ?_) run)
      · obtain ⟨entry, _, rfl⟩ := List.mem_map.mp mem
        trivial
      · exact tracked entry.1 (List.fst_mem_of_mem_zipIdx mem)
  | perform acts sort pins => exact absurd own id

/-! ### Records -/

/-- What a round of the monitors reads of a VM. -/
structure Reading (D : Type) where
  io : IoFiles
  /-- the usage of its CPU, if the vector covers that -/
  cpuUsage : Option D

/-- A VM as its object was filled in, and what was read of it since. -/
structure Record (D : Type) where
  filled : VmInfo D
  readings : List (Reading D)

abbrev Records (D : Type) := Int → Option (Record D)

/-- The usage of the VM's CPU in the vector. -/
def cpuUsageOf (nuiod : Nuiod D) (vm : VmInfo D) : Option D :=
  (vecAtInt nuiod.cpuUsage (vm.realCpuNo + 1)).toOption

/-- The records before anything is read. -/
def firstRecords (nuiod : Nuiod D) : Records D :=
  fun k => nuiod.vmInfosMap[k]?.map fun vm => ⟨vm, []⟩

/-- The records after an operation that leads to `nuiod'`. -/
def note (records : Records D) (op : Op D) (nuiod' : Nuiod D) : Records D :=
  match op with
  | .event e _ =>
      if e.event = .started then
        Function.update records e.domId (nuiod'.firstRecords e.domId)
      else records
  | .monitor env => fun k =>
      nuiod'.vmInfosMap[k]?.bind fun vm => (records k).map fun record =>
        { record with readings := record.readings ++ [⟨env.io k, nuiod'.cpuUsageOf vm⟩] }
  | _ => records

/-- The daemon with its records. -/
abbrev recorded : Nuiod D × Records D → Op D → Except Fault (Nuiod D × Records D) :=
  withHistory step note

/-- A page of the VM was counted on some node. -/
def HasPages (vm : VmInfo D) : Prop := ∃ pages ∈ vm.memNodeDistr, 0 < pages

/-- An object that was filled in and not sampled. -/
structure NewVm (conf : DomainConf) (vm : VmInfo D) : Prop where
  unsampled : vm.rxPackets = 0 ∧ vm.txPackets = 0 ∧ vm.ioTimestampUsec = 0
  home : HasPages vm → 0 ≤ vm.memMainNodeId ∧ vm.memMainNodeId < conf.numaNumber

/-- One IO sample. -/
def sample (vm : VmInfo D) (reading : Reading D) : VmInfo D :=
  (Monitor.monitorIo reading.io vm).2

/-- The record accounts for the VM: its rates are those of the samples, and the rest of what
the strategy reads is as it was filled in. -/
structure Accounts (conf : DomainConf) (record : Record D) (vm : VmInfo D) : Prop where
  isNew : NewVm conf record.filled
  realCpuUsage : vm.realCpuUsage = record.filled.realCpuUsage
  memNodeDistr : vm.memNodeDistr = record.filled.memNodeDistr
  memMainNodeId : vm.memMainNodeId = record.filled.memMainNodeId
  rates : SameRates (record.readings.foldl sample record.filled) vm

/-- Every VM has a record that accounts for it. -/
def Recorded (s : Nuiod D × Records D) : Prop :=
  ∀ (k : Int) (vm : VmInfo D), s.1.vmInfosMap[k]? = some vm →
    ∃ record, s.2 k = some record ∧ Accounts s.1.toDomainConf record vm

omit [Double D] in
/-- A VM that was just filled in is new; pages are only counted for nodes. -/
theorem Filled.isNew {conf : DomainConf} {env : DomainEnv} {rest : Indeterminate D} {domId : Int}
    {vm : VmInfo D} (filled : Filled conf env rest domId vm) : NewVm conf vm := by
  refine ⟨filled.unsampled, fun ⟨pages, counted, positive⟩ => ?_⟩
  obtain ⟨ret, read⟩ := filled.pages
  rw [filled.home]
  cases file : env.numaMaps vm.pid with
  | none =>
      rw [file] at read
      have empty : vm.memNodeDistr = [] := (Prod.ext_iff.mp (Except.ok.inj read)).2.symm
      rw [empty] at counted
      cases counted
  | some text =>
      rw [file] at read
      rw [← getProcMemNumaDistribution_length read]
      rcases mainNode_cases vm.memNodeDistr rest.memMainNodeId with inRange | ⟨none, _⟩
      · exact inRange
      · exact absurd positive (none pages counted)

/-- A sample reads only the counters, the timestamp and the rate of the VM. -/
theorem sample_rates {vm vm' : VmInfo D} (same : SameRates vm vm') (reading : Reading D) :
    SameRates (sample vm reading) (sample vm' reading) := by
  obtain ⟨rx, tx, time, total, totalHistory, rate, history⟩ := same
  unfold sample Monitor.monitorIo
  cases reading.io.rxPackets with
  | none => exact ⟨rx, tx, time, total, totalHistory, rate, history⟩
  | some rxPackets =>
      cases reading.io.txPackets with
      | none => exact ⟨by simp only [rx], tx, time, total, totalHistory, rate, history⟩
      | some txPackets =>
          cases reading.io.rxBytes with
          | none => exact ⟨by simp only [rx], by simp only [tx], time, total, totalHistory, rate, history⟩
          | some rxBytes =>
              cases reading.io.txBytes with
              | none => exact ⟨by simp only [rx], by simp only [tx], time, total, totalHistory, rate, history⟩
              | some txBytes =>
                  refine ⟨by simp only [updateRates, rx], by simp only [updateRates, tx],
                    rfl, by simp only [updateRates, rx, tx], by simp only [updateRates, total], ?_,
                    by simp only [updateRates, rate]⟩
                  simp only [updateRates, rx, tx, time]

/-- A new VM accounts for itself. -/
theorem NewVm.accounts {conf : DomainConf} {vm : VmInfo D} (isNew : NewVm conf vm) :
    Accounts conf ⟨vm, []⟩ vm :=
  ⟨isNew, rfl, rfl, rfl, ⟨rfl, rfl, rfl, rfl, rfl, rfl, rfl⟩⟩

/-- Quiet operations keep the records accounting. -/
theorem Recorded.keeps {nuiod nuiod' : Nuiod D} {records : Records D}
    (holds : Recorded (nuiod, records)) (keeps : Keeps nuiod nuiod') :
    Recorded (nuiod', records) := by
  intro k vm' tracked
  obtain ⟨vm, cpu, event, before, rfl⟩ := keeps.vms k vm' tracked
  obtain ⟨record, noted, accounts⟩ := holds k vm before
  refine ⟨record, noted, ?_⟩
  rw [keeps.conf]
  exact ⟨accounts.isNew, accounts.realCpuUsage, accounts.memNodeDistr, accounts.memMainNodeId,
    ⟨accounts.rates.1, accounts.rates.2, accounts.rates.3, accounts.rates.4, accounts.rates.5,
      accounts.rates.6, accounts.rates.7⟩⟩

/-- A VM that starts gets a new record. -/
theorem Recorded.started {nuiod : Nuiod D} {records : Records D} {e : Event}
    {rest : Indeterminate D} {vm : VmInfo D} {mapping : IntMap}
    (holds : Recorded (nuiod, records)) (isStarted : e.event = .started)
    (filled : Filled nuiod.toDomainConf e.domain rest e.domId vm) :
    let nuiod' : Nuiod D := { nuiod with
      vmInfosMap := (nuiod.vmInfosMap.insert e.domId vm).modify e.domId
        fun vm => { vm with vmEventState := e.event }
      cpuVmMapping := mapping }
    Recorded (nuiod', note records (.event e rest) nuiod') := by
  intro nuiod' k vm' tracked
  simp only [note, isStarted, if_true]
  have found := tracked
  simp only [nuiod', getElem?_modify_state, Std.TreeMap.getElem?_insert, compare_eq_iff_eq] at found
  by_cases here : k = e.domId
  · subst here
    simp only [if_true, Option.map_some, Option.some.injEq] at found
    refine ⟨⟨vm', []⟩, ?_, NewVm.accounts ?_⟩
    · simp only [Function.update_self, firstRecords, tracked, Option.map_some]
    · subst found
      exact ⟨filled.isNew.unsampled, filled.isNew.home⟩
  · simp only [Ne.symm here, if_false] at found
    rw [Function.update_of_ne here]
    exact holds k vm' found

/-- A round of the monitors adds a reading to each record. -/
theorem Recorded.monitored {nuiod nuiod' : Nuiod D} {records : Records D} {env : MonitorEnv}
    (holds : Recorded (nuiod, records)) (monitored : Monitored nuiod env nuiod') :
    Recorded (nuiod', note records (.monitor env) nuiod') := by
  intro k vm' tracked
  cases before : nuiod.vmInfosMap[k]? with
  | none =>
      have absent := monitored.absent k before
      rw [tracked] at absent
      cases absent
  | some vm =>
      obtain ⟨vm'', stored, sampled⟩ := monitored.sampled k vm before
      obtain rfl : vm' = vm'' := Option.some.inj (tracked.symm.trans stored)
      obtain ⟨record, noted, accounts⟩ := holds k vm before
      have here : records k = some record := noted
      have sameConf : nuiod'.toDomainConf = nuiod.toDomainConf := by rw [monitored.rest]
      refine ⟨{ record with readings := record.readings ++ [⟨env.io k, nuiod'.cpuUsageOf vm'⟩] },
        by simp only [note, stored, here, Option.bind_some, Option.map_some], ?_⟩
      rw [sameConf]
      refine ⟨accounts.isNew, sampled.same.realCpuUsage.trans accounts.realCpuUsage,
        sampled.same.memNodeDistr.trans accounts.memNodeDistr,
        sampled.same.memMainNodeId.trans accounts.memMainNodeId, ?_⟩
      rw [List.foldl_append]
      exact (sample_rates accounts.rates ⟨env.io k, nuiod'.cpuUsageOf vm'⟩).trans sampled.rates

/-- Every operation keeps the records accounting. -/
theorem recorded_keeps {s s' : Nuiod D × Records D} {op : Op D}
    (agree : KeysAgree s.1.vmInfosMap) (holds : Recorded s) (own : OwnDecisions s.1 op)
    (done : recorded s op = .ok s') : Recorded s' := by
  obtain ⟨nuiod, records⟩ := s
  obtain ⟨nuiod', records'⟩ := s'
  obtain ⟨stepped, noted⟩ := withHistory_eq_ok.mp done
  simp only at stepped noted
  subst noted
  cases op with
  | event e rest =>
      by_cases isStarted : e.event = .started
      · obtain ⟨⟨ret, mid⟩, handled, stored⟩ := bind_eq_ok.mp stepped
        cases stored
        cases virVMEventCallBack_spec handled with
        | started _ filled => exact holds.started isStarted filled
        | removed isStopped _ _ =>
            rw [isStarted] at isStopped
            cases isStopped
        | recorded isRecorded _ _ =>
            rw [isStarted] at isRecorded
            cases isRecorded
        | ignored notStarted _ => exact absurd isStarted notStarted
      · simp only [note, isStarted, if_false]
        have quiet : (Op.event e rest).Quiet := isStarted
        exact holds.keeps (step_keeps agree own quiet stepped)
  | refresh report =>
      have quiet : (Op.refresh report : Op D).Quiet := trivial
      exact holds.keeps (step_keeps agree own quiet stepped)
  | monitor env => exact holds.monitored (monitor_spec stepped)
  | decide env =>
      have quiet : (Op.decide env).Quiet := trivial
      exact holds.keeps (step_keeps agree own quiet stepped)
  | perform acts sort pins => exact absurd own id

/-- After `init` nothing was read, and every VM is new. -/
theorem recorded_of_init {conf : DomainConf} {cpuNumber : Nat} {strategy : SimpleStrategy}
    {machine : Machine D} {ret : Int} {nuiod₀ : Nuiod D}
    (booted : (Nuiod.new conf cpuNumber strategy).init machine = .ok (ret, nuiod₀)) :
    Recorded (nuiod₀, nuiod₀.firstRecords) := by
  have added : ∀ flag added,
      (Nuiod.new conf cpuNumber strategy).initVminfo machine.listing = .ok (flag, added) →
      added.toDomainConf = conf ∧
        ∀ (k : Int) (vm : VmInfo D), added.vmInfosMap[k]? = some vm → NewVm conf vm := by
    intro flag added listed
    obtain ⟨_, _, holds⟩ := initVminfo_invariant
      (fun _ nuiod => nuiod.toDomainConf = conf ∧
        ∀ (k : Int) (vm : VmInfo D), nuiod.vmInfosMap[k]? = some vm → NewVm conf vm)
      (fun _ nuiod domId flag nuiod' _ holds added => by
        obtain ⟨vm, filled, rfl⟩ := addVm_spec added
        refine ⟨holds.1, fun k vm' tracked => ?_⟩
        simp only [Std.TreeMap.getElem?_insert] at tracked
        split at tracked
        · rw [← Option.some.inj tracked, ← holds.1]
          exact filled.isNew
        · exact holds.2 k vm' tracked)
      ⟨rfl, fun k vm tracked => by simp [Nuiod.new] at tracked⟩ listed
    exact holds
  have all : nuiod₀.toDomainConf = conf ∧
      ∀ (k : Int) (vm : VmInfo D), nuiod₀.vmInfosMap[k]? = some vm → NewVm conf vm := by
    cases init_spec booted with
    | failed listed => exact added _ _ listed
    | ready listed _ _ _ =>
        obtain ⟨sameConf, isNew⟩ := added _ _ listed
        exact ⟨sameConf, isNew⟩
  intro k vm tracked
  refine ⟨⟨vm, []⟩, by simp only [firstRecords, tracked, Option.map_some], NewVm.accounts ?_⟩
  rw [all.1]
  exact all.2 k vm tracked

/-- In every run of the daemon with its strategy, the keys agree and the records account for
the VMs. -/
theorem recorded_run {conf : DomainConf} {cpuNumber : Nat} {strategy : SimpleStrategy}
    {machine : Machine D} {ret : Int} {nuiod₀ : Nuiod D} {s : Nuiod D × Records D}
    {ops : List (Op D)}
    (booted : (Nuiod.new conf cpuNumber strategy).init machine = .ok (ret, nuiod₀))
    (run : Run recorded (fun s op => OwnDecisions s.1 op) (nuiod₀, nuiod₀.firstRecords) ops s) :
    KeysAgree s.1.vmInfosMap ∧ Recorded s := by
  have keeps : ∀ (s : Nuiod D × Records D) op s', KeysAgree s.1.vmInfosMap ∧ Recorded s →
      OwnDecisions s.1 op → recorded s op = .ok s' →
      KeysAgree s'.1.vmInfosMap ∧ Recorded s' := by
    rintro s op s' ⟨agree, holds⟩ own done
    exact ⟨step_keysAgree agree own (withHistory_eq_ok.mp done).1,
      recorded_keeps agree holds own done⟩
  exact Run.invariant keeps ⟨keysAgree_of_init booted, recorded_of_init booted⟩ run

end VNams.Nuiod
