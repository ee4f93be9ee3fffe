import VNams.Nuiod.Daemon

/-!
What one operation of the daemon can do.

Every later result about runs goes through the specifications here, one for each loop body
and each operation: nothing else unfolds the daemon. They describe the effect on the VM map
by look-ups, and on the CPU map by the three updates `seatVm`, `releaseCpu` and insertion.
-/

namespace VNams.Nuiod

open Lib Lib.CText Monitor Strategy

variable {D : Type}

/-! ### VMs -/

section Double

variable [Double D]

/-- A VM as `set_vm_info` leaves it: the constructor's values, but for what was read about
the domain. -/
structure Filled (conf : DomainConf) (env : DomainEnv) (rest : Indeterminate D) (domId : Int)
    (vm : VmInfo D) : Prop where
  domId_eq : vm.domId = domId
  handle : vm.domPtr ≠ none
  cpu : vm.realCpuNo = getVmRealCpu env.handle env.vcpu
  state : vm.vmEventState = .undefined
  pages : ∃ ret, getProcMemNumaDistribution conf.numaNumber (env.numaMaps vm.pid) []
    = .ok (ret, vm.memNodeDistr)
  home : vm.memMainNodeId = mainNode vm.memNodeDistr rest.memMainNodeId
  pid : vm.pid = (env.pidFile.bind scanUnsigned).getD (UInt32.ofInt (-1))
  unsampled : vm.rxPackets = 0 ∧ vm.txPackets = 0 ∧ vm.ioTimestampUsec = 0
  rates : vm.packetsPerSec = rest.packetsPerSec ∧
    vm.packetsPerSecHistory = rest.packetsPerSecHistory
  usage : vm.realCpuUsage = rest.realCpuUsage
  handle_eq : vm.domPtr = env.handle

/-- Adding a VM stores a filled VM under its id, and seats it unless its CPU is taken. -/
theorem addVm_spec {nuiod nuiod' : Nuiod D} {env : DomainEnv} {rest : Indeterminate D}
    {domId flag : Int} (done : nuiod.addVm env rest domId = .ok (flag, nuiod')) :
    ∃ vm, Filled nuiod.toDomainConf env rest domId vm ∧
      nuiod' = { nuiod with
        vmInfosMap := nuiod.vmInfosMap.insert domId vm
        cpuVmMapping := seatVm vm.realCpuNo domId nuiod.cpuVmMapping } := by
  obtain ⟨⟨flag', vm, mapping⟩, filled, stored⟩ := bind_eq_ok.mp done
  cases stored
  obtain ⟨p, pid, distr, vf, ret, handle, pidEq, counted, vmEq, mappingEq⟩ :=
    setVmInfo_spec rfl filled
  subst vmEq mappingEq
  exact ⟨_, ⟨rfl, by simp, rfl, rfl, ⟨ret, counted⟩, rfl, pidEq, ⟨rfl, rfl, rfl⟩,
    ⟨rfl, rfl⟩, rfl, handle.symm⟩, rfl⟩

/-- What the event callback can do. -/
inductive Handled (nuiod : Nuiod D) (e : Event) (rest : Indeterminate D) : Nuiod D → Prop where
  | started {vm : VmInfo D} (isStarted : e.event = .started)
      (filled : Filled nuiod.toDomainConf e.domain rest e.domId vm) :
      Handled nuiod e rest { nuiod with
        vmInfosMap := (nuiod.vmInfosMap.insert e.domId vm).modify e.domId
          fun vm => { vm with vmEventState := e.event }
        cpuVmMapping := seatVm vm.realCpuNo e.domId nuiod.cpuVmMapping }
  | removed {vm : VmInfo D} (isStopped : e.event = .stopped)
      (tracked : nuiod.vmInfosMap[e.domId]? = some vm)
      (down : vm.vmEventState = .shutdown ∨ vm.vmEventState = .stopped) :
      Handled nuiod e rest (nuiod.removeVm e.domId vm)
  | recorded {vm : VmInfo D} (isRecorded : isRecorded e.event = true)
      (tracked : nuiod.vmInfosMap[e.domId]? = some vm)
      (up : e.event = .stopped → vm.vmEventState ≠ .shutdown ∧ vm.vmEventState ≠ .stopped) :
      Handled nuiod e rest { nuiod with
        vmInfosMap := nuiod.vmInfosMap.insert e.domId { vm with vmEventState := e.event } }
  | ignored (notStarted : e.event ≠ .started)
      (absent : isRecorded e.event = true → nuiod.vmInfosMap[e.domId]? = none) :
      Handled nuiod e rest nuiod

theorem virVMEventCallBack_spec {nuiod nuiod' : Nuiod D} {e : Event} {rest : Indeterminate D}
    {ret : Int} (done : nuiod.virVMEventCallBack e rest = .ok (ret, nuiod')) :
    Handled nuiod e rest nuiod' := by
  unfold virVMEventCallBack at done
  split at done
  · rename_i isStarted
    obtain ⟨⟨flag, added⟩, adds, stored⟩ := bind_eq_ok.mp done
    cases stored
    obtain ⟨vm, filled, rfl⟩ := addVm_spec adds
    exact .started isStarted filled
  · rename_i notStarted
    split at done
    · rename_i isRecorded
      cases tracked : nuiod.vmInfosMap[e.domId]? with
      | none =>
          rw [tracked] at done
          cases done
          exact .ignored notStarted fun _ => tracked
      | some vm =>
          simp only [tracked] at done
          split at done
          · rename_i down
            cases done
            exact .removed down.2 tracked down.1
          · rename_i up
            cases done
            refine .recorded isRecorded tracked fun isStopped => ?_
            exact not_or.mp fun down => up ⟨down, isStopped⟩
    · rename_i notRecorded
      cases done
      exact .ignored notStarted fun isRecorded => absurd isRecorded notRecorded

/-! ### Monitoring -/

/-- The members that no monitor writes. -/
structure SameVm (vm vm' : VmInfo D) : Prop where
  domId : vm'.domId = vm.domId
  domPtr : vm'.domPtr = vm.domPtr
  realCpuNo : vm'.realCpuNo = vm.realCpuNo
  realCpuUsage : vm'.realCpuUsage = vm.realCpuUsage
  memNodeDistr : vm'.memNodeDistr = vm.memNodeDistr
  memMainNodeId : vm'.memMainNodeId = vm.memMainNodeId
  vmEventState : vm'.vmEventState = vm.vmEventState

/-- The members that `perf` does not write, and that the strategy or a later sample reads. -/
structure SameRates (vm vm' : VmInfo D) : Prop where
  rxPackets : vm'.rxPackets = vm.rxPackets
  txPackets : vm'.txPackets = vm.txPackets
  ioTimestampUsec : vm'.ioTimestampUsec = vm.ioTimestampUsec
  totalPackets : vm'.totalPackets = vm.totalPackets
  totalPacketsHistory : vm'.totalPacketsHistory = vm.totalPacketsHistory
  packetsPerSec : vm'.packetsPerSec = vm.packetsPerSec
  packetsPerSecHistory : vm'.packetsPerSecHistory = vm.packetsPerSecHistory

theorem monitorIo_same (files : IoFiles) (vm : VmInfo D) : SameVm vm (Monitor.monitorIo files vm).2 := by
  unfold Monitor.monitorIo
  cases files.rxPackets with
  | none => exact ⟨rfl, rfl, rfl, rfl, rfl, rfl, rfl⟩
  | some rxPackets =>
      cases files.txPackets with
      | none => exact ⟨rfl, rfl, rfl, rfl, rfl, rfl, rfl⟩
      | some txPackets =>
          cases files.rxBytes with
          | none => exact ⟨rfl, rfl, rfl, rfl, rfl, rfl, rfl⟩
          | some rxBytes =>
              cases files.txBytes with
              | none => exact ⟨rfl, rfl, rfl, rfl, rfl, rfl, rfl⟩
              | some txBytes => exact ⟨rfl, rfl, rfl, rfl, rfl, rfl, rfl⟩

omit [Double D] in
theorem perfLine_same {buffer : Text} {vm vm' : VmInfo D} (done : perfLine buffer vm = .ok vm') :
    SameVm vm vm' ∧ SameRates vm vm' := by
  unfold perfLine at done
  cases scanned : scanTo Char.isAlpha buffer with
  | none =>
      rw [scanned] at done
      cases done
  | some p =>
      simp only [scanned] at done
      split at done
      · cases done
        exact ⟨⟨rfl, rfl, rfl, rfl, rfl, rfl, rfl⟩, ⟨rfl, rfl, rfl, rfl, rfl, rfl, rfl⟩⟩
      · cases done
        exact ⟨⟨rfl, rfl, rfl, rfl, rfl, rfl, rfl⟩, ⟨rfl, rfl, rfl, rfl, rfl, rfl, rfl⟩⟩
      · obtain ⟨c, _, done⟩ := bind_eq_ok.mp done
        split_ifs at done <;> cases done <;>
          exact ⟨⟨rfl, rfl, rfl, rfl, rfl, rfl, rfl⟩, ⟨rfl, rfl, rfl, rfl, rfl, rfl, rfl⟩⟩
      · obtain ⟨c, _, done⟩ := bind_eq_ok.mp done
        split_ifs at done <;> cases done <;>
          exact ⟨⟨rfl, rfl, rfl, rfl, rfl, rfl, rfl⟩, ⟨rfl, rfl, rfl, rfl, rfl, rfl, rfl⟩⟩
      · cases done
        exact ⟨⟨rfl, rfl, rfl, rfl, rfl, rfl, rfl⟩, ⟨rfl, rfl, rfl, rfl, rfl, rfl, rfl⟩⟩

omit [Double D] in
theorem SameVm.trans {vm vm' vm'' : VmInfo D} (first : SameVm vm vm') (second : SameVm vm' vm'') :
    SameVm vm vm'' :=
  ⟨second.1.trans first.1, second.2.trans first.2, second.3.trans first.3,
    second.4.trans first.4, second.5.trans first.5, second.6.trans first.6,
    second.7.trans first.7⟩

omit [Double D] in
theorem SameRates.trans {vm vm' vm'' : VmInfo D} (first : SameRates vm vm')
    (second : SameRates vm' vm'') : SameRates vm vm'' :=
  ⟨second.1.trans first.1, second.2.trans first.2, second.3.trans first.3,
    second.4.trans first.4, second.5.trans first.5, second.6.trans first.6,
    second.7.trans first.7⟩

omit [Double D] in
theorem perfLines_same {chunks : List Text} {buffer : Text} {vm vm' : VmInfo D}
    (done : perfLines chunks buffer vm = .ok vm') : SameVm vm vm' ∧ SameRates vm vm' := by
  induction chunks generalizing buffer vm with
  | nil =>
      cases done
      exact ⟨⟨rfl, rfl, rfl, rfl, rfl, rfl, rfl⟩, ⟨rfl, rfl, rfl, rfl, rfl, rfl, rfl⟩⟩
  | cons chunk rest ih =>
      obtain ⟨mid, one, later⟩ := bind_eq_ok.mp done
      obtain ⟨sameFirst, ratesFirst⟩ := perfLine_same one
      obtain ⟨sameRest, ratesRest⟩ := ih later
      exact ⟨sameFirst.trans sameRest, ratesFirst.trans ratesRest⟩

omit [Double D] in
theorem perfVm_same {env : MonitorEnv} {id : Int} {vm vm' : VmInfo D}
    (done : perfVm env id vm = .ok vm') : SameVm vm vm' ∧ SameRates vm vm' := by
  obtain ⟨⟨ret, vm₁⟩, monitored, stored⟩ := bind_eq_ok.mp done
  cases stored
  unfold monitorPerfEvent at monitored
  split at monitored
  · cases monitored
  · obtain ⟨vm₂, lines, stored⟩ := bind_eq_ok.mp monitored
    cases stored
    exact perfLines_same lines

/-- What a VM looks like after a round of the monitors: one IO sample, and what `perf`
left alone. -/
structure Sampled (files : IoFiles) (vm vm' : VmInfo D) : Prop where
  same : SameVm vm vm'
  rates : SameRates (Monitor.monitorIo files vm).2 vm'

/-- Monitoring samples every VM, and leaves the CPU map and the machine alone. -/
structure Monitored (nuiod : Nuiod D) (env : MonitorEnv) (nuiod' : Nuiod D) : Prop where
  absent : ∀ k : Int, nuiod.vmInfosMap[k]? = none → nuiod'.vmInfosMap[k]? = none
  sampled : ∀ (k : Int) (vm : VmInfo D), nuiod.vmInfosMap[k]? = some vm →
    ∃ vm', nuiod'.vmInfosMap[k]? = some vm' ∧ Sampled (env.io k) vm vm'
  usage : ∃ ret, getCpuUsage nuiod.cpuMonitor env.procStat nuiod.cpuUsage
    = .ok (ret, nuiod'.cpuMonitor, nuiod'.cpuUsage)
  rest : nuiod' = { nuiod with
    vmInfosMap := nuiod'.vmInfosMap
    cpuMonitor := nuiod'.cpuMonitor
    cpuUsage := nuiod'.cpuUsage }

theorem monitor_spec {nuiod nuiod' : Nuiod D} {env : MonitorEnv}
    (done : nuiod.monitor env = .ok nuiod') : Monitored nuiod env nuiod' := by
  obtain ⟨⟨ret, cpuMonitor, cpuUsage⟩, measured, done⟩ := bind_eq_ok.mp done
  obtain ⟨vms, visited, stored⟩ := bind_eq_ok.mp done
  cases stored
  refine ⟨fun k missing => ?_, fun k vm found => ?_, ⟨ret, measured⟩, rfl⟩
  · refine (visitAll_spec visited k).1 ?_
    simp [monitorIo, missing]
  · obtain ⟨vm', applied, stored⟩ := (visitAll_spec visited k).2 (Monitor.monitorIo (env.io k) vm).2
      (by simp [monitorIo, found])
    obtain ⟨same, rates⟩ := perfVm_same applied
    exact ⟨vm', stored, (monitorIo_same (env.io k) vm).trans same, rates⟩

/-! ### Moves -/

/-- Libvirt reports for the VM under `key` that it left its CPU for `cpu`. -/
structure Relocates (nuiod : Nuiod D) (report : Int → Option Int) (key : Int) (vm : VmInfo D)
    (cpu : Int) : Prop where
  tracked : nuiod.vmInfosMap[key]? = some vm
  handle : vm.domPtr ≠ none
  reported : report key = some cpu
  known : cpu ≠ -1
  elsewhere : cpu ≠ vm.realCpuNo

omit [Double D] in
/-- One VM of a refresh: it moves to the CPU reported, or nothing changes. -/
theorem refreshVm_spec {report : Int → Option Int} {nuiod nuiod' : Nuiod D} {key : Int}
    (done : refreshVm report nuiod key = .ok nuiod') :
    (∃ vm cpu, Relocates nuiod report key vm cpu ∧
      nuiod' = nuiod.changeCpuVmMapping key vm cpu) ∨
    ((∀ vm cpu, ¬ Relocates nuiod report key vm cpu) ∧ nuiod' = nuiod) := by
  unfold refreshVm at done
  cases tracked : nuiod.vmInfosMap[key]? with
  | none =>
      rw [tracked] at done
      cases done
      refine .inr ⟨fun vm cpu relocates => ?_, rfl⟩
      rw [relocates.tracked] at tracked
      cases tracked
  | some vm =>
      simp only [tracked] at done
      split at done
      · rename_i stays
        cases done
        refine .inr ⟨fun vm' cpu relocates => ?_, rfl⟩
        obtain rfl : vm' = vm := Option.some.inj (relocates.tracked.symm.trans tracked)
        obtain ⟨p, handle⟩ := Option.ne_none_iff_exists'.mp relocates.handle
        simp only [getVmRealCpu, handle, relocates.reported, Option.getD_some] at stays
        rcases stays with unknown | same
        · exact relocates.known unknown
        · exact relocates.elsewhere same
      · rename_i moves
        cases done
        obtain ⟨known, elsewhere⟩ := not_or.mp moves
        unfold getVmRealCpu at known elsewhere ⊢
        cases handle : vm.domPtr with
        | none => simp [handle] at known
        | some p =>
            cases answered : report key with
            | none => simp [handle, answered] at known
            | some cpu =>
                simp only [handle, answered, Option.getD_some] at known elsewhere ⊢
                exact .inl ⟨vm, cpu, ⟨tracked, by simp [handle], answered, known, elsewhere⟩, rfl⟩

/-- The state in which a decision is performed: reading the maps with `operator[]` has
inserted what was missing. -/
def touched (nuiod : Nuiod D) (env : PinEnv D) (entry : Decision × Nat) : Nuiod D :=
  let vm := nuiod.vmInfosMap.getD entry.1.domId (VmInfo.new (env.rest entry.2))
  { nuiod with
    vmInfosMap := nuiod.vmInfosMap.insertIfNew entry.1.domId vm
    cpuNodeMapping := nuiod.cpuNodeMapping.insertIfNew vm.realCpuNo 0 }

/-- `operator[]` finds what it inserts, and changes no other look-up. -/
theorem getElem?_insertIfNew_getD {β : Type} (m : Std.TreeMap Int β) (k x : Int) (fallback : β) :
    (m.insertIfNew k (m.getD k fallback))[x]? =
      if x = k then some (m.getD k fallback) else m[x]? := by
  rw [Std.TreeMap.getElem?_insertIfNew, Std.TreeMap.getD_eq_getD_getElem?]
  by_cases same : x = k
  · subst same
    cases found : m[x]? with
    | none =>
        have missing : x ∉ m := by
          rw [Std.TreeMap.mem_iff_isSome_getElem?, found]
          exact Bool.false_ne_true
        simp [missing]
    | some v =>
        have present : x ∈ m := by
          rw [Std.TreeMap.mem_iff_isSome_getElem?, found]
          rfl
        simp [present]
  · have other : ¬ compare k x = .eq := fun equal => same (compare_eq_iff_eq.mp equal).symm
    simp [same, other]

/-- Reading with `operator[]` does not change what is read. -/
theorem getD_insertIfNew (m : IntMap) (k : Int) : (m.insertIfNew k 0).getD k 0 = m.getD k 0 := by
  rw [Std.TreeMap.getD_insertIfNew]
  split
  · rename_i missing
    exact (Std.TreeMap.getD_eq_fallback missing.2).symm
  · rfl

/-- The decision moves the VM it names to `cpu`: the VM is on another node, `cpu` is the
first CPU of the node without an entry, and the VM could be pinned there. -/
structure Pins (nuiod : Nuiod D) (lists : List (List (Nat × D))) (env : PinEnv D)
    (entry : Decision × Nat) (vm : VmInfo D) (cpu : Nat) : Prop where
  tracked : nuiod.vmInfosMap[entry.1.domId]? = some vm
  handle : vm.domPtr ≠ none
  elsewhere : nuiod.cpuNodeMapping.getD vm.realCpuNo 0 ≠ entry.1.cpuNodeId
  target : ∃ cpus, vecAtInt lists entry.1.cpuNodeId = .ok cpus ∧
    targetCpuno nuiod.cpuVmMapping cpus = some cpu
  succeeded : env.pin entry.2 ≠ -1

/-- The call is for the CPU that was asked for, and libvirt's answer is what counts. -/
theorem pinVcpuTo_spec {cpuNumber vcpu cpu : Nat} {domPtr : Option DomainPtr} {answer ret : Int}
    {call : PinCall} (done : pinVcpuTo cpuNumber domPtr vcpu cpu answer = .ok (ret, call)) :
    call = ⟨domPtr, vcpu, cpu⟩ ∧ ret = call.ret answer := by
  unfold pinVcpuTo at done
  split at done
  · cases done
    exact ⟨rfl, rfl⟩
  · cases done

/-- A call succeeds for a valid domain, if libvirt does not refuse it. -/
theorem PinCall.ret_ne_neg_one {call : PinCall} {answer : Int} :
    call.ret answer ≠ -1 ↔ call.domain ≠ none ∧ answer ≠ -1 := by
  unfold PinCall.ret
  cases call.domain with
  | none => simp
  | some p => by_cases refused : answer = -1 <;> simp [refused]

/-- One decision: the VM moves by the call that is made, or nothing but the touch happens and
a call that is made fails. -/
theorem performActCall_spec {lists : List (List (Nat × D))} {env : PinEnv D}
    {nuiod nuiod' : Nuiod D} {entry : Decision × Nat} {made : Option PinCall}
    (done : performActCall lists env nuiod entry = .ok (nuiod', made)) :
    (∃ vm cpu, Pins nuiod lists env entry vm cpu ∧ made = some ⟨vm.domPtr, 0, cpu⟩ ∧
      nuiod' = (nuiod.touched env entry).changeCpuVmMapping entry.1.domId vm cpu) ∨
    ((∀ vm cpu, ¬ Pins nuiod lists env entry vm cpu) ∧
      (∀ call, made = some call → call.ret (env.pin entry.2) = -1) ∧
      nuiod' = nuiod.touched env entry) := by
  have read : ∀ vm, nuiod.vmInfosMap[entry.1.domId]? = some vm →
      nuiod.vmInfosMap.getD entry.1.domId (VmInfo.new (env.rest entry.2)) = vm := by
    intro vm tracked
    rw [Std.TreeMap.getD_eq_getD_getElem?, tracked, Option.getD_some]
  unfold performActCall at done
  simp only [getD_insertIfNew] at done
  split at done
  · rename_i atHome
    cases done
    refine .inr ⟨fun vm cpu pins => ?_, nofun, rfl⟩
    rw [read vm pins.tracked] at atHome
    exact pins.elsewhere atHome
  · rename_i away
    obtain ⟨cpus, listed, done⟩ := bind_eq_ok.mp done
    cases target : targetCpuno nuiod.cpuVmMapping cpus with
    | none =>
        simp only [target] at done
        cases done
        refine .inr ⟨fun vm cpu pins => ?_, nofun, rfl⟩
        obtain ⟨cpus', listed', target'⟩ := pins.target
        obtain rfl : cpus = cpus' := Except.ok.inj (listed.symm.trans listed')
        rw [target] at target'
        cases target'
    | some cpu =>
        simp only [target] at done
        obtain ⟨⟨ret, call⟩, pinned, done⟩ := bind_eq_ok.mp done
        obtain ⟨made, rfl⟩ := pinVcpuTo_spec pinned
        by_cases failed : call.ret (env.pin entry.2) = -1
        · simp only [failed, if_true] at done
          cases done
          refine .inr ⟨fun vm cpu pins => ?_, fun call' same => ?_, rfl⟩
          · rw [made, read vm pins.tracked] at failed
            exact PinCall.ret_ne_neg_one.mpr ⟨pins.handle, pins.succeeded⟩ failed
          · cases same
            exact failed
        · simp only [failed, if_false] at done
          obtain ⟨handle, succeeded⟩ := PinCall.ret_ne_neg_one.mp failed
          rw [made] at handle
          cases tracked : nuiod.vmInfosMap[entry.1.domId]? with
          | none =>
              -- the entry that `operator[]` makes has no domain
              refine absurd ?_ handle
              rw [Std.TreeMap.getD_eq_getD_getElem?, tracked]
              rfl
          | some vm =>
              rw [made, read vm tracked] at done
              rw [read vm tracked] at handle away
              cases done
              refine .inl ⟨vm, cpu, ⟨tracked, handle, away, ⟨cpus, listed, target⟩, succeeded⟩,
                rfl, ?_⟩
              simp only [touched, read vm tracked]

/-- One decision: the VM moves, or nothing but the touch happens. -/
theorem performAct_spec {lists : List (List (Nat × D))} {env : PinEnv D} {nuiod nuiod' : Nuiod D}
    {entry : Decision × Nat} (done : performAct lists env nuiod entry = .ok nuiod') :
    (∃ vm cpu, Pins nuiod lists env entry vm cpu ∧
      nuiod' = (nuiod.touched env entry).changeCpuVmMapping entry.1.domId vm cpu) ∨
    ((∀ vm cpu, ¬ Pins nuiod lists env entry vm cpu) ∧ nuiod' = nuiod.touched env entry) := by
  obtain ⟨⟨next, made⟩, called, stored⟩ := bind_eq_ok.mp done
  cases stored
  rcases performActCall_spec called with ⟨vm, cpu, pins, _, moved⟩ | ⟨none, _, stays⟩
  · exact .inl ⟨vm, cpu, pins, moved⟩
  · exact .inr ⟨none, stays⟩

end Double

end VNams.Nuiod
