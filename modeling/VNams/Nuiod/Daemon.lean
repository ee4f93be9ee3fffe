import VNams.Lib.MapLoop
import VNams.Nuiod.Domain
import VNams.Monitor.Io
import VNams.Monitor.Cpu
import VNams.Monitor.Perf
import VNams.Strategy.Simple

/-!
The daemon: its state, its initialisation, the event callback and the main loop.

Each operation takes what the outside world answers as an argument, and what an
uninitialised object happens to contain as a separate one (`Indeterminate`). libvirt calls
the event callback only from `virEventRunDefaultImpl`, in the loop's own thread, so a
round of `start` is a list of events followed by the four steps of the loop body.
-/

namespace VNams

open Lib.CText Monitor Strategy

/-- the main class of nuiod, with the `cpu_usage` vector that `start` keeps -/
structure Nuiod (D : Type) extends Nuiod.DomainConf where
  cpuNumber : Nat
  /-- which numa node the NIC attached to -/
  netdevNumanode : Int
  /-- Containing all running vm. Key=dom_id. -/
  vmInfosMap : VmMap D
  strategy : SimpleStrategy
  cpuMonitor : CpuMonitor D
  /-- The mapping of cpu and numa node number. -/
  cpuNodeMapping : IntMap
  /-- The mapping of real cpu number and VM id. -/
  cpuVmMapping : IntMap
  numaNodes : List (NumaNode D)
  cpuUsage : List D

namespace Nuiod

variable {D : Type}

/-! ### The CPU map -/

/-- Erase the entry of a CPU if it is the VM's own: a new mapping may have overwritten it. -/
def releaseCpu (cpuVmMapping : IntMap) (cpu domId : Int) : IntMap :=
  if cpuVmMapping[cpu]? = some domId then cpuVmMapping.erase cpu else cpuVmMapping

/-- Erase the old mapping if necessary, change `real_cpu_no`, and insert the new mapping
over an old one. -/
def changeCpuVmMapping (nuiod : Nuiod D) (key : Int) (vm : VmInfo D) (newCpu : Int) : Nuiod D :=
  { nuiod with
    vmInfosMap := nuiod.vmInfosMap.insert key { vm with realCpuNo := newCpu }
    cpuVmMapping :=
      (releaseCpu nuiod.cpuVmMapping vm.realCpuNo vm.domId).insert newCpu vm.domId }

/-- The loop body of `refresh_cpu_mapping` for one VM. -/
def refreshVm (report : Int → Option Int) (nuiod : Nuiod D) (key : Int) : Except Fault (Nuiod D) :=
  match nuiod.vmInfosMap[key]? with
  | none => .ok nuiod
  | some vm =>
      let ret := getVmRealCpu vm.domPtr (report key)
      if ret = -1 ∨ ret = vm.realCpuNo then .ok nuiod
      else .ok (nuiod.changeCpuVmMapping key vm ret)

/-- Refresh the cpu mapping; `report` is what `virDomainGetVcpus` answers for each VM. -/
def refreshCpuMapping (nuiod : Nuiod D) (report : Int → Option Int) : Except Fault (Nuiod D) :=
  nuiod.vmInfosMap.keys.foldlM (refreshVm report) nuiod

section Double

variable [Double D]

/-! ### Domains -/

/-- Put a new `VM_info` under the id and fill it in. -/
def addVm (nuiod : Nuiod D) (env : DomainEnv) (rest : Indeterminate D) (domId : Int) :
    Except Fault (Int × Nuiod D) := do
  let r ← setVmInfo nuiod.toDomainConf env (VmInfo.new rest) domId nuiod.cpuVmMapping
  .ok (r.1, { nuiod with
    vmInfosMap := nuiod.vmInfosMap.insert domId r.2.1
    cpuVmMapping := r.2.2 })

/-- What libvirt answers when the domains are listed. -/
structure Listing (D : Type) where
  /-- `virConnectNumOfDomains` -/
  domNum : Int
  /-- `virConnectListDomains`; `none` when it fails -/
  runningDomIds : Option (List Int)
  domain : Int → DomainEnv
  rest : Nat → Indeterminate D

/-- The loop body of `init_vminfo`. -/
def initDomain (listing : Listing D) (acc : Int × Nuiod D) (entry : Int × Nat) :
    Except Fault (Int × Nuiod D) := do
  let r ← acc.2.addVm (listing.domain entry.1) (listing.rest entry.2) entry.1
  .ok (if r.1 = -1 then -1 else acc.1, r.2)

/-- Initialize the VM info. A negative number of domains is an array length that `new`
refuses with an exception. -/
def initVminfo (nuiod : Nuiod D) (listing : Listing D) : Except Fault (Int × Nuiod D) :=
  if listing.domNum < 0 then .error .uncaught
  else
    match listing.runningDomIds with
    | none => .ok (0, nuiod)
    | some ids =>
        ((ids.take listing.domNum.toNat).zipIdx).foldlM (initDomain listing) (0, nuiod)

/-- A lifecycle event with what libvirt answers while it is handled. -/
structure Event where
  event : VirDomainEventType
  domId : Int
  domain : DomainEnv

/-- Remove the VM and, if it is its own, the mapping of its CPU. -/
def removeVm (nuiod : Nuiod D) (domId : Int) (vm : VmInfo D) : Nuiod D :=
  { nuiod with
    cpuVmMapping := releaseCpu nuiod.cpuVmMapping vm.realCpuNo vm.domId
    vmInfosMap := nuiod.vmInfosMap.erase domId }

/-- The events that are recorded in the VM. -/
def isRecorded : VirDomainEventType → Bool
  | .suspended | .resumed | .stopped | .shutdown | .crashed => true
  | _ => false

/-- Libvirt event call back. -/
def virVMEventCallBack (nuiod : Nuiod D) (e : Event) (rest : Indeterminate D) :
    Except Fault (Int × Nuiod D) :=
  if e.event = .started then do
    let r ← nuiod.addVm e.domain rest e.domId
    .ok (r.1, { r.2 with
      vmInfosMap := r.2.vmInfosMap.modify e.domId fun vm => { vm with vmEventState := e.event } })
  else if isRecorded e.event then
    match nuiod.vmInfosMap[e.domId]? with
    | none => .ok (-1, nuiod)
    | some vm =>
        if (vm.vmEventState = .shutdown ∨ vm.vmEventState = .stopped) ∧ e.event = .stopped then
          .ok (0, nuiod.removeVm e.domId vm)
        else
          .ok (0, { nuiod with
            vmInfosMap := nuiod.vmInfosMap.insert e.domId { vm with vmEventState := e.event } })
  else .ok (0, nuiod)

/-! ### Monitoring -/

/-- What the monitors read in one round. -/
structure MonitorEnv where
  io : Int → IoFiles
  procStat : ProcStat
  perfBuffer : Int → Text
  perfOutput : Int → Option Text

/-- `monitor_io`. -/
def monitorIo (env : MonitorEnv) (vms : VmMap D) : VmMap D :=
  vms.map fun id vm => (Monitor.monitorIo (env.io id) vm).2

/-- The loop body around `monitorPerfEvent`. -/
def perfVm (env : MonitorEnv) (id : Int) (vm : VmInfo D) : Except Fault (VmInfo D) := do
  let r ← monitorPerfEvent (env.perfBuffer id) (env.perfOutput id) vm
  .ok r.2

/-- Monitor all data. Nothing is discarded: `monitor_started` is never read. -/
def monitor (nuiod : Nuiod D) (env : MonitorEnv) : Except Fault (Nuiod D) := do
  let cpu ← getCpuUsage nuiod.cpuMonitor env.procStat nuiod.cpuUsage
  let vms ← Lib.visitAll (perfVm env) (monitorIo env nuiod.vmInfosMap)
  .ok { nuiod with vmInfosMap := vms, cpuMonitor := cpu.2.1, cpuUsage := cpu.2.2 }

/-! ### Decisions -/

/-- The arguments that the loop passes to the strategy. -/
def scheduleArgs (nuiod : Nuiod D) : ScheduleArgs D where
  vmInfosMap := nuiod.vmInfosMap
  cpuUsage := nuiod.cpuUsage
  numaNodes := nuiod.numaNodes
  numaNumber := nuiod.numaNumber
  netdevNumanode := nuiod.netdevNumanode

/-- The CPUs of a node with their usage, those that the vector covers. -/
def cpuList (cpuUsage : List D) (node : NumaNode D) : List (Nat × D) :=
  cpuUsage.tail.zipIdx.filterMap fun entry =>
    if entry.2 ∈ node.cpuIds then some (entry.2, entry.1) else none

/-- How `std::sort` orders CPUs of the same usage. -/
abbrev CpuSort (D : Type) [Double D] := Lib.UnstableSort (Nat × D) Lib.secondLt

/-- `node_sorted_cpu_list`: each node's cpus according to usage in ascending order. -/
def nodeSortedCpuList (nuiod : Nuiod D) (sort : CpuSort D) :
    Except Fault (List (List (Nat × D))) :=
  (List.range nuiod.numaNumber).mapM fun i => do
    let node ← vecAt nuiod.numaNodes i
    .ok (sort.order i (cpuList nuiod.cpuUsage node))

/-- Pick the first cpu which is not assigned to a VM. -/
def targetCpuno (cpuVmMapping : IntMap) (cpus : List (Nat × D)) : Option Nat :=
  (cpus.find? fun entry => !cpuVmMapping.contains (entry.1 : Int)).map Prod.fst

/-- A call of `virDomainPinVcpu` with a mask of one CPU. -/
structure PinCall where
  domain : Option DomainPtr
  vcpu : Nat
  cpu : Nat
  deriving DecidableEq

/-- What `pin_vcpu_to` returns after the call; `answer` is what libvirt returns for a valid
domain. -/
def PinCall.ret (call : PinCall) (answer : Int) : Int :=
  match call.domain with
  | none => -1
  | some _ => if answer = -1 then -1 else 0

/-- `Thread_migrate::pin_vcpu_to` one CPU, with the call that it makes. -/
def pinVcpuTo (cpuNumber : Nat) (domPtr : Option DomainPtr) (vcpu cpu : Nat) (answer : Int) :
    Except Fault (Int × PinCall) :=
  if cpu / 8 < cpuNumber / 8 + 1 then
    let call : PinCall := ⟨domPtr, vcpu, cpu⟩
    .ok (call.ret answer, call)
  else .error .indexOutOfRange

/-- What happens outside while decisions are performed, by position of the decision. -/
structure PinEnv (D : Type) where
  pin : Nat → Int
  rest : Nat → Indeterminate D

/-- The loop body of `perform`, with the call of libvirt that it makes. Reading `vm_infos_map`
and `cpu_node_mapping` with `operator[]` inserts a missing key. -/
def performActCall (lists : List (List (Nat × D))) (env : PinEnv D) (nuiod : Nuiod D)
    (entry : Decision × Nat) : Except Fault (Nuiod D × Option PinCall) :=
  let act := entry.1
  let vm := nuiod.vmInfosMap.getD act.domId (VmInfo.new (env.rest entry.2))
  let nuiod := { nuiod with
    vmInfosMap := nuiod.vmInfosMap.insertIfNew act.domId vm
    cpuNodeMapping := nuiod.cpuNodeMapping.insertIfNew vm.realCpuNo 0 }
  if nuiod.cpuNodeMapping.getD vm.realCpuNo 0 = act.cpuNodeId then .ok (nuiod, none)
  else do
    let cpus ← vecAtInt lists act.cpuNodeId
    match targetCpuno nuiod.cpuVmMapping cpus with
    | none => .ok (nuiod, none)
    | some cpu => do
        let r ← pinVcpuTo nuiod.cpuNumber vm.domPtr 0 cpu (env.pin entry.2)
        if r.1 = -1 then .ok (nuiod, some r.2)
        else .ok (nuiod.changeCpuVmMapping act.domId vm cpu, some r.2)

/-- The loop body of `perform`. -/
def performAct (lists : List (List (Nat × D))) (env : PinEnv D) (nuiod : Nuiod D)
    (entry : Decision × Nat) : Except Fault (Nuiod D) := do
  let r ← performActCall lists env nuiod entry
  .ok r.1

/-- perform the migrate action -/
def perform (nuiod : Nuiod D) (acts : List Decision) (sort : CpuSort D) (env : PinEnv D) :
    Except Fault (Nuiod D) := do
  let lists ← nuiod.nodeSortedCpuList sort
  acts.zipIdx.foldlM (performAct lists env) nuiod

/-! ### The operations and the rounds -/

/-- What the decisions of a round depend on besides the state. -/
structure StrategyEnv (D : Type) [Double D] where
  vmStateSlot : Nat → VmState
  ties : NodeSort
  sort : CpuSort D
  pins : PinEnv D

/-- The operations of the daemon. `decide` schedules and performs the decisions; `perform`
performs any decisions, as a strategy other than `SimpleStrategy` may make them. -/
inductive Op (D : Type) [Double D] where
  | event (e : Event) (rest : Indeterminate D)
  | refresh (report : Int → Option Int)
  | monitor (env : MonitorEnv)
  | decide (env : StrategyEnv D)
  | perform (acts : List Decision) (sort : CpuSort D) (pins : PinEnv D)

/-- `strategy->schedule` on the present state. -/
def scheduleActs (nuiod : Nuiod D) (env : StrategyEnv D) : Except Fault (List Decision) :=
  schedule nuiod.strategy nuiod.scheduleArgs env.vmStateSlot env.ties

def step (nuiod : Nuiod D) : Op D → Except Fault (Nuiod D)
  | .event e rest => do
      let r ← nuiod.virVMEventCallBack e rest
      .ok r.2
  | .refresh report => nuiod.refreshCpuMapping report
  | .monitor env => nuiod.monitor env
  | .decide env => do
      let acts ← nuiod.scheduleActs env
      nuiod.perform acts env.sort env.pins
  | .perform acts sort pins => nuiod.perform acts sort pins

/-- The inputs of one round of the loop in `start`. -/
structure Round (D : Type) [Double D] where
  events : List (Event × Indeterminate D)
  report : Int → Option Int
  monitor : MonitorEnv
  strategy : StrategyEnv D

/-- The operations of a round before the strategy is called. -/
def Round.measuring (round : Round D) : List (Op D) :=
  round.events.map (fun e : Event × Indeterminate D => Op.event e.1 e.2) ++
    [Op.refresh round.report, Op.monitor round.monitor]

/-- The operations of a round. -/
def Round.ops (round : Round D) : List (Op D) := round.measuring ++ [Op.decide round.strategy]

/-- One round of the loop in `start`. -/
def round (nuiod : Nuiod D) (round : Round D) : Except Fault (Nuiod D) :=
  round.ops.foldlM step nuiod

/-! ### Initialisation -/

/-- What `init` finds on the machine. -/
structure Machine (D : Type) [Double D] where
  listing : Listing D
  freshStats : Nat → CpuStat D
  procStat : ProcStat
  /-- `/sys/class/net/<netdev>/device/numa_node` -/
  netdevFile : Option Text
  /-- `numa_node_to_cpus`, in ascending order -/
  nodeCpus : Nat → Option (List Nat)
  numaLatency : Nat → Nat → D
  latencySort : Lib.UnstableSort (Nat × D) Lib.secondLt

/-- Return the nodes, or `none` if `get_node_cpus` failed. -/
def initNumaInfo (numaNumber : Nat) (machine : Machine D) : Option (List (NumaNode D)) :=
  (List.range numaNumber).mapM fun i => do
    let cpus ← machine.nodeCpus i
    some ⟨i, cpus, machine.latencySort.order i
      ((List.range numaNumber).map fun j => (j, machine.numaLatency i j))⟩

/-- The mapping of cpu and numa node, in the order of insertion. -/
def cpuNodes (nodes : List (NumaNode D)) : IntMap :=
  nodes.foldl (fun mapping node =>
    node.cpuIds.foldl (fun mapping cpu => mapping.insertIfNew (cpu : Int) node.nodeId) mapping) ∅

/-- The daemon before `init`: the members that `init` sets are still to be filled in. -/
def new (conf : DomainConf) (cpuNumber : Nat) (strategy : SimpleStrategy) : Nuiod D where
  toDomainConf := conf
  cpuNumber := cpuNumber
  netdevNumanode := 0
  vmInfosMap := ∅
  strategy := strategy
  cpuMonitor := ⟨cpuNumber, none⟩
  cpuNodeMapping := ∅
  cpuVmMapping := ∅
  numaNodes := []
  cpuUsage := []

/-- return -1 if failed, 0 if succeed -/
def init (nuiod : Nuiod D) (machine : Machine D) : Except Fault (Int × Nuiod D) := do
  let r ← nuiod.initVminfo machine.listing
  if r.1 ≠ 0 then .ok (-1, r.2)
  else do
    let monitor ← initCpuMonitor nuiod.cpuNumber machine.freshStats machine.procStat
    if monitor.1 ≠ 0 then .ok (-1, r.2)
    else
      match machine.netdevFile.bind scanInt, initNumaInfo nuiod.numaNumber machine with
      | some netdevNumanode, some nodes =>
          .ok (0, { r.2 with
            cpuMonitor := monitor.2
            netdevNumanode := netdevNumanode
            numaNodes := nodes
            cpuNodeMapping := cpuNodes nodes })
      | _, _ => .ok (-1, r.2)

end Double

end Nuiod

end VNams
