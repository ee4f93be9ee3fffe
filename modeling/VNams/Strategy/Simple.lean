import VNams.Types
import VNams.Lib.Loop
import VNams.Lib.UnstableSort

/-!
`SimpleStrategy`: the scheduling decisions of one round.

`analyze` lists the VMs that are not idle on their home nodes, levels the lists by
moving one VM at a time from the fullest node to a least loaded one, gives a free NIC
node one IO intensive VM in the case the loop never entered, and emits one decision
for each VM listed.

Two things are parameters because the code leaves them open: `vmStateSlot` is what the
uninitialised local `vm_state` holds when an iteration of the classification loop
starts, and `ties` is how `std::sort` orders nodes with equally many VMs.
-/

namespace VNams.Strategy

open Lib

variable {D : Type} [Double D]

/-- The strategy object; the constructor sets `io_threshold` to 100000. -/
structure SimpleStrategy where
  ioThreshold : Int := 100000

/-- The arguments of `schedule` and `analyze`. -/
structure ScheduleArgs (D : Type) where
  vmInfosMap : VmMap D
  cpuUsage : List D
  numaNodes : List (NumaNode D)
  numaNumber : Nat
  netdevNumanode : Int

/-- The map from VM id to state. Reading it with `operator[]` stores `ioStat` under a
missing key, which no later read can tell from the key being missing. -/
abbrev VmStateMap := Std.TreeMap Int VmState

/-- The order `std::sort` gives to (node, number of VMs) pairs. -/
abbrev NodeSort := UnstableSort (Nat × Nat) secondLt

def VmStateMap.read (states : VmStateMap) (id : Int) : VmState := states.getD id .ioStat

/-! ### Classification -/

/-- The smoothing factor: `SMOOTH_DEC_FACTOR` when the value falls, else
`SMOOTH_FACTOR`. -/
def smoothFactor (new old : D) : D :=
  if new < old then Double.lit 85 100 else Double.lit 4 10

/-- The smoothed packet rate. -/
def smoothedPps (vm : VmInfo D) : D :=
  let factor := smoothFactor vm.packetsPerSec vm.packetsPerSecHistory
  vm.packetsPerSecHistory * factor + vm.packetsPerSec * (Double.ofInt 1 - factor)

/-- Analyze the IO state for a VM: a rate equal to the threshold leaves the map as
it is. -/
def analyzeIOState (strategy : SimpleStrategy) (vm : VmInfo D) (states : VmStateMap) :
    VmStateMap :=
  if Double.ofInt strategy.ioThreshold < smoothedPps vm then states.insert vm.domId .ioStat
  else if smoothedPps vm < Double.ofInt strategy.ioThreshold then
    states.insert vm.domId .otherStat
  else states

/-- The smoothed CPU usage. -/
def smoothedUsage (newCpuUsage : D) (vm : VmInfo D) : D :=
  let factor := smoothFactor newCpuUsage vm.realCpuUsage
  factor * vm.realCpuUsage + (Double.ofInt 1 - factor) * newCpuUsage

/-- What the classification loop builds. -/
structure Classified where
  vmOnNode : List (List Int)
  vmStateMap : VmStateMap
  flag : Bool

/-- One iteration of the classification loop. `slot` is the content of the local
`vm_state`, which is only assigned when the VM is found idle. -/
def classifyVm (strategy : SimpleStrategy) (args : ScheduleArgs D) (slot : VmState)
    (vm : VmInfo D) (acc : Classified) : Except Fault Classified := do
  let states := analyzeIOState strategy vm acc.vmStateMap
  let newCpuUsage ← vecAtInt args.cpuUsage (vm.realCpuNo + 1)
  let idle := smoothedUsage newCpuUsage vm ≤ Double.ofInt 8
  let states := if idle then states.insert vm.domId .idleStat else states
  let vmState := if idle then VmState.idleStat else slot
  if vmState = .idleStat then .ok { acc with vmStateMap := states }
  else
    let home ← vecAtInt acc.vmOnNode vm.memMainNodeId
    .ok ⟨acc.vmOnNode.set vm.memMainNodeId.toNat (home ++ [vm.domId]), states, true⟩

/-- The classification loop over the remaining VMs, from iteration `i` on. -/
def classifyFrom (strategy : SimpleStrategy) (args : ScheduleArgs D)
    (vmStateSlot : Nat → VmState) :
    Nat → List (VmInfo D) → Classified → Except Fault Classified
  | _, [], acc => .ok acc
  | i, vm :: rest, acc => do
      let acc ← classifyVm strategy args (vmStateSlot i) vm acc
      classifyFrom strategy args vmStateSlot (i + 1) rest acc

def classify (strategy : SimpleStrategy) (args : ScheduleArgs D)
    (vmStateSlot : Nat → VmState) : Except Fault Classified :=
  classifyFrom strategy args vmStateSlot 0 args.vmInfosMap.values
    ⟨List.replicate args.numaNumber [], ∅, false⟩

/-! ### The balancing loop -/

/-- The number of VMs on a node. -/
def load (vmOnNode : List (List Int)) (node : Nat) : Nat := (vmOnNode.getD node []).length

/-- The locals of the balancing loop, with the number of sorts done so far. -/
structure Balancer where
  vmOnNode : List (List Int)
  nodeVmVec : List (Nat × Nat)
  maxVmIdx : Nat
  highLoadNode : Nat
  maxVmCnt : Nat
  minVmCnt : Nat
  minLoadNode : Nat
  flag : Bool
  sorts : Nat

/-- Construct `node_vm_vec` and the cached counts from the lists. -/
def Balancer.rebuild (numaNumber : Nat) (ties : NodeSort) (b : Balancer) :
    Except Fault Balancer := do
  let counts := (List.range numaNumber).map fun node => (node, load b.vmOnNode node)
  let vec := ties.order b.sorts counts
  let high ← vecAt vec (vec.length - 1)
  let low ← vecAt vec 0
  .ok { b with
    nodeVmVec := vec
    maxVmIdx := vec.length - 1
    highLoadNode := high.1
    maxVmCnt := high.2
    minVmCnt := low.2
    minLoadNode := low.1
    sorts := b.sorts + 1 }

/-- The loop test; the difference is unsigned. -/
def Balancer.unbalanced (b : Balancer) : Bool :=
  1 < b.maxVmCnt && 1 < unsignedSub b.maxVmCnt b.minVmCnt

/-- The first VM of a list that is in the wanted state, with its position. -/
def searchVm (vms : VmMap D) (states : VmStateMap) (wanted : VmState) :
    List Int → Except Fault (Option (Nat × Int))
  | [] => .ok none
  | id :: rest =>
      match vms[id]? with
      | none => .error .mapAtMissing
      | some vm =>
          if states.read vm.domId = wanted then .ok (some (0, id))
          else do
            let found ← searchVm vms states wanted rest
            .ok (found.map fun p => (p.1 + 1, p.2))

/-- The search leaves -1 in `vm_id` when it finds nothing, so a VM with that id counts
as not found. -/
def vmIdFound (found : Option (Nat × Int)) : Option (Nat × Int) :=
  found.filter fun p => p.2 ≠ -1

/-- Search from the nearest node on for one with `cnt` VMs; when there is none the node
remembered in `min_load_node` stays. -/
def nearestWith (vmOnNode : List (List Int)) (cnt minLoadNode : Nat) :
    List (Nat × D) → Except Fault Nat
  | [] => .ok minLoadNode
  | (node, _) :: rest => do
      let ls ← vecAt vmOnNode node
      if ls.length = cnt then .ok node else nearestWith vmOnNode cnt minLoadNode rest

/-- `vm_id_ls.erase(vm_it); vm_on_node[target].push_back(vm_id);` where `vm_id_ls` is the
list of `source`. -/
def moveVm (vmOnNode : List (List Int)) (source pos target : Nat) (vmId : Int) :
    Except Fault (List (List Int)) := do
  let erased := vmOnNode.modify source fun ls => ls.eraseIdx pos
  let _ ← vecAt erased target
  .ok (erased.modify target fun ls => ls ++ [vmId])

/-- All VMs of the NIC node are IO intensive: go on with the next node. -/
def Balancer.nextNode (b : Balancer) : Except Fault Balancer := do
  -- max_vm_idx-- with -1 put back to 0
  let idx := b.maxVmIdx - 1
  let high ← vecAt b.nodeVmVec idx
  let low ← vecAt b.nodeVmVec 0
  .ok { b with
    maxVmIdx := idx, maxVmCnt := high.2, highLoadNode := high.1, minVmCnt := low.2 }

/-- Move the VM at `pos` to the nearest node at the minimum, and remember that node. -/
def Balancer.moveNearest (args : ScheduleArgs D) (b : Balancer) (pos : Nat) (vmId : Int) :
    Except Fault Balancer := do
  let node ← vecAt args.numaNodes b.highLoadNode
  let target ← nearestWith b.vmOnNode b.minVmCnt b.minLoadNode node.sortedLatNodeList
  let vmOnNode ← moveVm b.vmOnNode b.highLoadNode pos target vmId
  .ok { b with vmOnNode := vmOnNode, minLoadNode := target }

/-- The branch for a NIC node with no more than two VMs. It does not rebuild the
cached counts. -/
def balanceNetdev (args : ScheduleArgs D) (states : VmStateMap) (b : Balancer) :
    Except Fault Balancer := do
  let ls ← vecAt b.vmOnNode b.highLoadNode
  let found ← searchVm args.vmInfosMap states .otherStat ls
  match vmIdFound found with
  | none => b.nextNode
  | some (pos, vmId) => b.moveNearest args pos vmId

/-- The branch for every other node, up to the rebuild: migrate an IO intensive VM
first, to the NIC node if that is at the minimum. -/
def balanceMove (args : ScheduleArgs D) (states : VmStateMap) (b : Balancer) :
    Except Fault Balancer := do
  let ls ← vecAt b.vmOnNode b.highLoadNode
  let found ← searchVm args.vmInfosMap states .ioStat ls
  match vmIdFound found with
  | some (pos, vmId) =>
      if args.netdevNumanode ≠ b.highLoadNode then do
        let onNetdev ← vecAtInt b.vmOnNode args.netdevNumanode
        if onNetdev.length = b.minVmCnt then do
          let vmOnNode ← moveVm b.vmOnNode b.highLoadNode pos args.netdevNumanode.toNat vmId
          .ok { b with vmOnNode := vmOnNode }
        else b.moveNearest args pos vmId
      else b.moveNearest args pos vmId
  | none =>
      match ls with
      | [] => .error .emptyList
      | vmId :: _ => b.moveNearest args 0 vmId

/-- One iteration of the balancing loop. -/
def balanceStep (args : ScheduleArgs D) (states : VmStateMap) (ties : NodeSort)
    (b : Balancer) : Except Fault Balancer :=
  let b := { b with flag := true }
  if (b.highLoadNode : Int) = args.netdevNumanode ∧ b.maxVmCnt ≤ 2 then
    balanceNetdev args states b
  else do
    let b ← balanceMove args states b
    b.rebuild args.numaNumber ties

/-- Enough iterations for every run of the loop (`balance_total`). -/
def balanceFuel (vmOnNode : List (List Int)) : Nat := 5 * vmOnNode.flatten.length ^ 2 + 4

/-- The state in which the loop is entered. -/
def Balancer.start (args : ScheduleArgs D) (ties : NodeSort) (vmOnNode : List (List Int)) :
    Except Fault Balancer :=
  Balancer.rebuild args.numaNumber ties ⟨vmOnNode, [], 0, 0, 0, 0, 0, false, 0⟩

def balance (args : ScheduleArgs D) (states : VmStateMap) (ties : NodeSort)
    (vmOnNode : List (List Int)) : Except Fault Balancer := do
  let b ← Balancer.start args ties vmOnNode
  match whileFuel Balancer.unbalanced (balanceStep args states ties) (balanceFuel vmOnNode) b with
  | none => .error .diverges
  | some result => result

/-! ### The NIC node and the decisions -/

/-- When the loop was never entered the NIC node may still be free: move the first VM
of the last node there, if it is IO intensive. -/
def adjustNetdev (args : ScheduleArgs D) (states : VmStateMap) (b : Balancer) :
    Except Fault (List (List Int)) :=
  if b.flag = false ∧ b.maxVmCnt = 1 then do
    let onNetdev ← vecAtInt b.vmOnNode args.netdevNumanode
    if onNetdev.length = 0 then do
      let ls ← vecAt b.vmOnNode b.highLoadNode
      match ls with
      | [] => .error .emptyList
      | vmId :: _ =>
          match args.vmInfosMap[vmId]? with
          | none => .error .mapAtMissing
          | some vm =>
              if states.read vm.domId = .ioStat then
                moveVm b.vmOnNode b.highLoadNode 0 args.netdevNumanode.toNat vmId
              else .ok b.vmOnNode
    else .ok b.vmOnNode
  else .ok b.vmOnNode

/-- The result list. -/
def decisions (vmOnNode : List (List Int)) : List Decision :=
  vmOnNode.zipIdx.flatMap fun p => p.1.map fun id => ⟨id, p.2, p.2⟩

/-- Analyze the monitoring data and make migration decisions. -/
def analyze (strategy : SimpleStrategy) (args : ScheduleArgs D) (vmStateSlot : Nat → VmState)
    (ties : NodeSort) : Except Fault (List Decision) := do
  let c ← classify strategy args vmStateSlot
  if c.flag = false then .ok []
  else do
    let b ← balance args c.vmStateMap ties c.vmOnNode
    let vmOnNode ← adjustNetdev args c.vmStateMap b
    .ok (decisions vmOnNode)

/-- The CPU usage of a node that `schedule` logs. -/
def nodeTotalCpuUsage (cpuUsage : List D) (cpuIds : List Nat) : Except Fault D :=
  cpuIds.foldlM (fun sum cpuid => do
    let usage ← vecAt cpuUsage (cpuid + 1)
    .ok (sum + usage)) (Double.ofInt 0)

/-- Log the load of every node, then analyze. -/
def schedule (strategy : SimpleStrategy) (args : ScheduleArgs D) (vmStateSlot : Nat → VmState)
    (ties : NodeSort) : Except Fault (List Decision) := do
  let _ ← (List.range args.numaNumber).mapM fun node => do
    let info ← vecAt args.numaNodes node
    nodeTotalCpuUsage args.cpuUsage info.cpuIds
  analyze strategy args vmStateSlot ties

end VNams.Strategy
