import VNams.Lib.MapLoop
import VNams.Strategy.Classify

/-!
What `schedule` reads of a VM.

Six members, through the getters of `VM_info`: `view`. Maps whose VMs have the same views lead
to the same decisions, or to the same fault (`schedule_congr`).
-/

namespace VNams.Strategy

open Lib

variable {D : Type}

/-- The members of a VM that the strategy reads. -/
structure VmView (D : Type) where
  domId : Int
  packetsPerSec : D
  packetsPerSecHistory : D
  realCpuNo : Int
  realCpuUsage : D
  memMainNodeId : Int

def view (vm : VmInfo D) : VmView D :=
  ⟨vm.domId, vm.packetsPerSec, vm.packetsPerSecHistory, vm.realCpuNo, vm.realCpuUsage,
    vm.memMainNodeId⟩

/-- The VMs of the maps have the same views, in key order. -/
theorem values_congr {vms vms' : VmMap D} (same : AgreeUnder view vms vms') :
    vms.values.map view = vms'.values.map view := by
  have seconds := congrArg (List.map Prod.snd) same.toList
  rw [List.map_map, List.map_map] at seconds
  rw [values_eq_map_toList, values_eq_map_toList, List.map_map, List.map_map]
  exact seconds

/-- The same views are of the same ids. -/
theorem domIds_of_views {vms vms' : VmMap D} (same : AgreeUnder view vms vms') :
    AgreeUnder VmInfo.domId vms vms' := by
  intro k
  have ids := congrArg (Option.map VmView.domId) (same k)
  rwa [Option.map_map, Option.map_map] at ids

/-- A list shows the VM of an id under the same state. -/
theorem searchVm_congr {vms vms' : VmMap D} (same : AgreeUnder VmInfo.domId vms vms') (states : VmStateMap)
    (wanted : VmState) (ls : List Int) :
    searchVm vms states wanted ls = searchVm vms' states wanted ls := by
  induction ls with
  | nil => rfl
  | cons id rest ih =>
      unfold searchVm
      rcases same.cases id with ⟨found, found'⟩ | ⟨vm, vm', found, found', sameId⟩
      · rw [found, found']
      · rw [found, found']
        simp only [sameId, ih]

variable [Double D] {strategy : SimpleStrategy} {args : ScheduleArgs D}

theorem classifyVm_congr {vm vm' : VmInfo D} (same : view vm = view vm') (slot : VmState)
    (acc : Classified) :
    classifyVm strategy args slot vm acc = classifyVm strategy args slot vm' acc := by
  obtain ⟨id, rate, history, cpu, usage, home⟩ := VmView.mk.inj same
  have ioState : analyzeIOState strategy vm acc.vmStateMap
      = analyzeIOState strategy vm' acc.vmStateMap := by
    unfold analyzeIOState smoothedPps
    rw [id, rate, history]
  have smoothed : ∀ u, smoothedUsage u vm = smoothedUsage u vm' := by
    intro u
    unfold smoothedUsage
    rw [usage]
  unfold classifyVm
  rw [ioState, cpu]
  cases vecAtInt args.cpuUsage (vm'.realCpuNo + 1) with
  | error e => rfl
  | ok u =>
      simp only [bind, Except.bind]
      rw [smoothed u, id, home]

theorem classifyFrom_congr {vmStateSlot : Nat → VmState} {vms vms' : List (VmInfo D)}
    (same : vms.map view = vms'.map view) (i : Nat) (acc : Classified) :
    classifyFrom strategy args vmStateSlot i vms acc
      = classifyFrom strategy args vmStateSlot i vms' acc := by
  induction vms generalizing vms' i acc with
  | nil =>
      obtain rfl : vms' = [] := by simpa using same.symm
      rfl
  | cons vm rest ih =>
      obtain ⟨vm', rest', rfl, here, later⟩ := List.map_eq_cons_iff.mp same.symm
      simp only [classifyFrom, classifyVm_congr here.symm]
      congr 1
      funext acc'
      exact ih later.symm (i + 1) acc'

/-- The same with other VMs. -/
def ScheduleArgs.withVms (args : ScheduleArgs D) (vms : VmMap D) : ScheduleArgs D :=
  { args with vmInfosMap := vms }

variable {vms' : VmMap D} {vmStateSlot : Nat → VmState}

theorem classify_congr (same : AgreeUnder view args.vmInfosMap vms') :
    classify strategy (args.withVms vms') vmStateSlot = classify strategy args vmStateSlot := by
  have other : classify strategy (args.withVms vms') vmStateSlot
      = classifyFrom strategy args vmStateSlot 0 vms'.values
        ⟨List.replicate args.numaNumber [], ∅, false⟩ := by
    have step : ∀ (vms : List (VmInfo D)) i acc,
        classifyFrom strategy (args.withVms vms') vmStateSlot i vms acc
          = classifyFrom strategy args vmStateSlot i vms acc := by
      intro vms
      induction vms with
      | nil => exact fun _ _ => rfl
      | cons vm rest ih =>
          intro i acc
          simp only [classifyFrom, ih]
          rfl
    exact step vms'.values 0 _
  rw [other]
  exact (classifyFrom_congr (values_congr same) 0 _).symm

omit [Double D] in
theorem balanceStep_congr (same : AgreeUnder VmInfo.domId args.vmInfosMap vms') (states : VmStateMap)
    (ties : NodeSort) (b : Balancer) :
    balanceStep (args.withVms vms') states ties b = balanceStep args states ties b := by
  have search : searchVm (args.withVms vms').vmInfosMap = searchVm args.vmInfosMap := by
    funext states wanted ls
    exact (searchVm_congr same states wanted ls).symm
  unfold balanceStep balanceNetdev balanceMove
  rw [search]
  rfl

omit [Double D] in
theorem adjustNetdev_congr (same : AgreeUnder VmInfo.domId args.vmInfosMap vms') (states : VmStateMap)
    (b : Balancer) :
    adjustNetdev (args.withVms vms') states b = adjustNetdev args states b := by
  unfold adjustNetdev
  have netdev : (args.withVms vms').netdevNumanode = args.netdevNumanode := rfl
  have vms : (args.withVms vms').vmInfosMap = vms' := rfl
  rw [netdev, vms]
  split
  · cases vecAtInt b.vmOnNode args.netdevNumanode with
    | error e => rfl
    | ok onNetdev =>
        simp only [bind, Except.bind]
        split
        · cases vecAt b.vmOnNode b.highLoadNode with
          | error e => rfl
          | ok ls =>
              cases ls with
              | nil => rfl
              | cons vmId rest =>
                  rcases same.cases vmId with ⟨found, found'⟩ | ⟨vm, vm', found, found', sameId⟩
                  · simp only [found, found']
                  · simp only [found, found', sameId]
        · rfl
  · rfl

theorem analyze_congr (same : AgreeUnder view args.vmInfosMap vms') (ties : NodeSort) :
    analyze strategy (args.withVms vms') vmStateSlot ties
      = analyze strategy args vmStateSlot ties := by
  have ids := domIds_of_views same
  have steps : ∀ states, balanceStep (args.withVms vms') states ties
      = balanceStep args states ties := fun states =>
    funext fun b => balanceStep_congr ids states ties b
  have start : ∀ vmOnNode, Balancer.start (args.withVms vms') ties vmOnNode
      = Balancer.start args ties vmOnNode := fun _ => rfl
  simp only [analyze, classify_congr same, balance, start, steps, adjustNetdev_congr ids]

/-- The decisions depend on the views alone. -/
theorem schedule_congr (same : AgreeUnder view args.vmInfosMap vms') (ties : NodeSort) :
    schedule strategy (args.withVms vms') vmStateSlot ties
      = schedule strategy args vmStateSlot ties := by
  simp only [schedule, analyze_congr same]
  rfl

/-! ### What it reads of the strategy -/

theorem classifyFrom_strategy {strategy' : SimpleStrategy} {vms : List (VmInfo D)}
    (same : ∀ vm ∈ vms, analyzeIOState strategy vm = analyzeIOState strategy' vm) (i : Nat)
    (acc : Classified) :
    classifyFrom strategy args vmStateSlot i vms acc
      = classifyFrom strategy' args vmStateSlot i vms acc := by
  induction vms generalizing i acc with
  | nil => rfl
  | cons vm rest ih =>
      have here : classifyVm strategy args (vmStateSlot i) vm acc
          = classifyVm strategy' args (vmStateSlot i) vm acc := by
        simp only [classifyVm, same vm List.mem_cons_self]
      simp only [classifyFrom, here]
      congr 1
      funext acc'
      exact ih (fun vm mem => same vm (List.mem_cons_of_mem _ mem)) (i + 1) acc'

/-- Strategies that classify the VMs alike decide alike. -/
theorem schedule_strategy {strategy' : SimpleStrategy}
    (same : ∀ vm ∈ args.vmInfosMap.values,
      analyzeIOState strategy vm = analyzeIOState strategy' vm) (ties : NodeSort) :
    schedule strategy args vmStateSlot ties = schedule strategy' args vmStateSlot ties := by
  simp only [schedule, analyze, classify, classifyFrom_strategy same]

end VNams.Strategy
