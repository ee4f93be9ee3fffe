import VNams.Strategy.Reads

/-!
What `analyze` makes of a VM.

A packet rate counts only by its comparison with the threshold, a CPU usage only by whether
the VM is idle: `sight`. The classification is a function of the sights (`classify_eq`), so
measurements that give the same sights lead to the same decisions (`analyze_sights`).
-/

namespace VNams.Strategy

open Lib

/-- What the classification loop takes from a VM. -/
structure Sight where
  domId : Int
  memMainNodeId : Int
  /-- the state that `analyzeIOState` stores, if it stores one -/
  ioState : Option VmState
  /-- whether the VM counts as idle; a fault if there is no usage of its CPU -/
  idle : Except Fault Bool
  /-- whether `vm_state` holds "idle" beforehand -/
  slotIdle : Bool

/-- The loop body on what it takes from a VM. -/
def Sight.classify (acc : Classified) (s : Sight) : Except Fault Classified := do
  let states := s.ioState.elim acc.vmStateMap fun state => acc.vmStateMap.insert s.domId state
  let idle ← s.idle
  let states := if idle then states.insert s.domId .idleStat else states
  if idle || s.slotIdle then .ok { acc with vmStateMap := states }
  else
    let home ← vecAtInt acc.vmOnNode s.memMainNodeId
    .ok ⟨acc.vmOnNode.set s.memMainNodeId.toNat (home ++ [s.domId]), states, true⟩

variable {D : Type} [Double D] {strategy : SimpleStrategy} {args : ScheduleArgs D}

def sight (strategy : SimpleStrategy) (args : ScheduleArgs D) (slot : VmState) (vm : VmInfo D) :
    Sight where
  domId := vm.domId
  memMainNodeId := vm.memMainNodeId
  ioState :=
    if Double.ofInt strategy.ioThreshold < smoothedPps vm then some .ioStat
    else if smoothedPps vm < Double.ofInt strategy.ioThreshold then some .otherStat
    else none
  idle := (vecAtInt args.cpuUsage (vm.realCpuNo + 1)).map fun usage =>
    decide (smoothedUsage usage vm ≤ Double.ofInt 8)
  slotIdle := decide (slot = .idleStat)

/-- The sights of the VMs, in the order of their ids. -/
def sights (strategy : SimpleStrategy) (args : ScheduleArgs D) (vmStateSlot : Nat → VmState) :
    List Sight :=
  args.vmInfosMap.values.zipIdx.map fun p => sight strategy args (vmStateSlot p.2) p.1

theorem classifyVm_eq (slot : VmState) (vm : VmInfo D) (acc : Classified) :
    classifyVm strategy args slot vm acc = (sight strategy args slot vm).classify acc := by
  have states : analyzeIOState strategy vm acc.vmStateMap =
      (sight strategy args slot vm).ioState.elim acc.vmStateMap
        fun state => acc.vmStateMap.insert vm.domId state := by
    simp only [analyzeIOState, sight]
    split
    · rfl
    · split
      · rfl
      · rfl
  unfold classifyVm Sight.classify
  rw [states]
  simp only [sight]
  cases vecAtInt args.cpuUsage (vm.realCpuNo + 1) with
  | error e => rfl
  | ok usage =>
      simp only [Except.map, bind, Except.bind]
      by_cases idle : smoothedUsage usage vm ≤ Double.ofInt 8
      · simp [idle]
      · simp [idle]

theorem classifyFrom_eq (vmStateSlot : Nat → VmState) (vms : List (VmInfo D)) (i : Nat)
    (acc : Classified) :
    classifyFrom strategy args vmStateSlot i vms acc =
      ((vms.zipIdx i).map fun p => sight strategy args (vmStateSlot p.2) p.1).foldlM
        Sight.classify acc := by
  induction vms generalizing i acc with
  | nil => rfl
  | cons vm rest ih =>
      rw [classifyFrom, classifyVm_eq, List.zipIdx_cons, List.map_cons, List.foldlM_cons]
      congr 1
      funext acc'
      exact ih (i + 1) acc'

/-- The lists and the states come from the sights. -/
theorem classify_eq (vmStateSlot : Nat → VmState) :
    classify strategy args vmStateSlot =
      (sights strategy args vmStateSlot).foldlM Sight.classify
        ⟨List.replicate args.numaNumber [], ∅, false⟩ :=
  classifyFrom_eq vmStateSlot _ 0 _

theorem sights_domId (vmStateSlot : Nat → VmState) :
    (sights strategy args vmStateSlot).map Sight.domId = args.vmInfosMap.values.map VmInfo.domId := by
  rw [sights, List.map_map]
  show (args.vmInfosMap.values.zipIdx.map (VmInfo.domId ∘ Prod.fst)) = _
  rw [← List.map_map, List.zipIdx_map_fst]

omit [Double D] in
/-- Maps of VMs with the same ids have the same keys. -/
theorem agree_of_domIds {vms vms' : VmMap D} (agree : KeysAgree vms) (agree' : KeysAgree vms')
    (same : vms.values.map VmInfo.domId = vms'.values.map VmInfo.domId) :
    AgreeUnder VmInfo.domId vms vms' := by
  have shown : ∀ {vms : VmMap D}, KeysAgree vms → ∀ k : Int,
      vms[k]?.map VmInfo.domId = if k ∈ vms.values.map VmInfo.domId then some k else none := by
    intro vms agree k
    cases found : vms[k]? with
    | none =>
        rw [if_neg, Option.map_none]
        rintro mem
        obtain ⟨vm, stored, isK⟩ := List.mem_map.mp mem
        obtain ⟨k', present⟩ := mem_values.mp stored
        rw [agree k' vm present] at isK
        rw [← isK, present] at found
        cases found
    | some vm =>
        have isK := agree k vm found
        rw [if_pos, Option.map_some, isK]
        exact List.mem_map.mpr ⟨vm, mem_values.mpr ⟨k, found⟩, isK⟩
  intro k
  rw [shown agree, shown agree', same]

/-- Other measurements of VMs with the same sights lead to the same decisions. -/
theorem analyze_sights {vms' : VmMap D} {cpuUsage' : List D}
    {vmStateSlot vmStateSlot' : Nat → VmState} (agree : KeysAgree args.vmInfosMap)
    (agree' : KeysAgree vms')
    (same : sights strategy { args with vmInfosMap := vms', cpuUsage := cpuUsage' } vmStateSlot' =
      sights strategy args vmStateSlot) (ties : NodeSort) :
    analyze strategy { args with vmInfosMap := vms', cpuUsage := cpuUsage' } vmStateSlot' ties =
      analyze strategy args vmStateSlot ties := by
  have domIds : args.vmInfosMap.values.map VmInfo.domId = vms'.values.map VmInfo.domId := by
    rw [← @sights_domId D _ strategy args vmStateSlot, ← same, sights_domId]
  have ids := agree_of_domIds agree agree' domIds
  have classes : classify strategy { args with vmInfosMap := vms', cpuUsage := cpuUsage' }
      vmStateSlot' = classify strategy args vmStateSlot := by
    rw [classify_eq, classify_eq, same]
  have steps : ∀ states, balanceStep { args with vmInfosMap := vms', cpuUsage := cpuUsage' } states
      ties = balanceStep args states ties := fun states =>
    funext fun b => balanceStep_congr ids states ties b
  have start : ∀ vmOnNode, Balancer.start { args with vmInfosMap := vms', cpuUsage := cpuUsage' }
      ties vmOnNode = Balancer.start args ties vmOnNode := fun _ => rfl
  have adjust : ∀ states b, adjustNetdev { args with vmInfosMap := vms', cpuUsage := cpuUsage' }
      states b = adjustNetdev args states b := fun states b => adjustNetdev_congr ids states b
  simp only [analyze, classes, balance, start, steps, adjust]

end VNams.Strategy
