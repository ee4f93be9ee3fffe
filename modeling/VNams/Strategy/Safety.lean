import VNams.Lib.Outcome
import VNams.Strategy.Classify
import VNams.Strategy.Iteration

/-!
`vm_infos_map.at` never throws.

The lists only ever hold ids of known VMs, on every machine: the netdev node need not be a
node here, and the latency lists need not cover anything. Where an index is out of range
the code faults in another way.
-/

namespace VNams.Strategy

open Lib

variable {D : Type}

/-- The fault that `at` has on a missing key. -/
abbrev Missing (e : Fault) : Prop := e = .mapAtMissing

theorem vecAt_meets {α : Type} (v : List α) (i : Nat) :
    Meets Missing (fun x => v[i]? = some x) (vecAt v i) := by
  unfold vecAt
  cases v[i]? with
  | none => exact Meets.error (by decide)
  | some x => exact Meets.ok rfl

theorem vecAtInt_meets {α : Type} (v : List α) (i : Int) :
    Meets Missing (fun x => v[i.toNat]? = some x) (vecAtInt v i) := by
  unfold vecAtInt
  split
  · exact vecAt_meets v i.toNat
  · exact Meets.error (by decide)

section Loop

variable {args : ScheduleArgs D} {states : VmStateMap} {ties : NodeSort} {b : Balancer}

/-- The listed VMs are known. -/
abbrev KnownLists (args : ScheduleArgs D) (vmOnNode : List (List Int)) : Prop :=
  Known args.vmInfosMap vmOnNode.flatten

theorem KnownLists.list {vmOnNode : List (List Int)} (known : KnownLists args vmOnNode)
    {node : Nat} {ls : List Int} (found : vmOnNode[node]? = some ls) : Known args.vmInfosMap ls :=
  fun id mem => known id (List.mem_flatten.mpr ⟨ls, List.mem_of_getElem? found, mem⟩)

/-- Moving a listed VM keeps the listed VMs known. -/
theorem moveVm_meets {vmOnNode : List (List Int)} (known : KnownLists args vmOnNode)
    {source pos : Nat} {ls : List Int} {vmId : Int} (onSource : vmOnNode[source]? = some ls)
    (here : ls[pos]? = some vmId) (target : Nat) :
    Meets Missing (KnownLists args) (moveVm vmOnNode source pos target vmId) := by
  cases done : moveVm vmOnNode source pos target vmId with
  | error e =>
      rintro rfl
      have meets : Meets Missing (fun _ => True) (moveVm vmOnNode source pos target vmId) :=
        (vecAt_meets _ _).bind fun _ _ => Meets.ok trivial
      exact meets.ne_error rfl done
  | ok moved' =>
      obtain ⟨rfl, inRange⟩ := moveVm_eq_ok done
      exact fun id mem => known id ((flatten_moved onSource here inRange).mem_iff.mp mem)

theorem nearestWith_meets (vmOnNode : List (List Int)) (cnt fallback : Nat)
    (lat : List (Nat × D)) :
    Meets Missing (fun _ => True) (nearestWith vmOnNode cnt fallback lat) := by
  induction lat with
  | nil => exact trivial
  | cons first rest ih =>
      refine (vecAt_meets _ _).bind fun ls _ => ?_
      split
      · exact trivial
      · exact ih

theorem rebuild_meets (numaNumber : Nat) :
    Meets Missing (fun b' => b'.vmOnNode = b.vmOnNode) (b.rebuild numaNumber ties) :=
  (vecAt_meets _ _).bind fun _ _ => (vecAt_meets _ _).bind fun _ _ => Meets.ok rfl

theorem nextNode_meets : Meets Missing (fun b' => b'.vmOnNode = b.vmOnNode) b.nextNode :=
  (vecAt_meets _ _).bind fun _ _ => (vecAt_meets _ _).bind fun _ _ => Meets.ok rfl

theorem moveNearest_meets (known : KnownLists args b.vmOnNode) {pos : Nat} {ls : List Int}
    {vmId : Int} (onHigh : b.vmOnNode[b.highLoadNode]? = some ls) (here : ls[pos]? = some vmId) :
    Meets Missing (fun b' => KnownLists args b'.vmOnNode) (b.moveNearest args pos vmId) :=
  (vecAt_meets _ _).bind fun _ _ => (nearestWith_meets _ _ _ _).bind fun target _ =>
    (moveVm_meets known onHigh here target).bind fun _ kept => Meets.ok kept

theorem balanceNetdev_meets (known : KnownLists args b.vmOnNode) :
    Meets Missing (fun b' => KnownLists args b'.vmOnNode) (balanceNetdev args states b) := by
  refine (vecAt_meets _ _).bind fun ls onHigh => ?_
  obtain ⟨found, searched, _, position⟩ :=
    vmIdFound_searchVm states .otherStat (known.list onHigh)
  rw [searched]
  simp only [bind, Except.bind]
  cases decided : vmIdFound found with
  | none => exact nextNode_meets.mono fun b' same => by rw [same]; exact known
  | some p => exact moveNearest_meets known onHigh (position p.1 p.2 decided).1

theorem balanceMove_meets (known : KnownLists args b.vmOnNode) :
    Meets Missing (fun b' => KnownLists args b'.vmOnNode) (balanceMove args states b) := by
  refine (vecAt_meets _ _).bind fun ls onHigh => ?_
  obtain ⟨found, searched, _, position⟩ := vmIdFound_searchVm states .ioStat (known.list onHigh)
  rw [searched]
  simp only [bind, Except.bind]
  cases decided : vmIdFound found with
  | none =>
      cases ls with
      | nil => exact Meets.error (by decide)
      | cons vmId rest => exact moveNearest_meets known onHigh rfl
  | some p =>
      have here := (position p.1 p.2 decided).1
      simp only
      split
      · refine (vecAtInt_meets _ _).bind fun onNetdev _ => ?_
        split
        · exact (moveVm_meets known onHigh here _).bind fun _ kept => Meets.ok kept
        · exact moveNearest_meets known onHigh here
      · exact moveNearest_meets known onHigh here

theorem balanceStep_meets (known : KnownLists args b.vmOnNode) :
    Meets Missing (fun b' => KnownLists args b'.vmOnNode) (balanceStep args states ties b) := by
  have entered : KnownLists args { b with flag := true }.vmOnNode := known
  unfold balanceStep
  simp only
  split
  · exact balanceNetdev_meets entered
  · refine (balanceMove_meets entered).bind fun b' kept => ?_
    exact (rebuild_meets _).mono fun b'' same => by rw [same]; exact kept

theorem balance_meets {vmOnNode : List (List Int)} (known : KnownLists args vmOnNode) :
    Meets Missing (fun b' => KnownLists args b'.vmOnNode) (balance args states ties vmOnNode) := by
  refine (rebuild_meets args.numaNumber).bind fun b same => ?_
  have start : KnownLists args b.vmOnNode := by rw [same]; exact known
  split
  · exact Meets.error (by decide)
  · rename_i result looped
    exact Meets.whileFuel (fun b kept _ => balanceStep_meets kept) start looped

theorem adjustNetdev_meets (known : KnownLists args b.vmOnNode) :
    Meets Missing (KnownLists args) (adjustNetdev args states b) := by
  unfold adjustNetdev
  split
  · refine (vecAtInt_meets _ _).bind fun onNetdev _ => ?_
    split
    · refine (vecAt_meets _ _).bind fun ls onHigh => ?_
      cases ls with
      | nil => exact Meets.error (by decide)
      | cons vmId rest =>
          obtain ⟨vm, present, _⟩ := known.list onHigh vmId List.mem_cons_self
          simp only [present]
          split
          · exact moveVm_meets known onHigh rfl _
          · exact known
    · exact known
  · exact known

end Loop

section Analyze

variable [Double D] {args : ScheduleArgs D} {strategy : SimpleStrategy}

theorem classifyFrom_meets (agree : KeysAgree args.vmInfosMap) (vmStateSlot : Nat → VmState)
    {vms : List (VmInfo D)} (tracked : ∀ vm ∈ vms, ∃ k : Int, args.vmInfosMap[k]? = some vm) (i : Nat)
    {acc : Classified} (known : KnownLists args acc.vmOnNode) :
    Meets Missing (fun c => KnownLists args c.vmOnNode)
      (classifyFrom strategy args vmStateSlot i vms acc) := by
  induction vms generalizing i acc with
  | nil => exact known
  | cons vm rest ih =>
      have own : ∃ vm', args.vmInfosMap[vm.domId]? = some vm' ∧ vm'.domId = vm.domId := by
        obtain ⟨k, present⟩ := tracked vm List.mem_cons_self
        have same := agree k vm present
        exact ⟨vm, by rw [same]; exact present, rfl⟩
      have one : Meets Missing (fun c => KnownLists args c.vmOnNode)
          (classifyVm strategy args (vmStateSlot i) vm acc) := by
        refine (vecAtInt_meets _ _).bind fun usage _ => ?_
        simp only
        by_cases skipped : (if smoothedUsage usage vm ≤ Double.ofInt 8 then VmState.idleStat
            else vmStateSlot i) = .idleStat
        · rw [if_pos skipped]
          exact known
        · rw [if_neg skipped]
          refine (vecAtInt_meets _ _).bind fun home onHome => ?_
          intro id mem
          obtain ⟨ls, listed, here⟩ := List.mem_flatten.mp mem
          rcases List.mem_or_eq_of_mem_set listed with old | rfl
          · exact known id (List.mem_flatten.mpr ⟨ls, old, here⟩)
          · rcases List.mem_append.mp here with before | isNew
            · exact known.list onHome id before
            · rw [List.mem_singleton.mp isNew]
              exact own
      exact one.bind fun c kept => ih (fun vm mem => tracked vm (List.mem_cons_of_mem _ mem)) _ kept

/-- `analyze` never looks up a missing id, and decides for known VMs only. -/
theorem analyze_meets (agree : KeysAgree args.vmInfosMap) (vmStateSlot : Nat → VmState)
    (ties : NodeSort) :
    Meets Missing (fun acts => ∀ act ∈ acts, ∃ vm, args.vmInfosMap[act.domId]? = some vm)
      (analyze strategy args vmStateSlot ties) := by
  have start : KnownLists args (List.replicate args.numaNumber []) := by
    intro id mem
    simp at mem
  refine (classifyFrom_meets agree vmStateSlot (fun vm mem => mem_values.mp mem) 0 start).bind
    fun c known => ?_
  split
  · exact Meets.ok fun act mem => by cases mem
  · refine (balance_meets known).bind fun b known => ?_
    refine (adjustNetdev_meets known).bind fun final known => Meets.ok fun act mem => ?_
    simp only [decisions, List.mem_flatMap, List.mem_map] at mem
    obtain ⟨p, listed, id, here, rfl⟩ := mem
    obtain ⟨vm, present, _⟩ :=
      known id (List.mem_flatten.mpr ⟨p.1, List.fst_mem_of_mem_zipIdx listed, here⟩)
    exact ⟨vm, present⟩

/-- The same of `schedule`, whose log reads usages only. -/
theorem schedule_meets (agree : KeysAgree args.vmInfosMap) (vmStateSlot : Nat → VmState)
    (ties : NodeSort) :
    Meets Missing (fun acts => ∀ act ∈ acts, ∃ vm, args.vmInfosMap[act.domId]? = some vm)
      (schedule strategy args vmStateSlot ties) := by
  have logged : Meets Missing (fun _ => True) ((List.range args.numaNumber).mapM fun node => do
      let info ← vecAt args.numaNodes node
      nodeTotalCpuUsage args.cpuUsage info.cpuIds) := by
    refine Meets.mapM fun node _ => (vecAt_meets _ _).bind fun info _ => ?_
    refine Meets.foldlM (fun sum cpuid _ _ => ?_) trivial
    exact (vecAt_meets _ _).bind fun _ _ => Meets.ok trivial
  exact logged.bind fun _ _ => analyze_meets agree vmStateSlot ties

end Analyze

end VNams.Strategy
