import VNams.Strategy.FarNic
import VNams.Strategy.FreeNic

/-!
Which element accesses of `schedule` are in bounds.

With the NIC on a node, all of them are as soon as the CPU numbers and the homes are. Without,
the list of the NIC may be looked at, and `NicNeeded` says of which VMs on which homes: the
condition reads the scheduled VMs only, and is exact over all orders of the ties.
-/

namespace VNams.Strategy

open Lib

variable {D : Type}

/-- Any fault but an access out of range. -/
abbrev Foreign (e : Fault) : Prop := e ≠ .indexOutOfRange

/-! ### The accesses of a round -/

section Schedule

variable [Double D] {strategy : SimpleStrategy} {args : ScheduleArgs D}
  {vmStateSlot : Nat → VmState} {ties : NodeSort}

omit [Double D] in
theorem vecAt_onlyIndex {α : Type} (v : List α) (i : Nat) :
    Meets Foreign (fun _ => True) (vecAt v i) := by
  unfold vecAt
  cases v[i]? with
  | none => exact Meets.error (not_not.mpr rfl)
  | some x => exact Meets.ok trivial

omit [Double D] in
theorem vecAtInt_onlyIndex {α : Type} (v : List α) (i : Int) :
    Meets Foreign (fun _ => True) (vecAtInt v i) := by
  unfold vecAtInt
  split
  · exact vecAt_onlyIndex v i.toNat
  · exact Meets.error (not_not.mpr rfl)

theorem classifyFrom_onlyIndex (vms : List (VmInfo D)) (i : Nat) (acc : Classified) :
    Meets Foreign (fun _ => True) (classifyFrom strategy args vmStateSlot i vms acc) := by
  induction vms generalizing i acc with
  | nil => exact trivial
  | cons vm rest ih =>
      have one : Meets Foreign (fun _ => True)
          (classifyVm strategy args (vmStateSlot i) vm acc) := by
        refine (vecAtInt_onlyIndex _ _).bind fun usage _ => ?_
        by_cases skipped : (if smoothedUsage usage vm ≤ Double.ofInt 8 then VmState.idleStat
            else vmStateSlot i) = .idleStat
        · simp only [skipped, if_true]
          exact trivial
        · simp only [skipped, if_false]
          exact (vecAtInt_onlyIndex _ _).bind fun home _ => Meets.ok trivial
      exact one.bind fun c _ => ih (i + 1) c

/-- The scheduled VMs whose home is `node`, in the order of their list. -/
def homedVms (args : ScheduleArgs D) (vmStateSlot : Nat → VmState) (node : Nat) :
    List (VmInfo D) :=
  (scheduled args vmStateSlot).filter fun vm => vm.memMainNodeId = (node : Int)

/-- The first IO intensive VM of the list is one that the search can report, as its id is not
-1. -/
def ShowsIoVm (strategy : SimpleStrategy) (vms : List (VmInfo D)) : Prop :=
  ∃ vm, vms.find? (fun vm => ioClass strategy vm = .ioStat) = some vm ∧ vm.domId ≠ -1

/-- For some order of the ties the list of the NIC is looked at. Either a node homes an IO
intensive VM, and levelling comes down to it: the VMs that the other nodes have above the
node's count do not fill every node up to one below it (the first `k` VMs of its list are those
in front of and with an IO intensive one of id -1, which leave unseen). Or VMs are scheduled,
and no two share a home. -/
def NicNeeded (strategy : SimpleStrategy) (args : ScheduleArgs D)
    (vmStateSlot : Nat → VmState) : Prop :=
  (∃ node < args.numaNumber, ∃ k, ShowsIoVm strategy ((homedVms args vmStateSlot node).drop k) ∧
    SinksTo (nodes args.numaNumber) (fun i => (homedVms args vmStateSlot i).length)
      ((homedVms args vmStateSlot node).length - k)) ∨
  (scheduled args vmStateSlot ≠ [] ∧
    ∀ node < args.numaNumber, (homedVms args vmStateSlot node).length ≤ 1)

/-- The search goes by the classes of the VMs. -/
theorem showsIo_map_iff {states : VmStateMap} {vms : List (VmInfo D)}
    (classes : ∀ vm ∈ vms, states.read vm.domId = ioClass strategy vm) :
    ShowsIo states (vms.map VmInfo.domId) ↔ ShowsIoVm strategy vms := by
  unfold ShowsIo ShowsIoVm
  induction vms with
  | nil => simp
  | cons vm rest ih =>
      have later := ih fun vm mem => classes vm (List.mem_cons_of_mem _ mem)
      have own := classes vm List.mem_cons_self
      by_cases isIo : ioClass strategy vm = .ioStat
      · simp [own, isIo]
      · simpa [own, isIo] using later

section Start

variable {c : Classified} {b : Balancer}

theorem Homed.shows_iff (homed : Homed strategy args vmStateSlot c) (node k : Nat) :
    ShowsIo c.vmStateMap ((homedOn node (scheduled args vmStateSlot)).drop k) ↔
      ShowsIoVm strategy ((homedVms args vmStateSlot node).drop k) := by
  rw [homedOn, ← List.map_drop]
  refine showsIo_map_iff fun vm mem => ?_
  exact homed.class_ vm (List.mem_filter.mp (List.mem_of_mem_drop mem)).1

/-- At the start nothing has left and nothing came. -/
theorem Homed.descent (homed : Homed strategy args vmStateSlot c) :
    Descent args.numaNumber c.vmStateMap (fun i => homedOn i (scheduled args vmStateSlot))
      (fun _ => 0) (fun _ => []) c.vmOnNode where
  lists i inRange := by
    rw [List.drop_zero, List.append_nil]
    exact homed.lists i inRange
  left_le _ _ := Nat.zero_le _
  hidden _ _ _ mem := absurd mem List.not_mem_nil
  sides := ⟨fun _ _ left => absurd rfl left, fun _ _ came => absurd rfl came⟩

/-- The levels that the loads at the start sink to are those of the homes. -/
theorem Homed.sinksTo_iff (homed : Homed strategy args vmStateSlot c) (level : Nat) :
    SinksTo (nodes args.numaNumber) (load c.vmOnNode) level ↔
      SinksTo (nodes args.numaNumber) (fun i => (homedVms args vmStateSlot i).length) level := by
  refine sinksTo_congr fun i mem => ?_
  rw [homed.load_eq (Finset.mem_range.mp mem), homedOn, List.length_map]
  rfl

end Start

/-- The list of the NIC is looked at under some order of the ties exactly when it is needed. -/
theorem consultsNic_iff {c : Classified} (lats : args.Latencies) (far : ¬ args.NicOnNode)
    (known : Known args.vmInfosMap c.vmOnNode.flatten) (homed : Homed strategy args vmStateSlot c)
    (listed : scheduled args vmStateSlot ≠ [])
    (homes : ∀ vm ∈ scheduled args vmStateSlot, HomeInRange args vm) :
    (∃ (ties : NodeSort) (b : Balancer), Balancer.start args ties c.vmOnNode = .ok b ∧
      ConsultsNic args c.vmStateMap ties b) ↔ NicNeeded strategy args vmStateSlot := by
  have size : ∀ node, (homedOn node (scheduled args vmStateSlot)).length
      = (homedVms args vmStateSlot node).length := fun node => List.length_map ..
  obtain ⟨vm, mem⟩ := List.exists_mem_of_ne_nil _ listed
  have homeLt := (homes vm mem).toNat_lt
  have nonempty := Nat.zero_lt_of_lt homeLt
  constructor
  · rintro ⟨ties, b, started, b', path, consulted⟩
    obtain ⟨b₀, started', fresh, same, lowered⟩ := start_far ties homed.length nonempty
    cases started.symm.trans started'
    rcases consulted with ⟨enter, finds⟩ | ⟨_, lowered', one⟩
    · by_contra notNeeded
      refine Unseen.no_finds ?_ lats far known fresh (same ▸ homed.descent) path enter finds
      intro node inRange k shows sinks
      rw [size, same, homed.sinksTo_iff] at sinks
      exact notNeeded (.inl ⟨node, inRange, k, (homed.shows_iff node k).mp shows, sinks⟩)
    · refine .inr ⟨listed, fun node inRange => ?_⟩
      rcases flag_of_path lats far known fresh path with rfl | raised
      · have top := fresh.cached.le_maxVmCnt fresh.last inRange
        rwa [one, same, homed.load_eq inRange, size] at top
      · cases lowered'.symm.trans raised
  · rintro (⟨node, inRange, k, shows, sinks⟩ | ⟨_, single⟩)
    · obtain ⟨b, started, fresh, same, _⟩ := start_far (nodeLast node) homed.length nonempty
      obtain ⟨b', path, enter, finds⟩ := exists_finds lats far known inRange
        ((homed.shows_iff node k).mpr shows) fresh (same ▸ homed.descent) (Nat.zero_le k) rfl
        (by rwa [size, same, homed.sinksTo_iff])
      exact ⟨nodeLast node, b, started, b', path, .inl ⟨enter, finds⟩⟩
    · obtain ⟨b, started, fresh, same, lowered⟩ := start_far (nodeLast 0) homed.length nonempty
      have home : vm.domId ∈ homedOn vm.memMainNodeId.toNat (scheduled args vmStateSlot) :=
        mem_homedOn.mpr ⟨vm, mem, (Int.toNat_of_nonneg (homes vm mem).1).symm, rfl⟩
      have loaded := List.length_pos_of_mem home
      have top := fresh.cached.le_maxVmCnt fresh.last homeLt
      have few := single _ fresh.cached.high_lt
      rw [same, homed.load_eq homeLt] at top
      rw [← size, ← homed.load_eq fresh.cached.high_lt, ← same, fresh.cached.maxVmCnt_eq] at few
      have level : b.unbalanced = false := by
        rw [Bool.eq_false_iff, ne_eq, fresh.cached.unbalanced_iff]
        omega
      exact ⟨nodeLast 0, b, started, b, .refl, .inr ⟨level, lowered, by omega⟩⟩

/-- Without a NIC node: `analyze` faults if the loop looks at the NIC's list, and else succeeds. -/
theorem analyze_far_of_ties {c : Classified} (lats : args.Latencies)
    (agree : KeysAgree args.vmInfosMap) (far : ¬ args.NicOnNode)
    (classified : classify strategy args vmStateSlot = .ok c)
    (listed : scheduled args vmStateSlot ≠ []) (ties : NodeSort) :
    ∃ b, Balancer.start args ties c.vmOnNode = .ok b ∧
      ((ConsultsNic args c.vmStateMap ties b ∧
        analyze strategy args vmStateSlot ties = .error .indexOutOfRange) ∨
      (¬ ConsultsNic args c.vmStateMap ties b ∧
        ∃ acts, analyze strategy args vmStateSlot ties = .ok acts)) := by
  have homed := classify_spec agree classified
  have raised : c.flag = true := by
    rw [homed.flag, Bool.not_eq_true', List.isEmpty_eq_false_iff]
    exact listed
  obtain ⟨vm, mem⟩ := List.exists_mem_of_ne_nil _ listed
  have homeLt := (((classify_isOk strategy).mp ⟨c, classified⟩).2 vm mem).toNat_lt
  have unfolded : analyze strategy args vmStateSlot ties
      = ((balance args c.vmStateMap ties c.vmOnNode >>= adjustNetdev args c.vmStateMap)
        >>= fun vmOnNode => .ok (decisions vmOnNode)) := by
    simp only [analyze, classified, raised, bind, Except.bind, Bool.true_eq_false, if_false]
    cases balance args c.vmStateMap ties c.vmOnNode with
    | error e => rfl
    | ok b => rfl
  obtain ⟨b, started, fresh, same, _⟩ :=
    start_far ties homed.length (Nat.zero_lt_of_lt homeLt)
  refine ⟨b, started, ?_⟩
  rw [unfolded]
  rcases balance_far c.vmStateMap lats far (homed.known agree) started fresh same with
    ⟨consults, faults⟩ | ⟨never, final, done⟩
  · rw [faults]
    exact .inl ⟨consults, rfl⟩
  · rw [done]
    exact .inr ⟨never, _, rfl⟩

/-- Which of the two happens under some order of the ties is decided by whether the list of the
NIC is needed. -/
theorem analyze_far {c : Classified} (lats : args.Latencies) (agree : KeysAgree args.vmInfosMap)
    (far : ¬ args.NicOnNode) (classified : classify strategy args vmStateSlot = .ok c)
    (listed : scheduled args vmStateSlot ≠ []) :
    (∀ ties, analyze strategy args vmStateSlot ties = .error .indexOutOfRange ∨
      ∃ acts, analyze strategy args vmStateSlot ties = .ok acts) ∧
    ((∀ ties, ∃ acts, analyze strategy args vmStateSlot ties = .ok acts) ↔
      ¬ NicNeeded strategy args vmStateSlot) := by
  have homed := classify_spec agree classified
  have known := homed.known agree
  have homes := ((classify_isOk strategy).mp ⟨c, classified⟩).2
  have decided := analyze_far_of_ties lats agree far classified listed
  constructor
  · intro ties
    obtain ⟨_, _, ⟨_, failed⟩ | ⟨_, done⟩⟩ := decided ties
    · exact .inl failed
    · exact .inr done
  · rw [← consultsNic_iff lats far known homed listed homes]
    constructor
    · rintro done ⟨ties, b, started, consults⟩
      obtain ⟨b', started', ⟨_, failed⟩ | ⟨never, _⟩⟩ := decided ties
      · obtain ⟨acts, returned⟩ := done ties
        cases failed.symm.trans returned
      · cases started.symm.trans started'
        exact never consults
    · intro never ties
      obtain ⟨b, started, ⟨consults, _⟩ | ⟨_, done⟩⟩ := decided ties
      · exact absurd ⟨ties, b, started, consults⟩ never
      · exact done

/-- Without a scheduled VM nothing is looked at. -/
theorem not_nicNeeded_of_idle (idle : scheduled args vmStateSlot = []) :
    ¬ NicNeeded strategy args vmStateSlot := by
  rintro (⟨node, _, k, ⟨vm, found, _⟩, _⟩ | ⟨some', _⟩)
  · have mem := List.mem_of_mem_drop (List.mem_of_find?_eq_some found)
    rw [homedVms, idle] at mem
    cases mem
  · exact some' idle

/-- After a classification that succeeds. -/
theorem analyze_of_classified {c : Classified} (lats : args.Latencies)
    (agree : KeysAgree args.vmInfosMap) (classified : classify strategy args vmStateSlot = .ok c) :
    (∀ ties, analyze strategy args vmStateSlot ties = .error .indexOutOfRange ∨
      ∃ acts, analyze strategy args vmStateSlot ties = .ok acts) ∧
    ((∀ ties, ∃ acts, analyze strategy args vmStateSlot ties = .ok acts) ↔
      (args.NicOnNode ∨ ¬ NicNeeded strategy args vmStateSlot)) := by
  by_cases onNode : args.NicOnNode
  · have done : ∀ ties, ∃ acts, analyze strategy args vmStateSlot ties = .ok acts := by
      intro ties
      obtain ⟨_, _, _, _, done⟩ :=
        analyze_of_classify ⟨lats, onNode.1, onNode.2⟩ agree ties classified
      exact ⟨_, done⟩
    exact ⟨fun ties => .inr (done ties), fun _ => .inl onNode, fun _ => done⟩
  by_cases idle : scheduled args vmStateSlot = []
  · have lowered : c.flag = false := by
      rw [(classify_spec agree classified).flag, idle]
      rfl
    have done : ∀ ties, ∃ acts, analyze strategy args vmStateSlot ties = .ok acts :=
      fun ties => ⟨[], by simp [analyze, classified, lowered, bind, Except.bind]⟩
    exact ⟨fun ties => .inr (done ties), fun _ => .inr (not_nicNeeded_of_idle idle),
      fun _ => done⟩
  · obtain ⟨kind, succeeds⟩ := analyze_far lats agree onNode classified idle
    exact ⟨kind, by rw [succeeds, or_iff_right onNode]⟩

/-- `analyze` faults with an access out of range, or succeeds; and it succeeds under every order
of the ties exactly when every CPU number is covered, every home it uses is a node, and the NIC
is on a node or its list is not needed. -/
theorem analyze_inBounds (strategy : SimpleStrategy) (lats : args.Latencies)
    (agree : KeysAgree args.vmInfosMap) (vmStateSlot : Nat → VmState) :
    (∀ ties, Meets Foreign (fun _ => True) (analyze strategy args vmStateSlot ties)) ∧
      ((∀ ties, ∃ acts, analyze strategy args vmStateSlot ties = .ok acts) ↔
        ((∀ vm ∈ args.vmInfosMap.values, Covered args vm) ∧
          ∀ vm ∈ scheduled args vmStateSlot, HomeInRange args vm) ∧
        (args.NicOnNode ∨ ¬ NicNeeded strategy args vmStateSlot)) := by
  rw [← classify_isOk strategy]
  cases classified : classify strategy args vmStateSlot with
  | error e =>
      have kind : Meets Foreign (fun _ => True) (classify strategy args vmStateSlot) :=
        classifyFrom_onlyIndex _ _ _
      rw [classified] at kind
      have failed : ∀ ties, analyze strategy args vmStateSlot ties = .error e := by
        intro ties
        simp [analyze, classified, bind, Except.bind]
      simp only [failed]
      refine ⟨fun _ => kind, fun done => ?_, fun free => ?_⟩
      · obtain ⟨_, returned⟩ := done (nodeLast 0)
        cases returned
      · obtain ⟨⟨_, returned⟩, _⟩ := free
        cases returned
  | ok c =>
      have isOk : ∃ c', Except.ok c = (Except.ok c' : Except Fault Classified) := ⟨c, rfl⟩
      obtain ⟨kind, succeeds⟩ := analyze_of_classified lats agree classified
      refine ⟨fun ties => ?_, succeeds.trans ⟨fun free => ⟨isOk, free⟩, And.right⟩⟩
      rcases kind ties with failed | ⟨acts, done⟩
      · rw [failed]
        exact Meets.error (not_not.mpr rfl)
      · rw [done]
        exact trivial

/-- The log of a node's load reads inside the vector exactly when that covers its CPUs. -/
theorem nodeTotalCpuUsage_isOk {cpuUsage : List D} {cpuIds : List Nat} :
    (∃ total, nodeTotalCpuUsage cpuUsage cpuIds = .ok total) ↔
      ∀ cpuid ∈ cpuIds, cpuid + 1 < cpuUsage.length := by
  unfold nodeTotalCpuUsage
  generalize (Double.ofInt 0 : D) = sum
  induction cpuIds generalizing sum with
  | nil => simp [pure, Except.pure]
  | cons cpuid rest ih =>
      rw [List.foldlM_cons, List.forall_mem_cons]
      cases read : cpuUsage[cpuid + 1]? with
      | none =>
          have beyond := List.getElem?_eq_none_iff.mp read
          simp [vecAt, read, bind, Except.bind]
          intro inRange
          omega
      | some usage =>
          obtain ⟨inRange, _⟩ := List.getElem?_eq_some_iff.mp read
          simp only [vecAt_eq_ok.mpr read, bind, Except.bind] at ih ⊢
          rw [ih]
          exact ⟨fun later => ⟨inRange, later⟩, And.right⟩

/-- The log of all nodes. -/
theorem log_isOk (lats : args.Latencies) :
    (∃ totals, ((List.range args.numaNumber).mapM fun node => do
      let info ← vecAt args.numaNodes node
      nodeTotalCpuUsage args.cpuUsage info.cpuIds) = .ok totals) ↔
    ∀ node ∈ args.numaNodes, ∀ cpuid ∈ node.cpuIds, cpuid + 1 < args.cpuUsage.length := by
  rw [Meets.mapM_isOk]
  constructor
  · intro logged info mem
    obtain ⟨node, listed⟩ := List.mem_iff_getElem?.mp mem
    obtain ⟨inRange, _⟩ := List.getElem?_eq_some_iff.mp listed
    rw [lats.numaNodes_length] at inRange
    obtain ⟨total, summed⟩ := logged node (List.mem_range.mpr inRange)
    rw [vecAt_eq_ok.mpr listed] at summed
    exact nodeTotalCpuUsage_isOk.mp ⟨total, summed⟩
  · intro covered node mem
    have inRange : node < args.numaNodes.length := by
      rw [lats.numaNodes_length]
      exact List.mem_range.mp mem
    rw [vecAt_eq_ok.mpr (List.getElem?_eq_getElem inRange)]
    exact nodeTotalCpuUsage_isOk.mpr (covered _ (List.getElem_mem inRange))

/-- The conditions under which every element access of a round is within bounds. -/
structure InBounds (strategy : SimpleStrategy) (args : ScheduleArgs D)
    (vmStateSlot : Nat → VmState) : Prop where
  nodeCpus : ∀ node ∈ args.numaNodes, ∀ cpuid ∈ node.cpuIds, cpuid + 1 < args.cpuUsage.length
  vmCpus : ∀ vm ∈ args.vmInfosMap.values, Covered args vm
  homes : ∀ vm ∈ scheduled args vmStateSlot, HomeInRange args vm
  nic : args.NicOnNode ∨ ¬ NicNeeded strategy args vmStateSlot

/-- `schedule` faults with an access out of range, or succeeds; and it succeeds under every order
of the ties exactly in bounds. -/
theorem schedule_inBounds (strategy : SimpleStrategy) (lats : args.Latencies)
    (agree : KeysAgree args.vmInfosMap) (vmStateSlot : Nat → VmState) :
    (∀ ties, Meets Foreign (fun _ => True) (schedule strategy args vmStateSlot ties)) ∧
      ((∀ ties, ∃ acts, schedule strategy args vmStateSlot ties = .ok acts) ↔
        InBounds strategy args vmStateSlot) := by
  obtain ⟨kind, succeeds⟩ := analyze_inBounds strategy lats agree vmStateSlot
  constructor
  · intro ties
    have logged : Meets Foreign (fun _ => True) ((List.range args.numaNumber).mapM fun node => do
        let info ← vecAt args.numaNodes node
        nodeTotalCpuUsage args.cpuUsage info.cpuIds) := by
      refine Meets.mapM fun node _ => (vecAt_onlyIndex _ _).bind fun info _ => ?_
      refine Meets.foldlM (fun sum cpuid _ _ => ?_) trivial
      exact (vecAt_onlyIndex _ _).bind fun _ _ => Meets.ok trivial
    exact logged.bind fun _ _ => kind ties
  · have unfolded : (∀ ties, ∃ acts, schedule strategy args vmStateSlot ties = .ok acts) ↔
        (∀ node ∈ args.numaNodes, ∀ cpuid ∈ node.cpuIds, cpuid + 1 < args.cpuUsage.length) ∧
          ∀ ties, ∃ acts, analyze strategy args vmStateSlot ties = .ok acts := by
      rw [← log_isOk lats]
      unfold schedule
      simp only [bind_eq_ok]
      constructor
      · intro done
        obtain ⟨_, totals, logged, _⟩ := done (nodeLast 0)
        refine ⟨⟨totals, logged⟩, fun ties => ?_⟩
        obtain ⟨acts, _, _, analyzed⟩ := done ties
        exact ⟨acts, analyzed⟩
      · rintro ⟨⟨totals, logged⟩, analyzed⟩ ties
        obtain ⟨acts, returned⟩ := analyzed ties
        exact ⟨acts, totals, logged, returned⟩
    rw [unfolded, succeeds]
    constructor
    · rintro ⟨nodeCpus, ⟨vmCpus, homes⟩, nic⟩
      exact ⟨nodeCpus, vmCpus, homes, nic⟩
    · rintro ⟨nodeCpus, vmCpus, homes, nic⟩
      exact ⟨nodeCpus, ⟨vmCpus, homes⟩, nic⟩

end Schedule

end VNams.Strategy
