import Mathlib.Data.List.ProdSigma
import VNams.Lib.Interleave
import VNams.Lib.Outcome
import VNams.Nuiod.Boot

/-!
The two threads of `init`.

Measuring the latencies takes a long time, so `init` leaves `init_numa_info` to a thread of
its own and waits for it at the end. No lock is taken: the thread writes `numa_nodes`,
`cpu_node_mapping` and `numa_latency`, and nothing that `init` calls meanwhile looks at them
(`main_numa_commuting`). So every schedule comes to what the sequential `init` comes to
(`init_schedules`).
-/

namespace VNams.Nuiod

open Lib CText Monitor Strategy

variable {D : Type}

/-- What only the thread works on, and what it returns. -/
structure NumaInfo (D : Type) where
  numaNodes : List (NumaNode D)
  cpuNodeMapping : IntMap
  numaLatency : Nat → Nat → D
  /-- `tret`: none as long as the thread runs -/
  tret : Option Int

/-- The daemon while `init` runs. -/
structure Starting (D : Type) where
  nuiod : Nuiod D
  numaLatency : Nat → Nat → D
  tret : Option Int
  /-- `ret` of `init_vminfo` -/
  flag : Int
  /-- what `init` has returned before it comes to `pthread_join` -/
  ret : Option Int
  /-- `init` has come to `pthread_join` -/
  joining : Bool

/-- The commands of `init` after `pthread_create`. -/
inductive MainAct where
  | listDomains
  /-- the loop body of `init_vminfo` for an id and its position -/
  | addDomain (entry : Int × Nat)
  | endVminfo
  | initCpuMonitor
  | readNetdev
  | join

/-- The commands of `init_numa_info`. -/
inductive NumaAct where
  | allocate
  | getNodeCpus (i : Nat)
  | mapCpu (i cpu : Nat)
  | latency (i j : Nat)
  | sortLatencies (i : Nat)
  | finish

/-- The members of the thread. -/
def Starting.numaInfo (s : Starting D) : NumaInfo D :=
  ⟨s.nuiod.numaNodes, s.nuiod.cpuNodeMapping, s.numaLatency, s.tret⟩

/-- The same with other values in them. -/
def Starting.withNuma (s : Starting D) (info : NumaInfo D) : Starting D :=
  { s with
    nuiod := { s.nuiod with
      numaNodes := info.numaNodes
      cpuNodeMapping := info.cpuNodeMapping }
    numaLatency := info.numaLatency
    tret := info.tret }

section Double

variable [Double D]

/-! ### The threads -/

/-- The ids that `init_vminfo` goes through, with their positions. -/
def Listing.entries (listing : Listing D) : List (Int × Nat) :=
  match listing.runningDomIds with
  | none => []
  | some ids => (ids.take listing.domNum.toNat).zipIdx

/-- `init` in its own thread. -/
def mainActs (machine : Machine D) : List MainAct :=
  .listDomains :: machine.listing.entries.map .addDomain ++
    [.endVminfo, .initCpuMonitor, .readNetdev, .join]

/-- A command of `init`; after a return there is none left. -/
def mainAct (machine : Machine D) (s : Starting D) (act : MainAct) : Except Fault (Starting D) :=
  if s.ret.isSome then .ok s
  else
    match act with
    | .listDomains => if machine.listing.domNum < 0 then .error .uncaught else .ok s
    | .addDomain entry => do
        let r ← initDomain machine.listing (s.flag, s.nuiod) entry
        .ok { s with flag := r.1, nuiod := r.2 }
    | .endVminfo => .ok (if s.flag ≠ 0 then { s with ret := some (-1) } else s)
    | .initCpuMonitor => do
        let r ← Monitor.initCpuMonitor s.nuiod.cpuNumber machine.freshStats machine.procStat
        .ok { s with
          nuiod := { s.nuiod with cpuMonitor := r.2 }
          ret := if r.1 ≠ 0 then some (-1) else none }
    | .readNetdev =>
        match machine.netdevFile.bind scanInt with
        | none => .ok { s with ret := some (-1) }
        | some netdevNumanode =>
            .ok { s with nuiod := { s.nuiod with netdevNumanode := netdevNumanode } }
    | .join => .ok { s with joining := true }

/-- `init_numa_info` in the other thread. -/
def numaActs (numaNumber : Nat) (machine : Machine D) : List NumaAct :=
  .allocate ::
    ((List.range numaNumber).flatMap fun i =>
      .getNodeCpus i :: ((machine.nodeCpus i).getD []).map (.mapCpu i)) ++
    ((List.range numaNumber).flatMap fun i => (List.range numaNumber).map (.latency i)) ++
    (List.range numaNumber).map .sortLatencies ++ [.finish]

/-- A command of `init_numa_info`; after a return there is none left. -/
def numaAct (numaNumber : Nat) (machine : Machine D) (info : NumaInfo D) (act : NumaAct) :
    NumaInfo D :=
  if info.tret.isSome then info
  else
    match act with
    | .allocate => { info with numaNodes := List.replicate numaNumber ⟨-1, [], []⟩ }
    | .getNodeCpus i =>
        match machine.nodeCpus i with
        | none => { info with
            numaNodes := info.numaNodes.modify i fun node => { node with nodeId := i, cpuIds := [] }
            tret := some (-1) }
        | some cpus => { info with
            numaNodes := info.numaNodes.modify i fun node =>
              { node with nodeId := i, cpuIds := cpus } }
    | .mapCpu i cpu => { info with
        cpuNodeMapping := info.cpuNodeMapping.insertIfNew (cpu : Int) i }
    | .latency i j => { info with
        numaLatency := fun i' j' =>
          if i' = i ∧ j' = j then machine.numaLatency i j else info.numaLatency i' j' }
    | .sortLatencies i => { info with
        numaNodes := info.numaNodes.modify i fun node => { node with
          sortedLatNodeList := machine.latencySort.order i (node.sortedLatNodeList ++
            (List.range numaNumber).map fun j => (j, info.numaLatency i j)) } }
    | .finish => { info with tret := some 0 }

/-- A command of the thread on the daemon. -/
def numaStep (machine : Machine D) (s : Starting D) (act : NumaAct) : Starting D :=
  s.withNuma (numaAct s.nuiod.numaNumber machine s.numaInfo act)

/-- The daemon when the thread has been created; `unset` is what the latency matrix contains. -/
def Starting.new (nuiod : Nuiod D) (unset : Nat → Nat → D) : Starting D where
  nuiod := nuiod
  numaLatency := unset
  tret := none
  flag := 0
  ret := none
  joining := false

/-- Both threads under a schedule, the first one being that of `init`. -/
def runThreads (nuiod : Nuiod D) (machine : Machine D) (unset : Nat → Nat → D)
    (schedule : List Turn) : Except Fault (Starting D) :=
  (interleave schedule (mainActs machine) (numaActs nuiod.numaNumber machine)).foldlM
    (either (mainAct machine) (numaStep machine)) (.new nuiod unset)

/-- What `init` returns, if it has: `pthread_join` waits for the thread. The daemon is of
interest only if it is 0. -/
def Starting.returned (s : Starting D) : Option (Int × Option (Nuiod D)) :=
  match s.ret, s.joining, s.tret with
  | some ret, _, _ => some (ret, none)
  | none, true, some tret => some (if tret = -1 then (-1, none) else (0, some s.nuiod))
  | none, _, _ => none

/-- The same of the sequential `init`. -/
def outcome (r : Int × Nuiod D) : Int × Option (Nuiod D) :=
  (r.1, if r.1 = 0 then some r.2 else none)

/-! ### No command touches what the other thread works on -/

variable {machine : Machine D} {s s' : Starting D} {info : NumaInfo D}

/-- `init_vminfo` does not look at the members of the thread. -/
theorem initDomain_withNuma (listing : Listing D) (s : Starting D) (entry : Int × Nat) :
    initDomain listing (s.flag, (s.withNuma info).nuiod) entry =
      (initDomain listing (s.flag, s.nuiod) entry).map fun r =>
        (r.1, ({ s with flag := r.1, nuiod := r.2 }.withNuma info).nuiod) := by
  simp only [initDomain, addVm]
  show (setVmInfo s.nuiod.toDomainConf _ _ _ s.nuiod.cpuVmMapping >>= _) >>= _ = _
  cases setVmInfo s.nuiod.toDomainConf (listing.domain entry.1) (VmInfo.new (listing.rest entry.2))
    entry.1 s.nuiod.cpuVmMapping with
  | error e => rfl
  | ok r => rfl

/-- What `init` does leaves them alone. -/
theorem initDomain_numaInfo {listing : Listing D} {entry : Int × Nat} {r : Int × Nuiod D}
    (done : initDomain listing (s.flag, s.nuiod) entry = .ok r) :
    { s with flag := r.1, nuiod := r.2 }.numaInfo = s.numaInfo ∧
      r.2.numaNumber = s.nuiod.numaNumber := by
  obtain ⟨⟨flag, mid⟩, added, stored⟩ := bind_eq_ok.mp done
  obtain ⟨⟨ret, vm, seats⟩, _, made⟩ := bind_eq_ok.mp added
  cases stored
  cases made
  exact ⟨rfl, rfl⟩

theorem mainAct_withNuma (s : Starting D) (act : MainAct) :
    mainAct machine (s.withNuma info) act =
      (mainAct machine s act).map fun s => s.withNuma info := by
  unfold mainAct
  show (if s.ret.isSome then _ else _) = _
  split
  · rfl
  · cases act with
    | listDomains =>
        show (if _ then _ else _) = _
        split
        · rfl
        · rfl
    | addDomain entry =>
        show initDomain machine.listing (s.flag, (s.withNuma info).nuiod) entry >>= _ =
          (initDomain machine.listing (s.flag, s.nuiod) entry >>= _).map _
        rw [initDomain_withNuma]
        cases initDomain machine.listing (s.flag, s.nuiod) entry with
        | error e => rfl
        | ok r => rfl
    | endVminfo =>
        show Except.ok (if s.flag ≠ 0 then _ else _) = Except.ok _
        congr 1
        split
        · rfl
        · rfl
    | initCpuMonitor =>
        show Monitor.initCpuMonitor s.nuiod.cpuNumber _ _ >>= _ = _
        cases Monitor.initCpuMonitor s.nuiod.cpuNumber machine.freshStats machine.procStat with
        | error e => rfl
        | ok r => rfl
    | readNetdev =>
        cases machine.netdevFile.bind scanInt with
        | none => rfl
        | some netdevNumanode => rfl
    | join => rfl

/-- A command of `init` leaves the members of the thread alone, and only the last one comes
to `pthread_join`. -/
theorem mainAct_keeps {act : MainAct} (done : mainAct machine s act = .ok s') :
    s'.numaInfo = s.numaInfo ∧ s'.nuiod.numaNumber = s.nuiod.numaNumber ∧
      (act ≠ .join → s'.joining = s.joining) := by
  unfold mainAct at done
  split at done
  · cases done
    exact ⟨rfl, rfl, fun _ => rfl⟩
  · cases act with
    | listDomains =>
        simp only at done
        split at done
        · cases done
        · cases done
          exact ⟨rfl, rfl, fun _ => rfl⟩
    | addDomain entry =>
        obtain ⟨r, added, stored⟩ := bind_eq_ok.mp done
        obtain ⟨same, number⟩ := initDomain_numaInfo added
        cases stored
        exact ⟨same, number, fun _ => rfl⟩
    | endVminfo =>
        cases done
        split
        · exact ⟨rfl, rfl, fun _ => rfl⟩
        · exact ⟨rfl, rfl, fun _ => rfl⟩
    | initCpuMonitor =>
        obtain ⟨r, _, stored⟩ := bind_eq_ok.mp done
        cases stored
        exact ⟨rfl, rfl, fun _ => rfl⟩
    | readNetdev =>
        simp only at done
        split at done
        · cases done
          exact ⟨rfl, rfl, fun _ => rfl⟩
        · cases done
          exact ⟨rfl, rfl, fun _ => rfl⟩
    | join =>
        cases done
        exact ⟨rfl, rfl, fun other => absurd rfl other⟩

/-- So it does not matter which of the two is first. -/
theorem main_numa_commuting (machine : Machine D) :
    Commuting (mainAct machine) (numaStep machine) := by
  intro s act act'
  rw [numaStep, mainAct_withNuma]
  cases done : mainAct machine s act with
  | error e => rfl
  | ok s' =>
      obtain ⟨same, number, _⟩ := mainAct_keeps done
      simp only [Except.map, numaStep, same, number]

/-! ### The thread alone -/

/-- After a return the thread does nothing. -/
theorem foldl_numaAct_returned {numaNumber : Nat} (acts : List NumaAct)
    (returned : info.tret.isSome) : acts.foldl (numaAct numaNumber machine) info = info := by
  induction acts with
  | nil => rfl
  | cons act acts ih =>
      have stays : numaAct numaNumber machine info act = info := if_pos returned
      rwa [List.foldl_cons, stays]

/-- The thread on the daemon. -/
theorem foldl_numaStep (acts : List NumaAct) (s : Starting D) :
    acts.foldl (numaStep machine) s =
      s.withNuma (acts.foldl (numaAct s.nuiod.numaNumber machine) s.numaInfo) := by
  induction acts generalizing s with
  | nil => rfl
  | cons act acts ih =>
      rw [List.foldl_cons, List.foldl_cons, ih]
      rfl

/-- What stays of the thread when it is interrupted, if it had returned. -/
theorem foldl_numaAct_part {numaNumber : Nat} {acts acts' : List NumaAct} (part : acts <+: acts')
    (returned : (acts.foldl (numaAct numaNumber machine) info).tret.isSome) :
    acts'.foldl (numaAct numaNumber machine) info =
      acts.foldl (numaAct numaNumber machine) info := by
  obtain ⟨later, rfl⟩ := part
  rw [List.foldl_append, foldl_numaAct_returned _ returned]

/-- The nodes of an array of so many, each with its index. -/
theorem modify_map_range {β : Type} (n i : Nat) (f : Nat → β) (g : β → β) :
    ((List.range n).map f).modify i g =
      (List.range n).map fun j => if j = i then g (f j) else f j := by
  apply List.ext_getElem?
  intro j
  rw [List.getElem?_modify, List.getElem?_map, List.getElem?_map]
  by_cases inRange : j < n
  · rw [List.getElem?_range inRange]
    simp [eq_comm]
  · rw [List.getElem?_eq_none (by simpa using inRange)]
    rfl

/-- The CPUs of a node; none if they are not found. -/
def cpusOf (machine : Machine D) (i : Nat) : List Nat := (machine.nodeCpus i).getD []

/-- A node of `numa_nodes` before its latencies are sorted. -/
def nodeWithCpus (machine : Machine D) (i : Nat) : NumaNode D := ⟨i, cpusOf machine i, []⟩

/-- A node of `numa_nodes` with its latencies. -/
def finishedNode (numaNumber : Nat) (machine : Machine D) (i : Nat) : NumaNode D :=
  ⟨i, cpusOf machine i, machine.latencySort.order i
    ((List.range numaNumber).map fun j => (j, machine.numaLatency i j))⟩

/-- The inner loop over the CPUs of a node. -/
def mapNode (mapping : IntMap) (node : NumaNode D) : IntMap :=
  node.cpuIds.foldl (fun mapping (cpu : Nat) => mapping.insertIfNew (cpu : Int) node.nodeId) mapping

omit [Double D] in
theorem foldl_mapNode (nodes : List (NumaNode D)) : nodes.foldl mapNode ∅ = cpuNodes nodes := by
  unfold cpuNodes mapNode
  congr 1
  funext mapping node
  rw [bind_pure_comp, List.map_eq_map, List.foldl_map]

theorem foldl_mapCpu {numaNumber : Nat} (i : Nat) (cpus : List Nat) (running : info.tret = none) :
    (cpus.map (NumaAct.mapCpu i)).foldl (numaAct numaNumber machine) info =
      { info with cpuNodeMapping := mapNode info.cpuNodeMapping (⟨i, cpus, []⟩ : NumaNode D) } := by
  induction cpus generalizing info with
  | nil => rfl
  | cons cpu cpus ih =>
      have one : numaAct numaNumber machine info (.mapCpu i cpu) =
          { info with cpuNodeMapping := info.cpuNodeMapping.insertIfNew (cpu : Int) i } := by
        simp [numaAct, running]
      rw [List.map_cons, List.foldl_cons, one, ih (by exact running)]
      rfl

/-- The first loop: the CPUs of the first `k` nodes are stored, or the thread has returned. -/
theorem foldl_getNodeCpus {numaNumber : Nat} (running : info.tret = none)
    (allocated : info.numaNodes = (List.range numaNumber).map fun _ => ⟨-1, [], []⟩) (k : Nat) :
    ((∀ i < k, machine.nodeCpus i ≠ none) ∧
      ((List.range k).flatMap fun i =>
          .getNodeCpus i :: ((machine.nodeCpus i).getD []).map (.mapCpu i)).foldl
          (numaAct numaNumber machine) info =
        { info with
          numaNodes := (List.range numaNumber).map fun j =>
            if j < k then nodeWithCpus machine j else ⟨-1, [], []⟩
          cpuNodeMapping :=
            ((List.range k).map (nodeWithCpus machine)).foldl mapNode info.cpuNodeMapping }) ∨
    ((∃ i < k, machine.nodeCpus i = none) ∧
      (((List.range k).flatMap fun i =>
          .getNodeCpus i :: ((machine.nodeCpus i).getD []).map (.mapCpu i)).foldl
          (numaAct numaNumber machine) info).tret = some (-1)) := by
  induction k with
  | zero =>
      left
      simp [← allocated]
  | succ k ih =>
      rw [List.range_succ, List.flatMap_append, List.foldl_append, List.flatMap_singleton]
      rcases ih with ⟨found, stored⟩ | ⟨⟨i, before, missing⟩, returned⟩
      · rw [stored, List.foldl_cons]
        cases here : machine.nodeCpus k with
        | none =>
            right
            refine ⟨⟨k, Nat.lt_succ_self k, here⟩, ?_⟩
            rw [Option.getD_none]
            simp [numaAct, running, here]
        | some cpus =>
            left
            refine ⟨fun i lt => ?_, ?_⟩
            · rcases Nat.lt_succ_iff_lt_or_eq.mp lt with earlier | rfl
              · exact found i earlier
              · simp [here]
            · have one : ∀ info : NumaInfo D, info.tret = none →
                  numaAct numaNumber machine info (.getNodeCpus k) =
                    { info with numaNodes := info.numaNodes.modify k fun node =>
                        { node with nodeId := k, cpuIds := cpus } } := by
                intro info running
                simp [numaAct, running, here]
              rw [one _ (by exact running), Option.getD_some, foldl_mapCpu k cpus (by exact running),
                modify_map_range, List.map_append, List.foldl_append]
              congr 1
              · apply List.map_congr_left
                intro j _
                by_cases isK : j = k
                · subst isK
                  simp [nodeWithCpus, cpusOf, here]
                · have same : j < k + 1 ↔ j < k := by omega
                  simp [isK, same]
              · simp [nodeWithCpus, cpusOf, here]
      · right
        refine ⟨⟨i, Nat.lt_succ_of_lt before, missing⟩, ?_⟩
        rw [foldl_numaAct_returned]
        · exact returned
        · rw [returned]
          rfl

/-- The second loop stores the latencies that it comes to. -/
theorem foldl_latency {numaNumber : Nat} (running : info.tret = none) (cells : List (Nat × Nat)) :
    ∃ numaLatency : Nat → Nat → D,
      (cells.map fun cell => NumaAct.latency cell.1 cell.2).foldl (numaAct numaNumber machine) info =
        { info with numaLatency := numaLatency } ∧
      ∀ i j, numaLatency i j =
        if (i, j) ∈ cells then machine.numaLatency i j else info.numaLatency i j := by
  induction cells generalizing info with
  | nil => exact ⟨info.numaLatency, rfl, fun i j => by simp⟩
  | cons cell cells ih =>
      have one : numaAct numaNumber machine info (.latency cell.1 cell.2) =
          { info with numaLatency := fun i' j' =>
              if i' = cell.1 ∧ j' = cell.2 then machine.numaLatency cell.1 cell.2
              else info.numaLatency i' j' } := by
        simp [numaAct, running]
      rw [List.map_cons, List.foldl_cons, one]
      obtain ⟨numaLatency, stored, cellsOf⟩ := @ih
        { info with numaLatency := fun i' j' =>
            if i' = cell.1 ∧ j' = cell.2 then machine.numaLatency cell.1 cell.2
            else info.numaLatency i' j' } running
      refine ⟨numaLatency, stored, fun i j => ?_⟩
      rw [cellsOf]
      obtain ⟨i', j'⟩ := cell
      by_cases later : (i, j) ∈ cells
      · simp [later]
      · by_cases this : i = i' ∧ j = j'
        · obtain ⟨rfl, rfl⟩ := this
          simp
        · have other : (i, j) ≠ (i', j') := fun same => this (Prod.mk.inj same)
          simp [later, this]

/-- The third loop sorts the latencies of the first `k` nodes. -/
theorem foldl_sortLatencies {numaNumber : Nat} (running : info.tret = none)
    (stored : info.numaNodes = (List.range numaNumber).map (nodeWithCpus machine))
    (measured : ∀ i < numaNumber, ∀ j < numaNumber,
      info.numaLatency i j = machine.numaLatency i j) (k : Nat) (le : k ≤ numaNumber) :
    ((List.range k).map NumaAct.sortLatencies).foldl (numaAct numaNumber machine) info =
      { info with numaNodes := (List.range numaNumber).map fun j =>
          if j < k then finishedNode numaNumber machine j else nodeWithCpus machine j } := by
  induction k with
  | zero => simp [← stored]
  | succ k ih =>
      rw [List.range_succ, List.map_append, List.foldl_append, ih (Nat.le_of_succ_le le)]
      have row : ((List.range numaNumber).map fun j => (j, info.numaLatency k j)) =
          (List.range numaNumber).map fun j => (j, machine.numaLatency k j) := by
        apply List.map_congr_left
        intro j mem
        rw [measured k le j (List.mem_range.mp mem)]
      simp only [List.map_cons, List.map_nil, List.foldl_cons, List.foldl_nil, numaAct, running,
        Option.isSome_none, Bool.false_eq_true, if_false, modify_map_range, row]
      congr 1
      apply List.map_congr_left
      intro j _
      by_cases isK : j = k
      · subst isK
        simp [nodeWithCpus, finishedNode]
      · have same : j < k + 1 ↔ j < k := by omega
        simp [isK, same]

/-- The nodes, when the CPUs of all of them are found. -/
theorem initNumaInfo_eq_some {numaNumber : Nat}
    (found : ∀ i < numaNumber, machine.nodeCpus i ≠ none) :
    initNumaInfo numaNumber machine =
      some ((List.range numaNumber).map (finishedNode numaNumber machine)) := by
  have node : ∀ is : List Nat, (∀ i ∈ is, machine.nodeCpus i ≠ none) →
      (is.mapM fun i => do
        let cpus ← machine.nodeCpus i
        some (⟨i, cpus, machine.latencySort.order i
          ((List.range numaNumber).map fun j => (j, machine.numaLatency i j))⟩ : NumaNode D)) =
        some (is.map (finishedNode numaNumber machine)) := by
    intro is known
    induction is with
    | nil => rfl
    | cons i is ih =>
        rw [List.forall_mem_cons] at known
        obtain ⟨cpus, here⟩ := Option.ne_none_iff_exists'.mp known.1
        rw [List.mapM_cons, ih known.2, here]
        simp [finishedNode, cpusOf, here]
  exact node _ fun i mem => found i (List.mem_range.mp mem)

/-- The thread alone: it returns 0 and leaves what `init_numa_info` gives, or it returns -1
where that fails. -/
theorem foldl_numaActs {numaNumber : Nat} (running : info.tret = none)
    (empty : info.cpuNodeMapping = ∅) :
    (∃ nodes numaLatency, initNumaInfo numaNumber machine = some nodes ∧
      (numaActs numaNumber machine).foldl (numaAct numaNumber machine) info =
        ⟨nodes, cpuNodes nodes, numaLatency, some 0⟩) ∨
    (initNumaInfo numaNumber machine = none ∧
      ((numaActs numaNumber machine).foldl (numaAct numaNumber machine) info).tret = some (-1)) := by
  have allocated : numaAct numaNumber machine info .allocate =
      { info with numaNodes := (List.range numaNumber).map fun _ => ⟨-1, [], []⟩ } := by
    simp [numaAct, running, List.map_const']
  have cpus := @foldl_getNodeCpus D _ machine
    { info with numaNodes := (List.range numaNumber).map fun _ => ⟨-1, [], []⟩ }
    numaNumber running rfl numaNumber
  rw [← allocated, ← List.foldl_cons] at cpus
  rcases cpus with ⟨found, stored⟩ | ⟨⟨i, inRange, missing⟩, returned⟩
  · left
    have cells : ((List.range numaNumber).flatMap fun i =>
        (List.range numaNumber).map (NumaAct.latency i)) =
        ((List.range numaNumber).product (List.range numaNumber)).map
          fun cell => .latency cell.1 cell.2 := by
      simp [List.product, List.map_flatMap, Function.comp_def]
    have whole : (List.range numaNumber).map (fun j => if j < numaNumber then nodeWithCpus machine j
        else ⟨-1, [], []⟩) = (List.range numaNumber).map (nodeWithCpus machine) :=
      List.map_congr_left fun j mem => if_pos (List.mem_range.mp mem)
    have mapped : ((List.range numaNumber).map (nodeWithCpus machine)).foldl mapNode ∅ =
        cpuNodes ((List.range numaNumber).map (finishedNode numaNumber machine)) := by
      rw [← foldl_mapNode, List.foldl_map, List.foldl_map]
      rfl
    rw [numaActs, cells, List.foldl_append, List.foldl_append, List.foldl_append, stored, whole,
      allocated, empty, mapped]
    obtain ⟨numaLatency, measured, cellsOf⟩ := @foldl_latency D _ machine { info with
        numaNodes := (List.range numaNumber).map (nodeWithCpus machine)
        cpuNodeMapping := cpuNodes ((List.range numaNumber).map (finishedNode numaNumber machine)) }
      numaNumber running ((List.range numaNumber).product (List.range numaNumber))
    have all : ∀ i < numaNumber, ∀ j < numaNumber, numaLatency i j = machine.numaLatency i j := by
      intro i inRange j inRange'
      rw [cellsOf, if_pos]
      exact List.mem_product.mpr ⟨List.mem_range.mpr inRange, List.mem_range.mpr inRange'⟩
    refine ⟨(List.range numaNumber).map (finishedNode numaNumber machine), numaLatency, ?_, ?_⟩
    · exact initNumaInfo_eq_some found
    · have finished : (List.range numaNumber).map (fun j => if j < numaNumber then
          finishedNode numaNumber machine j else nodeWithCpus machine j) =
          (List.range numaNumber).map (finishedNode numaNumber machine) :=
        List.map_congr_left fun j mem => if_pos (List.mem_range.mp mem)
      rw [measured, foldl_sortLatencies (by exact running) rfl all numaNumber (Nat.le_refl _),
        finished]
      simp [numaAct, running]
  · right
    constructor
    · exact mapM_eq_none.mpr ⟨i, List.mem_range.mpr inRange, by rw [missing]; rfl⟩
    · have part : (NumaAct.allocate :: (List.range numaNumber).flatMap fun i =>
          .getNodeCpus i :: ((machine.nodeCpus i).getD []).map (.mapCpu i)) <+:
          numaActs numaNumber machine := by simp [numaActs]
      rw [foldl_numaAct_part part (by rw [returned]; rfl)]
      exact returned

/-! ### `init` alone -/

/-- After a return `init` does nothing. -/
theorem foldlM_mainAct_returned (acts : List MainAct) (returned : s.ret.isSome) :
    acts.foldlM (mainAct machine) s = .ok s := by
  induction acts with
  | nil => rfl
  | cons act acts ih =>
      have stays : mainAct machine s act = .ok s := if_pos returned
      rwa [List.foldlM_cons, stays]

theorem foldlM_mainAct_keeps {acts : List MainAct}
    (done : acts.foldlM (mainAct machine) s = .ok s') :
    s'.numaInfo = s.numaInfo ∧ s'.nuiod.numaNumber = s.nuiod.numaNumber ∧
      ((∀ act ∈ acts, act ≠ .join) → s'.joining = s.joining) := by
  induction acts generalizing s with
  | nil =>
      cases done
      exact ⟨rfl, rfl, fun _ => rfl⟩
  | cons act acts ih =>
      rw [List.foldlM_cons] at done
      obtain ⟨mid, one, later⟩ := bind_eq_ok.mp done
      obtain ⟨same, number, waits⟩ := mainAct_keeps one
      obtain ⟨same', number', waits'⟩ := ih later
      refine ⟨same'.trans same, number'.trans number, fun others => ?_⟩
      rw [List.forall_mem_cons] at others
      exact (waits' others.2).trans (waits others.1)

/-- The loop of `init_vminfo`. -/
theorem foldlM_addDomain (running : s.ret = none) (entries : List (Int × Nat)) :
    (entries.map MainAct.addDomain).foldlM (mainAct machine) s =
      (entries.foldlM (initDomain machine.listing) (s.flag, s.nuiod)).map fun r =>
        { s with flag := r.1, nuiod := r.2 } := by
  induction entries generalizing s with
  | nil => rfl
  | cons entry entries ih =>
      have one : mainAct machine s (.addDomain entry) =
          (initDomain machine.listing (s.flag, s.nuiod) entry).map fun r =>
            { s with flag := r.1, nuiod := r.2 } := by
        simp only [mainAct, running]
        show (initDomain machine.listing (s.flag, s.nuiod) entry >>= _) = _
        cases initDomain machine.listing (s.flag, s.nuiod) entry with
        | error e => rfl
        | ok r => rfl
      rw [List.map_cons, List.foldlM_cons, List.foldlM_cons, one]
      cases initDomain machine.listing (s.flag, s.nuiod) entry with
      | error e => rfl
      | ok r => exact ih (s := { s with flag := r.1, nuiod := r.2 }) running

/-- The commands up to the end of the loop are `init_vminfo`. -/
theorem foldlM_initVminfo (running : s.ret = none) (fresh : s.flag = 0) :
    (MainAct.listDomains :: machine.listing.entries.map .addDomain).foldlM (mainAct machine) s =
      (s.nuiod.initVminfo machine.listing).map fun r => { s with flag := r.1, nuiod := r.2 } := by
  have listed : mainAct machine s .listDomains =
      if machine.listing.domNum < 0 then .error .uncaught else .ok s := by
    simp [mainAct, running]
  rw [List.foldlM_cons, listed, initVminfo]
  split
  · rfl
  · show List.foldlM _ s _ = _
    rw [foldlM_addDomain running, Listing.entries, fresh]
    cases machine.listing.runningDomIds with
    | none =>
        rw [← fresh]
        rfl
    | some ids => rfl

theorem initVminfo_cpuNumber {nuiod nuiod' : Nuiod D} {listing : Listing D} {flag : Int}
    (listed : nuiod.initVminfo listing = .ok (flag, nuiod')) :
    nuiod'.cpuNumber = nuiod.cpuNumber := by
  obtain ⟨_, _, same⟩ := initVminfo_invariant (fun _ mid => mid.cpuNumber = nuiod.cpuNumber)
    (fun _ _ _ _ _ _ same added => by
      obtain ⟨r, _, stored⟩ := bind_eq_ok.mp added
      cases stored
      exact same) rfl listed
  exact same

/-- How `init` ends in its own thread, against the sequential one. -/
inductive Alone (nuiod : Nuiod D) (machine : Machine D) : Except Fault (Starting D) → Prop where
  | fault {e : Fault} (same : nuiod.init machine = .error e) : Alone nuiod machine (.error e)
  | failed {s : Starting D} {nuiod' : Nuiod D} (ret : s.ret = some (-1))
      (same : nuiod.init machine = .ok (-1, nuiod')) : Alone nuiod machine (.ok s)
  | joins {s : Starting D} (ret : s.ret = none) (joining : s.joining = true)
      (ready : ∀ nodes, initNumaInfo nuiod.numaNumber machine = some nodes →
        nuiod.init machine = .ok (0, { s.nuiod with
          numaNodes := nodes
          cpuNodeMapping := cpuNodes nodes }))
      (failed : initNumaInfo nuiod.numaNumber machine = none →
        ∃ nuiod', nuiod.init machine = .ok (-1, nuiod')) :
      Alone nuiod machine (.ok s)

/-- The commands after the loop, where it has set no flag. -/
theorem foldlM_afterVminfo (running : s.ret = none) (fine : s.flag = 0) :
    [MainAct.endVminfo, .initCpuMonitor, .readNetdev, .join].foldlM (mainAct machine) s =
      (Monitor.initCpuMonitor s.nuiod.cpuNumber machine.freshStats machine.procStat).map fun r =>
        let nuiod := { s.nuiod with cpuMonitor := r.2 }
        if r.1 ≠ 0 then { s with nuiod := nuiod, ret := some (-1) }
        else
          match machine.netdevFile.bind scanInt with
          | none => { s with nuiod := nuiod, ret := some (-1) }
          | some netdevNumanode => { s with
              nuiod := { nuiod with netdevNumanode := netdevNumanode }
              joining := true } := by
  obtain ⟨nuiod, numaLatency, tret, flag, ret, joining⟩ := s
  obtain rfl : ret = none := running
  obtain rfl : flag = 0 := fine
  generalize isStart : (⟨nuiod, numaLatency, tret, 0, none, joining⟩ : Starting D) = s
  have goesOn : mainAct machine s .endVminfo = .ok s := by simp [mainAct, ← isStart]
  have monitors : mainAct machine s .initCpuMonitor =
      (Monitor.initCpuMonitor s.nuiod.cpuNumber machine.freshStats machine.procStat).map fun r =>
        { s with
          nuiod := { s.nuiod with cpuMonitor := r.2 }
          ret := if r.1 ≠ 0 then some (-1) else none } := by
    rw [← isStart]
    show (Monitor.initCpuMonitor nuiod.cpuNumber _ _ >>= _) = _
    cases Monitor.initCpuMonitor nuiod.cpuNumber machine.freshStats machine.procStat with
    | error e => rfl
    | ok r => rfl
  rw [List.foldlM_cons, goesOn]
  show List.foldlM _ s _ = _
  rw [List.foldlM_cons, monitors]
  cases Monitor.initCpuMonitor s.nuiod.cpuNumber machine.freshStats machine.procStat with
  | error e => rfl
  | ok r =>
      show List.foldlM _ _ _ = Except.ok _
      by_cases started : r.1 = 0
      · simp only [started, ne_eq, not_true_eq_false, if_false]
        cases netdev : machine.netdevFile.bind scanInt with
        | none =>
            simp only [List.foldlM_cons, mainAct, netdev, Option.isSome_none, Bool.false_eq_true,
              if_false]
            rfl
        | some netdevNumanode =>
            simp only [List.foldlM_cons, mainAct, netdev, Option.isSome_none, Bool.false_eq_true,
              if_false]
            rw [← isStart]
            rfl
      · simp only [ne_eq, started, not_false_eq_true, if_true]
        exact foldlM_mainAct_returned _ rfl

theorem mainActs_alone (nuiod : Nuiod D) (machine : Machine D) (unset : Nat → Nat → D) :
    Alone nuiod machine ((mainActs machine).foldlM (mainAct machine) (.new nuiod unset)) := by
  rw [mainActs, List.foldlM_append, foldlM_initVminfo rfl rfl]
  show Alone nuiod machine ((nuiod.initVminfo machine.listing).map _ >>= _)
  cases listed : nuiod.initVminfo machine.listing with
  | error e =>
      refine .fault ?_
      rw [init, listed]
      rfl
  | ok r =>
      obtain ⟨flag, added⟩ := r
      have number := initVminfo_cpuNumber listed
      show Alone nuiod machine (List.foldlM _ _ _)
      by_cases succeeded : flag = 0
      · subst succeeded
        rw [foldlM_afterVminfo rfl rfl]
        show Alone nuiod machine ((Monitor.initCpuMonitor added.cpuNumber _ _).map _)
        rw [number]
        cases monitoring : Monitor.initCpuMonitor nuiod.cpuNumber machine.freshStats
            machine.procStat with
        | error e =>
            refine .fault ?_
            simp only [init, listed, monitoring]
            rfl
        | ok r =>
            obtain ⟨ret, cpuMonitor⟩ := r
            by_cases started : ret = 0
            · subst started
              cases netdev : machine.netdevFile.bind scanInt with
              | none =>
                  refine @Alone.failed D _ nuiod machine _ added rfl ?_
                  simp only [init, listed, monitoring, netdev]
                  rfl
              | some netdevNumanode =>
                  refine .joins rfl rfl (fun nodes numa => ?_) fun numa => ⟨added, ?_⟩
                  · simp only [init, listed, monitoring, netdev, numa]
                    rfl
                  · simp only [init, listed, monitoring, netdev, numa]
                    rfl
            · refine @Alone.failed D _ nuiod machine _ added (congrArg Starting.ret (if_pos started)) ?_
              simp only [init, listed, monitoring]
              exact if_pos started
      · have gaveUp : mainAct machine { Starting.new nuiod unset with flag := flag, nuiod := added }
            .endVminfo = .ok { Starting.new nuiod unset with
              flag := flag, nuiod := added, ret := some (-1) } := by
          simp [mainAct, Starting.new, succeeded]
        rw [List.foldlM_cons, gaveUp]
        show Alone nuiod machine (List.foldlM _ _ _)
        rw [foldlM_mainAct_returned _ (by rfl)]
        refine @Alone.failed D _ nuiod machine _ added rfl ?_
        rw [init, listed]
        exact if_pos succeeded

/-! ### Any schedule -/

/-- `init` comes to `pthread_join` last. -/
theorem take_of_joining {unset : Nat → Nat → D} {nuiod : Nuiod D} {k : Nat}
    (done : ((mainActs machine).take k).foldlM (mainAct machine) (.new nuiod unset) = .ok s)
    (joining : s.joining = true) : (mainActs machine).length ≤ k := by
  by_contra early
  have others : ∀ act ∈ (mainActs machine).take k, act ≠ .join := by
    have part : (mainActs machine).take k <+:
        MainAct.listDomains :: machine.listing.entries.map .addDomain ++
          [.endVminfo, .initCpuMonitor, .readNetdev] := by
      have whole : mainActs machine = (MainAct.listDomains ::
          machine.listing.entries.map .addDomain ++
            [.endVminfo, .initCpuMonitor, .readNetdev]) ++ [.join] := by
        simp [mainActs]
      rw [whole] at early ⊢
      rw [List.length_append, List.length_singleton] at early
      rw [List.take_append_of_le_length (by omega)]
      exact List.take_prefix _ _
    intro act mem
    have inPart := part.subset mem
    rintro rfl
    simp at inPart
  have waits := (foldlM_mainAct_keeps done).2.2 others
  rw [joining] at waits
  cases waits

/-- What `init` returns is decided once it has come to its end: the rest of either thread
does not change it. -/
theorem returned_eq (conf : DomainConf) (cpuNumber : Nat) (strategy : SimpleStrategy)
    (unset : Nat → Nat → D) {s : Starting D} {k k' : Nat}
    (done : ((mainActs machine).take k).foldlM (mainAct machine)
      (.new (.new conf cpuNumber strategy) unset) = .ok s)
    {r : Int × Option (Nuiod D)}
    (returned : (((numaActs conf.numaNumber machine).take k').foldl (numaStep machine) s).returned
      = some r) :
    ((Nuiod.new conf cpuNumber strategy).init machine).map outcome = .ok r := by
  obtain ⟨same, number, _⟩ := foldlM_mainAct_keeps done
  replace number : s.nuiod.numaNumber = conf.numaNumber := number
  have alone := mainActs_alone (Nuiod.new conf cpuNumber strategy) machine unset
  rw [← List.take_append_drop k (mainActs machine), List.foldlM_append, done] at alone
  replace alone : Alone _ machine (((mainActs machine).drop k).foldlM _ s) := alone
  rw [foldl_numaStep, number] at returned
  cases ret : s.ret with
  | some ret' =>
      rw [foldlM_mainAct_returned _ (by rw [ret]; rfl)] at alone
      have isRet : (ret', none) = r := by
        simpa [Starting.returned, Starting.withNuma, ret] using returned
      cases alone with
      | failed gaveUp sequential =>
          obtain rfl : ret' = -1 := Option.some.inj (ret.symm.trans gaveUp)
          rw [sequential, ← isRet]
          rfl
      | joins running _ _ _ => cases ret.symm.trans running
  | none =>
      cases joining : s.joining with
      | false => simp [Starting.returned, Starting.withNuma, ret, joining] at returned
      | true =>
          rw [List.drop_eq_nil_of_le (take_of_joining done joining)] at alone
          cases thread : (((numaActs conf.numaNumber machine).take k').foldl
              (numaAct conf.numaNumber machine) s.numaInfo).tret with
          | none =>
              simp [Starting.returned, Starting.withNuma, ret, joining, thread] at returned
          | some tret =>
              have whole := @foldl_numaAct_part D _ machine s.numaInfo conf.numaNumber _ _
                (List.take_prefix k' (numaActs conf.numaNumber machine)) (by rw [thread]; rfl)
              rw [← whole] at returned
              cases alone with
              | failed gaveUp _ => cases ret.symm.trans gaveUp
              | joins _ _ ready failed =>
                  rcases @foldl_numaActs D _ machine s.numaInfo conf.numaNumber
                    (by rw [same]; rfl) (by rw [same]; rfl) with
                      ⟨nodes, numaLatency, numa, final⟩ | ⟨numa, final⟩
                  · rw [final] at returned
                    rw [ready nodes numa]
                    have isReady := returned
                    simp only [Starting.returned, Starting.withNuma, ret, joining] at isReady
                    cases isReady
                    rfl
                  · obtain ⟨nuiod', sequential⟩ := failed numa
                    rw [sequential]
                    simp only [Starting.returned, Starting.withNuma, ret, joining, final] at returned
                    cases returned
                    rfl

/-- Under every schedule of the two threads `init` returns what the sequential one returns,
and leaves the same daemon where it succeeds. -/
theorem init_schedules (conf : DomainConf) (cpuNumber : Nat) (strategy : SimpleStrategy)
    (machine : Machine D) (unset : Nat → Nat → D) (schedule : List Turn) :
    (∀ e, runThreads (.new conf cpuNumber strategy) machine unset schedule = .error e →
      (Nuiod.new conf cpuNumber strategy).init machine = .error e) ∧
    (∀ s, runThreads (.new conf cpuNumber strategy) machine unset schedule = .ok s →
      (∀ r, s.returned = some r →
        ((Nuiod.new conf cpuNumber strategy).init machine).map outcome = .ok r) ∧
      ((mainActs machine).length ≤ schedule.count .first →
        (numaActs conf.numaNumber machine).length ≤ schedule.count .second →
        s.returned ≠ none)) := by
  rw [runThreads, foldlM_interleave (main_numa_commuting machine)]
  have alone := mainActs_alone (Nuiod.new conf cpuNumber strategy) machine unset
  cases done : ((mainActs machine).take (schedule.count .first)).foldlM (mainAct machine)
      (.new (.new conf cpuNumber strategy) unset) with
  | error e =>
      constructor
      · rintro e' ⟨⟩
        rw [← List.take_append_drop (schedule.count .first) (mainActs machine),
          List.foldlM_append, done] at alone
        cases alone with
        | fault same => exact same
      · rintro s ⟨⟩
  | ok m =>
      refine ⟨by rintro e ⟨⟩, ?_⟩
      rintro s ⟨⟩
      refine ⟨fun r returned => returned_eq conf cpuNumber strategy unset done returned, ?_⟩
      intro enough enough'
      rw [List.take_of_length_le enough] at done
      obtain ⟨same, number, _⟩ := foldlM_mainAct_keeps done
      replace number : m.nuiod.numaNumber = conf.numaNumber := number
      show (((numaActs conf.numaNumber machine).take _).foldl (numaStep machine) m).returned ≠ none
      rw [List.take_of_length_le enough', foldl_numaStep, number]
      rw [done] at alone
      cases alone with
      | failed gaveUp _ => simp [Starting.returned, Starting.withNuma, gaveUp]
      | joins running joining _ _ =>
          rcases @foldl_numaActs D _ machine m.numaInfo conf.numaNumber
            (by rw [same]; rfl) (by rw [same]; rfl) with
              ⟨nodes, numaLatency, numa, final⟩ | ⟨numa, final⟩
          · simp [Starting.returned, Starting.withNuma, running, joining, final]
          · simp [Starting.returned, Starting.withNuma, running, joining, final]

end Double

end VNams.Nuiod
