import VNams.Strategy.Lists

/-!
What one iteration of the balancing loop can do.

`balanceStep_iteration` is the only place where the loop body is unfolded: for lists of
known VMs on the nodes of a machine described by `Topology`, one iteration succeeds and
is one of three moves of `Iteration`:

* `skip`: the NIC node, with at most two VMs, has no VM to give away; the cached
  counts go on to the next node and no list changes;
* `leave`: a VM that is not IO intensive leaves such a NIC node, and the cached counts
  are *not* rebuilt;
* `level`: a VM leaves any other node, and the counts are rebuilt.
-/

namespace VNams.Strategy

open Lib

variable {D : Type}

/-- What initialisation establishes about the nodes: each has a latency list that covers
exactly the nodes. -/
structure ScheduleArgs.Latencies (args : ScheduleArgs D) : Prop where
  numaNodes_length : args.numaNodes.length = args.numaNumber
  lat_covers : ∀ node ∈ args.numaNodes, ∀ j < args.numaNumber,
    ∃ p ∈ node.sortedLatNodeList, p.1 = j
  lat_valid : ∀ node ∈ args.numaNodes, ∀ p ∈ node.sortedLatNodeList, p.1 < args.numaNumber

/-- Besides, the NIC node is a node. -/
structure ScheduleArgs.Topology (args : ScheduleArgs D) : Prop extends args.Latencies where
  netdev_nonneg : 0 ≤ args.netdevNumanode
  netdev_lt : args.netdevNumanode < args.numaNumber

/-- The NIC node as a position. -/
def ScheduleArgs.nic (args : ScheduleArgs D) : Nat := args.netdevNumanode.toNat

namespace ScheduleArgs.Topology

variable {args : ScheduleArgs D}

theorem netdev_eq (topo : args.Topology) : args.netdevNumanode = (args.nic : Int) :=
  (Int.toNat_of_nonneg topo.netdev_nonneg).symm

theorem nic_lt (topo : args.Topology) : args.nic < args.numaNumber := by
  have bound := topo.netdev_lt
  rw [topo.netdev_eq] at bound
  exact Int.ofNat_lt.mp bound

end ScheduleArgs.Topology

/-- Every id of the list is the key of a VM that carries it. -/
def Known (vms : VmMap D) (ids : List Int) : Prop :=
  ∀ id ∈ ids, ∃ vm, vms[id]? = some vm ∧ vm.domId = id

/-! ### The searches -/

/-- The search for a VM in the wanted state came back without one. The id -1 reads as
"none", whatever the state of a VM that has it. -/
def NotFound (states : VmStateMap) (wanted : VmState) (ls : List Int) : Prop :=
  (∀ id ∈ ls, states.read id ≠ wanted) ∨ -1 ∈ ls

/-- Without the id -1 a search that comes back empty found no VM in the wanted state. -/
theorem NotFound.absent {states : VmStateMap} {wanted : VmState} {ls : List Int}
    (none : NotFound states wanted ls) (real : -1 ∉ ls) : ∀ id ∈ ls, states.read id ≠ wanted := by
  rcases none with absent | minusOne
  · exact absent
  · exact absurd minusOne real

/-- The search over known VMs succeeds, and reports the first VM in the wanted state. -/
theorem searchVm_spec {vms : VmMap D} (states : VmStateMap) (wanted : VmState) :
    ∀ {ls : List Int}, Known vms ls → ∃ found, searchVm vms states wanted ls = .ok found ∧
      (found = none → ∀ id ∈ ls, states.read id ≠ wanted) ∧
      (∀ pos id, found = some (pos, id) → ls[pos]? = some id ∧ states.read id = wanted) := by
  intro ls
  induction ls with
  | nil => exact fun _ => ⟨none, rfl, by simp, by simp⟩
  | cons first rest ih =>
      intro known
      obtain ⟨vm, present, sameId⟩ := known first List.mem_cons_self
      by_cases here : states.read first = wanted
      · refine ⟨some (0, first), ?_, by simp, ?_⟩
        · simp [searchVm, present, sameId, here]
        · rintro pos id ⟨⟩
          exact ⟨rfl, here⟩
      · obtain ⟨found, searched, absent, position⟩ :=
          ih fun id mem => known id (List.mem_cons_of_mem _ mem)
        refine ⟨found.map fun p => (p.1 + 1, p.2), ?_, ?_, ?_⟩
        · simp [searchVm, present, sameId, here, searched, bind, Except.bind]
        · intro none id mem
          rcases List.mem_cons.mp mem with rfl | later
          · exact here
          · exact absent (by simpa using none) id later
        · intro pos id some'
          obtain ⟨⟨pos', id'⟩, before, after⟩ := Option.map_eq_some_iff.mp some'
          cases after
          exact position pos' id' before

/-- The VM to move, or the reason why none was found. -/
theorem vmIdFound_searchVm {vms : VmMap D} (states : VmStateMap) (wanted : VmState)
    {ls : List Int} (known : Known vms ls) :
    ∃ found, searchVm vms states wanted ls = .ok found ∧
      (vmIdFound found = none → NotFound states wanted ls) ∧
      (∀ pos id, vmIdFound found = some (pos, id) →
        ls[pos]? = some id ∧ states.read id = wanted ∧ id ≠ -1) := by
  obtain ⟨found, searched, absent, position⟩ := searchVm_spec states wanted known
  refine ⟨found, searched, ?_, ?_⟩
  · intro none
    cases found with
    | none => exact .inl (absent rfl)
    | some p =>
        obtain ⟨pos, id⟩ := p
        have here := (position pos id rfl).1
        have minusOne : id = -1 := by simpa [vmIdFound] using none
        exact .inr (minusOne ▸ List.mem_of_getElem? here)
  · intro pos id some'
    obtain ⟨same, notMinusOne⟩ := Option.filter_eq_some_iff.mp some'
    obtain ⟨here, state⟩ := position pos id same
    exact ⟨here, state, by simpa using notMinusOne⟩

/-- The target of a move: a node with `minVmCnt` VMs, or the remembered node when there
is no such node. -/
def Nearest (numaNumber : Nat) (b : Balancer) (target : Nat) : Prop :=
  target < numaNumber ∧ (load b.vmOnNode target = b.minVmCnt ∨
    (target = b.minLoadNode ∧ ∀ j < numaNumber, load b.vmOnNode j ≠ b.minVmCnt))

/-- `target` is the first node of a latency list that holds `cnt` VMs. -/
def FirstWith (vmOnNode : List (List Int)) (cnt target : Nat) (lat : List (Nat × D)) : Prop :=
  ∃ before d after, lat = before ++ (target, d) :: after ∧ load vmOnNode target = cnt ∧
    ∀ p ∈ before, load vmOnNode p.1 ≠ cnt

/-- The search through a latency list of nodes. -/
theorem nearestWith_first {vmOnNode : List (List Int)} (cnt fallback : Nat) :
    ∀ {lat : List (Nat × D)}, (∀ p ∈ lat, p.1 < vmOnNode.length) →
      ∃ target, nearestWith vmOnNode cnt fallback lat = .ok target ∧
        (FirstWith vmOnNode cnt target lat ∨
          (target = fallback ∧ ∀ p ∈ lat, load vmOnNode p.1 ≠ cnt)) := by
  intro lat
  induction lat with
  | nil => exact fun _ => ⟨fallback, rfl, .inr ⟨rfl, by simp⟩⟩
  | cons first rest ih =>
      intro valid
      obtain ⟨node, d⟩ := first
      have present := List.getElem?_eq_getElem (valid (node, d) List.mem_cons_self)
      have size := load_of_getElem? present
      by_cases here : load vmOnNode node = cnt
      · refine ⟨node, ?_, .inl ⟨[], d, rest, rfl, here, by simp⟩⟩
        rw [size] at here
        simp [nearestWith, vecAt_eq_ok.mpr present, bind, Except.bind, here]
      · obtain ⟨target, searched, result⟩ :=
          ih fun p mem => valid p (List.mem_cons_of_mem _ mem)
        refine ⟨target, ?_, ?_⟩
        · rw [size] at here
          simp [nearestWith, vecAt_eq_ok.mpr present, bind, Except.bind, here, searched]
        · rcases result with ⟨before, d', after, rfl, loaded, earlier⟩ | ⟨same, none⟩
          · refine .inl ⟨(node, d) :: before, d', after, rfl, loaded, fun p mem => ?_⟩
            rcases List.mem_cons.mp mem with rfl | later
            · exact here
            · exact earlier p later
          · refine .inr ⟨same, fun p mem => ?_⟩
            rcases List.mem_cons.mp mem with rfl | later
            · exact here
            · exact none p later

/-! ### One iteration -/

/-- What every iteration relies on: the lists are those of the nodes, the cached nodes
are nodes, and the listed VMs are known. -/
structure Balancer.Sane (args : ScheduleArgs D) (b : Balancer) : Prop where
  lists_length : b.vmOnNode.length = args.numaNumber
  high_lt : b.highLoadNode < args.numaNumber
  minLoad_lt : b.minLoadNode < args.numaNumber
  idx_lt : b.maxVmIdx < b.nodeVmVec.length
  known : Known args.vmInfosMap b.vmOnNode.flatten

/-- The NIC branch is taken for the node at hand. -/
def Balancer.AtNic (args : ScheduleArgs D) (b : Balancer) : Prop :=
  (b.highLoadNode : Int) = args.netdevNumanode ∧ b.maxVmCnt ≤ 2

/-- The three things an iteration can do. -/
inductive Iteration (args : ScheduleArgs D) (states : VmStateMap) (ties : NodeSort)
    (b : Balancer) : Balancer → Prop where
  | skip {ls : List Int} {high low : Nat × Nat} (atNic : b.AtNic args)
      (onHigh : b.vmOnNode[b.highLoadNode]? = some ls)
      (none : NotFound states .otherStat ls)
      (next : b.nodeVmVec[b.maxVmIdx - 1]? = some high)
      (lowest : b.nodeVmVec[0]? = some low) :
      Iteration args states ties b { b with
        flag := true, maxVmIdx := b.maxVmIdx - 1, maxVmCnt := high.2,
        highLoadNode := high.1, minVmCnt := low.2 }
  | leave {ls : List Int} {pos target : Nat} {vmId : Int} (atNic : b.AtNic args)
      (onHigh : b.vmOnNode[b.highLoadNode]? = some ls) (here : ls[pos]? = some vmId)
      (state : states.read vmId = .otherStat) (nearest : Nearest args.numaNumber b target) :
      Iteration args states ties b { b with
        flag := true, vmOnNode := moved b.vmOnNode b.highLoadNode pos target vmId,
        minLoadNode := target }
  | level {ls : List Int} {pos target minLoadNode : Nat} {vmId : Int} {b' : Balancer}
      (notNic : ¬ b.AtNic args)
      (onHigh : b.vmOnNode[b.highLoadNode]? = some ls) (here : ls[pos]? = some vmId)
      (ioFirst : states.read vmId = .ioStat ∨ NotFound states .ioStat ls)
      (nearest : Nearest args.numaNumber b target)
      (rebuilt : Balancer.rebuild args.numaNumber ties { b with
        flag := true, vmOnNode := moved b.vmOnNode b.highLoadNode pos target vmId,
        minLoadNode := minLoadNode } = .ok b') :
      Iteration args states ties b b'

section Spec

variable {args : ScheduleArgs D} {b : Balancer}

/-- The list of a node, under the sanity of the state. -/
theorem Balancer.Sane.list (sane : b.Sane args) :
    ∃ ls, b.vmOnNode[b.highLoadNode]? = some ls ∧ Known args.vmInfosMap ls := by
  have inRange : b.highLoadNode < b.vmOnNode.length := by
    rw [sane.lists_length]
    exact sane.high_lt
  refine ⟨_, List.getElem?_eq_getElem inRange, ?_⟩
  intro id mem
  exact sane.known id (List.mem_flatten.mpr ⟨_, List.getElem_mem inRange, mem⟩)

/-- The target of a move to the nearest node: the first one of the latency list that holds
`min_vm_cnt` VMs, or the remembered node when there is none. -/
def Nearby (args : ScheduleArgs D) (b : Balancer) (target : Nat) : Prop :=
  ∃ node, args.numaNodes[b.highLoadNode]? = some node ∧
    (FirstWith b.vmOnNode b.minVmCnt target node.sortedLatNodeList ∨
      (target = b.minLoadNode ∧ ∀ j < args.numaNumber, load b.vmOnNode j ≠ b.minVmCnt))

theorem Nearby.nearest {target : Nat} (lats : args.Latencies) (sane : b.Sane args)
    (nearby : Nearby args b target) : Nearest args.numaNumber b target := by
  obtain ⟨node, present, ⟨before, d, after, same, loaded, _⟩ | ⟨rfl, none⟩⟩ := nearby
  · have mem : (target, d) ∈ node.sortedLatNodeList := by simp [same]
    exact ⟨lats.lat_valid node (List.mem_of_getElem? present) _ mem, .inl loaded⟩
  · exact ⟨sane.minLoad_lt, .inr ⟨rfl, none⟩⟩

/-- Moving to the nearest node at the minimum succeeds. -/
theorem moveNearest_nearby (lats : args.Latencies) (sane : b.Sane args) (pos : Nat)
    (vmId : Int) :
    ∃ target, Nearby args b target ∧
      b.moveNearest args pos vmId = .ok { b with
        vmOnNode := moved b.vmOnNode b.highLoadNode pos target vmId, minLoadNode := target } := by
  have highInRange : b.highLoadNode < args.numaNodes.length := by
    rw [lats.numaNodes_length]
    exact sane.high_lt
  have node := List.getElem?_eq_getElem highInRange
  have nodeMem := List.getElem_mem highInRange
  have valid := lats.lat_valid _ nodeMem
  obtain ⟨target, searched, result⟩ := nearestWith_first b.minVmCnt b.minLoadNode
    (by rw [sane.lists_length]; exact valid)
  have nearby : Nearby args b target := by
    refine ⟨_, node, ?_⟩
    rcases result with first | ⟨rfl, none⟩
    · exact .inl first
    · refine .inr ⟨rfl, fun j inRange => ?_⟩
      obtain ⟨p, mem, rfl⟩ := lats.lat_covers _ nodeMem j inRange
      exact none p mem
  refine ⟨target, nearby, ?_⟩
  have inRange : target < b.vmOnNode.length := by
    rw [sane.lists_length]
    exact (nearby.nearest lats sane).1
  simp [Balancer.moveNearest, vecAt_eq_ok.mpr node, searched, moveVm_eq inRange, bind,
    Except.bind]

/-- Where the VM `vmId` of the list `ls` goes: an IO intensive one to the NIC node if that is
another node and at the minimum, else the nearest node at the minimum. -/
inductive Target (args : ScheduleArgs D) (states : VmStateMap) (b : Balancer) (ls : List Int)
    (vmId : Int) : Nat → Prop where
  | nic (io : states.read vmId = .ioStat) (away : b.highLoadNode ≠ args.nic)
      (atMin : load b.vmOnNode args.nic = b.minVmCnt) : Target args states b ls vmId args.nic
  | nearby {target : Nat}
      (notNic : states.read vmId = .ioStat → b.highLoadNode ≠ args.nic → -1 ∉ ls →
        load b.vmOnNode args.nic ≠ b.minVmCnt)
      (nearby : Nearby args b target) : Target args states b ls vmId target

theorem Target.nearest {states : VmStateMap} {ls : List Int} {vmId : Int} {target : Nat}
    (topo : args.Topology) (sane : b.Sane args) (chosen : Target args states b ls vmId target) :
    Nearest args.numaNumber b target := by
  cases chosen with
  | nic _ _ atMin => exact ⟨topo.nic_lt, .inl atMin⟩
  | nearby _ nearby => exact nearby.nearest topo.toLatencies sane

/-- Where some node is at the cached minimum, the target is. -/
theorem Target.atMin {states : VmStateMap} {ls : List Int} {vmId : Int} {target : Nat}
    (chosen : Target args states b ls vmId target)
    (attained : ∃ j < args.numaNumber, load b.vmOnNode j = b.minVmCnt) :
    load b.vmOnNode target = b.minVmCnt := by
  cases chosen with
  | nic _ _ atMin => exact atMin
  | nearby _ nearby =>
      obtain ⟨node, _, ⟨_, _, _, _, loaded, _⟩ | ⟨_, none⟩⟩ := nearby
      · exact loaded
      · obtain ⟨j, jLt, atMin⟩ := attained
        exact absurd atMin (none j jLt)

/-- The NIC branch succeeds: it skips the node, or moves one VM that is not IO
intensive off it. -/
theorem balanceNetdev_spec (states : VmStateMap) (topo : args.Topology) (sane : b.Sane args) :
    ∃ ls, b.vmOnNode[b.highLoadNode]? = some ls ∧
      ((NotFound states .otherStat ls ∧ balanceNetdev args states b = b.nextNode) ∨
        ∃ pos vmId target, ls[pos]? = some vmId ∧ states.read vmId = .otherStat ∧
          Nearby args b target ∧
          balanceNetdev args states b = .ok { b with
            vmOnNode := moved b.vmOnNode b.highLoadNode pos target vmId,
            minLoadNode := target }) := by
  obtain ⟨ls, onHigh, known⟩ := sane.list
  obtain ⟨found, searched, absent, position⟩ := vmIdFound_searchVm states .otherStat known
  refine ⟨ls, onHigh, ?_⟩
  cases decided : vmIdFound found with
  | none =>
      refine .inl ⟨absent decided, ?_⟩
      simp [balanceNetdev, vecAt_eq_ok.mpr onHigh, searched, decided, bind, Except.bind]
  | some p =>
      obtain ⟨pos, vmId⟩ := p
      obtain ⟨here, state, _⟩ := position pos vmId decided
      obtain ⟨target, nearby, done⟩ := moveNearest_nearby topo.toLatencies sane pos vmId
      refine .inr ⟨pos, vmId, target, here, state, nearby, ?_⟩
      simp [balanceNetdev, vecAt_eq_ok.mpr onHigh, searched, decided, bind, Except.bind, done]

/-- The general branch succeeds when the node has a VM: an IO intensive one is moved if
there is any, to the NIC node or to the nearest node at the minimum. -/
theorem balanceMove_spec (states : VmStateMap) (topo : args.Topology) (sane : b.Sane args) {ls : List Int}
    (onHigh : b.vmOnNode[b.highLoadNode]? = some ls) (nonempty : ls ≠ []) :
    ∃ pos vmId target minLoadNode, ls[pos]? = some vmId ∧
      (states.read vmId = .ioStat ∨ NotFound states .ioStat ls) ∧
      Target args states b ls vmId target ∧
      balanceMove args states b = .ok { b with
        vmOnNode := moved b.vmOnNode b.highLoadNode pos target vmId,
        minLoadNode := minLoadNode } := by
  obtain ⟨ls', onHigh', known⟩ := sane.list
  obtain rfl : ls = ls' := by
    rw [onHigh] at onHigh'
    exact Option.some.inj onHigh'
  obtain ⟨found, searched, absent, position⟩ := vmIdFound_searchVm states .ioStat known
  cases decided : vmIdFound found with
  | none =>
      cases ls with
      | nil => exact absurd rfl nonempty
      | cons vmId rest =>
          obtain ⟨target, nearby, done⟩ := moveNearest_nearby topo.toLatencies sane 0 vmId
          have notFound := absent decided
          refine ⟨0, vmId, target, target, rfl, .inr notFound, .nearby ?_ nearby, ?_⟩
          · intro io _ real
            exact absurd io (notFound.absent real vmId List.mem_cons_self)
          · simp [balanceMove, vecAt_eq_ok.mpr onHigh, searched, decided, bind, Except.bind, done]
  | some p =>
      obtain ⟨pos, vmId⟩ := p
      obtain ⟨here, state, _⟩ := position pos vmId decided
      have nicInRange : args.nic < b.vmOnNode.length := by
        rw [sane.lists_length]
        exact topo.nic_lt
      have onNic := List.getElem?_eq_getElem nicInRange
      have size := load_of_getElem? onNic
      have onNic' : vecAtInt b.vmOnNode args.netdevNumanode = .ok b.vmOnNode[args.nic] := by
        rw [topo.netdev_eq, vecAtInt_natCast]
        exact vecAt_eq_ok.mpr onNic
      by_cases preferNic :
          args.netdevNumanode ≠ b.highLoadNode ∧ load b.vmOnNode args.nic = b.minVmCnt
      · obtain ⟨away, atMin⟩ := preferNic
        have apart : b.highLoadNode ≠ args.nic := by
          intro same
          rw [same] at away
          exact away topo.netdev_eq
        refine ⟨pos, vmId, args.nic, b.minLoadNode, here, .inl state, .nic state apart atMin, ?_⟩
        rw [size] at atMin
        have target : args.netdevNumanode.toNat = args.nic := rfl
        simp [balanceMove, vecAt_eq_ok.mpr onHigh, searched, decided, bind, Except.bind,
          away, onNic', atMin, target, moveVm_eq nicInRange]
      · obtain ⟨target, nearby, done⟩ := moveNearest_nearby topo.toLatencies sane pos vmId
        have notNic : states.read vmId = .ioStat → b.highLoadNode ≠ args.nic → -1 ∉ ls →
            load b.vmOnNode args.nic ≠ b.minVmCnt := by
          intro _ apart _ atMin
          refine preferNic ⟨fun same => apart ?_, atMin⟩
          rw [topo.netdev_eq] at same
          exact (Int.ofNat_inj.mp same).symm
        refine ⟨pos, vmId, target, target, here, .inl state, .nearby notNic nearby, ?_⟩
        by_cases away : args.netdevNumanode ≠ b.highLoadNode
        · have notMin : ¬ b.vmOnNode[args.nic].length = b.minVmCnt := by
            rw [← size]
            exact fun atMin => preferNic ⟨away, atMin⟩
          simp [balanceMove, vecAt_eq_ok.mpr onHigh, searched, decided, bind, Except.bind,
            away, onNic', notMin, done]
        · simp [balanceMove, vecAt_eq_ok.mpr onHigh, searched, decided, bind, Except.bind,
            away, done]

end Spec

end VNams.Strategy
