import VNams.Strategy.Whereabouts

/-!
Nodes that give and nodes that receive.

While every VM that leaves the NIC node leaves it on a current count, the nodes that lost a
VM stay within one VM of the fullest, those that gained one within one of the emptiest
(`OneSided`), and no node is both: `Separate` carries this through the loop, with what a
stale state needs besides. A moved VM is then always on its home node, so none is moved
twice.
-/

namespace VNams.Strategy

open Lib

variable {D : Type}

/-- A VM of `home` is no longer on the node. -/
def Lost (home vmOnNode : List (List Int)) (node : Nat) : Prop :=
  ∃ id ∈ listOf home node, id ∉ listOf vmOnNode node

/-- A VM of another home is on the node. -/
def Gained (home vmOnNode : List (List Int)) (node : Nat) : Prop :=
  ∃ id ∈ listOf vmOnNode node, id ∉ listOf home node

section Loop

variable {args : ScheduleArgs D} {states : VmStateMap} {ties : NodeSort} {homed : List Int}
  {home : List (List Int)} {snap : Nat → Nat} {k : Nat} {skipped : Bool} {b b' : Balancer}
  {ls : List Int} {pos target : Nat} {vmId : Int}

theorem Migration.lost (migration : Migration args states ties b b' ls pos target vmId)
    (nodup : b.vmOnNode.flatten.Nodup) (inRange : target < b.vmOnNode.length) {node : Nat}
    (lost : Lost home b'.vmOnNode node) :
    Lost home b.vmOnNode node ∨ node = b.highLoadNode := by
  obtain ⟨id, homedHere, gone⟩ := lost
  by_cases wasHere : id ∈ listOf b.vmOnNode node
  · rw [migration.mem_listOf nodup inRange] at gone
    by_cases same : id = vmId
    · exact .inr (listOf_unique nodup (same ▸ wasHere) migration.mem_high)
    · rw [if_neg same] at gone
      exact absurd wasHere gone
  · exact .inl ⟨id, homedHere, wasHere⟩

theorem Migration.gained (migration : Migration args states ties b b' ls pos target vmId)
    (nodup : b.vmOnNode.flatten.Nodup) (inRange : target < b.vmOnNode.length) {node : Nat}
    (gained : Gained home b'.vmOnNode node) :
    Gained home b.vmOnNode node ∨ node = target := by
  obtain ⟨id, here, foreign⟩ := gained
  rw [migration.mem_listOf nodup inRange] at here
  split at here
  · exact .inr here
  · exact .inl ⟨id, here, foreign⟩

/-- The nodes that lost a VM and those that gained one, in a phase with at most one stale
move. -/
structure Separate (args : ScheduleArgs D) (home : List (List Int)) (snap : Nat → Nat) (k : Nat)
    (b : Balancer) : Prop where
  sides : OneSided (nodes args.numaNumber) (load b.vmOnNode) (Lost home b.vmOnNode)
    (Gained home b.vmOnNode)
  apart : ∀ i < args.numaNumber, Lost home b.vmOnNode i → ¬ Gained home b.vmOnNode i
  once : k ≤ 1
  /-- the nodes cached as full gained nothing, and the remembered node lost nothing -/
  stale : k ≠ 0 → (∀ i < args.numaNumber, snap i = 2 → ¬ Gained home b.vmOnNode i) ∧
    ¬ Lost home b.vmOnNode b.minLoadNode

/-- What a migration from a node with the cached maximum leaves. -/
structure Separates (args : ScheduleArgs D) (home : List (List Int)) (b b' : Balancer)
    (target : Nat) : Prop where
  full : ¬ Gained home b.vmOnNode b.highLoadNode
  free : ¬ Lost home b.vmOnNode target
  ne : b.highLoadNode ≠ target
  sides : OneSided (nodes args.numaNumber) (load b'.vmOnNode) (Lost home b'.vmOnNode)
    (Gained home b'.vmOnNode)

theorem Separate.migrate (separate : Separate args home snap k b)
    (phase : Phase args homed snap k skipped b) (enter : b.unbalanced = true)
    (migration : Migration args states ties b b' ls pos target vmId)
    (nodup : b.vmOnNode.flatten.Nodup) (inRange : target < args.numaNumber)
    (high : load b.vmOnNode b.highLoadNode = b.maxVmCnt) :
    Separates args home b b' target := by
  have highLt := phase.cached.high_lt
  have highMem : b.highLoadNode ∈ nodes args.numaNumber := Finset.mem_range.mpr highLt
  have targetMem : target ∈ nodes args.numaNumber := Finset.mem_range.mpr inRange
  have gap := phase.cached.unbalanced_iff.mp enter
  have inLists : target < b.vmOnNode.length := by rwa [phase.lists_length]
  have shifted := migration.load_eq inLists
  have lost : ∀ node, Lost home b'.vmOnNode node →
      Lost home b.vmOnNode node ∨ node = b.highLoadNode :=
    fun node => migration.lost nodup inLists
  have gained : ∀ node, Gained home b'.vmOnNode node →
      Gained home b.vmOnNode node ∨ node = target :=
    fun node => migration.gained nodup inLists
  by_cases atMin : load b.vmOnNode target = b.minVmCnt
  · have wide : load b.vmOnNode target + 2 ≤ load b.vmOnNode b.highLoadNode := by omega
    have next := separate.sides.shift highMem targetMem
      (fun i mem => high ▸ phase.load_le_maxVmCnt enter (Finset.mem_range.mp mem))
      (fun i mem => atMin ▸ phase.minVmCnt_le (Finset.mem_range.mp mem)) wide
    refine ⟨separate.sides.not_received highMem targetMem wide,
      separate.sides.not_gave highMem targetMem wide, ?_, ?_⟩
    · rintro same
      rw [← same] at wide
      omega
    · rw [shifted]
      exact next.mono lost gained
  · -- no node is at the cached minimum: the VM goes to the node that one stale move filled
    obtain ⟨rfl, none⟩ : target = b.minLoadNode ∧
        ∀ j < args.numaNumber, load b.vmOnNode j ≠ b.minVmCnt := by
      cases migration.chosen with
      | nic _ _ isMin => exact absurd isMin atMin
      | nearby _ nearby =>
          obtain ⟨_, _, ⟨_, _, _, _, isMin, _⟩ | fallback⟩ := nearby
          · exact absurd isMin atMin
          · exact fallback
    have notFresh : k ≠ 0 := by
      rintro rfl
      obtain ⟨j, jLt, isMin⟩ := phase.cached.exists_minVmCnt
      rw [← phase.drift.eq_of_zero] at isMin
      exact none j jLt isMin
    have isOne : k = 1 := by
      have once := separate.once
      omega
    subst isOne
    obtain ⟨_, minimum, few⟩ := phase.stale (.inl notFresh)
    have two := phase.snap_nic (.inl notFresh)
    have top := few b.highLoadNode highLt
    rw [phase.cached.maxVmCnt_eq] at top
    have snapHigh : snap b.highLoadNode = 2 := by
      rw [phase.cached.maxVmCnt_eq]
      omega
    obtain ⟨ne, onTarget⟩ : b.highLoadNode ≠ b.minLoadNode ∧ load b.vmOnNode b.minLoadNode = 1 := by
      cases phase.drift with
      | one same _ away empty =>
          refine ⟨fun same' => ?_, by rw [same, shift_target away.symm, empty]⟩
          rw [same', empty] at snapHigh
          cases snapHigh
    have level : Level (nodes args.numaNumber) (load b'.vmOnNode) := by
      have between : ∀ i ∈ nodes args.numaNumber,
          1 ≤ load b'.vmOnNode i ∧ load b'.vmOnNode i ≤ 2 := by
        intro i mem
        have inRange' := Finset.mem_range.mp mem
        have upper := phase.drift.load_le few inRange'
        have lower := none i inRange'
        rw [shifted]
        by_cases isHigh : i = b.highLoadNode
        · rw [isHigh, shift_source ne]
          omega
        · by_cases isTarget : i = b.minLoadNode
          · rw [isTarget, shift_target ne]
            omega
          · rw [shift_other isHigh isTarget]
            omega
      exact level_of_bounds (m := 1) (fun i mem => (between i mem).1) fun i mem => (between i mem).2
    obtain ⟨full, free⟩ := separate.stale notFresh
    exact ⟨full b.highLoadNode highLt snapHigh, free, ne, .of_level level⟩

/-- The two ends of a migration stay apart from each other's side. -/
theorem Separates.apart (separates : Separates args home b b' target)
    (separate : Separate args home snap k b)
    (migration : Migration args states ties b b' ls pos target vmId)
    (nodup : b.vmOnNode.flatten.Nodup) (inRange : target < b.vmOnNode.length) :
    ∀ i < args.numaNumber, Lost home b'.vmOnNode i → ¬ Gained home b'.vmOnNode i := by
  intro i iLt lost gained
  rcases migration.lost nodup inRange lost with lost | rfl
  · rcases migration.gained nodup inRange gained with gained | rfl
    · exact separate.apart i iLt lost gained
    · exact separates.free lost
  · rcases migration.gained nodup inRange gained with gained | same
    · exact separates.full gained
    · exact separates.ne same

/-- The separation after a general move: nothing is stale. -/
theorem Separate.level (separate : Separate args home snap k b)
    (phase : Phase args homed snap k skipped b) (topo : args.Topology)
    (enter : b.unbalanced = true) (notNic : ¬ b.AtNic args)
    (migration : Migration args states ties b b' ls pos target vmId)
    (nodup : b.vmOnNode.flatten.Nodup) (inRange : target < args.numaNumber) :
    Separate args home (load b'.vmOnNode) 0 b' := by
  have separates := separate.migrate phase enter migration nodup inRange
    (phase.load_high topo enter notNic)
  rw [← phase.lists_length] at inRange
  exact ⟨separates.sides, separates.apart separate migration nodup inRange, Nat.zero_le 1,
    fun ne => absurd rfl ne⟩

/-- The separation after a VM left the NIC node on a current count. -/
theorem Separate.leave (separate : Separate args home snap k b)
    (phase : Phase args homed snap k skipped b) (topo : args.Topology)
    (enter : b.unbalanced = true) (atNic : b.AtNic args)
    (migration : Migration args states ties b b' ls pos target vmId)
    (nodup : b.vmOnNode.flatten.Nodup) (inRange : target < args.numaNumber)
    (high : load b.vmOnNode b.highLoadNode = b.maxVmCnt) :
    Separate args home snap (k + 1) b' := by
  have separates := separate.migrate phase enter migration nodup inRange high
  obtain ⟨_, two, cnt, minimum, _⟩ := phase.at_nic topo enter atNic
  have onNic := phase.drift.load_nic two
  have isNic := ((Phase.atNic_iff topo).mp atNic).1
  have fresh : k = 0 := by
    rw [isNic] at high
    omega
  subst fresh
  have same := phase.drift.eq_of_zero
  have highMem : b.highLoadNode ∈ nodes args.numaNumber :=
    Finset.mem_range.mpr phase.cached.high_lt
  obtain ⟨low, lowLt, lowest⟩ := phase.cached.exists_minVmCnt
  have inLists : target < b.vmOnNode.length := by rwa [phase.lists_length]
  refine ⟨separates.sides, separates.apart separate migration nodup inLists, Nat.le_refl 1,
    fun _ => ⟨fun i iLt full gained => ?_, ?_⟩⟩
  · -- a full node is two above the empty one, before the move
    have empty : load b.vmOnNode low + 2 ≤ load b.vmOnNode i := by
      rw [same]
      omega
    have none := separate.sides.not_received (Finset.mem_range.mpr iLt)
      (Finset.mem_range.mpr lowLt) empty
    rcases migration.gained nodup inLists gained with gained | rfl
    · exact none gained
    · have shifted := migration.load_eq inLists
      have atMin := migration.chosen.atMin ⟨low, lowLt, same ▸ lowest⟩
      rw [same] at atMin
      omega
  · have remembered : b'.minLoadNode = target := by rw [migration.remembered atNic]
    rw [remembered]
    intro lost
    rcases migration.lost nodup inLists lost with lost | isHigh
    · exact separates.free lost
    · exact separates.ne isHigh.symm

end Loop

/-! ### Every run -/

section Runs

variable [Double D] {strategy : SimpleStrategy} {args : ScheduleArgs D}
  {vmStateSlot : Nat → VmState} {ties : NodeSort} {c : Classified} {b b' : Balancer}

/-- Every VM that leaves the NIC node leaves it while it holds `max_vm_cnt` VMs. -/
def LeavesOnCount (strategy : SimpleStrategy) (args : ScheduleArgs D)
    (vmStateSlot : Nat → VmState) (ties : NodeSort) (c : Classified) : Prop :=
  ∀ b b' target id, Reached strategy args vmStateSlot ties c b →
    BalanceStep args c.vmStateMap ties b b' → Moves b b' args.nic target id →
    load b.vmOnNode args.nic = b.maxVmCnt

/-- A state in a phase, with its separation. -/
def Parted (args : ScheduleArgs D) (home : List (List Int)) (b : Balancer) : Prop :=
  ∃ snap k skipped, Phase args home.flatten snap k skipped b ∧ Separate args home snap k b

/-- What a move does in a parted state, on current counts. -/
theorem Parted.migrate (parted : Parted args c.vmOnNode b)
    (reached : Reached strategy args vmStateSlot ties c b) (topo : args.Topology)
    (agree : KeysAgree args.vmInfosMap) (current : LeavesOnCount strategy args vmStateSlot ties c)
    (stepped : BalanceStep args c.vmStateMap ties b b') {ls : List Int} {pos target : Nat}
    {vmId : Int} (migration : Migration args c.vmStateMap ties b b' ls pos target vmId)
    (inRange : target < b.vmOnNode.length) :
    Separates args c.vmOnNode b b' target ∧ Parted args c.vmOnNode b' := by
  obtain ⟨snap, k, skipped, phase, separate⟩ := parted
  have known := (reached.homed agree).known agree
  have nodup := reached.nodup topo agree
  have enter := stepped.1
  have targetLt : target < args.numaNumber := by rwa [← phase.lists_length]
  by_cases atNic : b.AtNic args
  · have isNic := ((Phase.atNic_iff topo).mp atNic).1
    have kept := migration.phase_leave phase topo known enter atNic
    have high : load b.vmOnNode b.highLoadNode = b.maxVmCnt := by
      have moves : Moves b b' args.nic target vmId := by
        refine ⟨?_, isNic ▸ migration.mem_high, ?_⟩
        · have away := kept.drift.away (Nat.succ_ne_zero k)
          rw [migration.remembered atNic] at away
          exact away.symm
        · rw [migration.mem_listOf nodup inRange, if_pos rfl]
      rw [isNic]
      exact current b b' target vmId reached stepped moves
    exact ⟨separate.migrate phase enter migration nodup targetLt high, snap, k + 1, false, kept,
      separate.leave phase topo enter atNic migration nodup targetLt high⟩
  · exact ⟨separate.migrate phase enter migration nodup targetLt
        (phase.load_high topo enter atNic), _, 0, false,
      migration.phase_level phase topo known atNic,
      separate.level phase topo enter atNic migration nodup targetLt⟩

/-- Every reached state is parted. -/
theorem Reached.parted (reached : Reached strategy args vmStateSlot ties c b)
    (topo : args.Topology) (agree : KeysAgree args.vmInfosMap)
    (current : LeavesOnCount strategy args vmStateSlot ties c) : Parted args c.vmOnNode b := by
  have homed := reached.homed agree
  refine reached.induct (fun b₀ started => ?_) fun b b' reached parted stepped => ?_
  · obtain ⟨b₁, started', phase₀, same, _⟩ := start_spec ties topo homed.length
    obtain rfl : b₀ = b₁ := Except.ok.inj (started.symm.trans started')
    have notLost : ∀ i, ¬ Lost c.vmOnNode b₀.vmOnNode i := by
      rintro i ⟨id, mem, gone⟩
      rw [same] at gone
      exact gone mem
    have notGained : ∀ i, ¬ Gained c.vmOnNode b₀.vmOnNode i := by
      rintro i ⟨id, mem, foreign⟩
      rw [same] at mem
      exact foreign mem
    exact ⟨_, 0, false, phase₀, ⟨fun d _ lost => absurd lost (notLost d),
      fun r _ gained => absurd gained (notGained r)⟩, fun i _ lost => absurd lost (notLost i),
      Nat.zero_le 1, fun ne => absurd rfl ne⟩
  · rcases reached.migration topo agree stepped with skip | ⟨ls, pos, t, vmId, migration, inRange⟩
    · obtain ⟨snap, k, skipped, phase, separate⟩ := parted
      refine ⟨snap, k, true, skip.phase phase topo stepped.1, ?_⟩
      cases skip with
      | intro => exact ⟨separate.sides, separate.apart, separate.once, separate.stale⟩
    · exact (parted.migrate reached topo agree current stepped migration inRange).2

/-! ### The decisions -/

/-- The node loses a VM homed on it and receives one homed elsewhere. -/
def Crosses (args : ScheduleArgs D) (vmStateSlot : Nat → VmState) (acts : List Decision)
    (node : Nat) : Prop :=
  (∃ id ∈ homedOn node (scheduled args vmStateSlot), id ∉ onNode acts node) ∧
    ∃ id ∈ onNode acts node, id ∉ homedOn node (scheduled args vmStateSlot)

/-- No node loses a VM and receives another one, and the loop moves no VM twice. -/
structure Straight (strategy : SimpleStrategy) (args : ScheduleArgs D)
    (vmStateSlot : Nat → VmState) (ties : NodeSort) (c : Classified) : Prop where
  apart : ∃ acts, analyze strategy args vmStateSlot ties = .ok acts ∧
    ∀ node < args.numaNumber, ¬ Crosses args vmStateSlot acts node
  once : ∀ b₁ b₂ b₃ b₄ s t s' t' id, Reached strategy args vmStateSlot ties c b₁ →
    BalanceStep args c.vmStateMap ties b₁ b₂ → Moves b₁ b₂ s t id →
    Relation.ReflTransGen (BalanceStep args c.vmStateMap ties) b₂ b₃ →
    BalanceStep args c.vmStateMap ties b₃ b₄ → ¬ Moves b₃ b₄ s' t' id

/-- A VM is moved off its home only. -/
theorem Reached.moves_home (reached : Reached strategy args vmStateSlot ties c b)
    (topo : args.Topology) (agree : KeysAgree args.vmInfosMap)
    (current : LeavesOnCount strategy args vmStateSlot ties c)
    (stepped : BalanceStep args c.vmStateMap ties b b') {source target : Nat} {id : Int}
    (moves : Moves b b' source target id) : id ∈ listOf c.vmOnNode source := by
  have nodup := reached.nodup topo agree
  rcases reached.migration topo agree stepped with skip | ⟨ls, pos, t, vmId, migration, inRange⟩
  · exact absurd moves (skip.not_moves nodup)
  · have separates := ((reached.parted topo agree current).migrate reached topo agree current
      stepped migration inRange).1
    obtain ⟨rfl, rfl, rfl⟩ := migration.eq_of_moves nodup inRange moves
    by_contra foreign
    exact separates.full ⟨id, moves.before, foreign⟩

/-- Once off its home a VM stays off its home. -/
theorem Reached.stays_away (reached : Reached strategy args vmStateSlot ties c b)
    (topo : args.Topology) (agree : KeysAgree args.vmInfosMap)
    (current : LeavesOnCount strategy args vmStateSlot ties c) {id : Int}
    (path : Relation.ReflTransGen (BalanceStep args c.vmStateMap ties) b b')
    (away : ∃ node, id ∈ listOf b.vmOnNode node ∧ id ∉ listOf c.vmOnNode node) :
    Reached strategy args vmStateSlot ties c b' ∧
      ∃ node, id ∈ listOf b'.vmOnNode node ∧ id ∉ listOf c.vmOnNode node := by
  induction path with
  | refl => exact ⟨reached, away⟩
  | @tail mid b' _ stepped ih =>
      obtain ⟨reached', node, here, foreign⟩ := ih
      refine ⟨reached'.next stepped, ?_⟩
      have nodup := reached'.nodup topo agree
      rcases reached'.migration topo agree stepped with
        skip | ⟨ls, pos, t, vmId, migration, inRange⟩
      · exact ⟨node, by rw [skip.lists]; exact here, foreign⟩
      · have separates := ((reached'.parted topo agree current).migrate reached' topo agree
          current stepped migration inRange).1
        have other : id ≠ vmId := by
          rintro rfl
          have isHigh := listOf_unique nodup here migration.mem_high
          exact separates.full ⟨id, migration.mem_high, isHigh ▸ foreign⟩
        refine ⟨node, ?_, foreign⟩
        rw [migration.mem_listOf nodup inRange, if_neg other]
        exact here

omit [Double D] in
/-- The adjustment of a loop that was not entered crosses nothing: one VM leaves its home for
the NIC node, which is empty. -/
theorem not_crossed_of_toNic {home : List (List Int)} {high nic : Nat} {ls : List Int}
    {vmId : Int} (nodup : home.flatten.Nodup) (onHigh : home[high]? = some ls)
    (here : ls[0]? = some vmId) (inRange : nic < home.length) (node : Nat)
    (lost : Lost home (moved home high 0 nic vmId) node)
    (gained : Gained home (moved home high 0 nic vmId) node) : False := by
  obtain ⟨id, homedHere, gone⟩ := lost
  obtain ⟨id', arrived, foreign⟩ := gained
  rw [mem_listOf_moved nodup onHigh here inRange] at gone arrived
  split at arrived
  · split at gone
    · exact gone arrived
    · exact gone homedHere
  · exact foreign arrived

theorem Homed.listOf_eq {c : Classified} (homed : Homed strategy args vmStateSlot c) {node : Nat}
    (inRange : node < args.numaNumber) :
    listOf c.vmOnNode node = homedOn node (scheduled args vmStateSlot) :=
  listOf_of_getElem? (homed.lists node inRange)

/-- The affinity that `Settled` carries holds in every reached state. -/
theorem Reached.settled (reached : Reached strategy args vmStateSlot ties c b)
    (topo : args.Topology) (agree : KeysAgree args.vmInfosMap)
    (real : ∀ vm ∈ scheduled args vmStateSlot, vm.domId ≠ -1) :
    Settled args c.vmStateMap c.vmOnNode.flatten (listOf c.vmOnNode args.nic) b := by
  have homed := reached.homed agree
  obtain ⟨classified, b₀, started, path⟩ := reached
  have start : Settled args c.vmStateMap c.vmOnNode.flatten (listOf c.vmOnNode args.nic) b₀ :=
    .of_start topo homed.length started
  exact start.run topo (homed.known agree) (homed.real real) path

/-- With at most one VM on the NIC node that is not IO intensive, none leaves it on a stale
count. -/
theorem leavesOnCount_of_nicOthers (topo : args.Topology) (agree : KeysAgree args.vmInfosMap)
    (real : ∀ vm ∈ scheduled args vmStateSlot, vm.domId ≠ -1)
    (few : nicOthers strategy args vmStateSlot ≤ 1) :
    LeavesOnCount strategy args vmStateSlot ties c := by
  intro b b' target id reached stepped moves
  have homed := reached.homed agree
  obtain ⟨snap, k, skipped, phase, affinity⟩ := reached.settled topo agree real
  have nodup := reached.nodup topo agree
  rcases reached.migration topo agree stepped with skip | ⟨ls, pos, t, vmId, migration, inRange⟩
  · exact absurd moves (skip.not_moves nodup)
  obtain ⟨isNic, rfl, rfl⟩ := migration.eq_of_moves nodup inRange moves
  rw [isNic]
  by_cases atNic : b.AtNic args
  · have isOther : 1 ≤ others c.vmStateMap (listOf b.vmOnNode args.nic) :=
      List.countP_pos_iff.mpr ⟨id, moves.before, by simpa using migration.other atNic⟩
    rw [← homed.others_nic topo] at few
    have fresh : k = 0 := by
      by_contra stale
      have bound := affinity.stale stale
      omega
    subst fresh
    rw [phase.drift.eq_of_zero]
    exact phase.cached.maxVmCnt_eq
  · exact phase.load_high topo stepped.1 atNic

/-- In a run in which every VM that leaves the NIC node leaves it on a current count, no node
crosses and no VM is moved twice. -/
theorem straight_of_leavesOnCount (strategy : SimpleStrategy) (args : ScheduleArgs D)
    (vmStateSlot : Nat → VmState) (ties : NodeSort) (topo : args.Topology)
    (agree : KeysAgree args.vmInfosMap) {c : Classified}
    (classified : classify strategy args vmStateSlot = .ok c)
    (current : LeavesOnCount strategy args vmStateSlot ties c) :
    Straight strategy args vmStateSlot ties c := by
  constructor
  · obtain ⟨b, b', final, analyzed, done⟩ := analyze_of_classify topo agree ties classified
    have reached : Reached strategy args vmStateSlot ties c b' :=
      ⟨classified, b, analyzed.started, analyzed.path⟩
    refine ⟨_, done, fun node inRange crosses => ?_⟩
    have homed := analyzed.homed
    rw [Crosses, onNode_decisions, ← homed.listOf_eq inRange] at crosses
    obtain ⟨lost, gained⟩ := crosses
    cases analyzed.adjusted with
    | keep =>
        obtain ⟨_, _, _, _, separate⟩ := reached.parted topo agree current
        exact separate.apart node inRange lost gained
    | @toNic ls vmId unentered _ _ onHigh here =>
        obtain ⟨b₀, started', phase₀, same, _⟩ := start_spec ties topo homed.length
        obtain rfl : b = b₀ := Except.ok.inj (analyzed.started.symm.trans started')
        obtain rfl := eq_of_flag topo (homed.known agree) ⟨_, _, _, phase₀⟩ analyzed.path unentered
        have nodup := reached.nodup topo agree
        have nicLt : args.nic < b'.vmOnNode.length := by
          rw [phase₀.lists_length]
          exact topo.nic_lt
        rw [← same] at lost gained
        exact not_crossed_of_toNic nodup onHigh here nicLt node lost gained
  · intro b₁ b₂ b₃ b₄ s t s' t' id reached stepped moves path stepped' moves'
    have fromHome := reached.moves_home topo agree current stepped moves
    have homes : c.vmOnNode.flatten.Nodup :=
      (reached.homed agree).perm.nodup_iff.mpr (scheduledIds_nodup agree vmStateSlot)
    have away : ∃ node, id ∈ listOf b₂.vmOnNode node ∧ id ∉ listOf c.vmOnNode node :=
      ⟨t, moves.after, fun homedThere => moves.apart (listOf_unique homes fromHome homedThere)⟩
    obtain ⟨reached', node, here, foreign⟩ :=
      (reached.next stepped).stays_away topo agree current path away
    have fromHome' := reached'.moves_home topo agree current stepped' moves'
    have same := listOf_unique (reached'.nodup topo agree) here moves'.before
    exact foreign (same ▸ fromHome')

end Runs

/-! ### Two VMs leave, another comes -/

/-- Four nodes of one CPU each, the NIC on node 0. -/
def fourNodes : List (NumaNode ℚ) :=
  [⟨0, [0], [(0, 10), (1, 20), (2, 30), (3, 40)]⟩, ⟨1, [1], [(1, 10), (0, 20), (3, 30), (2, 40)]⟩,
    ⟨2, [2], [(2, 10), (3, 20), (0, 30), (1, 40)]⟩, ⟨3, [3], [(3, 10), (2, 20), (1, 30), (0, 40)]⟩]

/-- The arguments of a round on that machine; every CPU is busy. -/
def fourNodeArgs (vms : List (VmInfo ℚ)) : ScheduleArgs ℚ where
  vmInfosMap := vmMapOf vms
  cpuUsage := [60, 60, 60, 60, 60]
  numaNodes := fourNodes
  numaNumber := 4
  netdevNumanode := 0

theorem fourNodeArgs_topology (vms : List (VmInfo ℚ)) : (fourNodeArgs vms).Topology where
  netdev_nonneg := Int.le_refl 0
  netdev_lt := show (0 : Int) < 4 by decide
  numaNodes_length := rfl
  lat_covers := show ∀ node ∈ fourNodes, ∀ j < 4, ∃ p ∈ node.sortedLatNodeList, p.1 = j by decide
  lat_valid := show ∀ node ∈ fourNodes, ∀ p ∈ node.sortedLatNodeList, p.1 < 4 by decide

theorem fourNodeArgs_agree (vms : List (VmInfo ℚ)) : KeysAgree (fourNodeArgs vms).vmInfosMap :=
  vmMapOf_agree vms

/-- An IO intensive VM and another one on the NIC node, alone on the machine. -/
def ioAndOther : ScheduleArgs ℚ :=
  fourNodeArgs [steadyVm 1 0 0 200000 50, steadyVm 2 0 0 0 50]

/-- The other one leaves the NIC node. -/
theorem straight_of_leavesOnCount_ioAndOther :
    analyze {} ioAndOther (fun _ => .otherStat) (UnstableSort.byRank id)
        = .ok [⟨1, 0, 0⟩, ⟨2, 1, 1⟩] ∧
      ∃ c, Straight {} ioAndOther (fun _ => .otherStat) (UnstableSort.byRank id) c := by
  obtain ⟨c, classified⟩ := (classify_isOk {}).mpr
    (show (∀ vm ∈ ioAndOther.vmInfosMap.values, Covered ioAndOther vm) ∧
      ∀ vm ∈ scheduled ioAndOther fun _ => .otherStat, HomeInRange ioAndOther vm from
        ⟨by decide +kernel, by decide +kernel⟩)
  exact ⟨by decide +kernel, c, straight_of_leavesOnCount {} ioAndOther _ _
    (fourNodeArgs_topology _) (fourNodeArgs_agree _) classified
    (leavesOnCount_of_nicOthers (fourNodeArgs_topology _) (fourNodeArgs_agree _)
      (by decide +kernel) (by decide +kernel))⟩

/-- Two VMs on the NIC node and two on node 1, none of them IO intensive. -/
def twoAndTwo : ScheduleArgs ℚ :=
  fourNodeArgs [steadyVm 1 0 0 0 50, steadyVm 2 0 0 0 50, steadyVm 3 1 1 0 50, steadyVm 4 1 1 0 50]

/-- Both VMs leave the NIC node, and one of node 1 is moved there. -/
theorem twoAndTwo_crosses :
    let ties : NodeSort := UnstableSort.byRank fun node => if node = 0 then 4 else node
    analyze {} twoAndTwo (fun _ => .otherStat) ties
        = .ok [⟨3, 0, 0⟩, ⟨4, 1, 1⟩, ⟨1, 2, 2⟩, ⟨2, 3, 3⟩] ∧
      ¬ ∃ c, Straight {} twoAndTwo (fun _ => .otherStat) ties c := by
  intro ties
  have computed : analyze {} twoAndTwo (fun _ => .otherStat) ties
      = .ok [⟨3, 0, 0⟩, ⟨4, 1, 1⟩, ⟨1, 2, 2⟩, ⟨2, 3, 3⟩] := by decide +kernel
  refine ⟨computed, ?_⟩
  rintro ⟨c, ⟨acts, done, apart⟩, _⟩
  rw [computed] at done
  cases done
  exact apart 0 (by decide) ⟨⟨1, by decide +kernel, by decide +kernel⟩,
    3, by decide +kernel, by decide +kernel⟩

end VNams.Strategy
