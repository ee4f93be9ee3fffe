import VNams.Strategy.Balance
import VNams.Strategy.Classify

/-!
`analyze` as a whole.

`analyze_spec` assembles the three phases: the lists that classification builds, a run of
the balancing loop over them, and the final move onto a free NIC node. Nothing is lost or
duplicated on the way, so the ids of the decisions are those of the scheduled VMs.
-/

namespace VNams.Strategy

open Lib

/-! ### Decisions -/

section Decisions

/-- The ids decided onto a node. -/
def onNode (acts : List Decision) (node : Nat) : List Int :=
  (acts.filter fun act => act.cpuNodeId = (node : Int)).map Decision.domId

theorem mem_decisions {vmOnNode : List (List Int)} {act : Decision} :
    act ∈ decisions vmOnNode ↔
      ∃ (node : Nat) (ls : List Int), vmOnNode[node]? = some ls ∧
        ∃ id ∈ ls, act = ⟨id, node, node⟩ := by
  simp only [decisions, List.mem_flatMap, List.mem_map, Prod.exists,
    List.mk_mem_zipIdx_iff_getElem?]
  constructor
  · rintro ⟨ls, node, listed, id, mem, rfl⟩
    exact ⟨node, ls, listed, id, mem, rfl⟩
  · rintro ⟨node, ls, listed, id, mem, rfl⟩
    exact ⟨ls, node, listed, id, mem, rfl⟩

/-- One decision for each VM listed, in the order of the lists. -/
theorem decisions_domId (vmOnNode : List (List Int)) :
    (decisions vmOnNode).map Decision.domId = vmOnNode.flatten := by
  rw [decisions, List.map_flatMap]
  simp only [List.map_map, Function.comp_def, List.map_id']
  rw [List.flatMap_def]
  exact congrArg List.flatten (List.zipIdx_map_fst ..)

/-- The decisions onto a node are its list. -/
theorem onNode_decisions (vmOnNode : List (List Int)) (node : Nat) :
    onNode (decisions vmOnNode) node = vmOnNode.getD node [] := by
  have shifted : ∀ (lists : List (List Int)) (k : Nat),
      onNode ((lists.zipIdx k).flatMap fun p => p.1.map fun id => ⟨id, p.2, p.2⟩) node
        = if k ≤ node then lists.getD (node - k) [] else [] := by
    intro lists
    induction lists with
    | nil => simp [onNode]
    | cons ls rest ih =>
        intro k
        rw [List.zipIdx_cons, List.flatMap_cons, onNode, List.filter_append, List.map_append]
        change _ ++ onNode _ node = _
        rw [ih (k + 1)]
        rcases Nat.lt_trichotomy node k with lt | rfl | gt
        · have other : (k : Int) ≠ node := by omega
          rw [if_neg (by omega), if_neg (by omega)]
          simp [List.filter_map, Function.comp_def, other]
        · rw [if_neg (by omega), if_pos (Nat.le_refl _), Nat.sub_self]
          simp [List.filter_map, Function.comp_def]
        · have other : (k : Int) ≠ node := by omega
          rw [if_pos (by omega), if_pos (by omega), show node - k = (node - (k + 1)) + 1 by omega]
          simp [List.filter_map, Function.comp_def, other]
  have whole := shifted vmOnNode 0
  rwa [if_pos (Nat.zero_le _), Nat.sub_zero] at whole

end Decisions

variable {D : Type}

section Loop

variable {args : ScheduleArgs D} {states : VmStateMap} {ties : NodeSort} {homed : List Int}
  {b b' : Balancer}

/-- Every iteration raises the flag. -/
theorem Iteration.flag (topo : args.Topology) (iteration : Iteration args states ties b b') :
    b'.flag = true := by
  cases iteration with
  | skip => rfl
  | leave => rfl
  | @level ls pos target minLoadNode vmId _ _ _ _ _ _ rebuilt =>
      obtain ⟨b'', rebuilt', _, _, raised, _⟩ :=
        rebuild_spec ties (Nat.zero_lt_of_lt topo.nic_lt) { b with
          flag := true, vmOnNode := moved b.vmOnNode b.highLoadNode pos target vmId,
          minLoadNode := minLoadNode }
      obtain rfl : b' = b'' := Except.ok.inj (rebuilt.symm.trans rebuilt')
      exact raised

/-- A lowered flag means that the loop was not entered. -/
theorem eq_of_flag (topo : args.Topology) (known : Known args.vmInfosMap homed)
    (start : ∃ snap k skipped, Phase args homed snap k skipped b)
    (path : Relation.ReflTransGen (BalanceStep args states ties) b b') (lowered : b'.flag = false) :
    b' = b := by
  rcases Relation.ReflTransGen.cases_tail path with same | ⟨mid, first, enter, stepped⟩
  · exact same
  · obtain ⟨snap, k, skipped, phase⟩ := phase_of_path topo known start first
    have raised := (phase.iteration topo known enter stepped).flag topo
    rw [lowered] at raised
    cases raised

/-- What the final adjustment leaves: the lists of the loop, or those after one IO
intensive VM moved to the free NIC node. -/
inductive Adjusted (args : ScheduleArgs D) (states : VmStateMap) (b : Balancer) :
    List (List Int) → Prop where
  | keep : Adjusted args states b b.vmOnNode
  | toNic {ls : List Int} {vmId : Int} (unentered : b.flag = false) (one : b.maxVmCnt = 1)
      (free : load b.vmOnNode args.nic = 0) (onHigh : b.vmOnNode[b.highLoadNode]? = some ls)
      (here : ls[0]? = some vmId) :
      Adjusted args states b (moved b.vmOnNode b.highLoadNode 0 args.nic vmId)

theorem adjustNetdev_spec (states : VmStateMap) (topo : args.Topology) (sane : b.Sane args)
    (fresh : b.flag = false → load b.vmOnNode b.highLoadNode = b.maxVmCnt) :
    ∃ vmOnNode, adjustNetdev args states b = .ok vmOnNode ∧ Adjusted args states b vmOnNode := by
  unfold adjustNetdev
  split
  · rename_i unentered
    obtain ⟨lowered, one⟩ := unentered
    have nicLt : args.nic < b.vmOnNode.length := by
      rw [sane.lists_length]
      exact topo.nic_lt
    have onNic := List.getElem?_eq_getElem nicLt
    rw [topo.netdev_eq, vecAtInt_natCast, vecAt_eq_ok.mpr onNic]
    simp only [bind, Except.bind]
    split
    · rename_i free
      rw [← load_of_getElem? onNic] at free
      obtain ⟨ls, onHigh, known⟩ := sane.list
      have size := fresh lowered
      rw [load_of_getElem? onHigh, one] at size
      cases ls with
      | nil => cases size
      | cons vmId rest =>
          obtain ⟨vm, present, sameId⟩ := known vmId List.mem_cons_self
          simp only [vecAt_eq_ok.mpr onHigh, present]
          split
          · exact ⟨_, moveVm_eq nicLt, .toNic lowered one free onHigh rfl⟩
          · exact ⟨_, rfl, .keep⟩
    · exact ⟨_, rfl, .keep⟩
  · exact ⟨_, rfl, .keep⟩

/-- The final adjustment only permutes the VMs listed. -/
theorem Adjusted.perm {vmOnNode : List (List Int)} (topo : args.Topology) (sane : b.Sane args)
    (adjusted : Adjusted args states b vmOnNode) :
    vmOnNode.flatten.Perm b.vmOnNode.flatten ∧ vmOnNode.length = args.numaNumber := by
  cases adjusted with
  | keep => exact ⟨.refl _, sane.lists_length⟩
  | toNic _ _ _ onHigh here =>
      refine ⟨flatten_moved onHigh here ?_, by rw [length_moved, sane.lists_length]⟩
      rw [sane.lists_length]
      exact topo.nic_lt

/-- A state the loop reaches from its start, with its final adjustment. -/
theorem adjust_of_path {vmOnNode : List (List Int)} (topo : args.Topology)
    (lists : vmOnNode.length = args.numaNumber) (known : Known args.vmInfosMap vmOnNode.flatten)
    (started : Balancer.start args ties vmOnNode = .ok b)
    (path : Relation.ReflTransGen (BalanceStep args states ties) b b') :
    b'.Sane args ∧ b'.vmOnNode.flatten.Perm vmOnNode.flatten ∧
      ∃ final, adjustNetdev args states b' = .ok final ∧ Adjusted args states b' final := by
  obtain ⟨b₀, started', phase₀, sameLists, _⟩ := start_spec ties topo lists
  obtain rfl : b = b₀ := Except.ok.inj (started.symm.trans started')
  obtain ⟨snap, k, skipped, phase⟩ := phase_of_path topo known ⟨_, _, _, phase₀⟩ path
  have sane := phase.sane topo known
  refine ⟨sane, phase.perm, adjustNetdev_spec states topo sane fun lowered => ?_⟩
  obtain rfl := eq_of_flag topo known ⟨_, _, _, phase₀⟩ path lowered
  rw [sameLists, phase₀.cached.maxVmCnt_eq]

end Loop

variable [Double D] {strategy : SimpleStrategy} {args : ScheduleArgs D}
  {vmStateSlot : Nat → VmState}

/-- The three phases of `analyze`: classification, the loop, the final adjustment. -/
structure Analyzed (strategy : SimpleStrategy) (args : ScheduleArgs D)
    (vmStateSlot : Nat → VmState) (ties : NodeSort) (c : Classified) (b b' : Balancer)
    (final : List (List Int)) : Prop where
  homed : Homed strategy args vmStateSlot c
  started : Balancer.start args ties c.vmOnNode = .ok b
  path : Relation.ReflTransGen (BalanceStep args c.vmStateMap ties) b b'
  done : b'.unbalanced = false
  adjusted : Adjusted args c.vmStateMap b' final
  perm : final.flatten.Perm (scheduledIds args vmStateSlot)
  length : final.length = args.numaNumber

theorem Homed.known {c : Classified} (homed : Homed strategy args vmStateSlot c)
    (agree : KeysAgree args.vmInfosMap) : Known args.vmInfosMap c.vmOnNode.flatten :=
  fun id mem => scheduledIds_known agree vmStateSlot id (homed.perm.mem_iff.mp mem)

/-- Once classification succeeds, `analyze` does. -/
theorem analyze_of_classify (topo : args.Topology) (agree : KeysAgree args.vmInfosMap)
    (ties : NodeSort) {c : Classified} (classified : classify strategy args vmStateSlot = .ok c) :
    ∃ b b' final, Analyzed strategy args vmStateSlot ties c b b' final ∧
      analyze strategy args vmStateSlot ties = .ok (decisions final) := by
  have homed := classify_spec agree classified
  have known := homed.known agree
  obtain ⟨b, b', started, balanced, path, done⟩ :=
    balance_total c.vmStateMap ties topo homed.length known
  obtain ⟨sane, perm, final, adjusts, adjusted⟩ :=
    adjust_of_path topo homed.length known started path
  obtain ⟨permFinal, length⟩ := adjusted.perm topo sane
  have perm' := (permFinal.trans perm).trans homed.perm
  refine ⟨b, b', final, ⟨homed, started, path, done, adjusted, perm', length⟩, ?_⟩
  simp only [analyze, classified, balanced, adjusts, bind, Except.bind]
  split
  · rename_i unset
    have none : scheduledIds args vmStateSlot = [] := by
      rw [homed.flag, Bool.not_eq_false'] at unset
      rw [scheduledIds, List.isEmpty_iff.mp unset, List.map_nil]
    have empty : final.flatten = [] := by
      rw [none] at perm'
      exact perm'.eq_nil
    rw [← decisions_domId, List.map_eq_nil_iff] at empty
    rw [empty]
  · rfl

/-- `analyze` succeeds exactly when classification does. -/
theorem analyze_isOk (strategy : SimpleStrategy) (topo : args.Topology) (agree : KeysAgree args.vmInfosMap)
    (ties : NodeSort) :
    (∃ acts, analyze strategy args vmStateSlot ties = .ok acts) ↔
      (∀ vm ∈ args.vmInfosMap.values, Covered args vm) ∧
        ∀ vm ∈ scheduled args vmStateSlot, HomeInRange args vm := by
  rw [← classify_isOk strategy]
  constructor
  · rintro ⟨acts, done⟩
    obtain ⟨c, classified, _⟩ := bind_eq_ok.mp done
    exact ⟨c, classified⟩
  · rintro ⟨c, classified⟩
    obtain ⟨_, _, final, _, done⟩ := analyze_of_classify topo agree ties classified
    exact ⟨_, done⟩

/-- One decision for each scheduled VM, onto a node. -/
theorem analyze_domId (topo : args.Topology) (agree : KeysAgree args.vmInfosMap)
    {ties : NodeSort} {acts : List Decision}
    (done : analyze strategy args vmStateSlot ties = .ok acts) :
    (acts.map Decision.domId).Perm (scheduledIds args vmStateSlot) ∧
      ∀ act ∈ acts, 0 ≤ act.cpuNodeId ∧ act.cpuNodeId < args.numaNumber ∧
        act.memNodeId = act.cpuNodeId := by
  obtain ⟨c, classified, _⟩ := bind_eq_ok.mp done
  obtain ⟨_, _, final, analyzed, done'⟩ := analyze_of_classify topo agree ties classified
  obtain rfl : acts = decisions final := Except.ok.inj (done.symm.trans done')
  refine ⟨by rw [decisions_domId]; exact analyzed.perm, fun act mem => ?_⟩
  obtain ⟨node, ls, listed, id, _, rfl⟩ := mem_decisions.mp mem
  obtain ⟨inRange, _⟩ := List.getElem?_eq_some_iff.mp listed
  rw [analyzed.length] at inRange
  exact ⟨Int.natCast_nonneg node, Int.ofNat_lt.mpr inRange, rfl⟩

end VNams.Strategy
