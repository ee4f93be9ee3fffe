import VNams.Lib.Rooms
import VNams.Nuiod.Refresh

/-!
Which decisions `perform` carries out.

A VM is only ever pinned to a CPU without an entry, so a decision for a node whose CPUs all
have one is passed over, and no decision is tried twice. Counted by node, this is the
serving of requests of `Lib.Rooms`: a decision is carried out exactly when it is admitted
after those before it. Two VMs that are to exchange nodes whose CPUs are all taken stay
where they are.
-/

namespace VNams.Nuiod

open Lib Monitor Strategy

variable {D : Type}

/-- The CPUs of a node. -/
def nodeCpus (nuiod : Nuiod D) (node : Int) : Finset Nat :=
  match vecAtInt nuiod.numaNodes node with
  | .ok node => node.cpuIds.toFinset
  | .error _ => ∅

/-- `cpu_node_mapping` at the CPU recorded for a domain. -/
def nodeOf (nuiod : Nuiod D) (id : Int) : Int :=
  nuiod.cpuNodeMapping.getD ((nuiod.recordedCpu id).getD (-1)) 0

/-- The CPUs of each node that have no entry. -/
def vacant (nuiod : Nuiod D) : Int → Nat :=
  vacancies nuiod.nodeCpus fun cpu => (cpu : Int) ∈ nuiod.cpuVmMapping

/-- The change of nodes that a decision asks for. -/
def request (nuiod : Nuiod D) (act : Decision) : Int × Int :=
  (nuiod.nodeOf act.domId, act.cpuNodeId)

/-- The VM is recorded on a CPU of the decided node. -/
def OnDecidedNode (nuiod : Nuiod D) (act : Decision) : Prop :=
  ∃ cpu ∈ nuiod.nodeCpus act.cpuNodeId, nuiod.recordedCpu act.domId = some (cpu : Int)

instance (nuiod : Nuiod D) (act : Decision) : Decidable (OnDecidedNode nuiod act) :=
  inferInstanceAs (Decidable (∃ cpu ∈ nuiod.nodeCpus act.cpuNodeId, _))

/-- Every VM is on a CPU of its own that belongs to a node, and the maps say so. -/
structure Placed (nuiod : Nuiod D) : Prop where
  agree : KeysAgree nuiod.vmInfosMap
  inverse : InverseMaps nuiod
  mapped : ∀ (node : Int) (cpu : Nat), cpu ∈ nuiod.nodeCpus node →
    nuiod.cpuNodeMapping[(cpu : Int)]? = some node
  onNode : ∀ id c : Int, nuiod.recordedCpu id = some c →
    ∃ node, ∃ cpu ∈ nuiod.nodeCpus node, c = (cpu : Int)

namespace Placed

variable {nuiod : Nuiod D}

/-- The nodes share no CPU. -/
theorem disjoint (placed : Placed nuiod) (m n : Int) (cpu : Nat) (first : cpu ∈ nuiod.nodeCpus m)
    (second : cpu ∈ nuiod.nodeCpus n) : m = n :=
  Option.some.inj ((placed.mapped m cpu first).symm.trans (placed.mapped n cpu second))

/-- A VM is on the node its CPU belongs to. -/
theorem nodeOf_eq (placed : Placed nuiod) {id node : Int} {cpu : Nat}
    (sits : nuiod.recordedCpu id = some (cpu : Int)) (here : cpu ∈ nuiod.nodeCpus node) :
    nuiod.nodeOf id = node := by
  rw [nodeOf, sits, Option.getD_some, Std.TreeMap.getD_eq_getD_getElem?,
    placed.mapped node cpu here, Option.getD_some]

/-- A VM is on a CPU of its node. -/
theorem exists_cpu (placed : Placed nuiod) {id c : Int} (sits : nuiod.recordedCpu id = some c) :
    ∃ cpu ∈ nuiod.nodeCpus (nuiod.nodeOf id), c = (cpu : Int) := by
  obtain ⟨node, cpu, here, rfl⟩ := placed.onNode id c sits
  rw [placed.nodeOf_eq sits here]
  exact ⟨cpu, here, rfl⟩

end Placed

/-- The decisions name each tracked VM once and existing nodes, and no node is decided for
more VMs than it has CPUs, all of which have a usage. -/
structure FeasibleList (nuiod : Nuiod D) (acts : List Decision) : Prop where
  once : (acts.map Decision.domId).Nodup
  named : ∀ id : Int, id ∈ acts.map Decision.domId ↔ id ∈ nuiod.vmInfosMap
  nodes : nuiod.numaNodes.length = nuiod.numaNumber
  inRange : ∀ act ∈ acts, 0 ≤ act.cpuNodeId ∧ act.cpuNodeId < nuiod.numaNumber
  covered : ∀ (node : Int) (cpu : Nat), cpu ∈ nuiod.nodeCpus node → cpu + 1 < nuiod.cpuUsage.length
  enough : ∀ node : Int, (acts.filter fun act => act.cpuNodeId = node).length
    ≤ (nuiod.nodeCpus node).card

/-- The decisions name tracked VMs, each once, and existing nodes, all of whose CPUs have a
usage. -/
structure Performable (nuiod : Nuiod D) (acts : List Decision) : Prop where
  once : (acts.map Decision.domId).Nodup
  named : ∀ act ∈ acts, act.domId ∈ nuiod.vmInfosMap
  nodes : nuiod.numaNodes.length = nuiod.numaNumber
  inRange : ∀ act ∈ acts, 0 ≤ act.cpuNodeId ∧ act.cpuNodeId < nuiod.numaNumber
  covered : ∀ (node : Int) (cpu : Nat), cpu ∈ nuiod.nodeCpus node → cpu + 1 < nuiod.cpuUsage.length

theorem FeasibleList.performable {nuiod : Nuiod D} {acts : List Decision}
    (feasible : FeasibleList nuiod acts) : Performable nuiod acts where
  once := feasible.once
  named _ mem := (feasible.named _).mp (List.mem_map_of_mem mem)
  nodes := feasible.nodes
  inRange := feasible.inRange
  covered := feasible.covered

/-- Pinning a tracked VM to a CPU of a node always succeeds. -/
def PinsSucceed (nuiod : Nuiod D) (env : PinEnv D) : Prop :=
  ∀ (id : Int) (vm : VmInfo D), nuiod.vmInfosMap[id]? = some vm → ∀ (node : Int),
    ∀ cpu ∈ nuiod.nodeCpus node, ∀ k, ∃ call,
      pinVcpuTo nuiod.cpuNumber vm.domPtr 0 cpu (env.pin k) = .ok (0, call)

/-- The lists hold the CPUs of the nodes. -/
def ListsCpus (nuiod : Nuiod D) (lists : List (List (Nat × D))) (acts : List Decision) : Prop :=
  ∀ act ∈ acts, ∃ cpus, vecAtInt lists act.cpuNodeId = .ok cpus ∧
    ∀ cpu, cpu ∈ cpus.map Prod.fst ↔ cpu ∈ nuiod.nodeCpus act.cpuNodeId

/-- What a decision does to the VMs and the machine: the VM it names is recorded on `c`. -/
structure Repins (nuiod nuiod' : Nuiod D) (id c : Int) : Prop where
  vms : ∀ x : Int, nuiod'.vmInfosMap[x]? =
    if x = id then (nuiod.vmInfosMap[id]?).map fun vm => { vm with realCpuNo := c }
    else nuiod.vmInfosMap[x]?
  nodes : ∀ x : Int, nuiod'.cpuNodeMapping[x]? = nuiod.cpuNodeMapping[x]?
  numaNodes : nuiod'.numaNodes = nuiod.numaNodes
  cpuNumber : nuiod'.cpuNumber = nuiod.cpuNumber

namespace Repins

variable {nuiod nuiod' : Nuiod D} {id c : Int}

theorem recordedCpu_self (repins : Repins nuiod nuiod' id c) (tracked : id ∈ nuiod.vmInfosMap) :
    nuiod'.recordedCpu id = some c := by
  obtain ⟨vm, present⟩ := mem_iff_getElem?.mp tracked
  simp [recordedCpu, repins.vms, present]

theorem recordedCpu_other (repins : Repins nuiod nuiod' id c) {x : Int} (other : x ≠ id) :
    nuiod'.recordedCpu x = nuiod.recordedCpu x := by
  simp [recordedCpu, repins.vms, other]

theorem nodeCpus_eq (repins : Repins nuiod nuiod' id c) : nuiod'.nodeCpus = nuiod.nodeCpus := by
  funext node
  rw [nodeCpus, nodeCpus, repins.numaNodes]

theorem nodeOf_other (repins : Repins nuiod nuiod' id c) {x : Int} (other : x ≠ id) :
    nuiod'.nodeOf x = nuiod.nodeOf x := by
  rw [nodeOf, nodeOf, repins.recordedCpu_other other, Std.TreeMap.getD_eq_getD_getElem?,
    Std.TreeMap.getD_eq_getD_getElem?, repins.nodes]

/-- No VM appears or disappears. -/
theorem mem_vms (repins : Repins nuiod nuiod' id c) (x : Int) :
    x ∈ nuiod'.vmInfosMap ↔ x ∈ nuiod.vmInfosMap := by
  rw [mem_iff_getElem?, mem_iff_getElem?, repins.vms]
  split
  · rename_i self
    subst self
    cases nuiod.vmInfosMap[x]? <;> simp
  · rfl

/-- A VM is the same but for its CPU. -/
theorem exists_vm (repins : Repins nuiod nuiod' id c) {x : Int} {vm' : VmInfo D}
    (present : nuiod'.vmInfosMap[x]? = some vm') :
    ∃ vm, nuiod.vmInfosMap[x]? = some vm ∧ vm'.domId = vm.domId ∧ vm'.domPtr = vm.domPtr := by
  rw [repins.vms] at present
  split at present
  · rename_i self
    subst self
    obtain ⟨vm, found, rfl⟩ := Option.map_eq_some_iff.mp present
    exact ⟨vm, found, rfl, rfl⟩
  · exact ⟨vm', present, rfl, rfl⟩

theorem pinsSucceed (repins : Repins nuiod nuiod' id c) {env : PinEnv D}
    (pins : PinsSucceed nuiod env) : PinsSucceed nuiod' env := by
  intro x vm' present node cpu here k
  obtain ⟨vm, found, _, handle⟩ := repins.exists_vm present
  rw [repins.nodeCpus_eq] at here
  rw [repins.cpuNumber, handle]
  exact pins x vm found node cpu here k

/-- The state stays in order when the new CPU belongs to a node and the CPU map follows. -/
theorem placed (repins : Repins nuiod nuiod' id c) (placed : Placed nuiod)
    (tracked : id ∈ nuiod.vmInfosMap) (inverse : InverseMaps nuiod')
    (onNode : ∃ node, ∃ cpu ∈ nuiod.nodeCpus node, c = (cpu : Int)) : Placed nuiod' where
  agree x vm' present := by
    obtain ⟨vm, found, own, _⟩ := repins.exists_vm present
    exact own.trans (placed.agree x vm found)
  inverse := inverse
  mapped node cpu here := by
    rw [repins.nodeCpus_eq] at here
    rw [repins.nodes]
    exact placed.mapped node cpu here
  onNode x c' sits := by
    rw [repins.nodeCpus_eq]
    by_cases self : x = id
    · subst self
      rw [repins.recordedCpu_self tracked] at sits
      cases sits
      exact onNode
    · rw [repins.recordedCpu_other self] at sits
      exact placed.onNode x c' sits

end Repins

section Double

variable [Double D] {nuiod : Nuiod D} {lists : List (List (Nat × D))} {env : PinEnv D}
  {entry : Decision × Nat} {vm : VmInfo D}

/-- A decision that is passed over leaves its VM where it is. -/
theorem Repins.of_touched (env : PinEnv D) (placed : Placed nuiod)
    (tracked : nuiod.vmInfosMap[entry.1.domId]? = some vm) :
    Repins nuiod (nuiod.touched env entry) entry.1.domId vm.realCpuNo where
  vms x := by
    rw [touched_tracked (mem_iff_getElem?.mpr ⟨vm, tracked⟩)]
    split
    · rename_i self
      rw [self, tracked]
      rfl
    · rfl
  nodes x := by
    obtain ⟨cpu, here, same⟩ := placed.exists_cpu (recordedCpu_eq_some.mpr ⟨vm, tracked, rfl⟩)
    have known : vm.realCpuNo ∈ nuiod.cpuNodeMapping := by
      rw [same]
      exact mem_iff_getElem?.mpr ⟨_, placed.mapped _ cpu here⟩
    have read : nuiod.vmInfosMap.getD entry.1.domId (VmInfo.new (env.rest entry.2)) = vm := by
      rw [Std.TreeMap.getD_eq_getD_getElem?, tracked, Option.getD_some]
    simp only [touched, read, Std.TreeMap.getElem?_insertIfNew]
    rw [if_neg fun new => new.2 known]
  numaNodes := rfl
  cpuNumber := rfl

/-- A decision that is carried out records its VM on the new CPU. -/
theorem Repins.of_change (env : PinEnv D) (placed : Placed nuiod)
    (tracked : nuiod.vmInfosMap[entry.1.domId]? = some vm) (cpu : Int) :
    Repins nuiod ((nuiod.touched env entry).changeCpuVmMapping entry.1.domId vm cpu)
      entry.1.domId cpu where
  vms x := by
    simp only [changeCpuVmMapping, Std.TreeMap.getElem?_insert, compare_eq_iff_eq,
      touched_tracked (mem_iff_getElem?.mpr ⟨vm, tracked⟩), tracked, eq_comm (a := x),
      Option.map_some]
  nodes := (Repins.of_touched env placed tracked).nodes
  numaNodes := rfl
  cpuNumber := rfl

/-- After a passed-over decision the maps are what they were. -/
theorem Placed.touched (placed : Placed nuiod) (env : PinEnv D)
    (tracked : nuiod.vmInfosMap[entry.1.domId]? = some vm) :
    Placed (nuiod.touched env entry) ∧ (nuiod.touched env entry).vacant = nuiod.vacant := by
  have repins := Repins.of_touched env placed tracked
  have seats : (nuiod.touched env entry).recordedCpu = nuiod.recordedCpu := by
    funext x
    rw [recordedCpu, recordedCpu, touched_tracked (mem_iff_getElem?.mpr ⟨vm, tracked⟩)]
  refine ⟨repins.placed placed (mem_iff_getElem?.mpr ⟨vm, tracked⟩) ?_ ?_, ?_⟩
  · intro c id
    rw [seats]
    exact placed.inverse c id
  · exact placed.onNode _ _ (recordedCpu_eq_some.mpr ⟨vm, tracked, rfl⟩)
  · unfold vacant
    rw [repins.nodeCpus_eq]
    rfl

/-- A pinned VM gives its entry up for one at the new CPU, which was free. -/
theorem Placed.change (placed : Placed nuiod) (env : PinEnv D)
    (tracked : nuiod.vmInfosMap[entry.1.domId]? = some vm)
    (apart : nuiod.nodeOf entry.1.domId ≠ entry.1.cpuNodeId) {cpu : Nat}
    (here : cpu ∈ nuiod.nodeCpus entry.1.cpuNodeId) (free : (cpu : Int) ∉ nuiod.cpuVmMapping) :
    Placed ((nuiod.touched env entry).changeCpuVmMapping entry.1.domId vm cpu) ∧
      ((nuiod.touched env entry).changeCpuVmMapping entry.1.domId vm cpu).vacant
        = serve nuiod.vacant (nuiod.request entry.1) := by
  have repins := Repins.of_change env placed tracked (cpu : Int)
  have present : entry.1.domId ∈ nuiod.vmInfosMap := mem_iff_getElem?.mpr ⟨vm, tracked⟩
  have sits : nuiod.recordedCpu entry.1.domId = some vm.realCpuNo :=
    recordedCpu_eq_some.mpr ⟨vm, tracked, rfl⟩
  have own := placed.agree _ vm tracked
  have held : nuiod.cpuVmMapping[vm.realCpuNo]? = some entry.1.domId :=
    (placed.inverse _ _).mpr sits
  have mapping : ((nuiod.touched env entry).changeCpuVmMapping entry.1.domId vm cpu).cpuVmMapping
      = (nuiod.cpuVmMapping.erase vm.realCpuNo).insert (cpu : Int) entry.1.domId := by
    simp only [changeCpuVmMapping, Nuiod.touched, releaseCpu, own, held, if_true]
  have empty : nuiod.cpuVmMapping[(cpu : Int)]? = none := Std.TreeMap.getElem?_eq_none free
  refine ⟨repins.placed placed present (fun c id => ?_) ⟨_, cpu, here, rfl⟩, ?_⟩
  · rw [mapping, Std.TreeMap.getElem?_insert, Std.TreeMap.getElem?_erase]
    simp only [compare_eq_iff_eq]
    by_cases self : id = entry.1.domId
    · subst self
      have only : nuiod.cpuVmMapping[c]? = some entry.1.domId → vm.realCpuNo = c := fun entered =>
        Option.some.inj (sits.symm.trans ((placed.inverse _ _).mp entered))
      rw [repins.recordedCpu_self present]
      grind
    · rw [repins.recordedCpu_other self, ← placed.inverse]
      grind
  · obtain ⟨old, belongs, same⟩ := placed.exists_cpu sits
    unfold vacant
    rw [repins.nodeCpus_eq]
    refine vacancies_move placed.disjoint belongs ?_ here free apart fun x => ?_
    · rw [← same]
      exact mem_iff_getElem?.mpr ⟨_, held⟩
    · rw [mapping, Std.TreeMap.mem_insert, Std.TreeMap.mem_erase, same]
      simp only [compare_eq_iff_eq, ne_eq, Int.natCast_inj]
      grind

/-! ### Runs -/

/-- What one decision comes to. -/
structure Outcome (nuiod nuiod' : Nuiod D) (act : Decision) (c : Int) : Prop where
  repins : Repins nuiod nuiod' act.domId c
  placed : Placed nuiod'
  vacant_eq : nuiod'.vacant = serve nuiod.vacant (nuiod.request act)
  carriedOut : Admitted nuiod.vacant (nuiod.request act) → OnDecidedNode nuiod' act
  passedOver : ¬ Admitted nuiod.vacant (nuiod.request act) → nuiod.recordedCpu act.domId = some c

/-- A decision is carried out exactly when it is admitted. -/
theorem performAct_outcome (entry : Decision × Nat) (placed : Placed nuiod)
    (pins : PinsSucceed nuiod env) (tracked : entry.1.domId ∈ nuiod.vmInfosMap)
    (listed : ListsCpus nuiod lists [entry.1]) :
    ∃ next c, performAct lists env nuiod entry = .ok next ∧ Outcome nuiod next entry.1 c := by
  obtain ⟨vm, found⟩ := mem_iff_getElem?.mp tracked
  have sits : nuiod.recordedCpu entry.1.domId = some vm.realCpuNo :=
    recordedCpu_eq_some.mpr ⟨vm, found, rfl⟩
  have node : nuiod.cpuNodeMapping.getD vm.realCpuNo 0 = nuiod.nodeOf entry.1.domId := by
    rw [nodeOf, sits, Option.getD_some]
  have touched := placed.touched env found
  have stays := Repins.of_touched env placed found
  obtain ⟨cpus, read, onNode⟩ := listed entry.1 List.mem_cons_self
  by_cases same : nuiod.nodeOf entry.1.domId = entry.1.cpuNodeId
  · refine ⟨_, vm.realCpuNo, performAct_home found (node.trans same), stays, touched.1, ?_,
      fun _ => ?_, fun _ => sits⟩
    · rw [touched.2, serve_of_same same]
    · obtain ⟨cpu, here, at_⟩ := placed.exists_cpu sits
      rw [same] at here
      rw [at_] at stays
      exact ⟨cpu, stays.nodeCpus_eq ▸ here, stays.recordedCpu_self tracked⟩
  · cases target : targetCpuno nuiod.cpuVmMapping cpus with
    | none =>
        have full : ¬ Admitted nuiod.vacant (nuiod.request entry.1) := by
          refine not_or.mpr ⟨same, not_not.mpr (vacancies_eq_zero.mpr fun cpu here => ?_)⟩
          obtain ⟨⟨c, usage⟩, mem, rfl⟩ := List.mem_map.mp ((onNode cpu).mpr here)
          have none := List.find?_eq_none.mp (Option.map_eq_none_iff.mp target) _ mem
          simpa using none
        refine ⟨_, vm.realCpuNo, performAct_full found ⟨cpus, read, target⟩, stays, touched.1, ?_,
          fun admitted => absurd admitted full, fun _ => sits⟩
        rw [touched.2, serve_of_refused full]
    | some cpu =>
        have free := targetCpuno_free target
        have here : cpu ∈ nuiod.nodeCpus entry.1.cpuNodeId := by
          obtain ⟨p, chosen, rfl⟩ := Option.map_eq_some_iff.mp target
          exact (onNode p.1).mp (List.mem_map_of_mem (List.mem_of_find?_eq_some chosen))
        obtain ⟨call, answer⟩ := pins _ vm found _ cpu here entry.2
        have pinned : performAct lists env nuiod entry =
            .ok ((nuiod.touched env entry).changeCpuVmMapping entry.1.domId vm cpu) := by
          rw [performAct, performActCall_eq found, if_neg (node ▸ same)]
          simp only [bind, Except.bind, read, target, answer]
          rfl
        have moves := Repins.of_change env placed found (cpu : Int)
        have changed := placed.change env found same here free
        have admitted : Admitted nuiod.vacant (nuiod.request entry.1) :=
          .inr fun none => free (vacancies_eq_zero.mp none cpu here)
        refine ⟨_, cpu, pinned, moves, changed.1,
          changed.2, fun _ => ⟨cpu, ?_, moves.recordedCpu_self tracked⟩,
          fun refused => absurd admitted refused⟩
        rw [moves.nodeCpus_eq]
        exact here

/-- The vacancies when the decision after these is reached. -/
def vacantAfter (nuiod : Nuiod D) (acts : List Decision) : Int → Nat :=
  (acts.map nuiod.request).foldl serve nuiod.vacant

/-- What a list of decisions comes to. -/
structure Placements (nuiod final : Nuiod D) (acts : List Decision) : Prop where
  placed : Placed final
  sameCpus : final.nodeCpus = nuiod.nodeCpus
  others : ∀ id ∉ acts.map Decision.domId, final.recordedCpu id = nuiod.recordedCpu id
  carriedOut : ∀ before act after, acts = before ++ act :: after →
    Admitted (nuiod.vacantAfter before) (nuiod.request act) → OnDecidedNode final act
  passedOver : ∀ before act after, acts = before ++ act :: after →
    ¬ Admitted (nuiod.vacantAfter before) (nuiod.request act) →
      final.recordedCpu act.domId = nuiod.recordedCpu act.domId

omit [Double D] in
/-- The first decision and those after it. -/
theorem Placements.cons {next final : Nuiod D} {act : Decision} {rest : List Decision} {c : Int}
    (outcome : Outcome nuiod next act c) (tracked : act.domId ∈ nuiod.vmInfosMap)
    (once : act.domId ∉ rest.map Decision.domId) (later : Placements next final rest) :
    Placements nuiod final (act :: rest) := by
  have other : ∀ act' ∈ rest, act'.domId ≠ act.domId := fun act' mem same =>
    once (same ▸ List.mem_map_of_mem mem)
  have requests : ∀ before : List Decision, (∀ act' ∈ before, act' ∈ rest) →
      before.map next.request = before.map nuiod.request := fun before sub =>
    List.map_congr_left fun act' mem => by
      rw [request, request, outcome.repins.nodeOf_other (other act' (sub act' mem))]
  have vacancies : ∀ before : List Decision, (∀ act' ∈ before, act' ∈ rest) →
      next.vacantAfter before = nuiod.vacantAfter (act :: before) := by
    intro before sub
    rw [vacantAfter, vacantAfter, requests before sub, outcome.vacant_eq]
    rfl
  have kept : final.recordedCpu act.domId = some c :=
    (later.others act.domId once).trans (outcome.repins.recordedCpu_self tracked)
  have reaches : ∀ before act' after, act :: rest = before ++ act' :: after →
      (before = [] ∧ act' = act) ∨ ∃ before', before = act :: before' ∧
        rest = before' ++ act' :: after ∧ act' ∈ rest ∧ ∀ act'' ∈ before', act'' ∈ rest := by
    intro before act' after whole
    cases before with
    | nil =>
        cases whole
        exact .inl ⟨rfl, rfl⟩
    | cons head before' =>
        cases whole
        exact .inr ⟨before', rfl, rfl, by simp, fun act'' mem => List.mem_append_left _ mem⟩
  refine ⟨later.placed, later.sameCpus.trans outcome.repins.nodeCpus_eq, ?_, ?_, ?_⟩
  · intro id unnamed
    rw [List.map_cons, List.mem_cons, not_or] at unnamed
    rw [later.others id unnamed.2, outcome.repins.recordedCpu_other unnamed.1]
  · intro before act' after whole admitted
    rcases reaches before act' after whole with ⟨rfl, rfl⟩ | ⟨before', rfl, split, mem, sub⟩
    · obtain ⟨cpu, here, sits⟩ := outcome.carriedOut admitted
      exact ⟨cpu, later.sameCpus ▸ here, (later.others _ once).trans sits⟩
    · apply later.carriedOut before' act' after split
      rw [vacancies before' sub, request, outcome.repins.nodeOf_other (other act' mem)]
      exact admitted
  · intro before act' after whole refused
    rcases reaches before act' after whole with ⟨rfl, rfl⟩ | ⟨before', rfl, split, mem, sub⟩
    · rw [kept, outcome.passedOver refused]
    · rw [later.passedOver before' act' after split ?_,
        outcome.repins.recordedCpu_other (other act' mem)]
      rw [vacancies before' sub, request, outcome.repins.nodeOf_other (other act' mem)]
      exact refused

/-- The decisions in order. -/
theorem exists_placements (acts : List Decision) (k : Nat) (placed : Placed nuiod)
    (pins : PinsSucceed nuiod env) (tracked : ∀ act ∈ acts, act.domId ∈ nuiod.vmInfosMap)
    (once : (acts.map Decision.domId).Nodup) (listed : ListsCpus nuiod lists acts) :
    ∃ final, (acts.zipIdx k).foldlM (performAct lists env) nuiod = .ok final ∧
      Placements nuiod final acts := by
  induction acts generalizing nuiod k with
  | nil =>
      refine ⟨nuiod, rfl, placed, rfl, fun _ _ => rfl, ?_, ?_⟩
      · intro before act after whole
        simp at whole
      · intro before act after whole
        simp at whole
  | cons act rest ih =>
      rw [List.map_cons, List.nodup_cons] at once
      have own := tracked act List.mem_cons_self
      obtain ⟨next, c, stepped, outcome⟩ := performAct_outcome (act, k) placed pins own
        fun act' mem => listed act' (List.mem_cons.mpr (.inl (List.mem_singleton.mp mem)))
      have listed' : ListsCpus next lists rest := fun act' mem => by
        rw [outcome.repins.nodeCpus_eq]
        exact listed act' (List.mem_cons_of_mem act mem)
      obtain ⟨final, later, placements⟩ := ih (k + 1) outcome.placed
        (outcome.repins.pinsSucceed pins)
        (fun act' mem =>
          (outcome.repins.mem_vms _).mpr (tracked act' (List.mem_cons_of_mem act mem)))
        once.2 listed'
      refine ⟨final, ?_, .cons outcome own once.1 placements⟩
      rw [List.zipIdx_cons, List.foldlM_cons, stepped]
      exact later

/-- The lists that `perform` sorts hold every CPU with a usage. -/
theorem exists_lists {acts : List Decision} (performable : Performable nuiod acts)
    (sort : CpuSort D) :
    ∃ lists, nuiod.nodeSortedCpuList sort = .ok lists ∧ ListsCpus nuiod lists acts := by
  obtain ⟨lists, sorts, each⟩ := nodeSortedCpuList_spec sort performable.nodes
  refine ⟨lists, sorts, fun act mem => ?_⟩
  obtain ⟨nonneg, upper⟩ := performable.inRange act mem
  obtain ⟨node, found, listed⟩ := each act.cpuNodeId.toNat (by omega)
  have cpus : nuiod.nodeCpus act.cpuNodeId = node.cpuIds.toFinset := by
    rw [nodeCpus, vecAtInt_eq_ok.mpr ⟨nonneg, found⟩]
  refine ⟨_, vecAtInt_eq_ok.mpr ⟨nonneg, listed⟩, fun cpu => ?_⟩
  have covered := performable.covered act.cpuNodeId cpu
  rw [cpus, List.mem_toFinset] at covered ⊢
  rw [List.mem_map]
  constructor
  · rintro ⟨p, mem, rfl⟩
    exact (mem_cpuList.mp (UnstableSort.mem_order.mp mem)).1
  · intro here
    obtain ⟨usage, used⟩ : ∃ usage, nuiod.cpuUsage[cpu + 1]? = some usage :=
      ⟨_, List.getElem?_eq_getElem (covered here)⟩
    exact ⟨(cpu, usage), UnstableSort.mem_order.mpr (mem_cpuList.mpr ⟨here, used⟩), rfl⟩

/-- `perform` on a feasible list, all pins succeeding: a decision whose VM is on the decided
node, or whose node has a CPU without an entry when its turn comes, is carried out; any
other is passed over and leaves the VM on its CPU. So the whole list is carried out exactly
when every decision is admitted in turn. -/
theorem perform_places (nuiod : Nuiod D) (acts : List Decision) (sort : CpuSort D)
    (env : PinEnv D) (placed : Placed nuiod) (feasible : FeasibleList nuiod acts)
    (pins : PinsSucceed nuiod env) :
    ∃ final, nuiod.perform acts sort env = .ok final ∧ InverseMaps final ∧
      (∀ before act after, acts = before ++ act :: after →
        (OnDecidedNode final act ↔ Admitted (nuiod.vacantAfter before) (nuiod.request act)) ∧
        (¬ Admitted (nuiod.vacantAfter before) (nuiod.request act) →
          final.recordedCpu act.domId = nuiod.recordedCpu act.domId)) ∧
      ((∀ act ∈ acts, OnDecidedNode final act) ↔
        AllAdmitted nuiod.vacant (acts.map nuiod.request)) := by
  obtain ⟨lists, sorts, listed⟩ := exists_lists feasible.performable sort
  obtain ⟨final, performed, placements⟩ :=
    exists_placements acts 0 placed pins feasible.performable.named feasible.once listed
  have exactly : ∀ before act after, acts = before ++ act :: after →
      (OnDecidedNode final act ↔ Admitted (nuiod.vacantAfter before) (nuiod.request act)) := by
    intro before act after whole
    refine ⟨fun arrived => ?_, placements.carriedOut before act after whole⟩
    by_contra refused
    obtain ⟨cpu, here, sits⟩ := arrived
    rw [placements.sameCpus] at here
    rw [placements.passedOver before act after whole refused] at sits
    exact refused (.inl (placed.nodeOf_eq sits here))
  refine ⟨final, ?_, placements.placed.inverse, fun before act after whole =>
    ⟨exactly before act after whole, placements.passedOver before act after whole⟩, ?_⟩
  · simp only [perform, sorts, bind, Except.bind]
    exact performed
  · rw [allAdmitted_iff]
    constructor
    · intro all before request after whole
      obtain ⟨before', rest', rfl, rfl, split⟩ := List.map_eq_append_iff.mp whole
      obtain ⟨act, after', rfl, rfl, rfl⟩ := List.map_eq_cons_iff.mp split
      exact (exactly before' act after' rfl).mp (all act (by simp))
    · intro all act mem
      obtain ⟨before, after, rfl⟩ := List.append_of_mem mem
      exact (exactly before act after rfl).mpr
        (all (before.map nuiod.request) _ (after.map nuiod.request) (by simp))

end Double

/-- Two VMs are to exchange nodes of one CPU each. -/
def exchangeNodes : List Decision := [⟨1, 1, 1⟩, ⟨2, 0, 0⟩]

theorem onBothCpus_cpus {node : Int} {cpu : Nat} :
    cpu ∈ onBothCpus.nodeCpus node ↔ (cpu : Int) = node ∧ cpu < 2 := by
  unfold nodeCpus
  cases read : vecAtInt onBothCpus.numaNodes node with
  | error e =>
      have outside : ¬ (0 ≤ node ∧ node < 2) := by
        intro inside
        obtain rfl | rfl : node = 0 ∨ node = 1 := by omega
        · cases read
        · cases read
      simp only [Finset.notMem_empty, false_iff]
      omega
  | ok found =>
      obtain ⟨nonneg, here⟩ := vecAtInt_eq_ok.mp read
      have inside := (List.getElem?_eq_some_iff.mp here).1
      obtain rfl | rfl : node = 0 ∨ node = 1 := by
        have two : onBothCpus.numaNodes.length = 2 := rfl
        omega
      · cases here
        simp only [List.mem_toFinset, List.mem_singleton]
        omega
      · cases here
        simp only [List.mem_toFinset, List.mem_singleton]
        omega

theorem onBothCpus_placed : Placed onBothCpus where
  agree := vmMapOf_agree _
  inverse := onBothCpus_inverse
  mapped node cpu here := by
    obtain ⟨rfl, small⟩ := onBothCpus_cpus.mp here
    obtain rfl | rfl : cpu = 0 ∨ cpu = 1 := by omega
    · rfl
    · rfl
  onNode id c sits := by
    obtain ⟨vm, tracked, rfl⟩ := recordedCpu_eq_some.mp sits
    rw [onBothCpus_vms] at tracked
    split_ifs at tracked
    · cases tracked
      exact ⟨0, 0, onBothCpus_cpus.mpr ⟨rfl, by omega⟩, rfl⟩
    · cases tracked
      exact ⟨1, 1, onBothCpus_cpus.mpr ⟨rfl, by omega⟩, rfl⟩

theorem exchangeNodes_feasible : FeasibleList onBothCpus exchangeNodes where
  once := by decide
  named id := by
    rw [mem_iff_getElem?, onBothCpus_vms]
    simp only [exchangeNodes, List.map_cons, List.map_nil, List.mem_cons, List.not_mem_nil]
    split_ifs with first second
    · simp [first]
    · simp [second]
    · simp [first, second]
  nodes := rfl
  inRange := by decide
  covered node cpu here := by
    have small := (onBothCpus_cpus.mp here).2
    show cpu + 1 < 3
    omega
  enough node := by
    by_cases known : node = 0 ∨ node = 1
    · obtain rfl | rfl := known
      · decide
      · decide
    · have none : exchangeNodes.filter (fun act => act.cpuNodeId = node) = [] := by
        refine List.filter_eq_nil_iff.mpr fun act mem => ?_
        simp only [exchangeNodes, List.mem_cons, List.not_mem_nil] at mem
        grind
      rw [none]
      exact Nat.zero_le _

theorem willing_pins : PinsSucceed onBothCpus willing := by
  intro id vm tracked node cpu here k
  obtain ⟨_, small⟩ := onBothCpus_cpus.mp here
  have handle : vm.domPtr ≠ none := by
    rw [onBothCpus_vms] at tracked
    split_ifs at tracked
    · cases tracked
      exact Option.some_ne_none 1
    · cases tracked
      exact Option.some_ne_none 2
  obtain ⟨p, known⟩ := Option.ne_none_iff_exists'.mp handle
  have inMap : cpu / 8 < onBothCpus.cpuNumber / 8 + 1 := by
    rw [Nat.div_eq_of_lt (by omega)]
    omega
  rw [known]
  exact ⟨_, pinVcpuTo_eq (some p) 0 0 inMap⟩

theorem perform_places_exchangeNodes :
    ∃ final, onBothCpus.perform exchangeNodes (UnstableSort.byRank id) willing = .ok final ∧
      InverseMaps final ∧
      (∀ before act after, exchangeNodes = before ++ act :: after →
        (OnDecidedNode final act ↔
          Admitted (onBothCpus.vacantAfter before) (onBothCpus.request act)) ∧
        (¬ Admitted (onBothCpus.vacantAfter before) (onBothCpus.request act) →
          final.recordedCpu act.domId = onBothCpus.recordedCpu act.domId)) ∧
      ((∀ act ∈ exchangeNodes, OnDecidedNode final act) ↔
        AllAdmitted onBothCpus.vacant (exchangeNodes.map onBothCpus.request)) :=
  perform_places onBothCpus exchangeNodes (UnstableSort.byRank id) willing onBothCpus_placed
    exchangeNodes_feasible willing_pins

/-- Neither of two VMs on full nodes can go first, so the exchange does not happen. -/
theorem exchangeNodes_passed_over :
    Placed onBothCpus ∧ FeasibleList onBothCpus exchangeNodes ∧ PinsSucceed onBothCpus willing ∧
      ¬ ∃ final, onBothCpus.perform exchangeNodes (UnstableSort.byRank id) willing = .ok final ∧
        ∀ act ∈ exchangeNodes, OnDecidedNode final act := by
  refine ⟨onBothCpus_placed, exchangeNodes_feasible, willing_pins, ?_⟩
  rintro ⟨final, performed, arrived⟩
  have stays : returns (fun final => ! decide (∀ act ∈ exchangeNodes, OnDecidedNode final act))
      (onBothCpus.perform exchangeNodes (UnstableSort.byRank id) willing) = true := by
    decide +kernel
  obtain ⟨final', performed', apart⟩ := returns_iff.mp stays
  cases performed.symm.trans performed'
  rw [decide_eq_true arrived] at apart
  cases apart

end VNams.Nuiod
