import VNams.Lib.Passes
import VNams.Nuiod.Placement
import VNams.Nuiod.Records

/-!
Decisions that are performed again.

`perform` passes a decision over when the decided node is full at its turn, and does not come
back to it. The strategy decides by home nodes, which do not change, so the next round asks
for the same nodes again. A call of `perform` is a `pass` over the decisions as wishes
(`perform_passed`), so the rounds come to rest, and where the nodes have a CPU to spare they
come to rest with every decided VM on its node. A VM without a decision stays where it is, and
the CPU it holds (`heldByOthers`) counts like one that the node does not have.
-/

namespace VNams.Nuiod

open Lib Strategy

variable {D : Type}

/-- Which node each VM is on, and the CPUs of the nodes without an entry. -/
def lodging (nuiod : Nuiod D) : Lodging Int Int := ⟨nuiod.vacant, nuiod.nodeOf⟩

/-- What a decision asks for. -/
def wish (act : Decision) : Int × Int := (act.domId, act.cpuNodeId)

theorem map_wish_fst (acts : List Decision) :
    (acts.map wish).map Prod.fst = acts.map Decision.domId :=
  List.map_map

section Placed

variable {nuiod nuiod' : Nuiod D} {act : Decision}

/-- A VM with a decision has arrived when it is on a CPU of the node. -/
theorem Placed.arrived_iff (placed : Placed nuiod) (tracked : act.domId ∈ nuiod.vmInfosMap) :
    Arrived nuiod.lodging (wish act) ↔ OnDecidedNode nuiod act := by
  constructor
  · intro arrived
    obtain ⟨vm, present⟩ := mem_iff_getElem?.mp tracked
    have sits := recordedCpu_eq_some.mpr ⟨vm, present, rfl⟩
    obtain ⟨cpu, here, same⟩ := placed.exists_cpu sits
    exact ⟨cpu, (show nuiod.nodeOf act.domId = act.cpuNodeId from arrived) ▸ here, same ▸ sits⟩
  · rintro ⟨cpu, here, sits⟩
    exact placed.nodeOf_eq sits here

/-- A VM that stays on its CPU stays on its node. -/
theorem Repins.nodeOf_stays {id c : Int} (repins : Repins nuiod nuiod' id c)
    (tracked : id ∈ nuiod.vmInfosMap) (stays : nuiod.recordedCpu id = some c) :
    nuiod'.nodeOf = nuiod.nodeOf := by
  funext x
  by_cases self : x = id
  · subst self
    rw [nodeOf, nodeOf, repins.recordedCpu_self tracked, stays, Std.TreeMap.getD_eq_getD_getElem?,
      Std.TreeMap.getD_eq_getD_getElem?, repins.nodes]
  · exact repins.nodeOf_other self

end Placed

section Double

variable [Double D] {nuiod : Nuiod D} {lists : List (List (Nat × D))} {env : PinEnv D}

omit [Double D] in
/-- What a decision comes to is what its wish comes to. -/
theorem Outcome.lodging_eq {next : Nuiod D} {act : Decision} {c : Int}
    (outcome : Outcome nuiod next act c) (tracked : act.domId ∈ nuiod.vmInfosMap) :
    next.lodging = ask nuiod.lodging (wish act) := by
  by_cases admitted : Admitted nuiod.vacant (nuiod.request act)
  · have rooms : next.nodeOf = Function.update nuiod.nodeOf act.domId act.cpuNodeId := by
      obtain ⟨cpu, here, sits⟩ := outcome.carriedOut admitted
      funext x
      by_cases self : x = act.domId
      · rw [self, Function.update_self]
        exact outcome.placed.nodeOf_eq sits here
      · rw [Function.update_of_ne self]
        exact outcome.repins.nodeOf_other self
    rw [ask, lodging, rooms, outcome.vacant_eq]
    exact (if_pos admitted).symm
  · have rooms := outcome.repins.nodeOf_stays tracked (outcome.passedOver admitted)
    rw [ask, lodging, rooms, outcome.vacant_eq, serve_of_refused admitted]
    exact (if_neg admitted).symm

/-- A call of `perform` seen as a pass, with what it leaves for the next. -/
structure Passed (nuiod final : Nuiod D) (acts : List Decision) : Prop where
  placed : Placed final
  sameCpus : final.nodeCpus = nuiod.nodeCpus
  lodging_eq : final.lodging = pass (acts.map wish) nuiod.lodging
  others : ∀ id ∉ acts.map Decision.domId, final.recordedCpu id = nuiod.recordedCpu id
  performable : ∀ later, Performable nuiod later → Performable final later
  pins : ∀ env, PinsSucceed nuiod env → PinsSucceed final env

/-- A decision leaves other decisions performable. -/
theorem Performable.act {next : Nuiod D} {entry : Decision × Nat} {acts : List Decision}
    (performable : Performable nuiod acts) (tracked : entry.1.domId ∈ nuiod.vmInfosMap)
    (done : performAct lists env nuiod entry = .ok next) : Performable next acts := by
  have keeps : Keeps nuiod next := move_keeps (m := .act lists env entry) tracked trivial done
  have number : next.numaNumber = nuiod.numaNumber := by rw [keeps.conf]
  have cpus : next.nodeCpus = nuiod.nodeCpus := by
    funext node
    rw [nodeCpus, nodeCpus, keeps.numaNodes]
  refine ⟨performable.once, fun act mem => ?_, ?_, ?_, ?_⟩
  · rw [act_keys tracked done]
    exact performable.named act mem
  · rw [keeps.numaNodes, number]
    exact performable.nodes
  · rw [number]
    exact performable.inRange
  · rw [cpus, keeps.cpuUsage]
    exact performable.covered

/-- The decisions in order are a pass. -/
theorem exists_passed (acts : List Decision) (k : Nat) (placed : Placed nuiod)
    (pins : PinsSucceed nuiod env) (tracked : ∀ act ∈ acts, act.domId ∈ nuiod.vmInfosMap)
    (listed : ListsCpus nuiod lists acts) :
    ∃ final, (acts.zipIdx k).foldlM (performAct lists env) nuiod = .ok final ∧
      Passed nuiod final acts := by
  induction acts generalizing nuiod k with
  | nil => exact ⟨nuiod, rfl, placed, rfl, rfl, fun _ _ => rfl, fun _ => id, fun _ => id⟩
  | cons act rest ih =>
      have own := tracked act List.mem_cons_self
      obtain ⟨next, c, stepped, outcome⟩ := performAct_outcome (act, k) placed pins own
        fun act' mem => listed act' (List.mem_cons.mpr (.inl (List.mem_singleton.mp mem)))
      have listed' : ListsCpus next lists rest := fun act' mem => by
        rw [outcome.repins.nodeCpus_eq]
        exact listed act' (List.mem_cons_of_mem act mem)
      obtain ⟨final, later, passed⟩ := ih (k + 1) outcome.placed
        (outcome.repins.pinsSucceed pins)
        (fun act' mem =>
          (outcome.repins.mem_vms _).mpr (tracked act' (List.mem_cons_of_mem act mem)))
        listed'
      refine ⟨final, ?_, {
        placed := passed.placed
        sameCpus := passed.sameCpus.trans outcome.repins.nodeCpus_eq
        lodging_eq := ?_
        others := fun id unnamed => ?_
        performable := fun later performable => passed.performable later (performable.act own stepped)
        pins := fun env pins => passed.pins env (outcome.repins.pinsSucceed pins) }⟩
      · rw [List.zipIdx_cons, List.foldlM_cons, stepped]
        exact later
      · rw [passed.lodging_eq, outcome.lodging_eq own]
        rfl
      · rw [List.map_cons, List.mem_cons, not_or] at unnamed
        rw [passed.others id unnamed.2, outcome.repins.recordedCpu_other unnamed.1]

theorem perform_passed {acts : List Decision} (sort : CpuSort D) (placed : Placed nuiod)
    (performable : Performable nuiod acts) (pins : PinsSucceed nuiod env) :
    ∃ final, nuiod.perform acts sort env = .ok final ∧ Passed nuiod final acts := by
  obtain ⟨lists, sorts, listed⟩ := exists_lists performable sort
  obtain ⟨final, performed, passed⟩ :=
    exists_passed acts 0 placed pins performable.named listed
  refine ⟨final, ?_, passed⟩
  simp only [perform, sorts, bind, Except.bind]
  exact performed

/-- One call of `perform` after the other, each with its order of CPUs and its answers. -/
def performAgain (acts : List Decision) (calls : List (CpuSort D × PinEnv D)) (nuiod : Nuiod D) :
    Except Fault (Nuiod D) :=
  calls.foldlM (fun nuiod call => nuiod.perform acts call.1 call.2) nuiod

/-- The calls together are as many passes. -/
structure PassedAgain (nuiod final : Nuiod D) (acts : List Decision) (calls : Nat) : Prop where
  placed : Placed final
  performable : Performable final acts
  sameCpus : final.nodeCpus = nuiod.nodeCpus
  lodging_eq : final.lodging = (pass (acts.map wish))^[calls] nuiod.lodging
  others : ∀ id ∉ acts.map Decision.domId, final.recordedCpu id = nuiod.recordedCpu id

theorem performAgain_passed {acts : List Decision} {calls : List (CpuSort D × PinEnv D)}
    (placed : Placed nuiod) (performable : Performable nuiod acts)
    (pins : ∀ call ∈ calls, PinsSucceed nuiod call.2) :
    ∃ final, performAgain acts calls nuiod = .ok final ∧
      PassedAgain nuiod final acts calls.length := by
  induction calls generalizing nuiod with
  | nil => exact ⟨nuiod, rfl, placed, performable, rfl, rfl, fun _ _ => rfl⟩
  | cons call rest ih =>
      obtain ⟨next, performed, passed⟩ :=
        perform_passed call.1 placed performable (pins call List.mem_cons_self)
      obtain ⟨final, later, again⟩ := ih passed.placed (passed.performable acts performable)
        fun call' mem => passed.pins _ (pins call' (List.mem_cons_of_mem call mem))
      refine ⟨final, ?_, again.placed, again.performable, again.sameCpus.trans passed.sameCpus, ?_,
        fun id unnamed => (again.others id unnamed).trans (passed.others id unnamed)⟩
      · rw [performAgain, List.foldlM_cons, performed]
        exact later
      · rw [again.lodging_eq, passed.lodging_eq, List.length_cons, Function.iterate_succ_apply]

/-! ### At rest -/

/-- A decision at rest makes no call. -/
theorem performAct_rest {entry : Decision × Nat} {vm : VmInfo D}
    (tracked : nuiod.vmInfosMap[entry.1.domId]? = some vm) (listed : ListsCpus nuiod lists [entry.1])
    (rest : AtRest nuiod.lodging (wish entry.1)) :
    performAct lists env nuiod entry = .ok (nuiod.touched env entry) := by
  rcases rest with arrived | full
  · apply performAct_home tracked
    have isNode : nuiod.nodeOf entry.1.domId = entry.1.cpuNodeId := arrived
    rwa [nodeOf, recordedCpu_eq_some.mpr ⟨vm, tracked, rfl⟩, Option.getD_some] at isNode
  · obtain ⟨cpus, read, onNode⟩ := listed entry.1 List.mem_cons_self
    refine performAct_full tracked ⟨cpus, read, ?_⟩
    by_contra some
    obtain ⟨cpu, target⟩ := Option.ne_none_iff_exists'.mp some
    have free := targetCpuno_free target
    obtain ⟨p, chosen, rfl⟩ := Option.map_eq_some_iff.mp target
    have here := (onNode p.1).mp (List.mem_map_of_mem (List.mem_of_find?_eq_some chosen))
    exact free (vacancies_eq_zero.mp full p.1 here)

/-- Passing a decision over leaves every VM on its node. -/
theorem Placed.touched_lodging (placed : Placed nuiod) (env : PinEnv D) {entry : Decision × Nat}
    {vm : VmInfo D} (tracked : nuiod.vmInfosMap[entry.1.domId]? = some vm) :
    (nuiod.touched env entry).lodging = nuiod.lodging := by
  have rooms := (Repins.of_touched env placed tracked).nodeOf_stays
    (mem_iff_getElem?.mpr ⟨vm, tracked⟩) (recordedCpu_eq_some.mpr ⟨vm, tracked, rfl⟩)
  rw [lodging, lodging, rooms, (placed.touched env tracked).2]

/-- Decisions at rest are passed over, whatever a pin would answer. -/
theorem performActs_rest (env : PinEnv D) (acts : List Decision) (k : Nat) (placed : Placed nuiod)
    (tracked : ∀ act ∈ acts, act.domId ∈ nuiod.vmInfosMap) (listed : ListsCpus nuiod lists acts)
    (rest : ∀ act ∈ acts, AtRest nuiod.lodging (wish act)) :
    ∃ final, (acts.zipIdx k).foldlM (performAct lists env) nuiod = .ok final ∧
      SameMaps nuiod final := by
  induction acts generalizing nuiod k with
  | nil => exact ⟨nuiod, rfl, fun _ => rfl, rfl⟩
  | cons act later ih =>
      have own := tracked act List.mem_cons_self
      obtain ⟨vm, present⟩ := mem_iff_getElem?.mp own
      have one : ListsCpus nuiod lists [act] := fun act' mem =>
        listed act' (List.mem_cons.mpr (.inl (List.mem_singleton.mp mem)))
      have stepped : performAct lists env nuiod (act, k) = .ok (nuiod.touched env (act, k)) :=
        performAct_rest present one (rest act List.mem_cons_self)
      have same : SameMaps nuiod (nuiod.touched env (act, k)) := .of_touched env own
      have repins : Repins nuiod (nuiod.touched env (act, k)) act.domId vm.realCpuNo :=
        .of_touched env placed present
      have placed' : Placed (nuiod.touched env (act, k)) := (placed.touched env present).1
      have room : (nuiod.touched env (act, k)).lodging = nuiod.lodging :=
        placed.touched_lodging env present
      obtain ⟨final, done, same'⟩ := ih (k + 1) placed'
        (fun act' mem => (repins.mem_vms _).mpr (tracked act' (List.mem_cons_of_mem act mem)))
        (fun act' mem => by
          rw [repins.nodeCpus_eq]
          exact listed act' (List.mem_cons_of_mem act mem))
        (fun act' mem => by
          rw [room]
          exact rest act' (List.mem_cons_of_mem act mem))
      refine ⟨final, ?_, fun x => (same'.vms x).trans (same.vms x), same'.cpus.trans same.cpus⟩
      rw [List.zipIdx_cons, List.foldlM_cons, stepped]
      exact done

/-- The CPUs of a node that a VM without a decision holds. -/
def heldByOthers (nuiod : Nuiod D) (acts : List Decision) (node : Int) : Finset Nat :=
  (nuiod.nodeCpus node).filter fun cpu =>
    ∃ id ∈ nuiod.cpuVmMapping[(cpu : Int)]?, id ∉ acts.map Decision.domId

omit [Double D] in
/-- Where the VMs without a decision stay, they hold the same CPUs. -/
theorem Placed.heldByOthers_eq {final : Nuiod D} {acts : List Decision} (placed : Placed nuiod)
    (placed' : Placed final) (sameCpus : final.nodeCpus = nuiod.nodeCpus)
    (others : ∀ id ∉ acts.map Decision.domId, final.recordedCpu id = nuiod.recordedCpu id) :
    final.heldByOthers acts = nuiod.heldByOthers acts := by
  funext node
  unfold heldByOthers
  rw [sameCpus]
  refine Finset.filter_congr fun cpu _ => exists_congr fun id => ?_
  rw [Option.mem_def, Option.mem_def, placed'.inverse, placed.inverse]
  constructor
  · rintro ⟨sits, unnamed⟩
    exact ⟨others id unnamed ▸ sits, unnamed⟩
  · rintro ⟨sits, unnamed⟩
    exact ⟨(others id unnamed).symm ▸ sits, unnamed⟩

omit [Double D] in
/-- A full node has a VM on each of its CPUs, with a decision or without. -/
theorem Placed.card_le_of_full (placed : Placed nuiod) (acts : List Decision) {node : Int}
    (full : nuiod.vacant node = 0) :
    (nuiod.nodeCpus node).card
      ≤ (acts.toFinset.filter fun act => nuiod.nodeOf act.domId = node).card
        + (nuiod.heldByOthers acts node).card := by
  have cover : nuiod.nodeCpus node ⊆
      ((acts.toFinset.filter fun act => nuiod.nodeOf act.domId = node).image
        fun act => ((nuiod.recordedCpu act.domId).getD 0).toNat) ∪ nuiod.heldByOthers acts node := by
    intro cpu here
    obtain ⟨id, entered⟩ := mem_iff_getElem?.mp (vacancies_eq_zero.mp full cpu here)
    have sits := (placed.inverse _ _).mp entered
    by_cases named : id ∈ acts.map Decision.domId
    · obtain ⟨act, mem, rfl⟩ := List.mem_map.mp named
      refine Finset.mem_union_left _ (Finset.mem_image.mpr
        ⟨act, Finset.mem_filter.mpr ⟨List.mem_toFinset.mpr mem, ?_⟩, ?_⟩)
      · exact placed.nodeOf_eq sits here
      · rw [sits, Option.getD_some, Int.toNat_natCast]
    · exact Finset.mem_union_right _ (Finset.mem_filter.mpr ⟨here, id, entered, named⟩)
  calc (nuiod.nodeCpus node).card
      ≤ _ := Finset.card_le_card cover
    _ ≤ _ := Finset.card_union_le _ _
    _ ≤ _ := Nat.add_le_add_right Finset.card_image_le _

omit [Double D] in
/-- A decision at rest is carried out, or its node is full. -/
theorem Placed.onNode_or_full (placed : Placed nuiod) {act : Decision}
    (tracked : act.domId ∈ nuiod.vmInfosMap) (rest : AtRest nuiod.lodging (wish act)) :
    OnDecidedNode nuiod act ∨
      ∀ cpu ∈ nuiod.nodeCpus act.cpuNodeId, (cpu : Int) ∈ nuiod.cpuVmMapping := by
  rcases rest with arrived | full
  · exact .inl ((placed.arrived_iff tracked).mp arrived)
  · exact .inr fun cpu here => vacancies_eq_zero.mp full cpu here

/-- The decided nodes have a CPU to spare: more CPUs than VMs that are decided onto them or hold
one without a decision. -/
def Spare (nuiod : Nuiod D) (acts : List Decision) : Prop :=
  ∀ act ∈ acts, (acts.filter fun act' => act'.cpuNodeId = act.cpuNodeId).length
    + (nuiod.heldByOthers acts act.cpuNodeId).card < (nuiod.nodeCpus act.cpuNodeId).card

omit [Double D] in
/-- Where every decided node has a CPU to spare, all decisions at rest are carried out. -/
theorem Placed.all_onNode (placed : Placed nuiod) {acts : List Decision}
    (named : ∀ act ∈ acts, act.domId ∈ nuiod.vmInfosMap)
    (rest : ∀ act ∈ acts, AtRest nuiod.lodging (wish act)) (spare : Spare nuiod acts) :
    ∀ act ∈ acts, OnDecidedNode nuiod act := by
  have all := arrived_of_spare acts.toFinset (fun act => nuiod.nodeOf act.domId)
    Decision.cpuNodeId
    (fun node => (nuiod.nodeCpus node).card - (nuiod.heldByOthers acts node).card)
    (fun act mem away => by
      have crowd := placed.card_le_of_full acts
        ((rest act (List.mem_toFinset.mp mem)).resolve_left away)
      have wishes : (wish act).2 = act.cpuNodeId := rfl
      rw [wishes] at crowd
      omega)
    (fun act mem => by
      have roomy := spare act (List.mem_toFinset.mp mem)
      have few := List.toFinset_card_le (acts.filter fun act' => act'.cpuNodeId = act.cpuNodeId)
      rw [← List.filter_toFinset] at few
      omega)
  intro act mem
  exact (placed.arrived_iff (named act mem)).mp (all act (List.mem_toFinset.mpr mem))

/-- Decisions at rest come to nothing, whatever the pins would answer. -/
theorem perform_rest {acts : List Decision} (sort : CpuSort D) (env : PinEnv D)
    (placed : Placed nuiod) (performable : Performable nuiod acts)
    (rest : ∀ act ∈ acts, AtRest nuiod.lodging (wish act)) :
    ∃ again, nuiod.perform acts sort env = .ok again ∧ SameMaps nuiod again := by
  obtain ⟨lists, sorts, listed⟩ := exists_lists performable sort
  obtain ⟨again, performed, sameMaps⟩ :=
    performActs_rest env acts 0 placed performable.named listed rest
  refine ⟨again, ?_, sameMaps⟩
  simp only [perform, sorts, bind, Except.bind]
  exact performed

/-- Performing the same decisions as often as there are decisions, in whatever order of CPUs,
brings every decided VM to its node or leaves that node full, and moves no other VM; performing
them again then changes nothing, whatever the pins answer. Where each decided node has a CPU to
spare, every decided VM is on its node. -/
theorem repeated_performs_settle (nuiod : Nuiod D) (acts : List Decision)
    (calls : List (CpuSort D × PinEnv D)) (placed : Placed nuiod)
    (performable : Performable nuiod acts) (pins : ∀ call ∈ calls, PinsSucceed nuiod call.2)
    (often : acts.length ≤ calls.length) :
    ∃ final, performAgain acts calls nuiod = .ok final ∧ InverseMaps final ∧
      (∀ act ∈ acts, OnDecidedNode final act ∨
        ∀ cpu ∈ nuiod.nodeCpus act.cpuNodeId, (cpu : Int) ∈ final.cpuVmMapping) ∧
      (∀ id ∉ acts.map Decision.domId, final.recordedCpu id = nuiod.recordedCpu id) ∧
      (∀ (sort : CpuSort D) (env : PinEnv D),
        ∃ again, final.perform acts sort env = .ok again ∧ SameMaps final again) ∧
      (Spare nuiod acts → ∀ act ∈ acts, OnDecidedNode final act) := by
  obtain ⟨final, done, again⟩ := performAgain_passed placed performable pins
  have rest : ∀ act ∈ acts, AtRest final.lodging (wish act) := fun act mem => by
    rw [again.lodging_eq]
    refine atRest_iterate ?_ ?_ _ (List.mem_map_of_mem mem)
    · rw [map_wish_fst]
      exact performable.once
    · rwa [List.length_map]
  refine ⟨final, done, again.placed.inverse, fun act mem => ?_, again.others, fun sort env => ?_,
    fun spare => ?_⟩
  · rw [← again.sameCpus]
    exact again.placed.onNode_or_full (again.performable.named act mem) (rest act mem)
  · exact perform_rest sort env again.placed again.performable rest
  · refine again.placed.all_onNode again.performable.named rest ?_
    unfold Spare
    rw [again.sameCpus,
      placed.heldByOthers_eq again.placed again.sameCpus again.others]
    exact spare

end Double

/-- The exchange of two VMs on full nodes, asked for twice. -/
theorem repeated_performs_settle_exchangeNodes :
    ∃ final, performAgain exchangeNodes (List.replicate 2 (UnstableSort.byRank id, willing))
        onBothCpus = .ok final ∧ InverseMaps final ∧
      (∀ act ∈ exchangeNodes, OnDecidedNode final act ∨
        ∀ cpu ∈ onBothCpus.nodeCpus act.cpuNodeId, (cpu : Int) ∈ final.cpuVmMapping) ∧
      (∀ id ∉ exchangeNodes.map Decision.domId,
        final.recordedCpu id = onBothCpus.recordedCpu id) ∧
      (∀ (sort : CpuSort ℚ) (env : PinEnv ℚ),
        ∃ again, final.perform exchangeNodes sort env = .ok again ∧ SameMaps final again) ∧
      (Spare onBothCpus exchangeNodes → ∀ act ∈ exchangeNodes, OnDecidedNode final act) :=
  repeated_performs_settle onBothCpus exchangeNodes _ onBothCpus_placed
    exchangeNodes_feasible.performable
    (fun call mem => (List.eq_of_mem_replicate mem) ▸ willing_pins) (by decide)

end VNams.Nuiod
