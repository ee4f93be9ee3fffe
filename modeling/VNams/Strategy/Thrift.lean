import VNams.Lib.Relocation
import VNams.Strategy.Crossing
import VNams.Strategy.Destination

/-!
How few VMs are moved off their home nodes.

A move on current counts lowers the `need` of the loads by one and takes at most one VM off
its home, so a run of such moves relocates no more VMs than any level assignment of them
does. `Ledger` adds up both along every run. What it finds wasted is what the NIC branch does
on counts from before its last move, at most two VMs: after such a move no node has more than
two VMs and the NIC node at most one (`Sparse`), so the branch is not taken again.
-/

namespace VNams.Strategy

open Lib

variable {D : Type}

/-- The first node that lists the VM. -/
def listedOn (vmOnNode : List (List Int)) (id : Int) : Nat := vmOnNode.findIdx fun ls => id ∈ ls

section Lists

variable {v home : List (List Int)} {id : Int} {node : Nat}

theorem mem_listOf_listedOn (mem : id ∈ v.flatten) : id ∈ listOf v (listedOn v id) := by
  obtain ⟨ls, listed, here⟩ := List.mem_flatten.mp mem
  have inRange : listedOn v id < v.length :=
    List.findIdx_lt_length.mpr ⟨ls, listed, decide_eq_true here⟩
  rw [listOf_of_getElem? (List.getElem?_eq_getElem inRange)]
  exact of_decide_eq_true (List.findIdx_getElem (w := inRange))

theorem mem_flatten_of_listOf (mem : id ∈ listOf v node) : id ∈ v.flatten := by
  obtain ⟨ls, found, here⟩ := exists_of_mem_listOf mem
  exact List.mem_flatten.mpr ⟨ls, List.mem_of_getElem? found, here⟩

theorem listedOn_eq (nodup : v.flatten.Nodup) (mem : id ∈ listOf v node) : listedOn v id = node :=
  listOf_unique nodup (mem_listOf_listedOn (mem_flatten_of_listOf mem)) mem

/-- Listed VMs are on a node of the vector. -/
theorem listedOn_lt (mem : id ∈ v.flatten) : listedOn v id < v.length := by
  obtain ⟨ls, found, _⟩ := exists_of_mem_listOf (mem_listOf_listedOn mem)
  exact (List.getElem?_eq_some_iff.mp found).1

/-- The nodes of the VMs occupy what the lists hold. -/
theorem occupancy_listedOn (nodup : v.flatten.Nodup) :
    occupancy v.flatten.toFinset (listedOn v) = load v := by
  funext node
  have here : v.flatten.toFinset.filter (fun id => listedOn v id = node)
      = (listOf v node).toFinset := by
    ext id
    rw [Finset.mem_filter, List.mem_toFinset, List.mem_toFinset]
    constructor
    · rintro ⟨mem, rfl⟩
      exact mem_listOf_listedOn mem
    · exact fun mem => ⟨mem_flatten_of_listOf mem, listedOn_eq nodup mem⟩
  have distinct : (listOf v node).Nodup := by
    cases found : v[node]? with
    | none => simp [listOf, List.getD_eq_getElem?_getD, found]
    | some ls => exact listOf_of_getElem? found ▸ listOf_nodup nodup found
  rw [occupancy, here, List.toFinset_card_of_nodup distinct]
  rfl

/-- The VMs of `home` that are on another node in `v`. -/
def astray (home v : List (List Int)) : Finset Int :=
  relocated home.flatten.toFinset (listedOn home) (listedOn v)

theorem astray_self (home : List (List Int)) : astray home home = ∅ :=
  Finset.filter_eq_empty_iff.mpr fun _ _ ne => ne rfl

/-- A move takes one VM at most off its home. -/
theorem astray_moved_le {source pos target : Nat} {vmId : Int} {ls : List Int}
    (perm : v.flatten.Perm home.flatten) (nodup : v.flatten.Nodup)
    (onSource : v[source]? = some ls) (here : ls[pos]? = some vmId) (inRange : target < v.length) :
    (astray home (moved v source pos target vmId)).card ≤ (astray home v).card + 1 := by
  refine card_relocated_le (x := vmId) fun id mem other => ?_
  have listed := perm.mem_iff.mpr (List.mem_toFinset.mp mem)
  have nodup' := (flatten_moved onSource here inRange).nodup_iff.mpr nodup
  refine listedOn_eq nodup' ((mem_listOf_moved nodup onSource here inRange).mpr ?_)
  rw [if_neg other]
  exact mem_listOf_listedOn listed

end Lists

/-- No node has more than two VMs, and the NIC node at most one. -/
def Sparse (n nic : Nat) (f : Nat → Nat) : Prop := f nic ≤ 1 ∧ ∀ i < n, f i ≤ 2

/-- A move off another node than the NIC node, onto one with a VM at most, keeps it so. -/
theorem Sparse.shift {n nic source target : Nat} {f : Nat → Nat} (sparse : Sparse n nic f)
    (ne : source ≠ target) (notNic : source ≠ nic) (few : f target ≤ 1)
    (free : target = nic → f target = 0) : Sparse n nic (shift f source target) := by
  constructor
  · by_cases toNic : target = nic
    · subst toNic
      rw [shift_target ne, free rfl]
    · rw [shift_other notNic.symm (Ne.symm toNic)]
      exact sparse.1
  · intro i iLt
    have bound := sparse.2 i iLt
    by_cases isSource : i = source
    · rw [isSource, shift_source ne, ← isSource]
      omega
    · by_cases isTarget : i = target
      · rw [isTarget, shift_target ne]
        omega
      · rwa [shift_other isSource isTarget]

section Loop

variable {args : ScheduleArgs D} {states : VmStateMap} {ties : NodeSort}
  {home : List (List Int)} {homed : List Int} {snap : Nat → Nat} {k waste : Nat} {skipped : Bool}
  {b b' : Balancer} {ls : List Int} {pos target : Nat} {vmId : Int}

/-- What was relocated and what still has to be, against the need of the homes: `waste` is
what a run relocated for nothing. -/
structure Ledger (args : ScheduleArgs D) (home : List (List Int)) (k : Nat) (b : Balancer)
    (waste : Nat) : Prop where
  owed : (astray home b.vmOnNode).card + need (nodes args.numaNumber) (load b.vmOnNode)
    ≤ need (nodes args.numaNumber) (load home) + waste
  bound : waste ≤ 2
  spent : waste ≠ 0 → k = 2 ∨ k = 0 ∧ Sparse args.numaNumber args.nic (load b.vmOnNode)

/-- On current counts a migration lowers the need. -/
theorem Phase.need_lt (phase : Phase args homed snap k skipped b) (enter : b.unbalanced = true)
    (migration : Migration args states ties b b' ls pos target vmId)
    (inRange : target < b.vmOnNode.length) (current : b.Current args.numaNumber) :
    need (nodes args.numaNumber) (load b'.vmOnNode) + 1
      ≤ need (nodes args.numaNumber) (load b.vmOnNode) := by
  obtain ⟨high, attained⟩ := current
  have gap := phase.cached.unbalanced_iff.mp enter
  have atMin := migration.chosen.atMin attained
  rw [migration.load_eq inRange]
  rw [phase.lists_length] at inRange
  refine need_shift_lt (Finset.mem_range.mpr phase.cached.high_lt) (Finset.mem_range.mpr inRange)
    (fun i mem => ?_) (fun i mem => ?_) (by omega)
  · rw [high]
    exact phase.load_le_maxVmCnt enter (Finset.mem_range.mp mem)
  · rw [atMin]
    exact phase.minVmCnt_le (Finset.mem_range.mp mem)

/-- Before the first stale move the counts are current. -/
theorem Phase.current (phase : Phase args homed snap 0 skipped b) : b.Current args.numaNumber := by
  unfold Balancer.Current
  rw [phase.drift.eq_of_zero]
  exact ⟨phase.cached.maxVmCnt_eq, phase.cached.exists_minVmCnt⟩

/-- A general move that does not find the cached minimum is the one after a single VM left
the NIC node: it takes one of two VMs to the node that VM went to. -/
theorem Phase.fallback (phase : Phase args homed snap k skipped b) (topo : args.Topology)
    (enter : b.unbalanced = true) (notNic : ¬ b.AtNic args)
    (migration : Migration args states ties b b' ls pos target vmId)
    (none : ¬ b.Current args.numaNumber) :
    k = 1 ∧ skipped = true ∧ target ≠ args.nic ∧ load b.vmOnNode target = 1 ∧
      load b.vmOnNode b.highLoadNode = 2 := by
  have high := phase.load_high topo enter notNic
  have gap := phase.cached.unbalanced_iff.mp enter
  have unattained : ∀ j < args.numaNumber, load b.vmOnNode j ≠ b.minVmCnt :=
    fun j jLt atMin => none ⟨high, j, jLt, atMin⟩
  have remembered : target = b.minLoadNode := by
    cases migration.chosen with
    | nic _ _ atMin => exact absurd atMin (unattained _ topo.nic_lt)
    | nearby _ nearby =>
        obtain ⟨node, present, ⟨before, d, after, same, atMin, _⟩ | fallback⟩ := nearby
        · by_cases empty : load b.vmOnNode target = 0
          · have minimum : b.minVmCnt = 0 := by rw [← atMin, empty]
            obtain ⟨low, lowLt, lowest⟩ := phase.cached.exists_minVmCnt
            have mem : (target, d) ∈ node.sortedLatNodeList := by simp [same]
            have targetLt := topo.lat_valid node (List.mem_of_getElem? present) _ mem
            exact absurd atMin (unattained _ targetLt)
          · have targetLt := lt_length_of_load_pos (Nat.pos_of_ne_zero empty)
            rw [phase.lists_length] at targetLt
            exact absurd atMin (unattained _ targetLt)
        · exact fallback.1
  have away : k ≠ 0 := by
    rintro rfl
    exact none phase.current
  obtain ⟨_, minimum, few⟩ := phase.stale (.inl away)
  have two := phase.snap_nic (.inl away)
  have onNic := phase.drift.load_nic two
  have nicLeft := unattained args.nic topo.nic_lt
  have isOne : k = 1 := by omega
  subst isOne
  have isSkipped : skipped = true := by
    cases skipped with
    | true => rfl
    | false =>
        obtain ⟨same, cnt⟩ := phase.high_eq_nic away
        exact absurd ((Phase.atNic_iff topo).mpr ⟨same, by omega⟩) notNic
  have top := few b.highLoadNode phase.cached.high_lt
  rw [phase.cached.maxVmCnt_eq] at top
  refine ⟨rfl, isSkipped, remembered ▸ phase.drift.away away, ?_, by omega⟩
  rw [remembered]
  cases phase.drift with
  | one same _ notNic' empty => rw [same, shift_target notNic'.symm, empty]

/-- A skip changes neither side. -/
theorem Ledger.skip (ledger : Ledger args home k b waste) (skip : Skip args states b b') :
    Ledger args home k b' waste := by
  have lists := skip.lists
  obtain ⟨owed, bound, spent⟩ := ledger
  rw [← lists] at owed spent
  exact ⟨owed, bound, spent⟩

/-- After a VM left the NIC node. -/
theorem Ledger.leave (ledger : Ledger args home k b waste)
    (phase : Phase args homed snap k skipped b) (topo : args.Topology)
    (enter : b.unbalanced = true) (atNic : b.AtNic args)
    (migration : Migration args states ties b b' ls pos target vmId)
    (astrayLe : (astray home b'.vmOnNode).card ≤ (astray home b.vmOnNode).card + 1)
    (inRange : target < b.vmOnNode.length)
    (kept : Phase args homed snap (k + 1) false b') :
    ∃ waste', Ledger args home (k + 1) b' waste' := by
  obtain ⟨_, two, _⟩ := phase.at_nic topo enter atNic
  have onNic := phase.drift.load_nic two
  have onNic' := kept.drift.load_nic two
  obtain ⟨owed, bound, spent⟩ := ledger
  by_cases fresh : k = 0
  · subst fresh
    have unspent : waste = 0 := by
      by_contra wasted
      rcases spent wasted with isTwo | ⟨_, sparse, _⟩
      · cases isTwo
      · omega
    have lower := phase.need_lt enter migration inRange phase.current
    exact ⟨0, by omega, by omega, fun ne => absurd rfl ne⟩
  · have isOne : k = 1 := by omega
    subst isOne
    have unspent : waste = 0 := by
      by_contra wasted
      rcases spent wasted with isTwo | ⟨isZero, _⟩
      · cases isTwo
      · cases isZero
    have targetLt : target < args.numaNumber := by rwa [phase.lists_length] at inRange
    have isNic := ((Phase.atNic_iff topo).mp atNic).1
    have apart : b.highLoadNode ≠ target := by
      have away := kept.drift.away (Nat.succ_ne_zero _)
      rw [migration.remembered atNic] at away
      rw [isNic]
      exact away.symm
    have raised := need_shift_le (s := nodes args.numaNumber) apart (Finset.mem_range.mpr phase.cached.high_lt)
      (Finset.mem_range.mpr targetLt)
      (show 0 < load b.vmOnNode b.highLoadNode by rw [isNic]; omega)
    rw [← migration.load_eq inRange] at raised
    exact ⟨2, by omega, Nat.le_refl 2, fun _ => .inl rfl⟩

/-- After a general move. -/
theorem Ledger.level (ledger : Ledger args home k b waste)
    (phase : Phase args homed snap k skipped b) (topo : args.Topology)
    (enter : b.unbalanced = true) (notNic : ¬ b.AtNic args)
    (migration : Migration args states ties b b' ls pos target vmId)
    (astrayLe : (astray home b'.vmOnNode).card ≤ (astray home b.vmOnNode).card + 1)
    (inRange : target < b.vmOnNode.length) :
    ∃ waste', Ledger args home 0 b' waste' ∧ (k = 0 → waste' = waste) := by
  have gap := phase.cached.unbalanced_iff.mp enter
  have high := phase.load_high topo enter notNic
  obtain ⟨owed, bound, spent⟩ := ledger
  have targetLt : target < args.numaNumber := by rwa [phase.lists_length] at inRange
  have sparseOf : k ≠ 0 → Sparse args.numaNumber args.nic (load b.vmOnNode) := fun away => by
    obtain ⟨_, _, few⟩ := phase.stale (.inl away)
    have onNic := phase.drift.load_nic (phase.snap_nic (.inl away))
    exact ⟨by omega, fun i iLt => phase.drift.load_le few iLt⟩
  by_cases current : b.Current args.numaNumber
  · have lower := phase.need_lt enter migration inRange current
    have atMin := migration.chosen.atMin current.2
    have apart : b.highLoadNode ≠ target := by
      rintro same
      rw [← same] at atMin
      omega
    refine ⟨waste, ⟨by omega, bound, fun wasted => .inr ⟨rfl, ?_⟩⟩, fun _ => rfl⟩
    have sparse : Sparse args.numaNumber args.nic (load b.vmOnNode) := by
      rcases spent wasted with isTwo | ⟨_, sparse⟩
      · exact sparseOf (by omega)
      · exact sparse
    have two := sparse.2 b.highLoadNode phase.cached.high_lt
    rw [migration.load_eq inRange]
    refine sparse.shift apart ?_ (by omega) (fun _ => by omega)
    intro isNic
    have one := sparse.1
    rw [← isNic] at one
    omega
  · obtain ⟨rfl, isSkipped, toNic, one, two⟩ :=
      phase.fallback topo enter notNic migration current
    have apart : b.highLoadNode ≠ target := by
      rintro same
      rw [same] at two
      omega
    subst isSkipped
    have unspent : waste = 0 := by
      by_contra wasted
      rcases spent wasted with isTwo | ⟨isZero, _⟩
      · cases isTwo
      · cases isZero
    have swapped := need_shift_eq (f := load b.vmOnNode) (s := nodes args.numaNumber)
      (Finset.mem_range.mpr phase.cached.high_lt) (Finset.mem_range.mpr targetLt)
      (show load b.vmOnNode b.highLoadNode = load b.vmOnNode target + 1 by omega)
    rw [← migration.load_eq inRange] at swapped
    refine ⟨1, ⟨by omega, by omega, fun _ => .inr ⟨rfl, ?_⟩⟩, fun zero => by cases zero⟩
    rw [migration.load_eq inRange]
    exact (sparseOf Nat.one_ne_zero).shift apart phase.high_ne_nic (Nat.le_of_eq one)
      fun isNic => absurd isNic toNic

end Loop

/-! ### Every run -/

section Runs

variable [Double D] {strategy : SimpleStrategy} {args : ScheduleArgs D}
  {vmStateSlot : Nat → VmState} {ties : NodeSort} {c : Classified} {b b' : Balancer}

omit [Double D] in
/-- The first state has relocated nothing. -/
theorem Ledger.of_start (args : ScheduleArgs D) {home : List (List Int)}
    (same : b.vmOnNode = home) : Ledger args home 0 b 0 := by
  refine ⟨?_, Nat.zero_le 2, fun ne => absurd rfl ne⟩
  rw [same, astray_self, Finset.card_empty]
  omega

/-- A migration relocates at most one of the scheduled VMs. -/
theorem Reached.astray_le (reached : Reached strategy args vmStateSlot ties c b)
    (topo : args.Topology) (agree : KeysAgree args.vmInfosMap) {ls : List Int}
    {pos target : Nat} {vmId : Int}
    (migration : Migration args c.vmStateMap ties b b' ls pos target vmId)
    (inRange : target < b.vmOnNode.length) :
    (astray c.vmOnNode b'.vmOnNode).card ≤ (astray c.vmOnNode b.vmOnNode).card + 1 := by
  obtain ⟨_, _, _, phase⟩ := reached.phase topo agree
  rw [migration.lists]
  exact astray_moved_le phase.perm (reached.nodup topo agree) migration.onHigh migration.here
    inRange

/-- The VMs of the NIC node stay there: none that is not IO intensive is homed on it, or
there are two VMs for each node. -/
def NicKeeps (strategy : SimpleStrategy) (args : ScheduleArgs D) (vmStateSlot : Nat → VmState) :
    Prop :=
  nicOthers strategy args vmStateSlot = 0 ∨
    2 * args.numaNumber ≤ (scheduled args vmStateSlot).length

/-- Then no VM leaves the NIC node without a rebuild. -/
theorem Reached.not_atNic (reached : Reached strategy args vmStateSlot ties c b)
    (topo : args.Topology) (agree : KeysAgree args.vmInfosMap)
    (real : ∀ vm ∈ scheduled args vmStateSlot, vm.domId ≠ -1)
    (keeps : NicKeeps strategy args vmStateSlot) (enter : b.unbalanced = true) {ls : List Int}
    {pos target : Nat} {vmId : Int}
    (migration : Migration args c.vmStateMap ties b b' ls pos target vmId) : ¬ b.AtNic args := by
  intro atNic
  have homed := reached.homed agree
  obtain ⟨snap, k, skipped, phase, affinity⟩ := reached.settled topo agree real
  obtain ⟨rfl, two, _, minimum, _, few⟩ := phase.at_nic topo enter atNic
  have isNic := ((Phase.atNic_iff topo).mp atNic).1
  have isOther : 1 ≤ others c.vmStateMap (listOf b.vmOnNode args.nic) :=
    List.countP_pos_iff.mpr ⟨vmId, isNic ▸ migration.mem_high, by simpa using migration.other atNic⟩
  obtain ⟨low, lowLt, lowest⟩ := phase.cached.exists_minVmCnt
  rcases keeps with none | many
  · rw [← homed.others_nic topo] at none
    by_cases fresh : k = 0
    · subst fresh
      rcases affinity.fresh rfl with sub | small | filled
      · have bound : others c.vmStateMap (listOf b.vmOnNode args.nic) ≤
            others c.vmStateMap (listOf c.vmOnNode args.nic) := sub.countP_le
        omega
      · have onNic := phase.drift.load_nic two
        omega
      · have loaded := filled low lowLt
        rw [phase.drift.eq_of_zero] at loaded
        omega
    · have bound := affinity.stale fresh
      omega
  · have count := phase.total_load
    rw [homed.perm.length_eq, scheduledIds, List.length_map] at count
    have less : total (nodes args.numaNumber) snap < ∑ _i ∈ nodes args.numaNumber, 2 :=
      Finset.sum_lt_sum (fun i mem => few i (Finset.mem_range.mp mem))
        ⟨low, Finset.mem_range.mpr lowLt, by omega⟩
    rw [← phase.drift.total two topo.nic_lt, count, ← card_mul_eq_sum, Finset.card_range] at less
    omega

/-- A state in a phase, with its ledger, which shows no waste where `thrifty` holds. -/
def Booked (args : ScheduleArgs D) (home : List (List Int)) (thrifty : Prop) (b : Balancer) : Prop :=
  ∃ snap k skipped waste, Phase args home.flatten snap k skipped b ∧ Ledger args home k b waste ∧
    (thrifty → k = 0 ∧ waste = 0)

/-- In every reached state at most two VMs were relocated in vain, and none where the NIC
node keeps its VMs. -/
theorem Reached.booked (reached : Reached strategy args vmStateSlot ties c b)
    (topo : args.Topology) (agree : KeysAgree args.vmInfosMap)
    (real : ∀ vm ∈ scheduled args vmStateSlot, vm.domId ≠ -1) :
    Booked args c.vmOnNode (NicKeeps strategy args vmStateSlot) b := by
  have homed := reached.homed agree
  have known := homed.known agree
  refine reached.induct (fun b₀ started => ?_) fun b b' reached booked stepped => ?_
  · obtain ⟨b₁, started', phase₀, same, _⟩ := start_spec ties topo homed.length
    obtain rfl : b₀ = b₁ := Except.ok.inj (started.symm.trans started')
    exact ⟨_, 0, false, 0, phase₀, .of_start args same, fun _ => ⟨rfl, rfl⟩⟩
  · obtain ⟨snap, k, skipped, waste, phase, ledger, thrift⟩ := booked
    have enter := stepped.1
    rcases reached.migration topo agree stepped with skip | ⟨ls, pos, t, vmId, migration, inRange⟩
    · exact ⟨snap, k, true, waste, skip.phase phase topo enter, ledger.skip skip, thrift⟩
    · have astrayLe := reached.astray_le topo agree migration inRange
      by_cases atNic : b.AtNic args
      · have kept := migration.phase_leave phase topo known enter atNic
        obtain ⟨waste', ledger'⟩ :=
          ledger.leave phase topo enter atNic migration astrayLe inRange kept
        exact ⟨snap, k + 1, false, waste', kept, ledger', fun keeps =>
          absurd atNic (reached.not_atNic topo agree real keeps enter migration)⟩
      · obtain ⟨waste', ledger', same⟩ :=
          ledger.level phase topo enter atNic migration astrayLe inRange
        refine ⟨_, 0, false, waste', migration.phase_level phase topo known atNic, ledger',
          fun keeps => ⟨rfl, ?_⟩⟩
        obtain ⟨isZero, none⟩ := thrift keeps
        rw [same isZero, none]

/-! ### The decisions -/

omit [Double D] in
/-- A list of decisions without repeated VMs places each of them. -/
theorem exists_place {acts : List Decision} (nodup : (acts.map Decision.domId).Nodup)
    (within : ∀ act ∈ acts, 0 ≤ act.cpuNodeId) :
    ∃ place : Int → Nat, ∀ act ∈ acts, (place act.domId : Int) = act.cpuNodeId := by
  induction acts with
  | nil => exact ⟨fun _ => 0, fun _ mem => by cases mem⟩
  | cons first rest ih =>
      obtain ⟨fresh, nodup⟩ := List.nodup_cons.mp nodup
      obtain ⟨place, placed⟩ := ih nodup fun act mem => within act (List.mem_cons_of_mem _ mem)
      refine ⟨Function.update place first.domId first.cpuNodeId.toNat, fun act mem => ?_⟩
      rcases List.mem_cons.mp mem with rfl | later
      · rw [Function.update_self]
        exact Int.toNat_of_nonneg (within _ List.mem_cons_self)
      · have ne : act.domId ≠ first.domId := by
          intro same
          exact fresh (same ▸ List.mem_map_of_mem later)
        rw [Function.update_of_ne ne]
        exact placed act later

omit [Double D] in
/-- Counting decisions by their VMs. -/
theorem card_filter_domId {acts : List Decision} (nodup : (acts.map Decision.domId).Nodup)
    {p : Int → Prop} [DecidablePred p] {q : Decision → Bool}
    (same : ∀ act ∈ acts, p act.domId ↔ q act = true) :
    ((acts.map Decision.domId).toFinset.filter p).card = acts.countP q := by
  have filtered : (acts.map Decision.domId).toFinset.filter p
      = ((acts.filter q).map Decision.domId).toFinset := by
    ext id
    simp only [Finset.mem_filter, List.mem_toFinset, List.mem_map, List.mem_filter]
    constructor
    · rintro ⟨⟨act, mem, rfl⟩, holds⟩
      exact ⟨act, ⟨mem, (same act mem).mp holds⟩, rfl⟩
    · rintro ⟨act, ⟨mem, holds⟩, rfl⟩
      exact ⟨⟨act, mem, rfl⟩, (same act mem).mpr holds⟩
  rw [filtered, List.toFinset_card_of_nodup ((List.filter_sublist.map _).nodup nodup),
    List.length_map, List.countP_eq_length_filter]

/-- How many decisions send a VM off the node it is homed on. -/
def relocations (args : ScheduleArgs D) (acts : List Decision) : Nat :=
  acts.countP fun act =>
    (args.vmInfosMap[act.domId]?).any fun vm => vm.memMainNodeId ≠ act.cpuNodeId

/-- The homes of the VMs are the nodes that classification lists them on. -/
theorem Homed.home {c : Classified} (homed : Homed strategy args vmStateSlot c)
    (agree : KeysAgree args.vmInfosMap) {id : Int} (listed : id ∈ c.vmOnNode.flatten) :
    ∃ vm, args.vmInfosMap[id]? = some vm ∧ vm.memMainNodeId = (listedOn c.vmOnNode id : Int) := by
  have inRange := listedOn_lt listed
  have here := mem_listOf_listedOn listed
  rw [homed.length] at inRange
  rw [homed.listOf_eq inRange] at here
  obtain ⟨vm, mem, rfl⟩ := List.mem_map.mp here
  obtain ⟨isScheduled, isHome⟩ := List.mem_filter.mp mem
  obtain ⟨key, present⟩ :=
    mem_values.mp ((scheduledFrom_sublist args vmStateSlot 0 _).subset isScheduled)
  obtain rfl : key = vm.domId := (agree key vm present).symm
  exact ⟨vm, present, of_decide_eq_true isHome⟩

/-- Decisions for the scheduled VMs relocate those that are placed off their home. -/
theorem Homed.relocations_eq {c : Classified} (homed : Homed strategy args vmStateSlot c)
    (agree : KeysAgree args.vmInfosMap) {acts : List Decision}
    (perm : (acts.map Decision.domId).Perm (scheduledIds args vmStateSlot)) {place : Int → Nat}
    (placed : ∀ act ∈ acts, (place act.domId : Int) = act.cpuNodeId) :
    relocations args acts
      = (relocated c.vmOnNode.flatten.toFinset (listedOn c.vmOnNode) place).card := by
  have nodup := perm.nodup_iff.mpr (scheduledIds_nodup agree vmStateSlot)
  have perm' := perm.trans homed.perm.symm
  rw [relocated, ← List.toFinset_eq_of_perm _ _ perm']
  refine (card_filter_domId nodup fun act mem => ?_).symm
  obtain ⟨vm, present, isHome⟩ :=
    homed.home agree (perm'.mem_iff.mp (List.mem_map_of_mem mem))
  rw [present, Option.any_some, isHome, ← placed act mem, decide_eq_true_eq, ne_comm, ne_eq, ne_eq,
    Int.ofNat_inj]

/-- The nodes are occupied as decided. -/
theorem occupancy_place {acts : List Decision} (nodup : (acts.map Decision.domId).Nodup)
    {place : Int → Nat} (placed : ∀ act ∈ acts, (place act.domId : Int) = act.cpuNodeId)
    (node : Nat) :
    occupancy (acts.map Decision.domId).toFinset place node = (onNode acts node).length := by
  rw [onNode, List.length_map, ← List.countP_eq_length_filter]
  refine card_filter_domId nodup fun act mem => ?_
  rw [decide_eq_true_eq, ← placed act mem, Int.ofNat_inj]

/-- Any level list of decisions for the scheduled VMs relocates as many as are needed. -/
theorem Homed.need_le {c : Classified} (homed : Homed strategy args vmStateSlot c)
    (agree : KeysAgree args.vmInfosMap) {acts : List Decision}
    (perm : (acts.map Decision.domId).Perm (scheduledIds args vmStateSlot))
    (within : ∀ act ∈ acts, 0 ≤ act.cpuNodeId ∧ act.cpuNodeId < args.numaNumber)
    (level : ∀ i < args.numaNumber, ∀ j < args.numaNumber,
      (onNode acts i).length ≤ (onNode acts j).length + 1) :
    need (nodes args.numaNumber) (load c.vmOnNode) ≤ relocations args acts := by
  have nodup := perm.nodup_iff.mpr (scheduledIds_nodup agree vmStateSlot)
  have homes := homed.perm.nodup_iff.mpr (scheduledIds_nodup agree vmStateSlot)
  have sameIds := List.toFinset_eq_of_perm _ _ (perm.trans homed.perm.symm)
  obtain ⟨place, placed⟩ := exists_place nodup fun act mem => (within act mem).1
  rw [homed.relocations_eq agree perm placed, ← occupancy_listedOn homes]
  refine need_le_card_relocated (fun id mem => ?_) (fun id mem => ?_) fun i iMem j jMem => ?_
  · rw [Finset.mem_range, ← homed.length]
    exact listedOn_lt (List.mem_toFinset.mp mem)
  · rw [← sameIds] at mem
    obtain ⟨act, listed, rfl⟩ := List.mem_map.mp (List.mem_toFinset.mp mem)
    have upper := (within act listed).2
    rw [← placed act listed] at upper
    exact Finset.mem_range.mpr (Int.ofNat_lt.mp upper)
  · rw [← sameIds, occupancy_place nodup placed, occupancy_place nodup placed]
    exact level i (Finset.mem_range.mp iMem) j (Finset.mem_range.mp jMem)

/-- The VMs are level on their homes. -/
def HomesLevel (args : ScheduleArgs D) (vmStateSlot : Nat → VmState) : Prop :=
  ∀ i < args.numaNumber, ∀ j < args.numaNumber,
    (homedOn i (scheduled args vmStateSlot)).length
      ≤ (homedOn j (scheduled args vmStateSlot)).length + 1

/-- A loop that starts level is not entered. -/
theorem Homed.unentered {c : Classified} (homed : Homed strategy args vmStateSlot c)
    (topo : args.Topology) (started : Balancer.start args ties c.vmOnNode = .ok b) :
    HomesLevel args vmStateSlot ↔ b.unbalanced = false := by
  obtain ⟨b₀, started', phase₀, _⟩ := start_spec ties topo homed.length
  obtain rfl : b = b₀ := Except.ok.inj (started.symm.trans started')
  have size : ∀ {i}, i < args.numaNumber →
      (homedOn i (scheduled args vmStateSlot)).length = load c.vmOnNode i :=
    fun iLt => (load_of_getElem? (homed.lists _ iLt)).symm
  have idx := phase₀.idx
  simp only [Bool.false_eq_true, if_false] at idx
  have high := phase₀.cached.maxVmCnt_eq
  obtain ⟨low, lowLt, lowest⟩ := phase₀.cached.exists_minVmCnt
  rw [← Bool.not_eq_true, phase₀.cached.unbalanced_iff]
  constructor
  · intro level wide
    have near := level _ phase₀.cached.high_lt _ lowLt
    rw [size phase₀.cached.high_lt, size lowLt] at near
    omega
  · intro narrow i iLt j jLt
    have upper := phase₀.cached.le_maxVmCnt idx iLt
    have lower := phase₀.cached.minVmCnt_le jLt
    rw [size iLt, size jLt]
    omega

/-- Homes that are level keep all VMs but one at most; otherwise the decisions are what the
loop leaves. -/
theorem Analyzed.final_cases {final : List (List Int)}
    (analyzed : Analyzed strategy args vmStateSlot ties c b b' final) (topo : args.Topology)
    (agree : KeysAgree args.vmInfosMap) :
    HomesLevel args vmStateSlot ∧ (astray c.vmOnNode final).card ≤ 1 ∨
      ¬ HomesLevel args vmStateSlot ∧ final = b'.vmOnNode := by
  have homed := analyzed.homed
  have homes := homed.perm.nodup_iff.mpr (scheduledIds_nodup agree vmStateSlot)
  obtain ⟨b₀, started', phase₀, same, _⟩ := start_spec ties topo homed.length
  obtain rfl : b = b₀ := Except.ok.inj (analyzed.started.symm.trans started')
  rw [homed.unentered topo analyzed.started]
  by_cases level : b.unbalanced = false
  · refine .inl ⟨level, ?_⟩
    have stays : b' = b := by
      rcases Relation.ReflTransGen.cases_head analyzed.path with rfl | ⟨mid, first, _⟩
      · rfl
      · have enter := first.1
        rw [level] at enter
        cases enter
    have adjusted := analyzed.adjusted
    rw [stays] at adjusted
    cases adjusted with
    | keep =>
        rw [same, astray_self, Finset.card_empty]
        exact Nat.zero_le 1
    | toNic _ _ _ onHigh here =>
        rw [same] at onHigh ⊢
        have inRange : args.nic < c.vmOnNode.length := by
          rw [homed.length]
          exact topo.nic_lt
        have bound := astray_moved_le (List.Perm.refl _) homes onHigh here inRange
        rwa [astray_self, Finset.card_empty] at bound
  · refine .inr ⟨level, ?_⟩
    cases analyzed.adjusted with
    | keep => rfl
    | toNic unentered one =>
        obtain rfl := eq_of_flag topo (homed.known agree) ⟨_, _, _, phase₀⟩ analyzed.path unentered
        refine absurd ?_ level
        rw [← Bool.not_eq_true, phase₀.cached.unbalanced_iff]
        omega

/-- Whatever level assignment of the scheduled VMs one compares with, the decisions send at
most two VMs more off their home nodes. They send no more than it does where the NIC node
keeps its VMs and the homes are not level already; homes that are level lose one VM at most,
to a free NIC node. -/
theorem fewest_relocations (strategy : SimpleStrategy) (args : ScheduleArgs D)
    (vmStateSlot : Nat → VmState) (ties : NodeSort) (topo : args.Topology)
    (agree : KeysAgree args.vmInfosMap)
    (real : ∀ vm ∈ scheduled args vmStateSlot, vm.domId ≠ -1) {acts : List Decision}
    (done : analyze strategy args vmStateSlot ties = .ok acts) :
    (HomesLevel args vmStateSlot → relocations args acts ≤ 1) ∧
    ∀ plan : List Decision,
      (plan.map Decision.domId).Perm (scheduledIds args vmStateSlot) →
      (∀ act ∈ plan, 0 ≤ act.cpuNodeId ∧ act.cpuNodeId < args.numaNumber) →
      (∀ i < args.numaNumber, ∀ j < args.numaNumber,
        (onNode plan i).length ≤ (onNode plan j).length + 1) →
      relocations args acts ≤ relocations args plan + 2 ∧
      (NicKeeps strategy args vmStateSlot → ¬ HomesLevel args vmStateSlot →
        relocations args acts ≤ relocations args plan) := by
  obtain ⟨c, classified, _⟩ := bind_eq_ok.mp done
  obtain ⟨b, b', final, analyzed, done'⟩ := analyze_of_classify topo agree ties classified
  obtain rfl : acts = decisions final := Except.ok.inj (done.symm.trans done')
  have homed := analyzed.homed
  have counted : relocations args (decisions final) = (astray c.vmOnNode final).card := by
    have nodup := analyzed.perm.nodup_iff.mpr (scheduledIds_nodup agree vmStateSlot)
    refine homed.relocations_eq agree (decisions_domId final ▸ analyzed.perm) fun act mem => ?_
    obtain ⟨node, ls, found, id, here, rfl⟩ := mem_decisions.mp mem
    exact congrArg _ (listedOn_eq nodup (listOf_of_getElem? found ▸ here))
  rw [counted]
  constructor
  · intro level
    rcases analyzed.final_cases topo agree with ⟨_, one⟩ | ⟨unlevel, _⟩
    · exact one
    · exact absurd level unlevel
  · intro plan perm within level
    have needed := homed.need_le agree perm within level
    rcases analyzed.final_cases topo agree with ⟨homesLevel, one⟩ | ⟨_, rfl⟩
    · exact ⟨by omega, fun _ unlevel => absurd homesLevel unlevel⟩
    · have reached : Reached strategy args vmStateSlot ties c b' :=
        ⟨classified, b, analyzed.started, analyzed.path⟩
      obtain ⟨_, _, _, waste, _, ⟨owed, bound, _⟩, thrift⟩ := reached.booked topo agree real
      refine ⟨by omega, fun keeps _ => ?_⟩
      have none := (thrift keeps).2
      omega

/-- One VM on the NIC node and three on node 1, none of them IO intensive. -/
def oneAndThree : ScheduleArgs ℚ :=
  fourNodeArgs [steadyVm 1 0 0 0 50, steadyVm 2 1 1 0 50, steadyVm 3 1 1 0 50, steadyVm 4 1 1 0 50]

/-- Of the three VMs on node 1 two leave it, for the empty nodes. -/
theorem fewest_relocations_oneAndThree : ∃ acts,
    analyze {} oneAndThree (fun _ => .otherStat) (UnstableSort.byRank id) = .ok acts ∧
    (HomesLevel oneAndThree (fun _ => .otherStat) → relocations oneAndThree acts ≤ 1) ∧
    ∀ plan : List Decision,
      (plan.map Decision.domId).Perm (scheduledIds oneAndThree fun _ => .otherStat) →
      (∀ act ∈ plan, 0 ≤ act.cpuNodeId ∧ act.cpuNodeId < oneAndThree.numaNumber) →
      (∀ i < oneAndThree.numaNumber, ∀ j < oneAndThree.numaNumber,
        (onNode plan i).length ≤ (onNode plan j).length + 1) →
      relocations oneAndThree acts ≤ relocations oneAndThree plan + 2 ∧
      (NicKeeps {} oneAndThree (fun _ => .otherStat) →
        ¬ HomesLevel oneAndThree (fun _ => .otherStat) →
        relocations oneAndThree acts ≤ relocations oneAndThree plan) := by
  obtain ⟨acts, done, _⟩ := exists_returned
    (analyze {} oneAndThree (fun _ => .otherStat) (UnstableSort.byRank id)) (fun _ => true)
    (by decide +kernel)
  exact ⟨acts, done, fewest_relocations {} oneAndThree _ _ (fourNodeArgs_topology _)
    (fourNodeArgs_agree _) (by decide +kernel) done⟩

end Runs

end VNams.Strategy
