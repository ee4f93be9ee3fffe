import VNams.Strategy.Exactness

/-!
How level the decisions are.

The loop ends level, or with two IO intensive VMs on the NIC node, except in one case: two
VMs that are not IO intensive left the NIC node on stale counts, both for the only empty
node. `Affinity` is what rules that case out along every run when fewer than two such VMs
are homed on the NIC node, or the VMs are not as many as the nodes. In the remaining case
the tie order that puts the NIC node first leads into it (`Trap`).
-/

namespace VNams.Strategy

open Lib

variable {D : Type}

/-- The list of a node. -/
abbrev listOf (vmOnNode : List (List Int)) (node : Nat) : List Int := vmOnNode.getD node []

/-- The VMs of a list that are not IO intensive. -/
def others (states : VmStateMap) (ls : List Int) : Nat :=
  ls.countP fun id => states.read id = .otherStat

section Lists

variable {v : List (List Int)} {source pos target node : Nat} {vmId : Int} {states : VmStateMap}

theorem listOf_of_getElem? {ls : List Int} (found : v[node]? = some ls) : listOf v node = ls := by
  simp [listOf, List.getD_eq_getElem?_getD, found]

/-- A node a VM does not move to keeps a part of its list. -/
theorem listOf_moved_sublist (ne : target ≠ node) :
    (listOf (moved v source pos target vmId) node).Sublist (listOf v node) := by
  simp only [listOf, List.getD_eq_getElem?_getD, getElem?_moved]
  cases v[node]? with
  | none => exact .slnil
  | some ls =>
      simp only [Option.map_some, Option.getD_some, if_neg ne]
      split
      · exact List.eraseIdx_sublist ls pos
      · exact List.Sublist.refl ls

/-- A node that is neither end of the move keeps its list. -/
theorem listOf_moved_other (notSource : source ≠ node) (notTarget : target ≠ node) :
    listOf (moved v source pos target vmId) node = listOf v node := by
  simp [listOf, List.getD_eq_getElem?_getD, getElem?_moved, notSource, notTarget]

/-- The node a VM leaves loses that VM. -/
theorem listOf_moved_source {ls : List Int} (onSource : v[source]? = some ls)
    (here : ls[pos]? = some vmId) (ne : target ≠ source) :
    (vmId :: listOf (moved v source pos target vmId) source).Perm (listOf v source) := by
  obtain ⟨inRange, rfl⟩ := List.getElem?_eq_some_iff.mp here
  have after : listOf (moved v source pos target ls[pos]) source = ls.eraseIdx pos := by
    simp [listOf, List.getD_eq_getElem?_getD, getElem?_moved, onSource, ne]
  rw [after, listOf_of_getElem? onSource]
  exact List.getElem_cons_eraseIdx_perm inRange

theorem others_perm (states : VmStateMap) {ls ls' : List Int} (perm : ls.Perm ls') :
    others states ls = others states ls' :=
  perm.countP_eq _

theorem others_cons_other {ls : List Int} (state : states.read vmId = .otherStat) :
    others states (vmId :: ls) = others states ls + 1 := by
  simp [others, state]

theorem others_cons_of_ne {ls : List Int} (state : states.read vmId ≠ .otherStat) :
    others states (vmId :: ls) = others states ls := by
  simp [others, state]

theorem others_le_length (ls : List Int) : others states ls ≤ ls.length := List.countP_le_length

/-- A search that found no such VM leaves none to count. -/
theorem NotFound.others_eq_zero {ls : List Int} (none : NotFound states .otherStat ls)
    (real : -1 ∉ ls) : others states ls = 0 :=
  List.countP_eq_zero.mpr fun id mem => by simpa using none.absent real id mem

end Lists

/-! ### Every run -/

section Every

variable {args : ScheduleArgs D} {states : VmStateMap} {ties : NodeSort} {homed home : List Int}
  {snap : Nat → Nat} {k : Nat} {skipped : Bool} {b b' : Balancer}

/-- How the VMs on the NIC node relate to `home`, the VMs it started with. -/
structure Affinity (args : ScheduleArgs D) (states : VmStateMap) (home : List Int) (k : Nat)
    (skipped : Bool) (b : Balancer) : Prop where
  fresh : k = 0 → (listOf b.vmOnNode args.nic).Sublist home ∨ load b.vmOnNode args.nic ≤ 1 ∨
    ∀ i < args.numaNumber, 1 ≤ load b.vmOnNode i
  stale : k ≠ 0 → k + others states (listOf b.vmOnNode args.nic) ≤ others states home
  io : skipped = true → k = 0 →
    ∀ id ∈ listOf b.vmOnNode args.nic, states.read id ≠ .otherStat

/-- The lists of a state in a phase hold the VMs that were listed at first. -/
theorem Phase.mem_homed (phase : Phase args homed snap k skipped b) {node : Nat} {ls : List Int}
    (onNode : b.vmOnNode[node]? = some ls) {id : Int} (mem : id ∈ ls) : id ∈ homed :=
  phase.perm.mem_iff.mp (List.mem_flatten.mpr ⟨ls, List.mem_of_getElem? onNode, mem⟩)

theorem Balancer.AtNic.listOf_eq (atNic : b.AtNic args) (topo : args.Topology) {ls : List Int}
    (onHigh : b.vmOnNode[b.highLoadNode]? = some ls) : listOf b.vmOnNode args.nic = ls := by
  rw [← ((Phase.atNic_iff topo).mp atNic).1]
  exact listOf_of_getElem? onHigh

/-- A VM that leaves the NIC node is one of those that are not IO intensive. -/
theorem Phase.others_leave {ls : List Int} {pos target : Nat} {vmId : Int} (topo : args.Topology)
    (atNic : b.AtNic args) (onHigh : b.vmOnNode[b.highLoadNode]? = some ls)
    (here : ls[pos]? = some vmId) (state : states.read vmId = .otherStat)
    (kept : Phase args homed snap (k + 1) false { b with
      flag := true, vmOnNode := moved b.vmOnNode b.highLoadNode pos target vmId,
      minLoadNode := target }) :
    others states (listOf (moved b.vmOnNode b.highLoadNode pos target vmId) args.nic) + 1
      = others states (listOf b.vmOnNode args.nic) := by
  have same := ((Phase.atNic_iff topo).mp atNic).1
  have apart : target ≠ b.highLoadNode := by
    rw [same]
    exact kept.drift.away (Nat.succ_ne_zero _)
  have lost := others_perm states (listOf_moved_source onHigh here apart)
  rw [others_cons_other state] at lost
  rwa [same] at lost ⊢

/-- On the way through the NIC branch the affinity follows the VMs that leave. -/
theorem Affinity.leave {ls : List Int} {pos target : Nat} {vmId : Int}
    (affinity : Affinity args states home k skipped b)
    (phase : Phase args homed snap k skipped b) (topo : args.Topology)
    (enter : b.unbalanced = true) (atNic : b.AtNic args)
    (onHigh : b.vmOnNode[b.highLoadNode]? = some ls) (here : ls[pos]? = some vmId)
    (state : states.read vmId = .otherStat)
    (kept : Phase args homed snap (k + 1) false { b with
      flag := true, vmOnNode := moved b.vmOnNode b.highLoadNode pos target vmId,
      minLoadNode := target }) :
    Affinity args states home (k + 1) false { b with
      flag := true, vmOnNode := moved b.vmOnNode b.highLoadNode pos target vmId,
      minLoadNode := target } := by
  obtain ⟨rfl, two, _, minimum, last, few⟩ := phase.at_nic topo enter atNic
  have lost := Phase.others_leave topo atNic onHigh here state kept
  refine ⟨fun zero => absurd zero (Nat.succ_ne_zero k), fun _ => ?_, fun skip => by cases skip⟩
  show k + 1 + others states (listOf (moved _ _ _ _ _) args.nic) ≤ _
  by_cases zero : k = 0
  · subst zero
    have before : (listOf b.vmOnNode args.nic).Sublist home := by
      rcases affinity.fresh rfl with sub | small | filled
      · exact sub
      · have onNic := phase.drift.load_nic two
        omega
      · obtain ⟨low, lowLt, lowest⟩ := phase.cached.exists_minVmCnt
        have loaded := filled low lowLt
        rw [phase.drift.eq_of_zero, lowest, minimum] at loaded
        cases loaded
    have bound : others states (listOf b.vmOnNode args.nic) ≤ others states home :=
      before.countP_le
    omega
  · have bound := affinity.stale zero
    omega

/-- A levelling move keeps the affinity of a fresh state. -/
theorem Affinity.level {pos target : Nat} {vmId : Int}
    (affinity : Affinity args states home k skipped b)
    (phase : Phase args homed snap k skipped b) (topo : args.Topology)
    (enter : b.unbalanced = true) (notNic : ¬ b.AtNic args)
    (nearest : Nearest args.numaNumber b target)
    (shifted : load b'.vmOnNode = shift (load b.vmOnNode) b.highLoadNode target)
    (lists : b'.vmOnNode = moved b.vmOnNode b.highLoadNode pos target vmId) :
    Affinity args states home 0 false b' := by
  have gap := phase.cached.unbalanced_iff.mp enter
  have onHigh := phase.load_high topo enter notNic
  refine ⟨fun _ => ?_, fun ne => absurd rfl ne, fun skip => by cases skip⟩
  by_cases fresh : k = 0
  · subst fresh
    have same := phase.drift.eq_of_zero
    obtain ⟨lowNode, lowLt, lowest⟩ := phase.cached.exists_minVmCnt
    have onTarget : load b.vmOnNode target = b.minVmCnt := by
      rcases nearest.2 with atMin | ⟨_, none⟩
      · exact atMin
      · exact absurd lowest (same ▸ none lowNode lowLt)
    have apart : b.highLoadNode ≠ target := by
      intro eq
      rw [← eq] at onTarget
      omega
    by_cases empty : b.minVmCnt = 0
    · by_cases toNic : target = args.nic
      · refine .inr (.inl ?_)
        rw [shifted, ← toNic, shift_target apart, onTarget, empty]
      · rcases affinity.fresh rfl with sub | small | filled
        · rw [lists]
          exact .inl ((listOf_moved_sublist toNic).trans sub)
        · refine .inr (.inl ?_)
          rw [shifted]
          by_cases fromNic : args.nic = b.highLoadNode
          · rw [fromNic, shift_source apart]
            rw [fromNic] at small
            omega
          · rw [shift_other fromNic (Ne.symm toNic)]
            exact small
        · have loaded := filled lowNode lowLt
          rw [same, lowest, empty] at loaded
          cases loaded
    · refine .inr (.inr fun i inRange => ?_)
      have least := phase.cached.minVmCnt_le inRange
      rw [← same] at least
      rw [shifted]
      by_cases isHigh : i = b.highLoadNode
      · rw [isHigh, shift_source apart]
        omega
      · by_cases isTarget : i = target
        · rw [isTarget, shift_target apart]
          omega
        · rw [shift_other isHigh isTarget]
          omega
  · -- the NIC node has at most one VM left, and gains one only when it has none
    have two := phase.snap_nic (.inl fresh)
    have onNic := phase.drift.load_nic two
    have notHigh : args.nic ≠ b.highLoadNode := by
      cases skipped with
      | true => exact phase.high_ne_nic.symm
      | false =>
          obtain ⟨same, cnt⟩ := phase.high_eq_nic fresh
          exact absurd ((Phase.atNic_iff topo).mpr ⟨same, by omega⟩) notNic
    obtain ⟨_, minimum, _⟩ := phase.stale (.inl fresh)
    refine .inr (.inl ?_)
    rw [shifted]
    by_cases toNic : args.nic = target
    · rw [← toNic, shift_target notHigh.symm]
      rcases nearest.2 with atMin | ⟨fallback, none⟩
      · rw [← toNic, minimum] at atMin
        omega
      · exact absurd (toNic.trans fallback).symm (phase.drift.away fresh)
    · rw [shift_other notHigh toNic]
      omega

/-- A state in a phase, with its affinity. -/
def Settled (args : ScheduleArgs D) (states : VmStateMap) (homed home : List Int)
    (b : Balancer) : Prop :=
  ∃ snap k skipped, Phase args homed snap k skipped b ∧ Affinity args states home k skipped b

/-- An iteration keeps the affinity. -/
theorem Settled.step (topo : args.Topology) (known : Known args.vmInfosMap homed)
    (real : -1 ∉ homed) (settled : Settled args states homed home b)
    (enter : b.unbalanced = true) (stepped : balanceStep args states ties b = .ok b') :
    Settled args states homed home b' := by
  obtain ⟨snap, k, skipped, phase, affinity⟩ := settled
  cases phase.iteration topo known enter stepped with
  | @skip ls high low atNic onHigh none next lowest =>
      have real' : -1 ∉ ls := fun mem => real (phase.mem_homed onHigh mem)
      refine ⟨snap, k, true, phase.skip topo enter atNic next lowest, ?_⟩
      refine ⟨affinity.fresh, affinity.stale, fun _ _ => ?_⟩
      rw [atNic.listOf_eq topo onHigh]
      exact none.absent real'
  | leave atNic onHigh here state nearest =>
      have kept := phase.leave topo enter atNic onHigh here nearest
      exact ⟨snap, k + 1, false, kept,
        affinity.leave phase topo enter atNic onHigh here state kept⟩
  | level notNic onHigh here ioFirst nearest rebuilt =>
      obtain ⟨kept, shifted, lists⟩ := phase.level topo onHigh here nearest rebuilt
      exact ⟨_, 0, false, kept,
        affinity.level phase topo enter notNic nearest shifted lists⟩

theorem Settled.run (topo : args.Topology) (known : Known args.vmInfosMap homed)
    (real : -1 ∉ homed) (start : Settled args states homed home b)
    (path : Relation.ReflTransGen (BalanceStep args states ties) b b') :
    Settled args states homed home b' := by
  have keeps : ∀ b b', Settled args states homed home b → b.unbalanced = true →
      balanceStep args states ties b = .ok b' → Settled args states homed home b' :=
    fun _ _ settled enter stepped => settled.step topo known real enter stepped
  exact loopStep_invariant keeps start path

/-- The state in which the loop is entered. -/
theorem Settled.of_start {vmOnNode : List (List Int)} (topo : args.Topology)
    (lists : vmOnNode.length = args.numaNumber)
    (started : Balancer.start args ties vmOnNode = .ok b) :
    Settled args states vmOnNode.flatten (listOf vmOnNode args.nic) b := by
  obtain ⟨b₀, started', phase, same, _⟩ := start_spec ties topo lists
  obtain rfl : b = b₀ := Except.ok.inj (started.symm.trans started')
  refine ⟨_, 0, false, phase, ?_⟩
  exact ⟨fun _ => .inl (by rw [same]), fun ne => absurd rfl ne, fun skip => by cases skip⟩

/-- The loads of a state in a phase add up to the number of VMs. -/
theorem Phase.total_load (phase : Phase args homed snap k skipped b) :
    total (nodes args.numaNumber) (load b.vmOnNode) = homed.length := by
  rw [← phase.lists_length, Strategy.total_load, phase.perm.length_eq]

/-- Stale moves keep the total. -/
theorem Drift.total {n nic minLoadNode : Nat} {loads : Nat → Nat}
    (drift : Drift n nic snap minLoadNode loads k) (two : snap nic = 2) (nicLt : nic < n) :
    total (nodes n) loads = total (nodes n) snap := by
  have nicMem : nic ∈ nodes n := Finset.mem_range.mpr nicLt
  have first : ∀ {t}, t < n → Lib.total (nodes n) (shift snap nic t) = Lib.total (nodes n) snap :=
    fun lt => total_shift nicMem (Finset.mem_range.mpr lt) (by omega)
  have second : ∀ {t t'}, t < n → t' < n → t ≠ nic →
      Lib.total (nodes n) (shift (shift snap nic t) nic t') = Lib.total (nodes n) snap := by
    intro t t' lt lt' away
    have left : 0 < shift snap nic t nic := by
      rw [shift_source away.symm]
      omega
    rw [total_shift nicMem (Finset.mem_range.mpr lt') left, first lt]
  cases drift with
  | none same => rw [same]
  | one same lt => rw [same, first lt]
  | two same lt away _ lt' => rw [same, second lt lt' away]
  | both same lt away => rw [same, second lt lt away]

/-- How the loop can end. -/
inductive Ending (args : ScheduleArgs D) (states : VmStateMap) (homed home : List Int)
    (b : Balancer) : Prop where
  | level (level : Level (nodes args.numaNumber) (load b.vmOnNode))
  | nicPair (two : load b.vmOnNode args.nic = 2)
      (rest : ∀ i < args.numaNumber, i ≠ args.nic → load b.vmOnNode i ≤ 1)
      (io : ∀ id ∈ listOf b.vmOnNode args.nic, states.read id ≠ .otherStat)
  | crowded (full : homed.length = args.numaNumber) (left : 2 ≤ others states home)

theorem Settled.ending (topo : args.Topology) (settled : Settled args states homed home b)
    (done : b.unbalanced = false) : Ending args states homed home b := by
  obtain ⟨snap, k, skipped, phase, affinity⟩ := settled
  have gap : ¬ b.minVmCnt + 2 ≤ b.maxVmCnt := by
    rw [← phase.cached.unbalanced_iff, done]
    exact Bool.false_ne_true
  by_cases away : k ≠ 0 ∨ skipped = true
  · obtain ⟨last, minimum, _⟩ := phase.stale away
    have two := phase.snap_nic away
    have isSkipped : skipped = true := by
      cases skipped with
      | true => rfl
      | false =>
          rcases away with ne | eq
          · have cnt := (phase.high_eq_nic ne).2
            omega
          · exact eq
    subst isSkipped
    have idx := phase.idx
    simp only [if_true] at idx
    have small : ∀ i < args.numaNumber, i ≠ args.nic → snap i ≤ 1 := by
      intro i inRange ne
      have bound := phase.cached.le_maxVmCnt_of_skipped idx last inRange ne
      omega
    have flat : (∀ i < args.numaNumber, load b.vmOnNode i ≤ 1) →
        Ending args states homed home b := fun upper =>
      .level (level_of_bounds (m := 0) (fun _ _ => Nat.zero_le _) fun i mem =>
        upper i (Finset.mem_range.mp mem))
    have onNic := phase.drift.load_nic two
    cases phase.drift with
    | none same =>
        refine .nicPair (by omega) (fun i inRange ne => ?_) (affinity.io rfl rfl)
        rw [same]
        exact small i inRange ne
    | one same lt notNic empty =>
        refine flat fun i inRange => ?_
        by_cases isNic : i = args.nic
        · subst isNic
          omega
        · rw [same]
          by_cases isTarget : i = b.minLoadNode
          · rw [isTarget, shift_target notNic.symm, empty]
          · rw [shift_other isNic isTarget]
            exact small i inRange isNic
    | @two t same lt notNic empty lt' notNic' empty' apart =>
        refine flat fun i inRange => ?_
        by_cases isNic : i = args.nic
        · subst isNic
          omega
        · rw [same]
          by_cases isTarget : i = b.minLoadNode
          · rw [isTarget, shift_target notNic'.symm, shift_other notNic' apart.symm, empty']
          · rw [shift_other isNic isTarget]
            by_cases isFirst : i = t
            · rw [isFirst, shift_target notNic.symm, empty]
            · rw [shift_other isNic isFirst]
              exact small i inRange isNic
    | both same lt notNic empty only =>
        have exact_ : ∀ i ∈ nodes args.numaNumber, i ≠ args.nic → i ≠ b.minLoadNode →
            snap i = 1 := by
          intro i mem ne ne'
          have inRange := Finset.mem_range.mp mem
          have upper := small i inRange ne
          have lower : snap i ≠ 0 := fun zero => ne' (only i inRange zero)
          omega
        have count := total_eq_card (Finset.mem_range.mpr topo.nic_lt)
          (Finset.mem_range.mpr lt) notNic two empty exact_
        rw [← phase.drift.total two topo.nic_lt, phase.total_load, Finset.card_range] at count
        have left := affinity.stale (by decide)
        exact .crowded count (by omega)
  · push Not at away
    obtain ⟨rfl, notSkipped⟩ := away
    have notSkipped' : skipped = false := by simpa using notSkipped
    subst notSkipped'
    have same := phase.drift.eq_of_zero
    have idx := phase.idx
    simp only [Bool.false_eq_true, if_false] at idx
    refine .level (level_of_bounds (m := b.minVmCnt) (fun i mem => ?_) fun i mem => ?_)
    · rw [same]
      exact phase.cached.minVmCnt_le (Finset.mem_range.mp mem)
    · rw [same]
      have upper := phase.cached.le_maxVmCnt idx (Finset.mem_range.mp mem)
      omega

end Every

/-! ### The tie order that puts the NIC node first -/

/-- Ties are ordered with the NIC node first. -/
def nicFirst (nic : Nat) : NodeSort := UnstableSort.byRank fun node => if node = nic then 0 else 1

section Trap

variable {args : ScheduleArgs D} {states : VmStateMap} {homed : List Int}
  {snap : Nat → Nat} {k : Nat} {skipped : Bool} {b b' : Balancer}

/-- The states on the way into the crowded end: two VMs that are not IO intensive are on
the NIC node, or left it on stale counts. -/
inductive Trap (args : ScheduleArgs D) (states : VmStateMap) (homed : List Int) (b : Balancer) :
    Prop where
  | pending (phase : Phase args homed (load b.vmOnNode) 0 false b)
      (ranked : b.nodeVmVec.Pairwise (RankLe fun node => if node = args.nic then 0 else 1))
      (two : 2 ≤ others states (listOf b.vmOnNode args.nic))
  | sprung {snap : Nat → Nat} {k : Nat} {skipped : Bool}
      (phase : Phase args homed snap k skipped b) (away : k ≠ 0) (raised : b.flag = true)
      (small : ∀ i < args.numaNumber, i ≠ args.nic → snap i ≤ 1)
      (left : 2 ≤ k + others states (listOf b.vmOnNode args.nic))
      (last : skipped = true → k = 2)

/-- The NIC node with two VMs and no more VMs than nodes: some node is empty. -/
theorem Phase.min_eq_zero (phase : Phase args homed (load b.vmOnNode) 0 false b)
    (topo : args.Topology) (full : homed.length = args.numaNumber)
    (two : 2 ≤ load b.vmOnNode args.nic) : b.minVmCnt = 0 := by
  obtain ⟨z, mem, empty⟩ := exists_empty (s := nodes args.numaNumber)
    (Finset.mem_range.mpr topo.nic_lt) two
    (by rw [phase.total_load, full, Finset.card_range])
  have least := phase.cached.minVmCnt_le (Finset.mem_range.mp mem)
  omega

/-- With ties ordered so, the NIC node comes last only when it alone has the most VMs. -/
theorem small_of_ranked (phase : Phase args homed (load b.vmOnNode) 0 false b)
    (ranked : b.nodeVmVec.Pairwise (RankLe fun node => if node = args.nic then 0 else 1))
    {cnt : Nat} (last : b.nodeVmVec[args.numaNumber - 1]? = some (args.nic, cnt)) :
    ∀ i < args.numaNumber, i ≠ args.nic → load b.vmOnNode i < cnt := by
  intro i inRange ne
  obtain ⟨j, there⟩ := phase.cached.position inRange
  obtain ⟨bound, at_⟩ := List.getElem?_eq_some_iff.mp there
  obtain ⟨bound', last'⟩ := List.getElem?_eq_some_iff.mp last
  rw [phase.cached.length_vec] at bound
  have notLast : j ≠ args.numaNumber - 1 := by
    rintro rfl
    rw [last] at there
    cases there
    exact ne rfl
  have ordered := List.pairwise_iff_getElem.mp ranked j (args.numaNumber - 1)
    (by rwa [phase.cached.length_vec]) bound' (by omega)
  rw [at_, last'] at ordered
  rcases ordered with less | ⟨_, rank⟩
  · exact less
  · simp [ne] at rank

/-- A move away from the node at hand leaves two such VMs on the NIC node. -/
theorem two_others_level {ls : List Int} {pos target : Nat} {vmId : Int} (topo : args.Topology)
    (real : -1 ∉ homed)
    (classed : ∀ id ∈ homed, states.read id = .ioStat ∨ states.read id = .otherStat)
    (phase : Phase args homed (load b.vmOnNode) 0 false b) (enter : b.unbalanced = true)
    (notNic : ¬ b.AtNic args) (onHigh : b.vmOnNode[b.highLoadNode]? = some ls)
    (here : ls[pos]? = some vmId) (ioFirst : states.read vmId = .ioStat ∨ NotFound states .ioStat ls)
    (notTarget : target ≠ args.nic) (two : 2 ≤ others states (listOf b.vmOnNode args.nic)) :
    2 ≤ others states (listOf (moved b.vmOnNode b.highLoadNode pos target vmId) args.nic) := by
  by_cases fromNic : b.highLoadNode = args.nic
  · have lost := listOf_moved_source onHigh here (fromNic ▸ notTarget)
    have onNic : listOf b.vmOnNode b.highLoadNode = ls := listOf_of_getElem? onHigh
    have count := others_perm states lost
    rw [fromNic] at count ⊢
    rcases ioFirst with isIo | noIo
    · rw [others_cons_of_ne (by rw [isIo]; decide)] at count
      omega
    · -- no IO intensive VM: all of at least three VMs are not IO intensive
      have inHomed : ∀ id ∈ ls, id ∈ homed := fun id mem => phase.mem_homed onHigh mem
      have absent := noIo.absent fun mem => real (inHomed (-1) mem)
      have all : others states ls = ls.length :=
        List.countP_eq_length.mpr fun id mem => by
          simpa using (classed id (inHomed id mem)).resolve_left (absent id mem)
      have isOther : states.read vmId = .otherStat :=
        (classed vmId (inHomed vmId (List.mem_of_getElem? here))).resolve_left
          (absent vmId (List.mem_of_getElem? here))
      rw [others_cons_other isOther] at count
      have gap := phase.cached.unbalanced_iff.mp enter
      have many : 3 ≤ ls.length := by
        have top := phase.cached.maxVmCnt_eq
        rw [load_of_getElem? onHigh] at top
        by_contra few
        exact notNic ((Phase.atNic_iff topo).mpr ⟨fromNic, by omega⟩)
      rw [fromNic] at onNic
      rw [onNic, all] at count
      omega
  · rw [listOf_moved_other fromNic notTarget]
    exact two

/-- Every iteration keeps a state in the trap. -/
theorem Trap.step (topo : args.Topology) (known : Known args.vmInfosMap homed)
    (real : -1 ∉ homed) (full : homed.length = args.numaNumber)
    (classed : ∀ id ∈ homed, states.read id = .ioStat ∨ states.read id = .otherStat)
    (trap : Trap args states homed b) (enter : b.unbalanced = true)
    (stepped : balanceStep args states (nicFirst args.nic) b = .ok b') :
    Trap args states homed b' := by
  cases trap with
  | pending phase ranked two =>
      have loaded : 2 ≤ load b.vmOnNode args.nic := two.trans (others_le_length _)
      have minimum := phase.min_eq_zero topo full loaded
      cases phase.iteration topo known enter stepped with
      | @skip ls high low atNic onHigh none next lowest =>
          -- a search that found nothing contradicts the two VMs
          have real' : -1 ∉ ls := fun mem => real (phase.mem_homed onHigh mem)
          rw [atNic.listOf_eq topo onHigh, none.others_eq_zero real'] at two
          cases two
      | @leave ls pos target vmId atNic onHigh here state nearest =>
          obtain ⟨_, _, _, _, last, _⟩ := phase.at_nic topo enter atNic
          have kept := phase.leave topo enter atNic onHigh here nearest
          have lost := Phase.others_leave topo atNic onHigh here state kept
          refine .sprung kept (by decide) rfl (fun i inRange ne => ?_) ?_ (fun skip => by cases skip)
          · have less := small_of_ranked phase ranked last i inRange ne
            omega
          · show 2 ≤ 1 + others states (listOf (moved _ _ _ _ _) args.nic)
            omega
      | @level ls pos target minLoadNode vmId b' notNic onHigh here ioFirst nearest rebuilt =>
          obtain ⟨kept, shifted, lists⟩ := phase.level topo onHigh here nearest rebuilt
          obtain ⟨b'', rebuilt', _, _, _, _, _, vec⟩ :=
            rebuild_spec (nicFirst args.nic) (Nat.zero_lt_of_lt topo.nic_lt) { b with
              flag := true, vmOnNode := moved b.vmOnNode b.highLoadNode pos target vmId,
              minLoadNode := minLoadNode }
          obtain rfl : b' = b'' := Except.ok.inj (rebuilt.symm.trans rebuilt')
          have notTarget : target ≠ args.nic := by
            rintro rfl
            obtain ⟨lowNode, lowLt, lowest⟩ := phase.cached.exists_minVmCnt
            rcases nearest.2 with atMin | ⟨_, none⟩
            · omega
            · exact none lowNode lowLt lowest
          refine .pending kept (vec ▸ pairwise_rankLe _ _) ?_
          rw [lists]
          exact two_others_level topo real classed phase enter notNic onHigh here ioFirst notTarget
            two
  | @sprung snap k skipped phase away raised small left last =>
      cases phase.iteration topo known enter stepped with
      | @skip ls high low atNic onHigh none next lowest =>
          have real' : -1 ∉ ls := fun mem => real (phase.mem_homed onHigh mem)
          have two := phase.snap_nic (.inl away)
          have onNic := phase.drift.load_nic two
          refine .sprung (phase.skip topo enter atNic next lowest) away rfl small left fun _ => ?_
          rw [atNic.listOf_eq topo onHigh, none.others_eq_zero real'] at left
          omega
      | @leave ls pos target vmId atNic onHigh here state nearest =>
          obtain ⟨rfl, _⟩ := phase.at_nic topo enter atNic
          have kept := phase.leave topo enter atNic onHigh here nearest
          have lost := Phase.others_leave topo atNic onHigh here state kept
          refine .sprung kept (by omega) rfl small ?_ (fun skip => by cases skip)
          show 2 ≤ k + 1 + others states (listOf (moved _ _ _ _ _) args.nic)
          omega
      | level notNic =>
          -- after a skip every other node has at most one VM, before it the NIC node is at hand
          have gap := phase.cached.unbalanced_iff.mp enter
          cases skipped with
          | true =>
              have upper := small _ phase.cached.high_lt phase.high_ne_nic
              rw [phase.cached.maxVmCnt_eq] at upper
              omega
          | false =>
              obtain ⟨same, cnt⟩ := phase.high_eq_nic away
              exact absurd ((Phase.atNic_iff topo).mpr ⟨same, by omega⟩) notNic

/-- A loop that exits in the trap left the NIC node empty and another node with two VMs. -/
theorem Trap.ending (topo : args.Topology) (full : homed.length = args.numaNumber)
    (trap : Trap args states homed b) (done : b.unbalanced = false) :
    b.flag = true ∧ load b.vmOnNode args.nic = 0 ∧
      ∃ t < args.numaNumber, t ≠ args.nic ∧ load b.vmOnNode t = 2 := by
  cases trap with
  | pending phase ranked two =>
      have loaded : 2 ≤ load b.vmOnNode args.nic := two.trans (others_le_length _)
      have minimum := phase.min_eq_zero topo full loaded
      have idx := phase.idx
      simp only [Bool.false_eq_true, if_false] at idx
      have upper := phase.cached.le_maxVmCnt idx topo.nic_lt
      have entered := phase.cached.unbalanced_iff.mpr (by omega)
      rw [done] at entered
      cases entered
  | @sprung snap k skipped phase away raised small left last =>
      have two := phase.snap_nic (.inl away)
      have onNic := phase.drift.load_nic two
      have isSkipped : skipped = true := by
        cases skipped with
        | true => rfl
        | false =>
            have cnt := (phase.high_eq_nic away).2
            have minimum := (phase.stale (.inl away)).2.1
            have entered := phase.cached.unbalanced_iff.mpr (by omega)
            rw [done] at entered
            cases entered
      have isTwo := last isSkipped
      subst isTwo
      refine ⟨raised, by omega, ?_⟩
      cases phase.drift with
      | @two t same lt notNic empty lt' notNic' empty' apart =>
          have count : total (nodes args.numaNumber) snap = (nodes args.numaNumber).card := by
            rw [← phase.drift.total two topo.nic_lt, phase.total_load, full, Finset.card_range]
          have one := unique_empty (Finset.mem_range.mpr topo.nic_lt) (Finset.mem_range.mpr lt)
            two empty (fun i mem ne => small i (Finset.mem_range.mp mem) ne) count
            b.minLoadNode (Finset.mem_range.mpr lt') notNic' apart.symm
          rw [empty'] at one
          cases one
      | both same lt notNic empty =>
          refine ⟨b.minLoadNode, lt, notNic, ?_⟩
          rw [same, shift_target notNic.symm, shift_target notNic.symm, empty]

end Trap

/-! ### The decisions -/

section Decisions

variable [Double D] {strategy : SimpleStrategy} {args : ScheduleArgs D}
  {vmStateSlot : Nat → VmState}

/-- The node is the NIC node, with exactly two VMs, both IO intensive. -/
def NicPair (strategy : SimpleStrategy) (args : ScheduleArgs D) (acts : List Decision)
    (node : Nat) : Prop :=
  (node : Int) = args.netdevNumanode ∧ (onNode acts node).length = 2 ∧
    ∀ id ∈ onNode acts node, ∃ vm, args.vmInfosMap[id]? = some vm ∧ ioClass strategy vm = .ioStat

/-- No node is decided two VMs more than another, a pair on the NIC node apart. -/
def Balanced (strategy : SimpleStrategy) (args : ScheduleArgs D) (acts : List Decision) : Prop :=
  ∀ a < args.numaNumber, ∀ b < args.numaNumber,
    (onNode acts a).length ≤ (onNode acts b).length + 1 ∨ NicPair strategy args acts a

/-- The scheduled VMs homed on the NIC node that are not IO intensive. -/
def nicOthers (strategy : SimpleStrategy) (args : ScheduleArgs D) (vmStateSlot : Nat → VmState) :
    Nat :=
  (scheduled args vmStateSlot).countP fun vm =>
    vm.memMainNodeId = args.netdevNumanode ∧ ioClass strategy vm = .otherStat

theorem ioClass_cases (strategy : SimpleStrategy) (vm : VmInfo D) :
    ioClass strategy vm = .ioStat ∨ ioClass strategy vm = .otherStat := by
  unfold ioClass
  split_ifs
  · exact .inl rfl
  · exact .inr rfl
  · exact .inl rfl

theorem Homed.classed {c : Classified} (homed : Homed strategy args vmStateSlot c) :
    ∀ id ∈ c.vmOnNode.flatten,
      c.vmStateMap.read id = .ioStat ∨ c.vmStateMap.read id = .otherStat := by
  intro id mem
  obtain ⟨vm, listed, rfl⟩ := List.mem_map.mp (homed.perm.mem_iff.mp mem)
  rw [homed.class_ vm listed]
  exact ioClass_cases strategy vm

theorem Homed.real {c : Classified} (homed : Homed strategy args vmStateSlot c)
    (real : ∀ vm ∈ scheduled args vmStateSlot, vm.domId ≠ -1) : -1 ∉ c.vmOnNode.flatten := by
  intro mem
  obtain ⟨vm, listed, isMinusOne⟩ := List.mem_map.mp (homed.perm.mem_iff.mp mem)
  exact real vm listed isMinusOne

/-- A listed VM that reads otherwise than `OTHER_STAT` is IO intensive. -/
theorem Homed.io_of_ne_other {c : Classified} (homed : Homed strategy args vmStateSlot c)
    (agree : KeysAgree args.vmInfosMap) {id : Int} (listed : id ∈ c.vmOnNode.flatten)
    (notOther : c.vmStateMap.read id ≠ .otherStat) :
    ∃ vm, args.vmInfosMap[id]? = some vm ∧ ioClass strategy vm = .ioStat := by
  obtain ⟨vm, isScheduled, rfl⟩ := List.mem_map.mp (homed.perm.mem_iff.mp listed)
  obtain ⟨key, present⟩ :=
    mem_values.mp ((scheduledFrom_sublist args vmStateSlot 0 _).subset isScheduled)
  obtain rfl : key = vm.domId := (agree key vm present).symm
  rw [homed.class_ vm isScheduled] at notOther
  exact ⟨vm, present, (ioClass_cases strategy vm).resolve_right notOther⟩

/-- The VMs that are not IO intensive, on the list that classification gives the NIC node. -/
theorem Homed.others_nic {c : Classified} (homed : Homed strategy args vmStateSlot c)
    (topo : args.Topology) :
    others c.vmStateMap (listOf c.vmOnNode args.nic) = nicOthers strategy args vmStateSlot := by
  rw [listOf_of_getElem? (homed.lists args.nic topo.nic_lt), others, homedOn, nicOthers,
    List.countP_map, List.countP_filter, topo.netdev_eq]
  refine List.countP_congr fun vm mem => ?_
  simp [homed.class_ vm mem, and_comm]

/-- The loads that a final state leaves, unless the crowded end was reached. -/
theorem Analyzed.balanced {ties : NodeSort} {c : Classified} {b b' : Balancer}
    {final : List (List Int)} (analyzed : Analyzed strategy args vmStateSlot ties c b b' final)
    (topo : args.Topology) (agree : KeysAgree args.vmInfosMap)
    (real : ∀ vm ∈ scheduled args vmStateSlot, vm.domId ≠ -1)
    (notCrowded : ¬ ((scheduled args vmStateSlot).length = args.numaNumber ∧
      2 ≤ nicOthers strategy args vmStateSlot)) :
    Balanced strategy args (decisions final) := by
  have known := analyzed.homed.known agree
  obtain ⟨b₀, started', phase₀, _⟩ := start_spec ties topo analyzed.homed.length
  obtain rfl : b = b₀ := Except.ok.inj (analyzed.started.symm.trans started')
  intro i iLt j jLt
  simp only [NicPair, onNode_decisions]
  cases analyzed.adjusted with
  | keep =>
      have start : Settled args c.vmStateMap c.vmOnNode.flatten (listOf c.vmOnNode args.nic) b :=
        .of_start topo analyzed.homed.length analyzed.started
      have settled := start.run topo known (analyzed.homed.real real) analyzed.path
      cases settled.ending topo analyzed.done with
      | level level =>
          exact .inl (level i (Finset.mem_range.mpr iLt) j (Finset.mem_range.mpr jLt))
      | nicPair two rest io =>
          by_cases isNic : i = args.nic
          · subst isNic
            refine .inr ⟨topo.netdev_eq.symm, two, fun id mem => ?_⟩
            obtain ⟨snap, k, skipped, phase, _⟩ := settled
            have inRange : args.nic < b'.vmOnNode.length := by
              rw [phase.lists_length]
              exact iLt
            have found := List.getElem?_eq_getElem inRange
            have onNic : id ∈ b'.vmOnNode[args.nic] := by
              rw [← listOf_of_getElem? found]
              exact mem
            exact analyzed.homed.io_of_ne_other agree (phase.mem_homed found onNic) (io id mem)
          · have upper := rest i iLt isNic
            exact .inl (upper.trans (Nat.le_add_left 1 _))
      | crowded full left =>
          rw [analyzed.homed.others_nic topo] at left
          rw [analyzed.homed.perm.length_eq, scheduledIds, List.length_map] at full
          exact absurd ⟨full, left⟩ notCrowded
  | @toNic ls vmId unentered one free onHigh here =>
      obtain rfl := eq_of_flag topo known ⟨_, _, _, phase₀⟩ analyzed.path unentered
      have same := phase₀.drift.eq_of_zero
      have idx := phase₀.idx
      simp only [Bool.false_eq_true, if_false] at idx
      have nicLt : args.nic < b'.vmOnNode.length := by
        rw [phase₀.lists_length]
        exact topo.nic_lt
      have high : load b'.vmOnNode b'.highLoadNode = 1 := by
        rw [same, phase₀.cached.maxVmCnt_eq, one]
      have apart : b'.highLoadNode ≠ args.nic := by
        intro eq
        rw [eq, free] at high
        cases high
      have upper : load b'.vmOnNode i ≤ 1 := by
        rw [same, ← one]
        exact phase₀.cached.le_maxVmCnt idx iLt
      have shifted := load_moved vmId
        (show 0 < load b'.vmOnNode b'.highLoadNode by omega) nicLt
      left
      have bound : load (moved b'.vmOnNode b'.highLoadNode 0 args.nic vmId) i ≤ 1 := by
        rw [shifted]
        by_cases isHigh : i = b'.highLoadNode
        · rw [isHigh, shift_source apart]
          omega
        · by_cases isNic : i = args.nic
          · rw [isNic, shift_target apart, free]
          · rw [shift_other isHigh isNic]
            exact upper
      exact bound.trans (Nat.le_add_left 1 _)

/-- The decisions are balanced for every order of ties, unless the scheduled VMs are exactly
as many as the nodes and two of those on the NIC node are not IO intensive. -/
theorem balanced_iff (strategy : SimpleStrategy) (args : ScheduleArgs D)
    (vmStateSlot : Nat → VmState) (topo : args.Topology) (agree : KeysAgree args.vmInfosMap)
    (covered : ∀ vm ∈ args.vmInfosMap.values, Covered args vm)
    (homes : ∀ vm ∈ scheduled args vmStateSlot, HomeInRange args vm)
    (real : ∀ vm ∈ scheduled args vmStateSlot, vm.domId ≠ -1) :
    (∀ ties : NodeSort, ∃ acts, analyze strategy args vmStateSlot ties = .ok acts ∧
        Balanced strategy args acts) ↔
      ¬ ((scheduled args vmStateSlot).length = args.numaNumber ∧
        2 ≤ nicOthers strategy args vmStateSlot) := by
  obtain ⟨c, classified⟩ := (classify_isOk strategy).mpr ⟨covered, homes⟩
  constructor
  · rintro always ⟨full, left⟩
    obtain ⟨acts, done, balanced⟩ := always (nicFirst args.nic)
    obtain ⟨b, b', final, analyzed, done'⟩ :=
      analyze_of_classify topo agree (nicFirst args.nic) classified
    obtain rfl : acts = decisions final := Except.ok.inj (done.symm.trans done')
    have known := analyzed.homed.known agree
    have full' : c.vmOnNode.flatten.length = args.numaNumber := by
      rw [analyzed.homed.perm.length_eq, scheduledIds, List.length_map, full]
    have real' := analyzed.homed.real real
    obtain ⟨b₀, started', phase₀, sameLists, _, vec⟩ :=
      start_spec (nicFirst args.nic) topo analyzed.homed.length
    obtain rfl : b = b₀ := Except.ok.inj (analyzed.started.symm.trans started')
    have start : Trap args c.vmStateMap c.vmOnNode.flatten b := by
      refine .pending (by rw [sameLists]; exact phase₀) (vec ▸ pairwise_rankLe _ _) ?_
      rw [sameLists, analyzed.homed.others_nic topo]
      exact left
    have keeps : ∀ b b', Trap args c.vmStateMap c.vmOnNode.flatten b → b.unbalanced = true →
        balanceStep args c.vmStateMap (nicFirst args.nic) b = .ok b' →
        Trap args c.vmStateMap c.vmOnNode.flatten b' := fun _ _ trap enter stepped =>
      trap.step topo known real' full' analyzed.homed.classed enter stepped
    have trap := loopStep_invariant keeps start analyzed.path
    obtain ⟨raised, empty, t, tLt, away, two⟩ := trap.ending topo full' analyzed.done
    have sameFinal : final = b'.vmOnNode := by
      cases analyzed.adjusted with
      | keep => rfl
      | toNic unentered =>
          rw [raised] at unentered
          cases unentered
    have pair := balanced t tLt args.nic topo.nic_lt
    simp only [NicPair, onNode_decisions, sameFinal] at pair
    rcases pair with le | ⟨isNic, _⟩
    · change load b'.vmOnNode t ≤ load b'.vmOnNode args.nic + 1 at le
      omega
    · rw [topo.netdev_eq] at isNic
      exact away (Int.ofNat_inj.mp isNic)
  · intro notCrowded ties
    obtain ⟨b, b', final, analyzed, done⟩ := analyze_of_classify topo agree ties classified
    exact ⟨_, done, analyzed.balanced topo agree real notCrowded⟩

/-- Two VMs on two nodes, both on the NIC node and not IO intensive. -/
def crowdedNic : ScheduleArgs ℚ :=
  twoNodeArgs [steadyVm 1 0 0 0 50, steadyVm 2 0 0 0 50] [60, 60, 60]

theorem balanced_iff_crowdedNic :
    (∀ ties : NodeSort, ∃ acts, analyze {} crowdedNic (fun _ => .otherStat) ties = .ok acts ∧
        Balanced {} crowdedNic acts) ↔
      ¬ ((scheduled crowdedNic fun _ => .otherStat).length = crowdedNic.numaNumber ∧
        2 ≤ nicOthers {} crowdedNic fun _ => .otherStat) :=
  balanced_iff {} crowdedNic _ (twoNodeArgs_topology _ _) (twoNodeArgs_agree _ _)
    (by decide +kernel) (by decide +kernel) (by decide +kernel)

/-- Both VMs are decided onto node 1, none onto node 0. -/
theorem crowdedNic_unbalanced :
    analyze {} crowdedNic (fun _ => .otherStat) (UnstableSort.byRank id)
        = .ok [⟨1, 1, 1⟩, ⟨2, 1, 1⟩] ∧
      ¬ ∃ acts, analyze {} crowdedNic (fun _ => .otherStat) (UnstableSort.byRank id) = .ok acts ∧
        Balanced {} crowdedNic acts := by
  have both : analyze {} crowdedNic (fun _ => .otherStat) (UnstableSort.byRank id)
      = .ok [⟨1, 1, 1⟩, ⟨2, 1, 1⟩] := by decide +kernel
  refine ⟨both, ?_⟩
  rintro ⟨acts, done, balanced⟩
  rw [both] at done
  cases done
  rcases balanced 1 (by decide) 0 (by decide) with le | ⟨isNic, _⟩
  · revert le
    decide
  · revert isNic
    decide +kernel

end Decisions

end VNams.Strategy
