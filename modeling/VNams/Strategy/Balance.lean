import VNams.Strategy.Cache

/-!
The balancing loop runs to its end.

The cache goes stale only in the NIC branch, and never by more than two moves: `Drift`
lists the four ways the present loads can differ from the cached ones, and `Phase` is
the loop invariant, indexed by the cached loads, the number `k` of VMs moved since the
last rebuild and whether the NIC node was skipped. Each iteration changes the index in
one way (`Phase.skip`, `Phase.leave`, `Phase.level`), and `variant` falls: the energy of
the cached loads at each rebuild, the rank between two rebuilds.
-/

namespace VNams.Strategy

open Lib

variable {D : Type}

/-- How the loads can differ from the cached loads `snap` after some VMs left the NIC
node: the index counts them, and the last one went to `minLoadNode`. -/
inductive Drift (n nic : Nat) (snap : Nat → Nat) (minLoadNode : Nat) (loads : Nat → Nat) :
    Nat → Prop where
  | none (same : loads = snap) : Drift n nic snap minLoadNode loads 0
  | one (same : loads = shift snap nic minLoadNode) (inRange : minLoadNode < n)
      (away : minLoadNode ≠ nic) (empty : snap minLoadNode = 0) :
      Drift n nic snap minLoadNode loads 1
  | two {t : Nat} (same : loads = shift (shift snap nic t) nic minLoadNode)
      (inRange : t < n) (away : t ≠ nic) (empty : snap t = 0)
      (inRange' : minLoadNode < n) (away' : minLoadNode ≠ nic) (empty' : snap minLoadNode = 0)
      (apart : t ≠ minLoadNode) :
      Drift n nic snap minLoadNode loads 2
  | both (same : loads = shift (shift snap nic minLoadNode) nic minLoadNode)
      (inRange : minLoadNode < n) (away : minLoadNode ≠ nic) (empty : snap minLoadNode = 0)
      (only : ∀ i < n, snap i = 0 → i = minLoadNode) :
      Drift n nic snap minLoadNode loads 2

namespace Drift

variable {n nic k minLoadNode : Nat} {snap loads : Nat → Nat}

/-- Without a move the cached loads are the present ones. -/
theorem eq_of_zero (drift : Drift n nic snap minLoadNode loads 0) : loads = snap := by
  cases drift with
  | none same => exact same

/-- The VMs that left went to other nodes. -/
theorem away (drift : Drift n nic snap minLoadNode loads k) (moved : k ≠ 0) :
    minLoadNode ≠ nic := by
  cases drift with
  | none => exact absurd rfl moved
  | one _ _ away => exact away
  | two _ _ _ _ _ away' => exact away'
  | both _ _ away => exact away

/-- The NIC node has lost one VM for each move. -/
theorem load_nic (drift : Drift n nic snap minLoadNode loads k) (two : snap nic = 2) :
    loads nic + k = 2 := by
  cases drift with
  | none same => rw [same, two]
  | one same _ away => rw [same, shift_source away.symm, two]
  | two same _ away _ _ away' =>
      rw [same, shift_source away'.symm, shift_source away.symm, two]
  | both same _ away => rw [same, shift_source away.symm, shift_source away.symm, two]

/-- A node other than the NIC node that had a VM still has as many. -/
theorem load_other (drift : Drift n nic snap minLoadNode loads k) {i : Nat} (ne : i ≠ nic)
    (loaded : 0 < snap i) : loads i = snap i := by
  have notEmpty : ∀ {t}, snap t = 0 → i ≠ t := by
    rintro t empty rfl
    omega
  cases drift with
  | none same => rw [same]
  | one same _ _ empty => rw [same, shift_other ne (notEmpty empty)]
  | two same _ _ empty _ _ empty' =>
      rw [same, shift_other ne (notEmpty empty'), shift_other ne (notEmpty empty)]
  | both same _ _ empty =>
      rw [same, shift_other ne (notEmpty empty), shift_other ne (notEmpty empty)]

/-- Moving one of two VMs of the NIC node to an empty node lowers the energy by two. -/
theorem energy_first (two : snap nic = 2) (nicLt : nic < n) {t : Nat} (lt : t < n)
    (away : t ≠ nic) (empty : snap t = 0) :
    energy (nodes n) (shift snap nic t) + 2 = energy (nodes n) snap := by
  have nicMem : nic ∈ nodes n := Finset.mem_range.mpr nicLt
  have change := energy_shift away.symm nicMem (Finset.mem_range.mpr lt)
    (show 0 < snap nic by omega)
  omega

/-- The stale moves never raise the energy, and a single one lowers it by two. -/
theorem energy_le (drift : Drift n nic snap minLoadNode loads k) (two : snap nic = 2)
    (nicLt : nic < n) :
    energy (nodes n) loads + (if k = 1 then 2 else 0) ≤ energy (nodes n) snap := by
  have nicMem : nic ∈ nodes n := Finset.mem_range.mpr nicLt
  cases drift with
  | none same => simp [same]
  | one same lt away empty =>
      have step₁ := energy_first two nicLt lt away empty
      rw [same, if_pos rfl]
      omega
  | @two t same lt away empty lt' away' empty' apart =>
      have step₁ := energy_first two nicLt lt away empty
      have onNic : shift snap nic t nic = 1 := by rw [shift_source away.symm, two]
      have onTarget : shift snap nic t minLoadNode = 0 := by
        rw [shift_other away' apart.symm, empty']
      have step₂ := energy_shift away'.symm nicMem (Finset.mem_range.mpr lt')
        (show 0 < shift snap nic t nic by omega)
      rw [same, if_neg (by decide)]
      omega
  | both same lt away empty only =>
      have step₁ := energy_first two nicLt lt away empty
      have onNic : shift snap nic minLoadNode nic = 1 := by rw [shift_source away.symm, two]
      have onTarget : shift snap nic minLoadNode minLoadNode = 1 := by
        rw [shift_target away.symm, empty]
      have step₂ := energy_shift away.symm nicMem (Finset.mem_range.mpr lt)
        (show 0 < shift snap nic minLoadNode nic by omega)
      rw [same, if_neg (by decide)]
      omega

/-- Stale moves keep every load within two when the cached ones are. -/
theorem load_le (drift : Drift n nic snap minLoadNode loads k) (few : ∀ i < n, snap i ≤ 2) {i : Nat}
    (inRange : i < n) : loads i ≤ 2 := by
  have bound := few i inRange
  cases drift with
  | none same => rwa [same]
  | one same _ away empty =>
      rw [same]
      by_cases isNic : i = nic
      · rw [isNic, shift_source away.symm, ← isNic]
        omega
      · by_cases isTarget : i = minLoadNode
        · rw [isTarget, shift_target away.symm, empty]
          decide
        · rwa [shift_other isNic isTarget]
  | @two t same _ away empty _ away' empty' apart =>
      rw [same]
      by_cases isNic : i = nic
      · rw [isNic, shift_source away'.symm, shift_source away.symm, ← isNic]
        omega
      · by_cases isTarget : i = minLoadNode
        · rw [isTarget, shift_target away'.symm, shift_other away' apart.symm, empty']
          decide
        · rw [shift_other isNic isTarget]
          by_cases isFirst : i = t
          · rw [isFirst, shift_target away.symm, empty]
            decide
          · rwa [shift_other isNic isFirst]
  | both same _ away empty =>
      rw [same]
      by_cases isNic : i = nic
      · rw [isNic, shift_source away.symm, shift_source away.symm, ← isNic]
        omega
      · by_cases isTarget : i = minLoadNode
        · rw [isTarget, shift_target away.symm, shift_target away.symm, empty]
        · rwa [shift_other isNic isTarget, shift_other isNic isTarget]

end Drift

/-- The loop invariant: `snap` are the cached loads, `k` VMs left the NIC node since they
were cached, and `skipped` says whether the node at hand is the last one or the one
before it. -/
structure Phase (args : ScheduleArgs D) (homed : List Int) (snap : Nat → Nat) (k : Nat)
    (skipped : Bool) (b : Balancer) : Prop where
  lists_length : b.vmOnNode.length = args.numaNumber
  perm : b.vmOnNode.flatten.Perm homed
  cached : Cached args.numaNumber snap b
  minLoad_lt : b.minLoadNode < args.numaNumber
  drift : Drift args.numaNumber args.nic snap b.minLoadNode (load b.vmOnNode) k
  idx : b.maxVmIdx = if skipped then args.numaNumber - 2 else args.numaNumber - 1
  /-- away from a rebuild the NIC node is cached last, with two VMs and an empty node -/
  stale : k ≠ 0 ∨ skipped = true →
    b.nodeVmVec[args.numaNumber - 1]? = some (args.nic, 2) ∧ b.minVmCnt = 0 ∧
      ∀ i < args.numaNumber, snap i ≤ 2

/-- The steps left before the next rebuild. -/
def rank (k : Nat) (skipped : Bool) : Nat := if skipped then 1 else 4 - k

/-- What an iteration lowers. -/
def variant (n : Nat) (snap : Nat → Nat) (k : Nat) (skipped : Bool) : Nat :=
  5 * energy (nodes n) snap + rank k skipped

namespace Phase

variable {args : ScheduleArgs D} {states : VmStateMap} {ties : NodeSort} {homed : List Int}
  {snap : Nat → Nat} {k : Nat} {skipped : Bool} {b b' : Balancer}

/-- A state in a phase is sane. -/
theorem sane (phase : Phase args homed snap k skipped b) (topo : args.Topology)
    (known : Known args.vmInfosMap homed) : b.Sane args where
  lists_length := phase.lists_length
  high_lt := phase.cached.high_lt
  minLoad_lt := phase.minLoad_lt
  idx_lt := by
    have positive := Nat.zero_lt_of_lt topo.nic_lt
    have idx := phase.idx
    rw [phase.cached.length_vec]
    split at idx <;> omega
  known := fun id mem => known id (phase.perm.mem_iff.mp mem)

/-- Away from a rebuild the cached load of the NIC node is two. -/
theorem snap_nic (phase : Phase args homed snap k skipped b) (away : k ≠ 0 ∨ skipped = true) :
    snap args.nic = 2 :=
  (phase.cached.mem_iff.mp (List.mem_of_getElem? (phase.stale away).1)).2

/-- After a skip the node at hand is not the NIC node. -/
theorem high_ne_nic (phase : Phase args homed snap k true b) : b.highLoadNode ≠ args.nic := by
  intro same
  obtain ⟨last, minimum, _⟩ := phase.stale (.inr rfl)
  have here := phase.cached.high
  rw [same] at here
  have together := phase.cached.node_injective here last
  obtain ⟨low, lowest⟩ := phase.cached.low
  have idx := phase.idx
  simp only [if_true] at idx
  have first : b.nodeVmVec[0]? = some (args.nic, 2) := by
    rw [← last, show args.numaNumber - 1 = 0 by omega]
  rw [first, minimum] at lowest
  cases lowest

/-- Before a skip, away from a rebuild, the node at hand is the NIC node. -/
theorem high_eq_nic (phase : Phase args homed snap k false b) (away : k ≠ 0) :
    b.highLoadNode = args.nic ∧ b.maxVmCnt = 2 := by
  have here := phase.cached.high
  have idx := phase.idx
  simp only [Bool.false_eq_true, if_false] at idx
  rw [idx, (phase.stale (.inl away)).1, Option.some.injEq, Prod.mk.injEq] at here
  exact ⟨here.1.symm, here.2.symm⟩

theorem atNic_iff (topo : args.Topology) :
    b.AtNic args ↔ b.highLoadNode = args.nic ∧ b.maxVmCnt ≤ 2 := by
  unfold Balancer.AtNic
  rw [topo.netdev_eq]
  exact and_congr_left fun _ => Int.ofNat_inj

/-- Entering the NIC branch: the NIC node is cached last with two VMs, and some node is
cached as empty. -/
theorem at_nic (phase : Phase args homed snap k skipped b) (topo : args.Topology)
    (enter : b.unbalanced = true) (atNic : b.AtNic args) :
    skipped = false ∧ snap args.nic = 2 ∧ b.maxVmCnt = 2 ∧ b.minVmCnt = 0 ∧
      b.nodeVmVec[args.numaNumber - 1]? = some (args.nic, 2) ∧
      ∀ i < args.numaNumber, snap i ≤ 2 := by
  obtain ⟨same, few⟩ := (atNic_iff topo).mp atNic
  have gap := phase.cached.unbalanced_iff.mp enter
  have notSkipped : skipped = false := by
    cases skipped with
    | false => rfl
    | true => exact absurd same phase.high_ne_nic
  subst notSkipped
  have two : b.maxVmCnt = 2 := by omega
  have idx := phase.idx
  simp only [Bool.false_eq_true, if_false] at idx
  have here := phase.cached.high
  rw [idx, same, two] at here
  refine ⟨rfl, ?_, two, by omega, here, ?_⟩
  · rw [← two, ← phase.cached.maxVmCnt_eq, same]
  · intro i inRange
    rw [← two]
    exact phase.cached.le_maxVmCnt idx inRange

/-- In the general branch the cached maximum is the present load of the node at hand. -/
theorem load_high (phase : Phase args homed snap k skipped b) (topo : args.Topology)
    (enter : b.unbalanced = true) (notNic : ¬ b.AtNic args) :
    load b.vmOnNode b.highLoadNode = b.maxVmCnt := by
  have gap := phase.cached.unbalanced_iff.mp enter
  have top := phase.cached.maxVmCnt_eq
  by_cases fresh : k = 0
  · subst fresh
    rw [phase.drift.eq_of_zero, top]
  · have skipped' : skipped = true := by
      cases skipped with
      | true => rfl
      | false =>
          obtain ⟨same, two⟩ := phase.high_eq_nic fresh
          exact absurd ((atNic_iff topo).mpr ⟨same, by omega⟩) notNic
    subst skipped'
    rw [phase.drift.load_other phase.high_ne_nic (by omega), top]

/-- While the loop goes on, no load is above the cached maximum. -/
theorem load_le_maxVmCnt (phase : Phase args homed snap k skipped b)
    (enter : b.unbalanced = true) {i : Nat} (inRange : i < args.numaNumber) :
    load b.vmOnNode i ≤ b.maxVmCnt := by
  by_cases away : k ≠ 0 ∨ skipped = true
  · obtain ⟨_, minimum, few⟩ := phase.stale away
    have gap := phase.cached.unbalanced_iff.mp enter
    have bound := phase.drift.load_le few inRange
    omega
  · push Not at away
    obtain ⟨rfl, notSkipped⟩ := away
    have idx := phase.idx
    rw [if_neg notSkipped] at idx
    rw [phase.drift.eq_of_zero]
    exact phase.cached.le_maxVmCnt idx inRange

/-- The cached minimum is never above a load. -/
theorem minVmCnt_le (phase : Phase args homed snap k skipped b) {j : Nat}
    (inRange : j < args.numaNumber) : b.minVmCnt ≤ load b.vmOnNode j := by
  by_cases fresh : k = 0
  · subst fresh
    rw [phase.drift.eq_of_zero]
    exact phase.cached.minVmCnt_le inRange
  · rw [(phase.stale (.inl fresh)).2.1]
    exact Nat.zero_le _

/-- Skipping the NIC node changes only the position. -/
theorem skip {high low : Nat × Nat}
    (phase : Phase args homed snap k skipped b) (topo : args.Topology)
    (enter : b.unbalanced = true) (atNic : b.AtNic args)
    (next : b.nodeVmVec[b.maxVmIdx - 1]? = some high) (lowest : b.nodeVmVec[0]? = some low) :
    Phase args homed snap k true { b with
      flag := true, maxVmIdx := b.maxVmIdx - 1, maxVmCnt := high.2,
      highLoadNode := high.1, minVmCnt := low.2 } := by
  obtain ⟨rfl, _, _, minimum, last, few⟩ := phase.at_nic topo enter atNic
  obtain ⟨low', lowest'⟩ := phase.cached.low
  have sameLow : low.2 = b.minVmCnt := by
    rw [lowest] at lowest'
    rw [Option.some.inj lowest']
  have idx := phase.idx
  simp only [Bool.false_eq_true, if_false] at idx
  exact {
    lists_length := phase.lists_length
    perm := phase.perm
    cached := ⟨phase.cached.perm, phase.cached.sorted, next, ⟨low.1, lowest⟩⟩
    minLoad_lt := phase.minLoad_lt
    drift := phase.drift
    idx := by
      simp only [if_true, idx]
      omega
    stale := fun _ => ⟨last, sameLow.trans minimum, few⟩ }

/-- Moving a VM off the NIC node adds one move to the drift. -/
theorem leave {ls : List Int} {pos target : Nat} {vmId : Int}
    (phase : Phase args homed snap k skipped b) (topo : args.Topology)
    (enter : b.unbalanced = true) (atNic : b.AtNic args)
    (onHigh : b.vmOnNode[b.highLoadNode]? = some ls) (here : ls[pos]? = some vmId)
    (nearest : Nearest args.numaNumber b target) :
    Phase args homed snap (k + 1) false { b with
      flag := true, vmOnNode := moved b.vmOnNode b.highLoadNode pos target vmId,
      minLoadNode := target } := by
  obtain ⟨rfl, two, _, minimum, last, few⟩ := phase.at_nic topo enter atNic
  have same := ((atNic_iff topo).mp atNic).1
  have inLists : target < b.vmOnNode.length := by
    rw [phase.lists_length]
    exact nearest.1
  obtain ⟨inRange, _⟩ := List.getElem?_eq_some_iff.mp here
  have size := load_of_getElem? onHigh
  have onNic := phase.drift.load_nic two
  have taken : pos < load b.vmOnNode b.highLoadNode := by omega
  have shifted := load_moved vmId taken inLists
  rw [same] at shifted size
  obtain ⟨lowNode, lowLt, lowEmpty⟩ := phase.cached.exists_minVmCnt
  rw [minimum] at lowEmpty
  obtain ⟨targetLt, goal⟩ := nearest
  rw [minimum] at goal
  have drift : Drift args.numaNumber args.nic snap target
      (shift (load b.vmOnNode) args.nic target) (k + 1) := by
    cases phase.drift with
    | none same =>
        rw [same] at goal onNic ⊢
        rcases goal with empty | ⟨_, none⟩
        · have away : target ≠ args.nic := by
            rintro rfl
            omega
          exact .one rfl targetLt away empty
        · exact absurd lowEmpty (none lowNode lowLt)
    | one same inRange away empty =>
        rw [same] at goal ⊢
        rcases goal with free | ⟨rfl, none⟩
        · have away' : target ≠ args.nic := by
            rintro rfl
            rw [shift_source away.symm, two] at free
            omega
          have apart : b.minLoadNode ≠ target := by
            intro same'
            rw [← same', shift_target away.symm] at free
            omega
          rw [shift_other away' apart.symm] at free
          exact .two rfl inRange away empty targetLt away' free apart
        · refine .both rfl inRange away empty fun i iLt iEmpty => ?_
          by_contra ne
          have notNic : i ≠ args.nic := by
            rintro rfl
            omega
          exact none i iLt (by rw [shift_other notNic ne, iEmpty])
    | two => omega
    | both => omega
  exact {
    lists_length := by rw [length_moved, phase.lists_length]
    perm := (flatten_moved onHigh here inLists).trans phase.perm
    cached := ⟨phase.cached.perm, phase.cached.sorted, phase.cached.high, phase.cached.low⟩
    minLoad_lt := targetLt
    drift := by
      rw [same]
      exact shifted ▸ drift
    idx := phase.idx
    stale := fun _ => ⟨last, minimum, few⟩ }

/-- The loads after a levelling move have less energy than the cached ones. -/
theorem energy_level {target : Nat} (phase : Phase args homed snap k skipped b)
    (topo : args.Topology) (enter : b.unbalanced = true) (notNic : ¬ b.AtNic args)
    (nearest : Nearest args.numaNumber b target) :
    energy (nodes args.numaNumber) (shift (load b.vmOnNode) b.highLoadNode target)
      < energy (nodes args.numaNumber) snap := by
  have gap := phase.cached.unbalanced_iff.mp enter
  have onHigh := phase.load_high topo enter notNic
  have highMem : b.highLoadNode ∈ nodes args.numaNumber :=
    Finset.mem_range.mpr phase.cached.high_lt
  have targetMem : target ∈ nodes args.numaNumber := Finset.mem_range.mpr nearest.1
  obtain ⟨lowNode, lowLt, lowest⟩ := phase.cached.exists_minVmCnt
  obtain ⟨_, goal⟩ := nearest
  by_cases away : k ≠ 0 ∨ skipped = true
  · have two := phase.snap_nic away
    obtain ⟨_, minimum, few⟩ := phase.stale away
    have high := few b.highLoadNode phase.cached.high_lt
    rw [phase.cached.maxVmCnt_eq] at high
    have before := phase.drift.energy_le two topo.nic_lt
    -- the target holds nothing, or it is the one node that a single stale move filled
    have small : load b.vmOnNode target ≤ (if k = 1 then 1 else 0) := by
      rcases goal with atMin | ⟨isFallback, none⟩
      · omega
      · rw [minimum] at none lowest
        have onNic := phase.drift.load_nic two
        cases phase.drift with
        | none same => exact absurd lowest (same ▸ none lowNode lowLt)
        | one same _ notNic' empty =>
            rw [isFallback, same, shift_target notNic'.symm, empty, if_pos rfl]
        | two => exact absurd (by omega) (none args.nic topo.nic_lt)
        | both => exact absurd (by omega) (none args.nic topo.nic_lt)
    have apart : b.highLoadNode ≠ target := by
      rintro rfl
      split at small <;> omega
    have change := energy_shift apart highMem targetMem
      (show 0 < load b.vmOnNode b.highLoadNode by omega)
    split at small
    · rename_i once
      rw [if_pos once] at before
      omega
    · omega
  · have fresh : k = 0 := by
      by_contra notFresh
      exact away (.inl notFresh)
    subst fresh
    have same := phase.drift.eq_of_zero
    have onTarget : load b.vmOnNode target = b.minVmCnt := by
      rcases goal with atMin | ⟨_, none⟩
      · exact atMin
      · exact absurd lowest (same ▸ none lowNode lowLt)
    have lower := energy_shift_lt highMem targetMem
      (show load b.vmOnNode target + 2 ≤ load b.vmOnNode b.highLoadNode by omega)
    rwa [same] at lower ⊢

/-- A levelling move ends in a freshly cached state. -/
theorem level {ls : List Int} {pos target minLoadNode : Nat} {vmId : Int}
    (phase : Phase args homed snap k skipped b) (topo : args.Topology)
    (onHigh : b.vmOnNode[b.highLoadNode]? = some ls) (here : ls[pos]? = some vmId)
    (nearest : Nearest args.numaNumber b target)
    (rebuilt : Balancer.rebuild args.numaNumber ties { b with
      flag := true, vmOnNode := moved b.vmOnNode b.highLoadNode pos target vmId,
      minLoadNode := minLoadNode } = .ok b') :
    Phase args homed (load b'.vmOnNode) 0 false b' ∧
      load b'.vmOnNode = shift (load b.vmOnNode) b.highLoadNode target ∧
      b'.vmOnNode = moved b.vmOnNode b.highLoadNode pos target vmId := by
  obtain ⟨b'', rebuilt', cached, lists, _, idx, lowest, _⟩ :=
    rebuild_spec ties (Nat.zero_lt_of_lt topo.nic_lt) { b with
      flag := true, vmOnNode := moved b.vmOnNode b.highLoadNode pos target vmId,
      minLoadNode := minLoadNode }
  obtain rfl : b' = b'' := Except.ok.inj (rebuilt.symm.trans rebuilt')
  have inLists : target < b.vmOnNode.length := by
    rw [phase.lists_length]
    exact nearest.1
  obtain ⟨inRange, _⟩ := List.getElem?_eq_some_iff.mp here
  have taken : pos < load b.vmOnNode b.highLoadNode := by
    rw [load_of_getElem? onHigh]
    exact inRange
  refine ⟨?_, by rw [lists, load_moved vmId taken inLists], lists⟩
  exact {
    lists_length := by rw [lists, length_moved, phase.lists_length]
    perm := by
      rw [lists]
      exact (flatten_moved onHigh here inLists).trans phase.perm
    cached := by
      rw [lists]
      exact cached
    minLoad_lt := (cached.mem_iff.mp (List.mem_of_getElem? lowest)).1
    drift := .none rfl
    idx := idx
    stale := by simp }

/-- An iteration from a phase leads to a phase with a lower variant. -/
theorem iterate (phase : Phase args homed snap k skipped b) (topo : args.Topology)
    (enter : b.unbalanced = true) (iteration : Iteration args states ties b b') :
    ∃ snap' k' skipped', Phase args homed snap' k' skipped' b' ∧
      variant args.numaNumber snap' k' skipped' < variant args.numaNumber snap k skipped := by
  cases iteration with
  | @skip ls high low atNic onHigh none next lowest =>
      have notSkipped := (phase.at_nic topo enter atNic).1
      have two := (phase.at_nic topo enter atNic).2.1
      have onNic := phase.drift.load_nic two
      refine ⟨snap, k, true, phase.skip topo enter atNic next lowest, ?_⟩
      simp only [variant, rank, notSkipped, if_true, Bool.false_eq_true, if_false]
      omega
  | @leave ls pos target vmId atNic onHigh here state nearest =>
      have notSkipped := (phase.at_nic topo enter atNic).1
      have two := (phase.at_nic topo enter atNic).2.1
      have kept := phase.leave topo enter atNic onHigh here nearest
      have onNic := kept.drift.load_nic two
      refine ⟨snap, k + 1, false, kept, ?_⟩
      simp only [variant, rank, notSkipped, Bool.false_eq_true, if_false]
      omega
  | @level ls pos target minLoadNode vmId b' notNic onHigh here ioFirst nearest rebuilt =>
      obtain ⟨kept, shifted, _⟩ := phase.level topo onHigh here nearest rebuilt
      have lower := phase.energy_level topo enter notNic nearest
      refine ⟨_, 0, false, kept, ?_⟩
      rw [shifted]
      simp only [variant, rank, Bool.false_eq_true, if_false]
      split
      · omega
      · omega

/-- The loop body succeeds from every phase, and what it does is an iteration. -/
theorem step (phase : Phase args homed snap k skipped b) (topo : args.Topology)
    (known : Known args.vmInfosMap homed) (enter : b.unbalanced = true) :
    ∃ b', balanceStep args states ties b = .ok b' ∧ Iteration args states ties b b' := by
  refine balanceStep_iteration topo (phase.sane topo known) fun notNic => ?_
  have gap := phase.cached.unbalanced_iff.mp enter
  rw [phase.load_high topo enter notNic]
  omega

/-- A completed iteration from a phase is an `Iteration`. -/
theorem iteration (phase : Phase args homed snap k skipped b) (topo : args.Topology)
    (known : Known args.vmInfosMap homed) (enter : b.unbalanced = true)
    (stepped : balanceStep args states ties b = .ok b') : Iteration args states ties b b' := by
  obtain ⟨b'', stepped', iteration⟩ := phase.step topo known enter
  obtain rfl : b' = b'' := Except.ok.inj (stepped.symm.trans stepped')
  exact iteration

end Phase

/-- The loop is entered in a freshly cached state. -/
theorem start_spec {args : ScheduleArgs D} (ties : NodeSort) (topo : args.Topology)
    {vmOnNode : List (List Int)} (lists : vmOnNode.length = args.numaNumber) :
    ∃ b, Balancer.start args ties vmOnNode = .ok b ∧
      Phase args vmOnNode.flatten (load vmOnNode) 0 false b ∧ b.vmOnNode = vmOnNode ∧
      b.flag = false ∧ b.nodeVmVec = ties.order 0
        ((List.range args.numaNumber).map fun node => (node, load vmOnNode node)) := by
  obtain ⟨b, rebuilt, cached, same, unset, idx, lowest, vec⟩ :=
    rebuild_spec ties (Nat.zero_lt_of_lt topo.nic_lt) ⟨vmOnNode, [], 0, 0, 0, 0, 0, false, 0⟩
  refine ⟨b, rebuilt, ?_, same, unset, vec⟩
  exact {
    lists_length := by rw [same, lists]
    perm := by rw [same]
    cached := cached
    minLoad_lt := (cached.mem_iff.mp (List.mem_of_getElem? lowest)).1
    drift := .none (by rw [same])
    idx := idx
    stale := by simp }

/-- One iteration of the loop. -/
abbrev BalanceStep (args : ScheduleArgs D) (states : VmStateMap) (ties : NodeSort) :
    Balancer → Balancer → Prop :=
  LoopStep Balancer.unbalanced (balanceStep args states ties)

/-- Every state the loop reaches is in a phase. -/
theorem phase_of_path {args : ScheduleArgs D} {states : VmStateMap} {ties : NodeSort}
    {homed : List Int} {b b' : Balancer} (topo : args.Topology)
    (known : Known args.vmInfosMap homed)
    (start : ∃ snap k skipped, Phase args homed snap k skipped b)
    (path : Relation.ReflTransGen (BalanceStep args states ties) b b') :
    ∃ snap k skipped, Phase args homed snap k skipped b' := by
  have keeps : ∀ b b', (∃ snap k skipped, Phase args homed snap k skipped b) →
      b.unbalanced = true → balanceStep args states ties b = .ok b' →
      ∃ snap k skipped, Phase args homed snap k skipped b' := by
    rintro b b' ⟨snap, k, skipped, phase⟩ enter stepped
    obtain ⟨snap', k', skipped', kept, _⟩ :=
      phase.iterate topo enter (phase.iteration topo known enter stepped)
    exact ⟨snap', k', skipped', kept⟩
  exact loopStep_invariant keeps start path

/-- The balancing loop exits within its fuel and without a fault, whatever the lists are. -/
theorem balance_loop {args : ScheduleArgs D} (states : VmStateMap) (ties : NodeSort)
    (topo : args.Topology) {vmOnNode : List (List Int)}
    (lists : vmOnNode.length = args.numaNumber) (known : Known args.vmInfosMap vmOnNode.flatten) :
    ∃ b b', Balancer.start args ties vmOnNode = .ok b ∧
      whileFuel Balancer.unbalanced (balanceStep args states ties) (balanceFuel vmOnNode) b
        = some (.ok b') := by
  obtain ⟨b, started, phase, _⟩ := start_spec ties topo lists
  have bound : variant args.numaNumber (load vmOnNode) 0 false ≤ balanceFuel vmOnNode := by
    have potential := energy_le_total_sq (s := nodes args.numaNumber) (load vmOnNode)
    rw [← lists, total_load, lists] at potential
    simp only [variant, rank, balanceFuel, Bool.false_eq_true, if_false]
    omega
  have progress : ∀ m b, (∃ snap k skipped, m = variant args.numaNumber snap k skipped ∧
      Phase args vmOnNode.flatten snap k skipped b) → b.unbalanced = true →
      ∃ b', balanceStep args states ties b = .ok b' ∧
        ∃ m' < m, ∃ snap k skipped, m' = variant args.numaNumber snap k skipped ∧
          Phase args vmOnNode.flatten snap k skipped b' := by
    rintro m b ⟨snap, k, skipped, rfl, phase⟩ enter
    obtain ⟨b', stepped, iteration⟩ := phase.step topo known enter
    obtain ⟨snap', k', skipped', kept, lower⟩ := phase.iterate topo enter iteration
    exact ⟨b', stepped, _, lower, snap', k', skipped', rfl, kept⟩
  obtain ⟨b', looped, _⟩ := whileFuel_total progress (balanceFuel vmOnNode) _ b
    ⟨_, _, _, rfl, phase⟩ bound
  exact ⟨b, b', started, looped⟩

/-- `balance` succeeds, in a state that its iterations reach and in which the loop exits. -/
theorem balance_total {args : ScheduleArgs D} (states : VmStateMap) (ties : NodeSort)
    (topo : args.Topology) {vmOnNode : List (List Int)}
    (lists : vmOnNode.length = args.numaNumber) (known : Known args.vmInfosMap vmOnNode.flatten) :
    ∃ b b', Balancer.start args ties vmOnNode = .ok b ∧
      balance args states ties vmOnNode = .ok b' ∧
      Relation.ReflTransGen (BalanceStep args states ties) b b' ∧ b'.unbalanced = false := by
  obtain ⟨b, b', started, looped⟩ := balance_loop states ties topo lists known
  obtain ⟨path, done⟩ := whileFuel_path looped
  refine ⟨b, b', started, ?_, path, done⟩
  simp [balance, started, looped, bind, Except.bind]

end VNams.Strategy
