import VNams.Strategy.Exactness

/-!
The balancing loop exits, and what it reads is there.

Both are read off `Phase`: its variant falls with every iteration, the moves on stale
counts and the ones that only skip the NIC node included, and its drift bounds how far the
lists are from the cached counts, so a node that the general branch takes a VM from has
one.
-/

namespace VNams.Strategy

open Lib

variable {D : Type}

/-! ### Termination -/

/-- From its start the loop makes finitely many iterations: one exit state is reached
whatever fuel above `balanceFuel` it is given, and no endless run of iterations starts
there. -/
theorem balancing_terminates (args : ScheduleArgs D) (states : VmStateMap) (ties : NodeSort)
    (vmOnNode : List (List Int)) (topo : args.Topology)
    (lists : vmOnNode.length = args.numaNumber) (known : Known args.vmInfosMap vmOnNode.flatten) :
    ∃ b b', Balancer.start args ties vmOnNode = .ok b ∧ b'.unbalanced = false ∧
      (∀ fuel, balanceFuel vmOnNode ≤ fuel →
        whileFuel Balancer.unbalanced (balanceStep args states ties) fuel b = some (.ok b')) ∧
      ∀ run : Nat → Balancer, run 0 = b →
        ¬ ∀ i, BalanceStep args states ties (run i) (run (i + 1)) := by
  obtain ⟨b, b', started, looped⟩ := balance_loop states ties topo lists known
  have done := (whileFuel_path looped).2
  exact ⟨b, b', started, done, fun fuel le => whileFuel_mono le looped, whileFuel_finite looped⟩

/-- Two VMs that are not IO intensive, both on the NIC node of a machine with two nodes. -/
def pairOnNic : ScheduleArgs ℚ :=
  twoNodeArgs [steadyVm 1 0 0 0 50, steadyVm 2 0 0 0 50] [60, 60, 60]

theorem pairOnNic_known : Known pairOnNic.vmInfosMap [[1, 2], []].flatten := by
  intro id mem
  have cases : id = 1 ∨ id = 2 := by simpa using mem
  rcases cases with rfl | rfl
  · exact ⟨steadyVm 1 0 0 0 50, by decide +kernel, rfl⟩
  · exact ⟨steadyVm 2 0 0 0 50, by decide +kernel, rfl⟩

/-- The states of two VMs that are not IO intensive. -/
def bothOther : VmStateMap := ((∅ : VmStateMap).insert 1 .otherStat).insert 2 .otherStat

theorem balancing_terminates_pairOnNic :
    ∃ b b', Balancer.start pairOnNic (UnstableSort.byRank id) [[1, 2], []] = .ok b ∧
      b'.unbalanced = false ∧
      (∀ fuel, balanceFuel [[1, 2], []] ≤ fuel →
        whileFuel Balancer.unbalanced (balanceStep pairOnNic bothOther (UnstableSort.byRank id))
          fuel b = some (.ok b')) ∧
      ∀ run : Nat → Balancer, run 0 = b →
        ¬ ∀ i, BalanceStep pairOnNic bothOther (UnstableSort.byRank id) (run i) (run (i + 1)) :=
  balancing_terminates pairOnNic bothOther _ _ (twoNodeArgs_topology _ _) rfl pairOnNic_known

/-! ### No empty list -/

/-- What the loop body, its test and the adjustment after it rely on. -/
structure Balancer.Safe (args : ScheduleArgs D) (states : VmStateMap) (b : Balancer) : Prop where
  min_le_max : b.minVmCnt ≤ b.maxVmCnt
  /-- the unsigned difference of the loop test is the true one -/
  gap : (unsignedSub b.maxVmCnt b.minVmCnt : Int) = (b.maxVmCnt : Int) - b.minVmCnt
  idx_lt : b.maxVmIdx < b.nodeVmVec.length
  /-- a search over the list at hand ends at a VM of that list -/
  points : ∀ wanted, ∃ ls found, b.vmOnNode[b.highLoadNode]? = some ls ∧
    searchVm args.vmInfosMap states wanted ls = .ok found ∧
    ∀ pos id, vmIdFound found = some (pos, id) → ls[pos]? = some id
  /-- the general branch finds a first VM -/
  front : b.unbalanced = true → ¬ b.AtNic args →
    ∃ id rest, b.vmOnNode[b.highLoadNode]? = some (id :: rest)
  /-- so does the adjustment -/
  single : b.flag = false → b.maxVmCnt = 1 →
    ∃ id rest, b.vmOnNode[b.highLoadNode]? = some (id :: rest)

/-- A node with a VM has a first one. -/
theorem Balancer.Sane.front {args : ScheduleArgs D} {b : Balancer} (sane : b.Sane args)
    (loaded : 0 < load b.vmOnNode b.highLoadNode) :
    ∃ id rest, b.vmOnNode[b.highLoadNode]? = some (id :: rest) := by
  obtain ⟨ls, onHigh, _⟩ := sane.list
  rw [load_of_getElem? onHigh] at loaded
  obtain ⟨id, rest, rfl⟩ := List.exists_cons_of_length_pos loaded
  exact ⟨id, rest, onHigh⟩

/-- In every state the loop reaches, the difference of the counts is the true one, the index
is valid, and the lists that are dereferenced have the element that is taken; the next
iteration, if there is one, and the adjustment succeed. -/
theorem balancing_safe (args : ScheduleArgs D) (states : VmStateMap) (ties : NodeSort)
    (vmOnNode : List (List Int)) (topo : args.Topology)
    (lists : vmOnNode.length = args.numaNumber) (known : Known args.vmInfosMap vmOnNode.flatten) :
    ∃ b, Balancer.start args ties vmOnNode = .ok b ∧
      ∀ b', Relation.ReflTransGen (BalanceStep args states ties) b b' →
        b'.Safe args states ∧
        (b'.unbalanced = true → ∃ b'', balanceStep args states ties b' = .ok b'') ∧
        ∃ final, adjustNetdev args states b' = .ok final := by
  obtain ⟨b, started, phase₀, sameLists, _⟩ := start_spec ties topo lists
  refine ⟨b, started, fun b' path => ?_⟩
  obtain ⟨snap, k, skipped, phase⟩ := phase_of_path topo known ⟨_, _, _, phase₀⟩ path
  have sane := phase.sane topo known
  have ordered := phase.cached.minVmCnt_le_maxVmCnt
  obtain ⟨_, _, final, adjusts, _⟩ := adjust_of_path topo lists known started path
  refine ⟨?_, fun enter => ?_, final, adjusts⟩
  · exact {
      min_le_max := ordered
      gap := by
        rw [unsignedSub_of_le ordered]
        omega
      idx_lt := sane.idx_lt
      points := fun wanted => by
        obtain ⟨ls, onHigh, listed⟩ := sane.list
        obtain ⟨found, searched, _, position⟩ := vmIdFound_searchVm states wanted listed
        exact ⟨ls, found, onHigh, searched, fun pos id here => (position pos id here).1⟩
      front := fun enter notNic => by
        have gap := phase.cached.unbalanced_iff.mp enter
        have high := phase.load_high topo enter notNic
        exact sane.front (by omega)
      single := fun lowered one => by
        -- the flag is still down, so this is the state the loop was entered in
        obtain rfl := eq_of_flag topo known ⟨_, _, _, phase₀⟩ path lowered
        have high := phase₀.cached.maxVmCnt_eq
        rw [← sameLists] at high
        exact sane.front (by omega) }
  · have next : ∃ b'', balanceStep args states ties b' = .ok b'' ∧
        Iteration args states ties b' b'' := phase.step topo known enter
    obtain ⟨b'', stepped, _⟩ := next
    exact ⟨b'', stepped⟩

theorem balancing_safe_pairOnNic :
    ∃ b, Balancer.start pairOnNic (UnstableSort.byRank id) [[1, 2], []] = .ok b ∧
      ∀ b', Relation.ReflTransGen (BalanceStep pairOnNic bothOther (UnstableSort.byRank id)) b b' →
        b'.Safe pairOnNic bothOther ∧
        (b'.unbalanced = true →
          ∃ b'', balanceStep pairOnNic bothOther (UnstableSort.byRank id) b' = .ok b'') ∧
        ∃ final, adjustNetdev pairOnNic bothOther b' = .ok final :=
  balancing_safe pairOnNic bothOther _ _ (twoNodeArgs_topology _ _) rfl pairOnNic_known

end VNams.Strategy
