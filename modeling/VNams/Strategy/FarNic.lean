import VNams.Strategy.Analyze
import VNams.Strategy.Safety

/-!
The loop when `netdev_numanode` is no node.

The kernel reports -1 for a device without a node, and nothing checks the number. The NIC
branch is then dead and every iteration levels; the first one that finds an IO intensive VM to
move looks at the list of the NIC, and so does the adjustment after a loop that was never
entered (`ConsultsNic`).

Which of the fullest nodes an iteration takes is left to `std::sort`. `Descent` says what all
orders have in common: a node gives its VMs away from the front of its list, and what it
receives has no IO intensive VM that the search could find. So the list of a node is looked at
with `c` of its own VMs left in some order exactly when the loads at the start `SinksTo` `c`,
and whether some order of the ties faults (`consultsNic_iff`) is read off the lists at the
start.
-/

namespace VNams.Strategy

open Lib

variable {D : Type}

/-- The NIC is on a node. -/
def ScheduleArgs.NicOnNode (args : ScheduleArgs D) : Prop :=
  0 ≤ args.netdevNumanode ∧ args.netdevNumanode < args.numaNumber

/-- The search for an IO intensive VM through the list finds one: the first that it meets is
not the one whose id reads as "none". -/
def ShowsIo (states : VmStateMap) (ls : List Int) : Prop :=
  ∃ id, ls.find? (fun id => states.read id = .ioStat) = some id ∧ id ≠ -1

/-- The search on the node at hand finds one. -/
def Balancer.FindsIo (states : VmStateMap) (b : Balancer) : Prop :=
  ∃ ls, b.vmOnNode[b.highLoadNode]? = some ls ∧ ShowsIo states ls

theorem ShowsIo.ne_nil {states : VmStateMap} {ls : List Int} (shows : ShowsIo states ls) :
    ls ≠ [] := by
  rintro rfl
  obtain ⟨id, found, _⟩ := shows
  simp at found

/-- The search reports the first IO intensive VM. -/
theorem searchVm_find {vms : VmMap D} (states : VmStateMap) (wanted : VmState) {ls : List Int}
    (known : Known vms ls) :
    ∃ found, searchVm vms states wanted ls = .ok found ∧
      found.map Prod.snd = ls.find? fun id => states.read id = wanted := by
  induction ls with
  | nil => exact ⟨none, rfl, rfl⟩
  | cons first rest ih =>
      obtain ⟨vm, present, sameId⟩ := known first List.mem_cons_self
      by_cases here : states.read first = wanted
      · exact ⟨some (0, first), by simp [searchVm, present, sameId, here], by simp [here]⟩
      · obtain ⟨found, searched, same⟩ := ih fun id mem => known id (List.mem_cons_of_mem _ mem)
        refine ⟨found.map fun p => (p.1 + 1, p.2), ?_, ?_⟩
        · simp [searchVm, present, sameId, here, searched, bind, Except.bind]
        · simp [here, ← same, Function.comp_def]

/-- What the search leaves in `vm_id`. -/
theorem vmIdFound_find {vms : VmMap D} (states : VmStateMap) {ls : List Int}
    (known : Known vms ls) :
    ∃ found, searchVm vms states .ioStat ls = .ok found ∧
      (ShowsIo states ls → ∃ p, vmIdFound found = some p) ∧
      (¬ ShowsIo states ls → vmIdFound found = none) := by
  obtain ⟨found, searched, same⟩ := searchVm_find states .ioStat known
  refine ⟨found, searched, ?_, ?_⟩
  · rintro ⟨id, first, real⟩
    rw [first] at same
    obtain ⟨p, rfl, rfl⟩ := Option.map_eq_some_iff.mp same
    exact ⟨p, Option.filter_eq_some_iff.mpr ⟨rfl, by simpa using real⟩⟩
  · intro hides
    cases found with
    | none => rfl
    | some p =>
        refine Option.filter_eq_none_iff.mpr fun q isP => ?_
        cases isP
        intro real
        exact hides ⟨p.2, same.symm, by simpa using real⟩

/-! ### One iteration -/

section Iterations

variable {args : ScheduleArgs D} {states : VmStateMap} {ties : NodeSort} {homed : List Int}
  {b b' : Balancer}

theorem vecAtInt_far {α : Type} (far : ¬ args.NicOnNode) {v : List α}
    (size : v.length = args.numaNumber) :
    vecAtInt v args.netdevNumanode = .error .indexOutOfRange := by
  unfold vecAtInt
  split
  · rename_i nonneg
    have beyond : v.length ≤ args.netdevNumanode.toNat := by
      by_contra inRange
      exact far ⟨nonneg, by omega⟩
    rw [vecAt, List.getElem?_eq_none beyond]
  · rfl

theorem high_ne_of_far (far : ¬ args.NicOnNode) (inRange : b.highLoadNode < args.numaNumber) :
    args.netdevNumanode ≠ (b.highLoadNode : Int) := by
  intro same
  refine far ⟨?_, ?_⟩
  · rw [same]
    exact Int.natCast_nonneg _
  · rw [same]
    exact Int.ofNat_lt.mpr inRange

/-- A state of the loop whose cached counts are the present ones. -/
structure Fresh (args : ScheduleArgs D) (ties : NodeSort) (homed : List Int) (b : Balancer) :
    Prop where
  lists_length : b.vmOnNode.length = args.numaNumber
  perm : b.vmOnNode.flatten.Perm homed
  cached : Cached args.numaNumber (load b.vmOnNode) b
  minLoad_lt : b.minLoadNode < args.numaNumber
  last : b.maxVmIdx = args.numaNumber - 1
  ordered : ∃ sorts, b.nodeVmVec = ties.order sorts
    ((List.range args.numaNumber).map fun node => (node, load b.vmOnNode node))

namespace Fresh

theorem sane (fresh : Fresh args ties homed b) (known : Known args.vmInfosMap homed) :
    b.Sane args where
  lists_length := fresh.lists_length
  high_lt := fresh.cached.high_lt
  minLoad_lt := fresh.minLoad_lt
  idx_lt := (List.getElem?_eq_some_iff.mp fresh.cached.high).1
  known := fun id mem => known id (fresh.perm.mem_iff.mp mem)

/-- The node at hand is a fullest one. -/
theorem top (fresh : Fresh args ties homed b) :
    ∀ i ∈ nodes args.numaNumber, load b.vmOnNode i ≤ load b.vmOnNode b.highLoadNode := by
  intro i mem
  rw [fresh.cached.maxVmCnt_eq]
  exact fresh.cached.le_maxVmCnt fresh.last (Finset.mem_range.mp mem)

end Fresh

/-- Rebuilding makes a fresh state. -/
theorem fresh_of_rebuild (ties : NodeSort) (b : Balancer)
    (lists : b.vmOnNode.length = args.numaNumber) (perm : b.vmOnNode.flatten.Perm homed)
    (nonempty : 0 < args.numaNumber) :
    ∃ b', b.rebuild args.numaNumber ties = .ok b' ∧ Fresh args ties homed b' ∧
      b'.vmOnNode = b.vmOnNode ∧ b'.flag = b.flag := by
  obtain ⟨b', rebuilt, cached, same, flag, last, lowest, ordered⟩ := rebuild_spec ties nonempty b
  rw [← same] at lists perm cached ordered
  exact ⟨b', rebuilt, ⟨lists, perm, cached, (cached.mem_iff.mp (List.mem_of_getElem? lowest)).1,
    last, b.sorts, ordered⟩, same, flag⟩

theorem not_atNic_of_far (far : ¬ args.NicOnNode) (inRange : b.highLoadNode < args.numaNumber) :
    ¬ b.AtNic args :=
  fun atNic => high_ne_of_far far inRange atNic.1.symm

/-- Finding an IO intensive VM, an iteration looks at the NIC's list, and faults. -/
theorem balanceStep_far_faults (far : ¬ args.NicOnNode) (known : Known args.vmInfosMap homed)
    (fresh : Fresh args ties homed b) (finds : b.FindsIo states) :
    balanceStep args states ties b = .error .indexOutOfRange := by
  have notNic := not_atNic_of_far far fresh.cached.high_lt
  have away := high_ne_of_far far fresh.cached.high_lt
  obtain ⟨ls, onHigh, shows⟩ := finds
  obtain ⟨ls', onHigh', knownHere⟩ := (fresh.sane known).list
  cases onHigh.symm.trans onHigh'
  obtain ⟨found, searched, some', _⟩ := vmIdFound_find states knownHere
  obtain ⟨p, decided⟩ := some' shows
  have taken : balanceStep args states ties b
      = (balanceMove args states { b with flag := true } >>= fun b =>
          b.rebuild args.numaNumber ties) := if_neg notNic
  rw [taken]
  simp [balanceMove, vecAt_eq_ok.mpr onHigh, searched, decided, away,
    vecAtInt_far far fresh.lists_length, bind, Except.bind]

/-- An iteration without a NIC node: the first VM of the fullest node goes to a least loaded
one. -/
structure Descends (args : ScheduleArgs D) (states : VmStateMap) (ties : NodeSort)
    (homed : List Int) (b b' : Balancer) (rest : List Int) (target : Nat) (vmId : Int) :
    Prop where
  fresh : Fresh args ties homed b'
  flag : b'.flag = true
  onHigh : b.vmOnNode[b.highLoadNode]? = some (vmId :: rest)
  hidden : states.read vmId = .ioStat → vmId = -1
  target_lt : target < args.numaNumber
  atMin : load b.vmOnNode target = b.minVmCnt
  gap : load b.vmOnNode target + 2 ≤ load b.vmOnNode b.highLoadNode
  lists : b'.vmOnNode = moved b.vmOnNode b.highLoadNode 0 target vmId
  shifted : load b'.vmOnNode = shift (load b.vmOnNode) b.highLoadNode target

/-- Finding none, an iteration descends. -/
theorem balanceStep_far (lats : args.Latencies) (far : ¬ args.NicOnNode)
    (known : Known args.vmInfosMap homed) (fresh : Fresh args ties homed b)
    (enter : b.unbalanced = true) (finds : ¬ b.FindsIo states) :
    ∃ b' rest target vmId, balanceStep args states ties b = .ok b' ∧
      Descends args states ties homed b b' rest target vmId := by
  have gap := fresh.cached.unbalanced_iff.mp enter
  have top := fresh.cached.maxVmCnt_eq
  have sane := fresh.sane known
  have sane' : Balancer.Sane args { b with flag := true } :=
    ⟨sane.lists_length, sane.high_lt, sane.minLoad_lt, sane.idx_lt, sane.known⟩
  have taken : balanceStep args states ties b
      = (balanceMove args states { b with flag := true } >>= fun b =>
          b.rebuild args.numaNumber ties) := if_neg (not_atNic_of_far far sane.high_lt)
  obtain ⟨ls, onHigh, knownHere⟩ := sane.list
  have size := load_of_getElem? onHigh
  obtain ⟨found, searched, _, none'⟩ := vmIdFound_find states knownHere
  have hides : ¬ ShowsIo states ls := fun shows => finds ⟨ls, onHigh, shows⟩
  cases ls with
  | nil =>
      rw [top] at size
      have empty : b.maxVmCnt = 0 := size
      omega
  | cons vmId rest =>
      obtain ⟨target, nearby, moves⟩ := moveNearest_nearby lats sane' 0 vmId
      obtain ⟨targetLt, goal⟩ := nearby.nearest lats sane'
      have atMin : load b.vmOnNode target = b.minVmCnt := by
        rcases goal with atMin | ⟨_, nowhere⟩
        · exact atMin
        · obtain ⟨node, nodeLt, lowest⟩ := fresh.cached.exists_minVmCnt
          exact absurd lowest (nowhere node nodeLt)
      have targetLt' : target < b.vmOnNode.length := by
        rw [fresh.lists_length]
        exact targetLt
      have shifted := load_moved vmId (show 0 < load b.vmOnNode b.highLoadNode by omega) targetLt'
      obtain ⟨b', rebuilt, fresh', same, flag⟩ := fresh_of_rebuild ties { b with
          flag := true, vmOnNode := moved b.vmOnNode b.highLoadNode 0 target vmId,
          minLoadNode := target }
        (by rw [length_moved, fresh.lists_length])
        ((flatten_moved onHigh rfl targetLt').trans fresh.perm) (Nat.zero_lt_of_lt targetLt)
      refine ⟨b', rest, target, vmId, ?_, {
        fresh := fresh'
        flag := flag
        onHigh := onHigh
        hidden := ?_
        target_lt := targetLt
        atMin := atMin
        gap := by omega
        lists := same
        shifted := by rw [same, shifted] }⟩
      · rw [taken]
        simp only [balanceMove, vecAt_eq_ok.mpr onHigh, searched, none' hides, bind, Except.bind]
        rw [moves]
        exact rebuilt
      · intro isIo
        by_contra real
        exact hides ⟨vmId, by simp [isIo], real⟩

/-- The target is an emptiest node. -/
theorem Descends.bottom {rest : List Int} {target : Nat} {vmId : Int}
    (fresh : Fresh args ties homed b)
    (descends : Descends args states ties homed b b' rest target vmId) :
    ∀ i ∈ nodes args.numaNumber, load b.vmOnNode target ≤ load b.vmOnNode i := by
  intro i mem
  rw [descends.atMin]
  exact fresh.cached.minVmCnt_le (Finset.mem_range.mp mem)

theorem Descends.energy_lt {rest : List Int} {target : Nat} {vmId : Int}
    (fresh : Fresh args ties homed b)
    (descends : Descends args states ties homed b b' rest target vmId) :
    energy (nodes args.numaNumber) (load b'.vmOnNode)
      < energy (nodes args.numaNumber) (load b.vmOnNode) := by
  rw [descends.shifted]
  exact energy_shift_lt (Finset.mem_range.mpr fresh.cached.high_lt)
    (Finset.mem_range.mpr descends.target_lt) descends.gap

/-- A completed iteration found none, and raised the flag. -/
theorem flag_of_path (lats : args.Latencies) (far : ¬ args.NicOnNode)
    (known : Known args.vmInfosMap homed) (fresh : Fresh args ties homed b)
    (path : Relation.ReflTransGen (BalanceStep args states ties) b b') :
    b' = b ∨ b'.flag = true := by
  have keeps : ∀ mid mid', Fresh args ties homed mid ∧ (mid = b ∨ mid.flag = true) →
      mid.unbalanced = true → balanceStep args states ties mid = .ok mid' →
      Fresh args ties homed mid' ∧ (mid' = b ∨ mid'.flag = true) := by
    rintro mid mid' ⟨fresh, _⟩ enter stepped
    by_cases finds : mid.FindsIo states
    · rw [balanceStep_far_faults far known fresh finds] at stepped
      cases stepped
    · obtain ⟨mid'', _, _, _, stepped', descends⟩ := balanceStep_far lats far known fresh enter finds
      cases stepped.symm.trans stepped'
      exact ⟨descends.fresh, .inr descends.flag⟩
  exact (loopStep_invariant keeps ⟨fresh, .inl rfl⟩ path).2

/-- The loop looks at the list of the NIC from `b` on: an iteration finds an IO intensive
VM, or the loop was not entered and the fullest node holds one VM. -/
def ConsultsNic (args : ScheduleArgs D) (states : VmStateMap) (ties : NodeSort)
    (b : Balancer) : Prop :=
  ∃ b', Relation.ReflTransGen (BalanceStep args states ties) b b' ∧
    ((b'.unbalanced = true ∧ b'.FindsIo states) ∨
      (b'.unbalanced = false ∧ b'.flag = false ∧ b'.maxVmCnt = 1))

/-- The state in which the loop is entered. -/
theorem start_far (ties : NodeSort) {vmOnNode : List (List Int)}
    (lists : vmOnNode.length = args.numaNumber) (nonempty : 0 < args.numaNumber) :
    ∃ b, Balancer.start args ties vmOnNode = .ok b ∧ Fresh args ties vmOnNode.flatten b ∧
      b.vmOnNode = vmOnNode ∧ b.flag = false :=
  fresh_of_rebuild ties ⟨vmOnNode, [], 0, 0, 0, 0, 0, false, 0⟩ lists
    (List.Perm.refl vmOnNode.flatten) nonempty

/-- The loop and the final adjustment: they fault if they look at the list of the NIC, and
succeed otherwise. -/
theorem balance_far (states : VmStateMap) (lats : args.Latencies) (far : ¬ args.NicOnNode)
    {vmOnNode : List (List Int)} (known : Known args.vmInfosMap vmOnNode.flatten)
    (started : Balancer.start args ties vmOnNode = .ok b)
    (fresh : Fresh args ties vmOnNode.flatten b) (same : b.vmOnNode = vmOnNode) :
    (ConsultsNic args states ties b ∧
      (balance args states ties vmOnNode >>= adjustNetdev args states)
        = .error .indexOutOfRange) ∨
    (¬ ConsultsNic args states ties b ∧ ∃ final,
      (balance args states ties vmOnNode >>= adjustNetdev args states) = .ok final) := by
  have bound : energy (nodes args.numaNumber) (load b.vmOnNode) < balanceFuel vmOnNode := by
    have potential := energy_le_total_sq (s := nodes b.vmOnNode.length) (load b.vmOnNode)
    rw [total_load, fresh.lists_length] at potential
    simp only [balanceFuel, ← same]
    omega
  have faults : ∀ m b, (Fresh args ties vmOnNode.flatten b ∧
      m = energy (nodes args.numaNumber) (load b.vmOnNode)) → b.unbalanced = true →
      b.FindsIo states → balanceStep args states ties b = .error .indexOutOfRange :=
    fun m b kept _ finds => balanceStep_far_faults far known kept.1 finds
  have progress : ∀ m b, (Fresh args ties vmOnNode.flatten b ∧
      m = energy (nodes args.numaNumber) (load b.vmOnNode)) → b.unbalanced = true →
      ¬ b.FindsIo states → ∃ b', balanceStep args states ties b = .ok b' ∧
        ∃ m' < m, Fresh args ties vmOnNode.flatten b' ∧
          m' = energy (nodes args.numaNumber) (load b'.vmOnNode) := by
    rintro m b ⟨fresh, rfl⟩ enter finds
    obtain ⟨b', _, _, _, stepped, descends⟩ := balanceStep_far lats far known fresh enter finds
    exact ⟨b', stepped, _, descends.energy_lt fresh, descends.fresh, rfl⟩
  have ends := whileFuel_cases faults progress (balanceFuel vmOnNode) _ b ⟨fresh, rfl⟩ bound
  have unfolded : ∀ r, whileFuel Balancer.unbalanced (balanceStep args states ties)
      (balanceFuel vmOnNode) b = some r → balance args states ties vmOnNode = r := by
    intro r looped
    simp [balance, started, looped, bind, Except.bind]
  rcases ends with ⟨faulted, b', path, enter, finds⟩ | ⟨b', exited, ⟨_, fresh', _⟩, done, never⟩
  · refine .inl ⟨⟨b', path, .inl ⟨enter, finds⟩⟩, ?_⟩
    rw [unfolded _ faulted]
    rfl
  · rw [unfolded _ exited]
    have path := (whileFuel_path exited).1
    by_cases free : b'.flag = false ∧ b'.maxVmCnt = 1
    · refine .inl ⟨⟨b', path, .inr ⟨done, free⟩⟩, ?_⟩
      simp [bind, Except.bind, adjustNetdev, free, vecAtInt_far far fresh'.lists_length]
    · refine .inr ⟨?_, b'.vmOnNode, by simp [bind, Except.bind, adjustNetdev, free]⟩
      rintro ⟨b'', path'', ⟨enter, finds⟩ | ⟨done'', free''⟩⟩
      · exact never b'' path'' enter finds
      · rw [exit_unique path done path'' done''] at free''
        exact free free''

end Iterations

/-! ### Every order of the ties -/

/-- The list of every node against `home`, the one it started with: `left` of its VMs were given
away from the front, and `came` followed. -/
structure Descent (n : Nat) (states : VmStateMap) (home : Nat → List Int) (left : Nat → Nat)
    (came : Nat → List Int) (vmOnNode : List (List Int)) : Prop where
  lists : ∀ i < n, vmOnNode[i]? = some ((home i).drop (left i) ++ came i)
  left_le : ∀ i < n, left i ≤ (home i).length
  hidden : ∀ i < n, ∀ id ∈ came i, states.read id = .ioStat → id = -1
  sides : OneSided (nodes n) (load vmOnNode) (fun i => left i ≠ 0) (fun i => came i ≠ [])

section Orders

variable {args : ScheduleArgs D} {states : VmStateMap} {ties : NodeSort} {homed : List Int}
  {home : Nat → List Int} {left : Nat → Nat} {came : Nat → List Int} {b b' : Balancer}
  {rest : List Int} {target : Nat} {vmId : Int}

theorem Descent.load_eq {n : Nat} {vmOnNode : List (List Int)}
    (descent : Descent n states home left came vmOnNode) {i : Nat} (inRange : i < n) :
    load vmOnNode i + left i = (home i).length + (came i).length := by
  have few := descent.left_le i inRange
  rw [load_of_getElem? (descent.lists i inRange), List.length_append, List.length_drop]
  omega

/-- A node that gives a VM away has only its own. -/
theorem Descent.own (descent : Descent args.numaNumber states home left came b.vmOnNode)
    (fresh : Fresh args ties homed b) (enter : b.unbalanced = true) :
    came b.highLoadNode = [] := by
  have gap := fresh.cached.unbalanced_iff.mp enter
  obtain ⟨node, nodeLt, lowest⟩ := fresh.cached.exists_minVmCnt
  have top := fresh.cached.maxVmCnt_eq
  by_contra received
  exact descent.sides.not_received (Finset.mem_range.mpr fresh.cached.high_lt)
    (Finset.mem_range.mpr nodeLt) (by omega) received

/-- An iteration takes one VM off the front of its node's list, and appends it to the
target's. -/
theorem Descent.step (descent : Descent args.numaNumber states home left came b.vmOnNode)
    (fresh : Fresh args ties homed b) (enter : b.unbalanced = true)
    (descends : Descends args states ties homed b b' rest target vmId) :
    Descent args.numaNumber states home
      (Function.update left b.highLoadNode (left b.highLoadNode + 1))
      (Function.update came target (came target ++ [vmId])) b'.vmOnNode := by
  have own := descent.own fresh enter
  have highLt := fresh.cached.high_lt
  have onHigh := descends.onHigh
  rw [descent.lists _ highLt, own, List.append_nil, Option.some.injEq] at onHigh
  have behind : (home b.highLoadNode).drop (left b.highLoadNode + 1) = rest := by
    rw [← List.tail_drop, onHigh, List.tail_cons]
  have fewer : left b.highLoadNode < (home b.highLoadNode).length := by
    have size := congrArg List.length onHigh
    rw [List.length_drop, List.length_cons] at size
    omega
  have apart : b.highLoadNode ≠ target := by
    intro same
    have gap := descends.gap
    rw [← same] at gap
    omega
  constructor
  · intro i inRange
    rw [descends.lists, getElem?_moved, descent.lists i inRange, Option.map_some]
    by_cases isHigh : i = b.highLoadNode
    · subst isHigh
      simp [apart, apart.symm, own, onHigh, behind]
    · by_cases isTarget : i = target
      · subst isTarget
        simp [apart, isHigh, Function.update_of_ne]
      · simp [Ne.symm isHigh, Ne.symm isTarget, isHigh, isTarget]
  · intro i inRange
    by_cases isHigh : i = b.highLoadNode
    · subst isHigh
      rw [Function.update_self]
      exact fewer
    · rw [Function.update_of_ne isHigh]
      exact descent.left_le i inRange
  · intro i inRange id mem
    by_cases isTarget : i = target
    · subst isTarget
      rw [Function.update_self, List.mem_append, List.mem_singleton] at mem
      rcases mem with earlier | rfl
      · exact descent.hidden i inRange id earlier
      · exact descends.hidden
    · rw [Function.update_of_ne isTarget] at mem
      exact descent.hidden i inRange id mem
  · have kept := descent.sides.shift (Finset.mem_range.mpr highLt)
      (Finset.mem_range.mpr descends.target_lt) fresh.top (descends.bottom fresh) descends.gap
    rw [descends.shifted]
    refine kept.mono (fun i gave => ?_) fun i received => ?_
    · by_cases isHigh : i = b.highLoadNode
      · exact .inr isHigh
      · rw [Function.update_of_ne isHigh] at gave
        exact .inl gave
    · by_cases isTarget : i = target
      · exact .inr isTarget
      · rw [Function.update_of_ne isTarget] at received
        exact .inl received

/-- No list at the start lets the search find an IO intensive VM as soon as levelling comes
down to it. -/
def Unseen (n : Nat) (states : VmStateMap) (home : Nat → List Int) (loads : Nat → Nat) : Prop :=
  ∀ i < n, ∀ k, ShowsIo states ((home i).drop k) →
    ¬ SinksTo (nodes n) loads ((home i).length - k)

/-- Then a fullest node holds more than the VMs among which the search would find one. -/
theorem Unseen.beyond {n : Nat} {loads : Nat → Nat} (unseen : Unseen n states home loads)
    {a low : Nat} (lowLt : low < n) (top : ∀ i ∈ nodes n, loads i ≤ loads a)
    (gap : loads low + 2 ≤ loads a) {i k : Nat} (inRange : i < n)
    (shows : ShowsIo states ((home i).drop k)) : (home i).length - k < loads a := by
  by_contra le
  exact unseen i inRange k shows
    (sinksTo_of_le (Finset.mem_range.mpr lowLt) top gap (Nat.le_of_not_lt le))

/-- The fullest node shows no IO intensive VM. -/
theorem Unseen.not_finds (unseen : Unseen args.numaNumber states home (load b.vmOnNode))
    (descent : Descent args.numaNumber states home left came b.vmOnNode)
    (fresh : Fresh args ties homed b) (enter : b.unbalanced = true) : ¬ b.FindsIo states := by
  rintro ⟨ls, onHigh, shows⟩
  have own := descent.own fresh enter
  have highLt := fresh.cached.high_lt
  have size := descent.load_eq highLt
  have top := fresh.cached.maxVmCnt_eq
  have gap := fresh.cached.unbalanced_iff.mp enter
  obtain ⟨node, nodeLt, lowest⟩ := fresh.cached.exists_minVmCnt
  rw [descent.lists _ highLt, own, List.append_nil, Option.some.injEq] at onHigh
  subst onHigh
  have beyond := unseen.beyond nodeLt fresh.top (by omega) highLt shows
  rw [own, List.length_nil] at size
  omega

/-- With no list that shows one, no order of the ties looks at the NIC's list. -/
theorem Unseen.no_finds (unseen : Unseen args.numaNumber states home (load b.vmOnNode))
    (lats : args.Latencies) (far : ¬ args.NicOnNode) (known : Known args.vmInfosMap homed)
    (fresh : Fresh args ties homed b)
    (descent : Descent args.numaNumber states home left came b.vmOnNode)
    (path : Relation.ReflTransGen (BalanceStep args states ties) b b')
    (enter : b'.unbalanced = true) : ¬ b'.FindsIo states := by
  have keeps : ∀ b b', (Fresh args ties homed b ∧ (∃ left came,
        Descent args.numaNumber states home left came b.vmOnNode) ∧
        Unseen args.numaNumber states home (load b.vmOnNode)) →
      b.unbalanced = true → balanceStep args states ties b = .ok b' →
      Fresh args ties homed b' ∧ (∃ left came,
        Descent args.numaNumber states home left came b'.vmOnNode) ∧
        Unseen args.numaNumber states home (load b'.vmOnNode) := by
    rintro b b' ⟨fresh, ⟨left, came, descent⟩, unseen⟩ enter stepped
    obtain ⟨b'', rest, target, vmId, stepped', descends⟩ :=
      balanceStep_far lats far known fresh enter (unseen.not_finds descent fresh enter)
    cases stepped.symm.trans stepped'
    refine ⟨descends.fresh, ⟨_, _, descent.step fresh enter descends⟩, ?_⟩
    intro i inRange k shows
    rw [descends.shifted, sinksTo_shift_iff (Finset.mem_range.mpr fresh.cached.high_lt)
      (Finset.mem_range.mpr descends.target_lt) (descends.bottom fresh) descends.gap
      (unseen.beyond descends.target_lt fresh.top descends.gap inRange shows)]
    exact unseen i inRange k shows
  obtain ⟨fresh', ⟨_, _, descent'⟩, unseen'⟩ :=
    loopStep_invariant keeps ⟨fresh, ⟨left, came, descent⟩, unseen⟩ path
  exact unseen'.not_finds descent' fresh' enter

/-- The tie order that puts `node` last. -/
def nodeLast (node : Nat) : NodeSort := UnstableSort.byRank fun i => if i = node then 1 else 0

/-- With ties ordered so, an iteration takes `node` whenever it is among the fullest. -/
theorem high_of_nodeLast {node : Nat} (fresh : Fresh args (nodeLast node) homed b)
    (inRange : node < args.numaNumber)
    (fullest : load b.vmOnNode node = load b.vmOnNode b.highLoadNode) : b.highLoadNode = node := by
  obtain ⟨sorts, ordered⟩ := fresh.ordered
  have ranked : b.nodeVmVec.Pairwise (RankLe fun i => if i = node then 1 else 0) := by
    rw [ordered]
    exact pairwise_rankLe _ _
  obtain ⟨j, there⟩ := fresh.cached.position inRange
  have here := fresh.cached.high
  rw [fresh.last] at here
  obtain ⟨bound, at_⟩ := List.getElem?_eq_some_iff.mp there
  obtain ⟨bound', last⟩ := List.getElem?_eq_some_iff.mp here
  have size := fresh.cached.length_vec
  by_cases isLast : j = args.numaNumber - 1
  · subst isLast
    exact congrArg Prod.fst (Option.some.inj (here.symm.trans there))
  · have pair := List.pairwise_iff_getElem.mp ranked j (args.numaNumber - 1) bound bound' (by omega)
    rw [at_, last] at pair
    have top := fresh.cached.maxVmCnt_eq
    rcases pair with less | ⟨_, rank⟩
    · have less' : load b.vmOnNode node < b.maxVmCnt := less
      omega
    · by_contra other
      simp [other] at rank

/-- A list that shows an IO intensive VM behind its first `k`, and loads that sink to the rest of
it: with the node last among ties, an iteration finds the VM. -/
theorem exists_finds {node k : Nat} (lats : args.Latencies) (far : ¬ args.NicOnNode)
    (known : Known args.vmInfosMap homed) (inRange : node < args.numaNumber)
    (shows : ShowsIo states ((home node).drop k)) {left : Nat → Nat} {came : Nat → List Int}
    {b : Balancer} (fresh : Fresh args (nodeLast node) homed b)
    (descent : Descent args.numaNumber states home left came b.vmOnNode)
    (few : left node ≤ k) (alone : came node = [])
    (sinks : SinksTo (nodes args.numaNumber) (load b.vmOnNode) ((home node).length - k)) :
    ∃ b', Relation.ReflTransGen (BalanceStep args states (nodeLast node)) b b' ∧
      b'.unbalanced = true ∧ b'.FindsIo states := by
  obtain ⟨m, potential⟩ :
      ∃ m, m = energy (nodes args.numaNumber) (load b.vmOnNode) := ⟨_, rfl⟩
  induction m using Nat.strong_induction_on generalizing left came b with
  | h m ih =>
      have size := descent.load_eq inRange
      rw [alone, List.length_nil] at size
      have inList : k < (home node).length := by
        by_contra beyond
        exact shows.ne_nil (List.drop_eq_nil_of_le (Nat.le_of_not_lt beyond))
      obtain ⟨low, lowMem, low_lt⟩ := sinks.exists_low
      have least := fresh.cached.minVmCnt_le (Finset.mem_range.mp lowMem)
      have most := fresh.top node (Finset.mem_range.mpr inRange)
      have top := fresh.cached.maxVmCnt_eq
      have enter : b.unbalanced = true := fresh.cached.unbalanced_iff.mpr (by omega)
      by_cases finds : b.FindsIo states
      · exact ⟨b, .refl, enter, finds⟩
      · obtain ⟨b', rest, target, vmId, stepped, descends⟩ :=
          balanceStep_far lats far known fresh enter finds
        have atMin := descends.atMin
        have beyond : (home node).length - k < load b.vmOnNode b.highLoadNode := by
          by_contra le
          have isHigh := high_of_nodeLast fresh inRange (by omega)
          refine finds ⟨_, descent.lists _ fresh.cached.high_lt, ?_⟩
          rw [isHigh, alone, List.append_nil, show left node = k by omega]
          exact shows
        have away : node ≠ target := by
          rintro rfl
          omega
        have few' : Function.update left b.highLoadNode (left b.highLoadNode + 1) node ≤ k := by
          by_cases isHigh : node = b.highLoadNode
          · subst isHigh
            rw [Function.update_self]
            omega
          · rwa [Function.update_of_ne isHigh]
        have alone' : Function.update came target (came target ++ [vmId]) node = [] := by
          rwa [Function.update_of_ne away]
        have sinks' : SinksTo (nodes args.numaNumber) (load b'.vmOnNode)
            ((home node).length - k) := by
          rw [descends.shifted]
          exact (sinksTo_shift_iff (Finset.mem_range.mpr fresh.cached.high_lt)
            (Finset.mem_range.mpr descends.target_lt) (descends.bottom fresh) descends.gap beyond).mpr
              sinks
        obtain ⟨b'', path, enter', finds'⟩ := ih _ (potential ▸ descends.energy_lt fresh)
          descends.fresh (descent.step fresh enter descends) few' alone' sinks' rfl
        exact ⟨b'', .head ⟨enter, stepped⟩ path, enter', finds'⟩

end Orders

end VNams.Strategy
