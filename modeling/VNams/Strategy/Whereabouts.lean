import VNams.Strategy.Levelled

/-!
Where the VMs are, state by state.

No VM is listed twice, so a move changes the node of one VM (`mem_listOf_moved`) and `Moves`
tells which VM went where. `Reached` are the states of the balancing loop in a run of
`analyze`; what each of them satisfies is collected here for the results about single
moves.
-/

namespace VNams.Strategy

open Lib

variable {D : Type}

section Lists

variable {v : List (List Int)} {source pos target node : Nat} {vmId id : Int} {ls : List Int}

theorem exists_of_mem_listOf (mem : id ∈ listOf v node) : ∃ ls, v[node]? = some ls ∧ id ∈ ls := by
  cases found : v[node]? with
  | none => simp [listOf, List.getD_eq_getElem?_getD, found] at mem
  | some ls => exact ⟨ls, rfl, listOf_of_getElem? found ▸ mem⟩

/-- A VM is on one node only. -/
theorem listOf_unique (nodup : v.flatten.Nodup) {i j : Nat} (first : id ∈ listOf v i)
    (second : id ∈ listOf v j) : i = j := by
  obtain ⟨li, atI, inI⟩ := exists_of_mem_listOf first
  obtain ⟨lj, atJ, inJ⟩ := exists_of_mem_listOf second
  obtain ⟨iLt, rfl⟩ := List.getElem?_eq_some_iff.mp atI
  obtain ⟨jLt, rfl⟩ := List.getElem?_eq_some_iff.mp atJ
  have apart := List.pairwise_iff_getElem.mp (List.nodup_flatten.mp nodup).2
  rcases Nat.lt_trichotomy i j with lt | same | gt
  · exact absurd inJ (apart i j iLt jLt lt inI)
  · exact same
  · exact absurd inI (apart j i jLt iLt gt inJ)

theorem listOf_nodup (nodup : v.flatten.Nodup) (found : v[node]? = some ls) : ls.Nodup :=
  (List.nodup_flatten.mp nodup).1 ls (List.mem_of_getElem? found)

/-- After a move the VM is on the target, and every other VM where it was. -/
theorem mem_listOf_moved (nodup : v.flatten.Nodup) (onSource : v[source]? = some ls)
    (here : ls[pos]? = some vmId) (inRange : target < v.length) :
    id ∈ listOf (moved v source pos target vmId) node ↔
      if id = vmId then node = target else id ∈ listOf v node := by
  obtain ⟨posLt, isVm⟩ := List.getElem?_eq_some_iff.mp here
  have perm : (vmId :: ls.eraseIdx pos).Perm ls := isVm ▸ List.getElem_cons_eraseIdx_perm posLt
  have gone : vmId ∉ ls.eraseIdx pos :=
    (List.nodup_cons.mp (perm.nodup_iff.mpr (listOf_nodup nodup onSource))).1
  have kept : id ≠ vmId → (id ∈ ls.eraseIdx pos ↔ id ∈ ls) := fun ne => by
    rw [← perm.mem_iff, List.mem_cons, or_iff_right ne]
  have elsewhere : source ≠ node → vmId ∉ listOf v node := fun ne mem => by
    refine ne (listOf_unique nodup ?_ mem)
    rw [listOf_of_getElem? onSource]
    exact List.mem_of_getElem? here
  cases found : v[node]? with
  | none =>
      have beyond := List.getElem?_eq_none_iff.mp found
      have notTarget : node ≠ target := by omega
      simp [listOf, List.getD_eq_getElem?_getD, getElem?_moved, found, notTarget]
  | some lt =>
      have isList := listOf_of_getElem? found
      rw [isList] at elsewhere ⊢
      have isSource : source = node → lt = ls := fun same => by
        rw [same, found] at onSource
        exact Option.some.inj onSource
      have after : listOf (moved v source pos target vmId) node =
          if target = node then (if source = node then lt.eraseIdx pos else lt) ++ [vmId]
          else if source = node then lt.eraseIdx pos else lt := by
        simp [listOf, List.getD_eq_getElem?_getD, getElem?_moved, found]
      rw [after]
      by_cases same : id = vmId
      · subst same
        by_cases isTarget : target = node
        · simp [isTarget]
        · by_cases fromHere : source = node
          · rw [isSource fromHere]
            simp [isTarget, Ne.symm isTarget, fromHere, gone]
          · simp [isTarget, Ne.symm isTarget, fromHere, elsewhere fromHere]
      · by_cases fromHere : source = node
        · rw [isSource fromHere]
          by_cases isTarget : target = node <;> simp [isTarget, fromHere, same, kept same]
        · by_cases isTarget : target = node <;> simp [isTarget, fromHere, same]

end Lists

/-! ### Moves -/

/-- The VM `id` went from `source` to the other node `target`. -/
structure Moves (b b' : Balancer) (source target : Nat) (id : Int) : Prop where
  apart : source ≠ target
  before : id ∈ listOf b.vmOnNode source
  after : id ∈ listOf b'.vmOnNode target

section Migration

variable {args : ScheduleArgs D} {states : VmStateMap} {ties : NodeSort} {b b' : Balancer}
  {ls : List Int} {pos target : Nat} {vmId : Int}

theorem Migration.mem_listOf (migration : Migration args states ties b b' ls pos target vmId)
    (nodup : b.vmOnNode.flatten.Nodup) (inRange : target < b.vmOnNode.length) {id : Int}
    {node : Nat} :
    id ∈ listOf b'.vmOnNode node ↔
      if id = vmId then node = target else id ∈ listOf b.vmOnNode node := by
  rw [migration.lists]
  exact mem_listOf_moved nodup migration.onHigh migration.here inRange

theorem Migration.mem_high (migration : Migration args states ties b b' ls pos target vmId) :
    vmId ∈ listOf b.vmOnNode b.highLoadNode := by
  rw [listOf_of_getElem? migration.onHigh]
  exact List.mem_of_getElem? migration.here

/-- The one VM that a migration moves is that of the migration. -/
theorem Migration.eq_of_moves (migration : Migration args states ties b b' ls pos target vmId)
    (nodup : b.vmOnNode.flatten.Nodup) (inRange : target < b.vmOnNode.length) {source t : Nat}
    {id : Int} (moves : Moves b b' source t id) :
    source = b.highLoadNode ∧ t = target ∧ id = vmId := by
  have after := (migration.mem_listOf nodup inRange).mp moves.after
  by_cases same : id = vmId
  · rw [if_pos same] at after
    exact ⟨listOf_unique nodup (same ▸ moves.before) migration.mem_high, after, same⟩
  · rw [if_neg same] at after
    exact absurd (listOf_unique nodup moves.before after) moves.apart

/-- A migration shifts the loads. -/
theorem Migration.load_eq (migration : Migration args states ties b b' ls pos target vmId)
    (inRange : target < b.vmOnNode.length) :
    load b'.vmOnNode = shift (load b.vmOnNode) b.highLoadNode target := by
  obtain ⟨posLt, _⟩ := List.getElem?_eq_some_iff.mp migration.here
  rw [migration.lists]
  exact load_moved vmId (by rw [load_of_getElem? migration.onHigh]; exact posLt) inRange

section Phase

variable {homed : List Int} {snap : Nat → Nat} {k : Nat} {skipped : Bool}

/-- The phase after a skip. -/
theorem Skip.phase (skip : Skip args states b b') (phase : Phase args homed snap k skipped b)
    (topo : args.Topology) (enter : b.unbalanced = true) :
    Phase args homed snap k true b' := by
  cases skip with
  | intro atNic _ _ next lowest => exact phase.skip topo enter atNic next lowest

/-- The phase after a VM left the NIC node. -/
theorem Migration.phase_leave (migration : Migration args states ties b b' ls pos target vmId)
    (phase : Phase args homed snap k skipped b) (topo : args.Topology)
    (known : Known args.vmInfosMap homed) (enter : b.unbalanced = true)
    (atNic : b.AtNic args) : Phase args homed snap (k + 1) false b' := by
  rw [migration.remembered atNic]
  exact phase.leave topo enter atNic migration.onHigh migration.here
    (migration.chosen.nearest topo (phase.sane topo known))

/-- The phase after a general move. -/
theorem Migration.phase_level (migration : Migration args states ties b b' ls pos target vmId)
    (phase : Phase args homed snap k skipped b) (topo : args.Topology)
    (known : Known args.vmInfosMap homed) (notNic : ¬ b.AtNic args) :
    Phase args homed (load b'.vmOnNode) 0 false b' := by
  obtain ⟨minLoadNode, rebuilt⟩ := migration.rebuilt notNic
  exact (phase.level topo migration.onHigh migration.here
    (migration.chosen.nearest topo (phase.sane topo known)) rebuilt).1

end Phase

theorem Skip.lists (skip : Skip args states b b') : b'.vmOnNode = b.vmOnNode := by
  cases skip with
  | intro => rfl

/-- A skipped node gives nothing away. -/
theorem Skip.not_moves (skip : Skip args states b b') (nodup : b.vmOnNode.flatten.Nodup)
    {source t : Nat} {id : Int} : ¬ Moves b b' source t id := by
  intro moves
  have after := moves.after
  rw [skip.lists] at after
  exact moves.apart (listOf_unique nodup moves.before after)

end Migration

/-! ### Reached states -/

variable [Double D] {strategy : SimpleStrategy} {args : ScheduleArgs D}
  {vmStateSlot : Nat → VmState} {ties : NodeSort} {c : Classified} {b b' : Balancer}

/-- `b` is a state of the balancing loop in a run of `analyze`, which classified as `c`. -/
structure Reached (strategy : SimpleStrategy) (args : ScheduleArgs D)
    (vmStateSlot : Nat → VmState) (ties : NodeSort) (c : Classified) (b : Balancer) : Prop where
  classified : classify strategy args vmStateSlot = .ok c
  path : ∃ b₀, Balancer.start args ties c.vmOnNode = .ok b₀ ∧
    Relation.ReflTransGen (BalanceStep args c.vmStateMap ties) b₀ b

namespace Reached

theorem next (reached : Reached strategy args vmStateSlot ties c b)
    (stepped : BalanceStep args c.vmStateMap ties b b') :
    Reached strategy args vmStateSlot ties c b' := by
  obtain ⟨classified, b₀, started, path⟩ := reached
  exact ⟨classified, b₀, started, path.tail stepped⟩

theorem homed (reached : Reached strategy args vmStateSlot ties c b)
    (agree : KeysAgree args.vmInfosMap) : Homed strategy args vmStateSlot c :=
  classify_spec agree reached.classified

/-- An induction over the iterations that lead to a reached state. -/
theorem induct {inv : Balancer → Prop} (reached : Reached strategy args vmStateSlot ties c b)
    (start : ∀ b₀, Balancer.start args ties c.vmOnNode = .ok b₀ → inv b₀)
    (keeps : ∀ b b', Reached strategy args vmStateSlot ties c b → inv b →
      BalanceStep args c.vmStateMap ties b b' → inv b') : inv b := by
  obtain ⟨classified, b₀, started, path⟩ := reached
  induction path with
  | refl => exact start b₀ started
  | tail path stepped ih => exact keeps _ _ ⟨classified, b₀, started, path⟩ ih stepped

theorem phase (reached : Reached strategy args vmStateSlot ties c b) (topo : args.Topology)
    (agree : KeysAgree args.vmInfosMap) :
    ∃ snap k skipped, Phase args c.vmOnNode.flatten snap k skipped b := by
  have homed := reached.homed agree
  obtain ⟨classified, b₀, started, path⟩ := reached
  obtain ⟨b₁, started', phase₀, _⟩ := start_spec ties topo homed.length
  obtain rfl : b₀ = b₁ := Except.ok.inj (started.symm.trans started')
  exact phase_of_path topo (homed.known agree) ⟨_, _, _, phase₀⟩ path

/-- No VM is listed twice. -/
theorem nodup (reached : Reached strategy args vmStateSlot ties c b) (topo : args.Topology)
    (agree : KeysAgree args.vmInfosMap) : b.vmOnNode.flatten.Nodup := by
  obtain ⟨snap, k, skipped, phase⟩ := reached.phase topo agree
  have perm := phase.perm.trans (reached.homed agree).perm
  exact perm.nodup_iff.mpr (scheduledIds_nodup agree vmStateSlot)

/-- The listed VMs are the scheduled ones. -/
theorem mem_iff (reached : Reached strategy args vmStateSlot ties c b) (topo : args.Topology)
    (agree : KeysAgree args.vmInfosMap) {id : Int} :
    id ∈ b.vmOnNode.flatten ↔ id ∈ scheduledIds args vmStateSlot := by
  obtain ⟨snap, k, skipped, phase⟩ := reached.phase topo agree
  exact (phase.perm.trans (reached.homed agree).perm).mem_iff

/-- An iteration skips a node, or moves a VM to a node. -/
theorem migration (reached : Reached strategy args vmStateSlot ties c b) (topo : args.Topology)
    (agree : KeysAgree args.vmInfosMap) (stepped : BalanceStep args c.vmStateMap ties b b') :
    Skip args c.vmStateMap b b' ∨ ∃ ls pos target vmId,
      Migration args c.vmStateMap ties b b' ls pos target vmId ∧ target < b.vmOnNode.length := by
  obtain ⟨snap, k, skipped, phase⟩ := reached.phase topo agree
  have sane := phase.sane topo ((reached.homed agree).known agree)
  obtain ⟨enter, stepped⟩ := stepped
  have loaded : ¬ b.AtNic args → 0 < load b.vmOnNode b.highLoadNode := fun notNic => by
    have gap := phase.cached.unbalanced_iff.mp enter
    rw [phase.load_high topo enter notNic]
    omega
  have next : ∃ b'', balanceStep args c.vmStateMap ties b = .ok b'' ∧ _ :=
    balanceStep_migration topo sane loaded
  obtain ⟨b'', stepped', moved⟩ := next
  obtain rfl : b' = b'' := Except.ok.inj (stepped.symm.trans stepped')
  apply moved.imp_right
  rintro ⟨ls, pos, target, vmId, migration⟩
  refine ⟨ls, pos, target, vmId, migration, ?_⟩
  rw [phase.lists_length]
  exact (migration.chosen.nearest topo sane).1

end Reached

end VNams.Strategy
