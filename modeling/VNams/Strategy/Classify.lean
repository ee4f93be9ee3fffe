import VNams.Lib.MapLoop
import VNams.Strategy.Lists

/-!
What the classification loop leaves.

`scheduled` are the VMs the loop does not skip: busy ones whose iteration finds something
other than "idle" in the uninitialised `vm_state`. The lists it builds hold their ids, node
by node (`classify_spec`), the state map holds their class, and it succeeds exactly when
every CPU number and every home it reads is in range (`classify_ok_iff`).
-/

namespace VNams

/-- Every key of the map is the id of its VM. -/
def KeysAgree {D : Type} (vms : VmMap D) : Prop := ∀ (k : Int) (vm : VmInfo D), vms[k]? = some vm → vm.domId = k

theorem KeysAgree.empty {D : Type} : KeysAgree (∅ : VmMap D) := by
  intro k vm present
  simp at present

/-- Storing a VM under its own id keeps the keys in agreement. -/
theorem KeysAgree.insert {D : Type} {vms : VmMap D} (agree : KeysAgree vms) {id : Int}
    {vm : VmInfo D} (own : vm.domId = id) : KeysAgree (vms.insert id vm) :=
  Lib.forall_insert agree own

/-- The map of a list of VMs. -/
def vmMapOf {D : Type} (vms : List (VmInfo D)) : VmMap D :=
  vms.foldr (fun vm m => m.insert vm.domId vm) ∅

theorem vmMapOf_agree {D : Type} (vms : List (VmInfo D)) : KeysAgree (vmMapOf vms) := by
  induction vms with
  | nil => exact .empty
  | cons vm rest ih => exact ih.insert rfl

/-- The values of a map, in key order. -/
theorem values_eq_map_toList {β : Type} (t : Std.TreeMap Int β) :
    t.values = t.toList.map Prod.snd := by
  show t.foldr (fun _ v (l : List β) => v :: l) [] = _
  rw [Std.TreeMap.foldr_eq_foldr_toList]
  induction t.toList with
  | nil => rfl
  | cons p l ih => rw [List.foldr_cons, ih, List.map_cons]

theorem mem_values {β : Type} {t : Std.TreeMap Int β} {v : β} :
    v ∈ t.values ↔ ∃ k : Int, t[k]? = some v := by
  rw [values_eq_map_toList, List.mem_map]
  constructor
  · rintro ⟨⟨k, v⟩, mem, rfl⟩
    exact ⟨k, Std.TreeMap.mem_toList_iff_getElem?_eq_some.mp mem⟩
  · rintro ⟨k, present⟩
    exact ⟨(k, v), Std.TreeMap.mem_toList_iff_getElem?_eq_some.mpr present, rfl⟩

/-- With agreeing keys the VMs have distinct ids. -/
theorem KeysAgree.nodup {D : Type} {vms : VmMap D} (agree : KeysAgree vms) :
    (vms.values.map VmInfo.domId).Nodup := by
  have same : vms.values.map VmInfo.domId = vms.toList.map Prod.fst := by
    rw [values_eq_map_toList, List.map_map]
    refine List.map_congr_left fun p mem => ?_
    exact agree p.1 p.2 (Std.TreeMap.mem_toList_iff_getElem?_eq_some.mp mem)
  rw [same, List.nodup_iff_pairwise_ne, List.pairwise_map]
  refine (Std.TreeMap.distinct_keys_toList (t := vms)).imp fun distinct equal => ?_
  exact distinct (equal ▸ compare_eq_iff_eq.mpr rfl)

namespace Strategy

open Lib

variable {D : Type} [Double D]

/-- The usage of the VM's CPU is in the vector. -/
def Covered (args : ScheduleArgs D) (vm : VmInfo D) : Prop :=
  ∃ usage, vecAtInt args.cpuUsage (vm.realCpuNo + 1) = .ok usage

instance (args : ScheduleArgs D) (vm : VmInfo D) : Decidable (Covered args vm) :=
  match read : vecAtInt args.cpuUsage (vm.realCpuNo + 1) with
  | .ok usage => isTrue ⟨usage, read⟩
  | .error _ => isFalse fun ⟨_, found⟩ => by rw [read] at found; cases found

/-- The VM's home is a node. -/
def HomeInRange (args : ScheduleArgs D) (vm : VmInfo D) : Prop :=
  0 ≤ vm.memMainNodeId ∧ vm.memMainNodeId < args.numaNumber

instance (args : ScheduleArgs D) (vm : VmInfo D) : Decidable (HomeInRange args vm) :=
  inferInstanceAs (Decidable (_ ∧ _))

/-- The VM does not count as idle. -/
def busy (args : ScheduleArgs D) (vm : VmInfo D) : Bool :=
  match vecAtInt args.cpuUsage (vm.realCpuNo + 1) with
  | .ok usage => !decide (smoothedUsage usage vm ≤ Double.ofInt 8)
  | .error _ => false

/-- An iteration does not skip the VM: it is busy, and `vm_state` was not "idle" before. -/
def scheduledAt (args : ScheduleArgs D) (slot : VmState) (vm : VmInfo D) : Bool :=
  busy args vm && decide (slot ≠ .idleStat)

/-- The VMs that the iterations from `i` on do not skip. -/
def scheduledFrom (args : ScheduleArgs D) (vmStateSlot : Nat → VmState) :
    Nat → List (VmInfo D) → List (VmInfo D)
  | _, [] => []
  | i, vm :: rest =>
      if scheduledAt args (vmStateSlot i) vm then
        vm :: scheduledFrom args vmStateSlot (i + 1) rest
      else scheduledFrom args vmStateSlot (i + 1) rest

/-- The VMs that the classification loop does not skip. -/
def scheduled (args : ScheduleArgs D) (vmStateSlot : Nat → VmState) : List (VmInfo D) :=
  scheduledFrom args vmStateSlot 0 args.vmInfosMap.values

/-- Their ids: the initially homed VMs. -/
def scheduledIds (args : ScheduleArgs D) (vmStateSlot : Nat → VmState) : List Int :=
  (scheduled args vmStateSlot).map VmInfo.domId

/-- The class of a VM that is not idle; a map default reads as IO intensive. -/
def ioClass (strategy : SimpleStrategy) (vm : VmInfo D) : VmState :=
  if Double.ofInt strategy.ioThreshold < smoothedPps vm then .ioStat
  else if smoothedPps vm < Double.ofInt strategy.ioThreshold then .otherStat
  else .ioStat

/-- The ids of the VMs whose home is `node`. -/
def homedOn (node : Nat) (vms : List (VmInfo D)) : List Int :=
  (vms.filter fun vm => vm.memMainNodeId = (node : Int)).map VmInfo.domId

theorem mem_scheduledFrom {args : ScheduleArgs D} {vmStateSlot : Nat → VmState}
    {vms : List (VmInfo D)} {i : Nat} {vm : VmInfo D} :
    vm ∈ scheduledFrom args vmStateSlot i vms ↔
      ∃ j, vms[j]? = some vm ∧ scheduledAt args (vmStateSlot (i + j)) vm = true := by
  induction vms generalizing i with
  | nil => simp [scheduledFrom]
  | cons first rest ih =>
      have shifted : (∃ j, rest[j]? = some vm ∧
            scheduledAt args (vmStateSlot (i + 1 + j)) vm = true) ↔
          ∃ j, (first :: rest)[j + 1]? = some vm ∧
            scheduledAt args (vmStateSlot (i + (j + 1))) vm = true := by
        simp only [List.getElem?_cons_succ, Nat.add_assoc, Nat.add_comm 1]
      unfold scheduledFrom
      split
      · rename_i kept
        rw [List.mem_cons, ih, shifted]
        constructor
        · rintro (rfl | ⟨j, here, listed⟩)
          · exact ⟨0, rfl, kept⟩
          · exact ⟨j + 1, here, listed⟩
        · rintro ⟨_ | j, here, listed⟩
          · exact .inl (Option.some.inj here).symm
          · exact .inr ⟨j, here, listed⟩
      · rename_i skipped
        rw [ih, shifted]
        constructor
        · rintro ⟨j, here, listed⟩
          exact ⟨j + 1, here, listed⟩
        · rintro ⟨_ | j, here, listed⟩
          · cases here
            exact absurd listed skipped
          · exact ⟨j, here, listed⟩

/-- The scheduled VMs keep their order. -/
theorem scheduledFrom_sublist (args : ScheduleArgs D) (vmStateSlot : Nat → VmState) (i : Nat)
    (vms : List (VmInfo D)) : (scheduledFrom args vmStateSlot i vms).Sublist vms := by
  induction vms generalizing i with
  | nil => exact .slnil
  | cons first rest ih =>
      unfold scheduledFrom
      split
      · exact (ih (i + 1)).cons_cons first
      · exact (ih (i + 1)).cons first

/-- Scheduled VMs have distinct ids. -/
theorem scheduledIds_nodup {args : ScheduleArgs D} (agree : KeysAgree args.vmInfosMap)
    (vmStateSlot : Nat → VmState) : (scheduledIds args vmStateSlot).Nodup :=
  agree.nodup.sublist ((scheduledFrom_sublist args vmStateSlot 0 _).map VmInfo.domId)

/-- Scheduled VMs are known. -/
theorem scheduledIds_known {args : ScheduleArgs D} (agree : KeysAgree args.vmInfosMap)
    (vmStateSlot : Nat → VmState) :
    ∀ id ∈ scheduledIds args vmStateSlot,
      ∃ vm, args.vmInfosMap[id]? = some vm ∧ vm.domId = id := by
  intro id mem
  obtain ⟨vm, listed, rfl⟩ := List.mem_map.mp mem
  obtain ⟨k, present⟩ :=
    mem_values.mp ((scheduledFrom_sublist args vmStateSlot 0 _).subset listed)
  have same := agree k vm present
  exact ⟨vm, by rw [same]; exact present, rfl⟩

/-! ### One iteration -/

/-- The state map after the iteration for `vm`. -/
def statesAfter (strategy : SimpleStrategy) (args : ScheduleArgs D) (vm : VmInfo D)
    (states : VmStateMap) : VmStateMap :=
  if busy args vm then analyzeIOState strategy vm states
  else (analyzeIOState strategy vm states).insert vm.domId .idleStat

/-- What an iteration does to the lists. -/
def push (vmOnNode : List (List Int)) (vm : VmInfo D) : List (List Int) :=
  vmOnNode.modify vm.memMainNodeId.toNat fun ls => ls ++ [vm.domId]

/-- When an iteration succeeds, and what it leaves. -/
theorem classifyVm_eq_ok {strategy : SimpleStrategy} {args : ScheduleArgs D} {slot : VmState}
    {vm : VmInfo D} {acc c : Classified} :
    classifyVm strategy args slot vm acc = .ok c ↔
      Covered args vm ∧
        if scheduledAt args slot vm then
          (0 ≤ vm.memMainNodeId ∧ vm.memMainNodeId < acc.vmOnNode.length) ∧
            c = ⟨push acc.vmOnNode vm, statesAfter strategy args vm acc.vmStateMap, true⟩
        else c = { acc with vmStateMap := statesAfter strategy args vm acc.vmStateMap } := by
  unfold classifyVm Covered scheduledAt statesAfter busy push
  cases read : vecAtInt args.cpuUsage (vm.realCpuNo + 1) with
  | error e => simp [bind, Except.bind]
  | ok usage =>
      by_cases low : smoothedUsage usage vm ≤ Double.ofInt 8
      · simp [bind, Except.bind, low, eq_comm]
      · by_cases stale : slot = .idleStat
        · simp [bind, Except.bind, low, stale, eq_comm]
        · simp only [bind, Except.bind, low, stale, if_false, ne_eq, not_false_eq_true,
            decide_false, Bool.not_false, decide_true, Bool.and_self, if_true, Except.ok.injEq,
            exists_eq', true_and]
          constructor
          · intro done
            cases home : vecAtInt acc.vmOnNode vm.memMainNodeId with
            | error e => simp [home] at done
            | ok ls =>
                obtain ⟨nonneg, present⟩ := vecAtInt_eq_ok.mp home
                obtain ⟨inRange, _⟩ := List.getElem?_eq_some_iff.mp present
                refine ⟨⟨nonneg, by omega⟩, ?_⟩
                simp only [home, Except.ok.injEq] at done
                rw [← done, List.modify_eq_set_getElem?, present]
                simp
          · rintro ⟨⟨nonneg, inRange⟩, rfl⟩
            have inRange' : vm.memMainNodeId.toNat < acc.vmOnNode.length := by omega
            have home := vecAtInt_eq_ok.mpr ⟨nonneg, List.getElem?_eq_getElem inRange'⟩
            simp [home, List.modify_eq_set_getElem?, List.getElem?_eq_getElem inRange']

omit [Double D] in
@[simp] theorem length_push (vmOnNode : List (List Int)) (vm : VmInfo D) :
    (push vmOnNode vm).length = vmOnNode.length := by
  simp [push]

omit [Double D] in
/-- A VM is appended to the list of its home, and no other list changes. -/
theorem getElem?_push (vmOnNode : List (List Int)) {vm : VmInfo D}
    (nonneg : 0 ≤ vm.memMainNodeId) (node : Nat) :
    (push vmOnNode vm)[node]? = vmOnNode[node]?.map (· ++ homedOn node [vm]) := by
  rw [push, List.getElem?_modify]
  cases vmOnNode[node]? with
  | none => rfl
  | some ls =>
      by_cases home : vm.memMainNodeId = (node : Int)
      · simp [homedOn, home]
      · have other : vm.memMainNodeId.toNat ≠ node := by omega
        simp [other, homedOn, home]

omit [Double D] in
theorem homedOn_cons (node : Nat) (vm : VmInfo D) (rest : List (VmInfo D)) :
    homedOn node (vm :: rest) = homedOn node [vm] ++ homedOn node rest := by
  unfold homedOn
  rw [← List.map_append, ← List.filter_append, List.singleton_append]

/-- An iteration only writes the state of its own VM. -/
theorem statesAfter_getElem?_of_ne {strategy : SimpleStrategy} {args : ScheduleArgs D}
    {vm : VmInfo D} {states : VmStateMap} {id : Int} (ne : vm.domId ≠ id) :
    (statesAfter strategy args vm states)[id]? = states[id]? := by
  unfold statesAfter analyzeIOState
  split_ifs <;> simp [Std.TreeMap.getElem?_insert, ne]

/-- A busy VM gets its class. -/
theorem statesAfter_read (strategy : SimpleStrategy) {args : ScheduleArgs D} {vm : VmInfo D}
    {states : VmStateMap} (isBusy : busy args vm = true) (fresh : states[vm.domId]? = none) :
    (statesAfter strategy args vm states).read vm.domId = ioClass strategy vm := by
  unfold statesAfter analyzeIOState ioClass VmStateMap.read
  simp only [isBusy, if_true, Std.TreeMap.getD_eq_getD_getElem?]
  split_ifs <;> simp [fresh]

/-! ### The loop -/

/-- The loop succeeds exactly when every CPU number it reads is covered and every home it
uses is a node. -/
theorem classifyFrom_isOk {strategy : SimpleStrategy} {args : ScheduleArgs D}
    {vmStateSlot : Nat → VmState} {vms : List (VmInfo D)} {i : Nat} {acc : Classified}
    (lists : acc.vmOnNode.length = args.numaNumber) :
    (∃ c, classifyFrom strategy args vmStateSlot i vms acc = .ok c) ↔
      (∀ vm ∈ vms, Covered args vm) ∧
        ∀ vm ∈ scheduledFrom args vmStateSlot i vms, HomeInRange args vm := by
  induction vms generalizing i acc with
  | nil => simp [classifyFrom, scheduledFrom]
  | cons first rest ih =>
      have unfolded : (∃ c, classifyFrom strategy args vmStateSlot i (first :: rest) acc = .ok c) ↔
          ∃ acc', classifyVm strategy args (vmStateSlot i) first acc = .ok acc' ∧
            ∃ c, classifyFrom strategy args vmStateSlot (i + 1) rest acc' = .ok c := by
        simp only [classifyFrom, bind_eq_ok]
        exact ⟨fun ⟨c, acc', one, later⟩ => ⟨acc', one, c, later⟩,
          fun ⟨acc', one, c, later⟩ => ⟨c, acc', one, later⟩⟩
      rw [unfolded]
      simp only [classifyVm_eq_ok, scheduledFrom, List.forall_mem_cons]
      split
      · rw [List.forall_mem_cons]
        constructor
        · rintro ⟨_, ⟨covered, home, rfl⟩, later⟩
          obtain ⟨restCovered, homes⟩ := (ih (by simpa using lists)).mp later
          exact ⟨⟨covered, restCovered⟩, ⟨home.1, lists ▸ home.2⟩, homes⟩
        · rintro ⟨⟨covered, restCovered⟩, ⟨nonneg, lt⟩, homes⟩
          exact ⟨_, ⟨covered, ⟨nonneg, lists ▸ lt⟩, rfl⟩,
            (ih (by simpa using lists)).mpr ⟨restCovered, homes⟩⟩
      · constructor
        · rintro ⟨_, ⟨covered, rfl⟩, later⟩
          obtain ⟨restCovered, homes⟩ := (ih (by simpa using lists)).mp later
          exact ⟨⟨covered, restCovered⟩, homes⟩
        · rintro ⟨⟨covered, restCovered⟩, homes⟩
          exact ⟨_, ⟨covered, rfl⟩, (ih (by simpa using lists)).mpr ⟨restCovered, homes⟩⟩

/-- What the loop builds from the scheduled VMs. -/
structure Classifies (strategy : SimpleStrategy) (vms listed : List (VmInfo D))
    (acc c : Classified) : Prop where
  length : c.vmOnNode.length = acc.vmOnNode.length
  lists : ∀ node : Nat, c.vmOnNode[node]? = acc.vmOnNode[node]?.map (· ++ homedOn node listed)
  perm : c.vmOnNode.flatten.Perm (listed.map VmInfo.domId ++ acc.vmOnNode.flatten)
  flag : c.flag = (acc.flag || !listed.isEmpty)
  frame : ∀ id : Int, id ∉ vms.map VmInfo.domId → c.vmStateMap[id]? = acc.vmStateMap[id]?
  class_ : ∀ vm ∈ listed, c.vmStateMap.read vm.domId = ioClass strategy vm

theorem classifyFrom_spec {strategy : SimpleStrategy} {args : ScheduleArgs D}
    {vmStateSlot : Nat → VmState} {vms : List (VmInfo D)} {i : Nat} {acc c : Classified}
    (distinct : (vms.map VmInfo.domId).Nodup)
    (fresh : ∀ vm ∈ vms, acc.vmStateMap[vm.domId]? = none)
    (done : classifyFrom strategy args vmStateSlot i vms acc = .ok c) :
    Classifies strategy vms (scheduledFrom args vmStateSlot i vms) acc c := by
  induction vms generalizing i acc with
  | nil =>
      cases done
      exact ⟨rfl, fun node => by simp [scheduledFrom, homedOn], by simp [scheduledFrom],
        by simp [scheduledFrom], fun _ _ => rfl, by simp [scheduledFrom]⟩
  | cons first rest ih =>
      obtain ⟨acc', one, later⟩ := bind_eq_ok.mp done
      obtain ⟨covered, one⟩ := classifyVm_eq_ok.mp one
      obtain ⟨notLater, distinct'⟩ := List.nodup_cons.mp distinct
      have apart : ∀ vm ∈ rest, first.domId ≠ vm.domId := fun vm mem same =>
        notLater (same ▸ List.mem_map_of_mem mem)
      have states : acc'.vmStateMap = statesAfter strategy args first acc.vmStateMap := by
        split at one
        · rw [one.2]
        · rw [one]
      have fresh' : ∀ vm ∈ rest, acc'.vmStateMap[vm.domId]? = none := by
        intro vm mem
        rw [states, statesAfter_getElem?_of_ne (apart vm mem)]
        exact fresh vm (List.mem_cons_of_mem _ mem)
      have kept := ih distinct' fresh' later
      have frame : ∀ id : Int, id ∉ (first :: rest).map VmInfo.domId →
          c.vmStateMap[id]? = acc.vmStateMap[id]? := by
        intro id notMem
        rw [List.map_cons, List.mem_cons, not_or] at notMem
        rw [kept.frame id notMem.2, states, statesAfter_getElem?_of_ne (Ne.symm notMem.1)]
      unfold scheduledFrom
      split at one
      · rename_i listed
        rw [if_pos listed]
        obtain ⟨⟨nonneg, lt⟩, rfl⟩ := one
        refine ⟨by rw [kept.length, length_push], fun node => ?_, ?_, ?_, frame, ?_⟩
        · rw [kept.lists, getElem?_push _ nonneg, Option.map_map,
            homedOn_cons node first (scheduledFrom _ _ _ _)]
          simp [Function.comp_def]
        · apply kept.perm.trans
          rw [List.map_cons, List.cons_append]
          exact ((flatten_push first.domId (by omega)).append_left _).trans List.perm_middle
        · rw [kept.flag]
          simp
        · intro vm mem
          rcases List.mem_cons.mp mem with rfl | laterMem
          · have isBusy : busy args vm = true := by
              unfold scheduledAt at listed
              exact (Bool.and_eq_true_iff.mp listed).1
            have own := statesAfter_read strategy isBusy
              (fresh vm List.mem_cons_self)
            have stored := kept.frame vm.domId notLater
            simp only [VmStateMap.read, Std.TreeMap.getD_eq_getD_getElem?] at own ⊢
            rw [stored]
            exact own
          · exact kept.class_ vm laterMem
      · rename_i skipped
        rw [if_neg skipped]
        subst one
        exact ⟨kept.length, kept.lists, kept.perm, kept.flag, frame, kept.class_⟩

/-- When classification succeeds. -/
theorem classify_isOk (strategy : SimpleStrategy) {args : ScheduleArgs D}
    {vmStateSlot : Nat → VmState} :
    (∃ c, classify strategy args vmStateSlot = .ok c) ↔
      (∀ vm ∈ args.vmInfosMap.values, Covered args vm) ∧
        ∀ vm ∈ scheduled args vmStateSlot, HomeInRange args vm :=
  classifyFrom_isOk (by simp)

/-- What classification leaves: lists of the scheduled VMs on their homes, and their
classes. -/
structure Homed (strategy : SimpleStrategy) (args : ScheduleArgs D)
    (vmStateSlot : Nat → VmState) (c : Classified) : Prop where
  length : c.vmOnNode.length = args.numaNumber
  lists : ∀ node < args.numaNumber,
    c.vmOnNode[node]? = some (homedOn node (scheduled args vmStateSlot))
  perm : c.vmOnNode.flatten.Perm (scheduledIds args vmStateSlot)
  flag : c.flag = !(scheduled args vmStateSlot).isEmpty
  class_ : ∀ vm ∈ scheduled args vmStateSlot,
    c.vmStateMap.read vm.domId = ioClass strategy vm

theorem classify_spec {strategy : SimpleStrategy} {args : ScheduleArgs D}
    {vmStateSlot : Nat → VmState} {c : Classified} (agree : KeysAgree args.vmInfosMap)
    (done : classify strategy args vmStateSlot = .ok c) :
    Homed strategy args vmStateSlot c := by
  have spec := classifyFrom_spec agree.nodup (fun _ _ => by simp) done
  refine ⟨by simpa using spec.length, fun node inRange => ?_, ?_, ?_, spec.class_⟩
  · have listed := spec.lists node
    rw [List.getElem?_replicate, if_pos inRange] at listed
    simpa [scheduled] using listed
  · have perm := spec.perm
    rwa [List.flatten_replicate_nil, List.append_nil] at perm
  · simpa [scheduled] using spec.flag

end Strategy

end VNams
