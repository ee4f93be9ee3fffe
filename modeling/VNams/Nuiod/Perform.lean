import VNams.Nuiod.Keys
import VNams.Strategy.Exactness

/-!
What `perform` does with any decisions.

A decision either has `virDomainPinVcpu` called for its VM and one CPU or leaves the maps alone.
The CPU of the call is the least used one of the node that no VM holds at that moment
(`LeastFree`); a refused pin changes nothing, and a VM that was pinned keeps its CPU, with its
own entry, while the later decisions are performed (`Seated`).
-/

namespace VNams.Nuiod

open Lib Monitor Strategy

variable {D : Type} [Double D]

/-- The CPU is one of the decided node, with a usage, without an entry, and no other such
CPU is used less. -/
structure LeastFree (nuiod : Nuiod D) (cpuVmMapping : IntMap) (act : Decision) (cpu : Nat) :
    Prop where
  free : (cpu : Int) ∉ cpuVmMapping
  least : ∃ node usage, nuiod.numaNodes[act.cpuNodeId.toNat]? = some node ∧ cpu ∈ node.cpuIds ∧
    nuiod.cpuUsage[cpu + 1]? = some usage ∧
    ∀ cpu' usage', cpu' ∈ node.cpuIds → nuiod.cpuUsage[cpu' + 1]? = some usage' →
      (cpu' : Int) ∉ cpuVmMapping → ¬ usage' < usage

/-- The VMs and the CPU map are as they were. -/
structure SameMaps (nuiod nuiod' : Nuiod D) : Prop where
  vms : ∀ k : Int, nuiod'.vmInfosMap[k]? = nuiod.vmInfosMap[k]?
  cpus : nuiod'.cpuVmMapping = nuiod.cpuVmMapping

/-! ### The sorted CPUs -/

omit [Double D] in
theorem mem_cpuList {cpuUsage : List D} {node : NumaNode D} {cpu : Nat} {usage : D} :
    (cpu, usage) ∈ cpuList cpuUsage node ↔
      cpu ∈ node.cpuIds ∧ cpuUsage[cpu + 1]? = some usage := by
  have read : cpuUsage.tail[cpu]? = cpuUsage[cpu + 1]? := by
    rw [List.getElem?_tail]
  simp only [cpuList, List.mem_filterMap, ← read]
  constructor
  · rintro ⟨⟨u, i⟩, mem, here⟩
    have found := List.mem_zipIdx_iff_getElem?.mp mem
    split at here
    · rename_i onNode
      cases here
      exact ⟨onNode, found⟩
    · cases here
  · rintro ⟨onNode, found⟩
    exact ⟨(usage, cpu), List.mem_zipIdx_iff_getElem?.mpr found, if_pos onNode⟩

omit [Double D] in
/-- The CPU that is chosen is one of the list. -/
theorem mem_of_targetCpuno {m : IntMap} {cpus : List (Nat × D)} {cpu : Nat}
    (target : targetCpuno m cpus = some cpu) : ∃ p ∈ cpus, p.1 = cpu := by
  obtain ⟨p, first, rfl⟩ := Option.map_eq_some_iff.mp target
  exact ⟨p, List.mem_of_find?_eq_some first, rfl⟩

/-- The first free CPU of a sorted list is a least used one. -/
theorem targetCpuno_least {m : IntMap} {cpus : List (Nat × D)} {cpu : Nat}
    (comparable : StrictWeakOn secondLt cpus)
    (sorted : cpus.Pairwise fun a b => ¬ secondLt b a) (target : targetCpuno m cpus = some cpu) :
    ∃ usage, (cpu, usage) ∈ cpus ∧
      ∀ cpu' usage', (cpu', usage') ∈ cpus → (cpu' : Int) ∉ m → ¬ usage' < usage := by
  obtain ⟨⟨first, usage⟩, found, rfl⟩ := Option.map_eq_some_iff.mp target
  obtain ⟨_, before, after, rfl, taken⟩ := List.find?_eq_some_iff_append.mp found
  have here : (first, usage) ∈ before ++ (first, usage) :: after := by simp
  refine ⟨usage, here, fun cpu' usage' mem isFree => ?_⟩
  rcases List.mem_append.mp mem with earlier | later
  · have held := taken _ earlier
    rw [Bool.not_not, Std.TreeMap.contains_iff_mem] at held
    exact absurd held isFree
  · have ordered := (List.pairwise_append.mp sorted).2.1
    rcases List.mem_cons.mp later with same | later
    · cases same
      exact fun less => comparable.1 _ here _ here less less
    · exact (List.pairwise_cons.mp ordered).1 (cpu', usage') later

/-- The lists that `perform` sorts. -/
theorem nodeSortedCpuList_spec {nuiod : Nuiod D} (sort : CpuSort D)
    (nodes : nuiod.numaNodes.length = nuiod.numaNumber) :
    ∃ lists, nuiod.nodeSortedCpuList sort = .ok lists ∧ ∀ i < nuiod.numaNumber, ∃ node,
      nuiod.numaNodes[i]? = some node ∧
        lists[i]? = some (sort.order i (cpuList nuiod.cpuUsage node)) := by
  have present : ∀ i < nuiod.numaNumber, ∃ node, nuiod.numaNodes[i]? = some node :=
    fun i inRange => ⟨_, List.getElem?_eq_getElem (by omega)⟩
  have each : ∀ i ∈ List.range nuiod.numaNumber, ∃ l, (do
      let node ← vecAt nuiod.numaNodes i
      .ok (sort.order i (cpuList nuiod.cpuUsage node)) : Except Fault _) = .ok l := by
    intro i mem
    obtain ⟨node, found⟩ := present i (List.mem_range.mp mem)
    rw [vecAt_eq_ok.mpr found]
    exact ⟨_, rfl⟩
  obtain ⟨lists, mapped⟩ := Meets.mapM_isOk.mpr each
  refine ⟨lists, mapped, fun i inRange => ?_⟩
  obtain ⟨node, found⟩ := present i inRange
  obtain ⟨l, sorted, listed⟩ := getElem?_of_mapM mapped (List.getElem?_range inRange)
  rw [vecAt_eq_ok.mpr found] at sorted
  cases sorted
  exact ⟨node, found, listed⟩

/-! ### One decision -/

omit [Double D] in
/-- A pin within the cpu map gets an answer. -/
theorem pinVcpuTo_eq {cpuNumber cpu : Nat} (domPtr : Option DomainPtr) (vcpu : Nat) (answer : Int)
    (inMap : cpu / 8 < cpuNumber / 8 + 1) :
    pinVcpuTo cpuNumber domPtr vcpu cpu answer =
      .ok (PinCall.ret ⟨domPtr, vcpu, cpu⟩ answer, ⟨domPtr, vcpu, cpu⟩) :=
  if_pos inMap

/-- The loop body for a tracked VM. -/
theorem performActCall_eq {lists : List (List (Nat × D))} {env : PinEnv D} {nuiod : Nuiod D}
    {entry : Decision × Nat} {vm : VmInfo D}
    (tracked : nuiod.vmInfosMap[entry.1.domId]? = some vm) :
    performActCall lists env nuiod entry =
      (if nuiod.cpuNodeMapping.getD vm.realCpuNo 0 = entry.1.cpuNodeId then
        .ok (nuiod.touched env entry, none)
      else do
        let cpus ← vecAtInt lists entry.1.cpuNodeId
        match targetCpuno nuiod.cpuVmMapping cpus with
        | none => .ok (nuiod.touched env entry, none)
        | some cpu => do
            let r ← pinVcpuTo nuiod.cpuNumber vm.domPtr 0 cpu (env.pin entry.2)
            if r.1 = -1 then .ok (nuiod.touched env entry, some r.2)
            else .ok ((nuiod.touched env entry).changeCpuVmMapping entry.1.domId vm cpu,
              some r.2)) := by
  have read : nuiod.vmInfosMap.getD entry.1.domId (VmInfo.new (env.rest entry.2)) = vm := by
    rw [Std.TreeMap.getD_eq_getD_getElem?, tracked, Option.getD_some]
  subst read
  rw [← getD_insertIfNew]
  rfl

section Act

variable {nuiod nuiod' : Nuiod D} {lists : List (List (Nat × D))} {env : PinEnv D}
  {entry : Decision × Nat} {vm : VmInfo D} {cpu : Nat}

/-- The decision of a VM that is on its node already. -/
theorem performAct_home (tracked : nuiod.vmInfosMap[entry.1.domId]? = some vm)
    (home : nuiod.cpuNodeMapping.getD vm.realCpuNo 0 = entry.1.cpuNodeId) :
    performAct lists env nuiod entry = .ok (nuiod.touched env entry) := by
  rw [performAct, performActCall_eq tracked, if_pos home]
  rfl

/-- The decision for a node without a free CPU. -/
theorem performAct_full (tracked : nuiod.vmInfosMap[entry.1.domId]? = some vm)
    (full : ∃ cpus, vecAtInt lists entry.1.cpuNodeId = .ok cpus ∧
      targetCpuno nuiod.cpuVmMapping cpus = none) :
    performAct lists env nuiod entry = .ok (nuiod.touched env entry) := by
  obtain ⟨cpus, listed, target⟩ := full
  rw [performAct, performActCall_eq tracked]
  split
  · rfl
  · simp only [listed, bind, Except.bind, target]

/-- The decision of a VM that is elsewhere, when there is a free CPU: what the call answers
decides. -/
theorem performActCall_target (tracked : nuiod.vmInfosMap[entry.1.domId]? = some vm)
    (elsewhere : nuiod.cpuNodeMapping.getD vm.realCpuNo 0 ≠ entry.1.cpuNodeId)
    (target : ∃ cpus, vecAtInt lists entry.1.cpuNodeId = .ok cpus ∧
      targetCpuno nuiod.cpuVmMapping cpus = some cpu)
    (inMap : cpu / 8 < nuiod.cpuNumber / 8 + 1) :
    performActCall lists env nuiod entry =
      .ok (if PinCall.ret ⟨vm.domPtr, 0, cpu⟩ (env.pin entry.2) = -1 then nuiod.touched env entry
        else (nuiod.touched env entry).changeCpuVmMapping entry.1.domId vm cpu,
        some ⟨vm.domPtr, 0, cpu⟩) := by
  obtain ⟨cpus, listed, target⟩ := target
  rw [performActCall_eq tracked, if_neg elsewhere]
  simp only [listed, bind, Except.bind, target, pinVcpuTo_eq vm.domPtr 0 (env.pin entry.2) inMap]
  split
  · rfl
  · rfl

/-- The call that a decision makes. -/
theorem performActCall_made {call : PinCall} (tracked : nuiod.vmInfosMap[entry.1.domId]? = some vm)
    (done : performActCall lists env nuiod entry = .ok (nuiod', some call)) :
    call.domain = vm.domPtr ∧ call.vcpu = 0 ∧
      nuiod.cpuNodeMapping.getD vm.realCpuNo 0 ≠ entry.1.cpuNodeId ∧
      (∃ cpus, vecAtInt lists entry.1.cpuNodeId = .ok cpus ∧
        targetCpuno nuiod.cpuVmMapping cpus = some call.cpu) ∧
      nuiod' = if call.ret (env.pin entry.2) = -1 then nuiod.touched env entry
        else (nuiod.touched env entry).changeCpuVmMapping entry.1.domId vm call.cpu := by
  rw [performActCall_eq tracked] at done
  split at done
  · cases done
  · rename_i elsewhere
    obtain ⟨cpus, listed, done⟩ := bind_eq_ok.mp done
    cases target : targetCpuno nuiod.cpuVmMapping cpus with
    | none =>
        simp only [target] at done
        cases done
    | some cpu =>
        simp only [target] at done
        obtain ⟨⟨ret, made⟩, pinned, done⟩ := bind_eq_ok.mp done
        obtain ⟨rfl, rfl⟩ := pinVcpuTo_spec pinned
        split at done
        · rename_i refused
          cases done
          exact ⟨rfl, rfl, elsewhere, ⟨cpus, listed, target⟩, (if_pos refused).symm⟩
        · rename_i taken
          cases done
          exact ⟨rfl, rfl, elsewhere, ⟨cpus, listed, target⟩, (if_neg taken).symm⟩

/-- A decision without a call. -/
theorem performActCall_quiet (done : performActCall lists env nuiod entry = .ok (nuiod', none)) :
    nuiod' = nuiod.touched env entry := by
  rcases performActCall_spec done with ⟨_, _, _, made, _⟩ | ⟨_, _, stays⟩
  · cases made
  · exact stays

end Act

theorem SameMaps.of_touched {nuiod : Nuiod D} (env : PinEnv D) {entry : Decision × Nat}
    (tracked : entry.1.domId ∈ nuiod.vmInfosMap) : SameMaps nuiod (nuiod.touched env entry) :=
  ⟨touched_tracked tracked, rfl⟩

/-- A decision goes through if the CPUs of its node are in the cpu map of libvirt. -/
theorem exists_performAct {nuiod : Nuiod D} {lists : List (List (Nat × D))} (env : PinEnv D)
    {entry : Decision × Nat} {cpus : List (Nat × D)} (tracked : entry.1.domId ∈ nuiod.vmInfosMap)
    (listed : vecAtInt lists entry.1.cpuNodeId = .ok cpus)
    (inMap : ∀ p ∈ cpus, p.1 / 8 < nuiod.cpuNumber / 8 + 1) :
    ∃ nuiod', performAct lists env nuiod entry = .ok nuiod' := by
  obtain ⟨vm, found⟩ := mem_iff_getElem?.mp tracked
  by_cases home : nuiod.cpuNodeMapping.getD vm.realCpuNo 0 = entry.1.cpuNodeId
  · exact ⟨_, performAct_home found home⟩
  · cases target : targetCpuno nuiod.cpuVmMapping cpus with
    | none => exact ⟨_, performAct_full found ⟨cpus, listed, target⟩⟩
    | some cpu =>
        obtain ⟨p, mem, rfl⟩ := mem_of_targetCpuno target
        rw [performAct, performActCall_target found home ⟨cpus, listed, target⟩ (inMap p mem)]
        exact ⟨_, rfl⟩

/-- Decisions for tracked VMs go through if each does: the VMs stay the same ones. -/
theorem performs_of_progress {lists : List (List (Nat × D))} {env : PinEnv D}
    {good : Nuiod D → Prop} {entries : List (Decision × Nat)}
    (goes : ∀ entry ∈ entries, ∀ s : Nuiod D, good s → entry.1.domId ∈ s.vmInfosMap →
      ∃ s', performAct lists env s entry = .ok s' ∧ good s')
    {nuiod : Nuiod D} (start : good nuiod)
    (tracked : ∀ entry ∈ entries, entry.1.domId ∈ nuiod.vmInfosMap) :
    ∃ final, Run (performAct lists env) Anything nuiod entries final ∧ good final := by
  have act : ∀ entry ∈ entries, ∀ s : Nuiod D,
      (good s ∧ ∀ id : Int, id ∈ s.vmInfosMap ↔ id ∈ nuiod.vmInfosMap) →
      ∃ s', performAct lists env s entry = .ok s' ∧
        good s' ∧ ∀ id : Int, id ∈ s'.vmInfosMap ↔ id ∈ nuiod.vmInfosMap := by
    rintro entry mem s ⟨holds, vms⟩
    have here := (vms _).mpr (tracked entry mem)
    obtain ⟨s', performed, holds'⟩ := goes entry mem s holds here
    exact ⟨s', performed, holds', fun id => (act_keys here performed id).trans (vms id)⟩
  obtain ⟨final, run, holds, _⟩ := Run.exists_of_progress act ⟨start, fun _ => .rfl⟩
  exact ⟨final, run, holds⟩

/-! ### VMs that were moved -/

/-- The VM has the entry of its CPU. -/
def Seated (nuiod : Nuiod D) (id : Int) : Prop :=
  ∃ vm, nuiod.vmInfosMap[id]? = some vm ∧ vm.domId = id ∧
    nuiod.cpuVmMapping[vm.realCpuNo]? = some id

section Acts

variable {nuiod nuiod' : Nuiod D} {lists : List (List (Nat × D))} {env : PinEnv D}
  {entry : Decision × Nat}

/-- A VM that is pinned is seated afterwards. -/
theorem Pins.seated {vm : VmInfo D} {cpu : Nat} (agree : KeysAgree nuiod.vmInfosMap)
    (pins : Pins nuiod lists env entry vm cpu) :
    Seated ((nuiod.touched env entry).changeCpuVmMapping entry.1.domId vm cpu) entry.1.domId := by
  have own := agree _ vm pins.tracked
  refine ⟨{ vm with realCpuNo := cpu }, ?_, own, ?_⟩
  · simp [changeCpuVmMapping]
  · simp [changeCpuVmMapping, own]

/-- A decision leaves every seated VM seated: a CPU with an entry is never chosen. -/
theorem Seated.act {id : Int} (seated : Seated nuiod id) (agree : KeysAgree nuiod.vmInfosMap)
    (tracked : entry.1.domId ∈ nuiod.vmInfosMap)
    (done : performAct lists env nuiod entry = .ok nuiod') : Seated nuiod' id := by
  rcases performAct_spec done with ⟨vm, cpu, pins, rfl⟩ | ⟨_, rfl⟩
  · by_cases self : id = entry.1.domId
    · subst self
      exact pins.seated agree
    · obtain ⟨other, found, own, held⟩ := seated
      obtain ⟨cpus, listed, target⟩ := pins.target
      have isFree : nuiod.cpuVmMapping[(cpu : Int)]? = none :=
        Std.TreeMap.getElem?_eq_none (targetCpuno_free target)
      refine ⟨other, ?_, own, ?_⟩
      · simp only [changeCpuVmMapping, Std.TreeMap.getElem?_insert, compare_eq_iff_eq,
          touched_tracked tracked, found]
        rw [if_neg (Ne.symm self)]
      · rw [← agree _ vm pins.tracked] at self
        have kept := take_release_keeps (c := vm.realCpuNo) held self isFree
        have entries := congrFun (getElem?_insert (releaseCpu nuiod.cpuVmMapping vm.realCpuNo
          vm.domId) cpu vm.domId) other.realCpuNo
        rw [getElem?_releaseCpu] at entries
        exact entries.trans kept
  · obtain ⟨vm, found, own, held⟩ := seated
    exact ⟨vm, (touched_tracked tracked id).trans found, own, held⟩

/-- The keys agree with the ids, and the decisions name tracked VMs. -/
structure NamesTracked (nuiod : Nuiod D) (entries : List (Decision × Nat)) : Prop where
  agree : KeysAgree nuiod.vmInfosMap
  tracked : ∀ entry ∈ entries, entry.1.domId ∈ nuiod.vmInfosMap

theorem NamesTracked.step {rest : List (Decision × Nat)}
    (tracks : NamesTracked nuiod (entry :: rest))
    (done : performAct lists env nuiod entry = .ok nuiod') : NamesTracked nuiod' rest := by
  have own := tracks.tracked entry List.mem_cons_self
  refine ⟨move_keysAgree (m := .act lists env entry) tracks.agree own done, fun later mem => ?_⟩
  exact (act_keys own done _).mpr (tracks.tracked later (List.mem_cons_of_mem entry mem))

theorem NamesTracked.run {before after : List (Decision × Nat)}
    (tracks : NamesTracked nuiod (before ++ after))
    (run : Run (performAct lists env) Anything nuiod before nuiod') : NamesTracked nuiod' after := by
  induction run with
  | nil => exact tracks
  | cons _ stepped _ ih => exact ih (tracks.step stepped)

/-- VMs that no decision names are left alone. -/
theorem frame_run {entries : List (Decision × Nat)} (tracks : NamesTracked nuiod entries)
    (run : Run (performAct lists env) Anything nuiod entries nuiod') {k : Int}
    (unnamed : ∀ entry ∈ entries, entry.1.domId ≠ k) :
    nuiod'.vmInfosMap[k]? = nuiod.vmInfosMap[k]? := by
  induction run with
  | nil => rfl
  | @cons nuiod mid final entry rest _ stepped _ ih =>
      rw [ih (tracks.step stepped) fun later mem => unnamed later (List.mem_cons_of_mem entry mem)]
      have own := tracks.tracked entry List.mem_cons_self
      have other := unnamed entry List.mem_cons_self
      rcases performAct_spec stepped with ⟨vm, cpu, _, rfl⟩ | ⟨_, rfl⟩
      · simp only [changeCpuVmMapping, Std.TreeMap.getElem?_insert, compare_eq_iff_eq, other,
          if_false]
        exact touched_tracked own k
      · exact touched_tracked own k

theorem Seated.run {entries : List (Decision × Nat)} {id : Int} (seated : Seated nuiod id)
    (tracks : NamesTracked nuiod entries)
    (run : Run (performAct lists env) Anything nuiod entries nuiod') : Seated nuiod' id := by
  induction run with
  | nil => exact seated
  | @cons _ _ _ entry _ _ stepped _ ih =>
      have own := tracks.tracked entry List.mem_cons_self
      exact ih (seated.act tracks.agree own stepped) (tracks.step stepped)

end Acts

/-- A decision of the list moved the VM. -/
def Repinned (lists : List (List (Nat × D))) (env : PinEnv D) (nuiod : Nuiod D)
    (entries : List (Decision × Nat)) (id : Int) : Prop :=
  ∃ before entry after mid vm cpu, entries = before ++ entry :: after ∧
    Run (performAct lists env) Anything nuiod before mid ∧ Pins mid lists env entry vm cpu ∧
    entry.1.domId = id

/-- A VM that was moved still has the entry of its CPU when the decisions are performed. -/
theorem Repinned.seated {lists : List (List (Nat × D))} {env : PinEnv D} {nuiod nuiod' : Nuiod D}
    {entries : List (Decision × Nat)} {id : Int} (repinned : Repinned lists env nuiod entries id)
    (tracks : NamesTracked nuiod entries)
    (run : Run (performAct lists env) Anything nuiod entries nuiod') : Seated nuiod' id := by
  obtain ⟨before, entry, after, mid, vm, cpu, rfl, first, pins, rfl⟩ := repinned
  obtain ⟨mid', first', later⟩ := run.split
  obtain rfl : mid = mid' :=
    Except.ok.inj ((Run.foldlM_iff.mpr first).symm.trans (Run.foldlM_iff.mpr first'))
  have tracksMid := tracks.run first
  cases later with
  | cons _ stepped rest =>
      refine Seated.run ?_ (tracksMid.step stepped) rest
      rcases performAct_spec stepped with ⟨vm', cpu', pins', rfl⟩ | ⟨stays, _⟩
      · exact pins'.seated tracksMid.agree
      · exact absurd pins (stays vm cpu)

/-! ### Soundness -/

/-- What performing one decision in the state `mid` comes to: `made` is the call it makes and
`next` the state it leaves. -/
structure ActSound (nuiod mid next : Nuiod D) (env : PinEnv D) (entry : Decision × Nat)
    (made : Option PinCall) : Prop where
  /-- a call pins the VM to a least used free CPU of the decided node -/
  pin : ∀ call, made = some call → call.vcpu = 0 ∧
    (∃ vm, mid.vmInfosMap[entry.1.domId]? = some vm ∧ call.domain = vm.domPtr) ∧
    LeastFree nuiod mid.cpuVmMapping entry.1 call.cpu
  /-- without a call nothing changes -/
  quiet : made = none → SameMaps mid next
  /-- a call that fails changes nothing -/
  failed : ∀ call, made = some call → call.ret (env.pin entry.2) = -1 → SameMaps mid next
  /-- one that succeeds gives the VM the CPU of the call -/
  moved : ∀ call, made = some call → call.ret (env.pin entry.2) ≠ -1 →
    ∃ vm, mid.vmInfosMap[entry.1.domId]? = some vm ∧
      next.vmInfosMap[entry.1.domId]? = some { vm with realCpuNo := call.cpu } ∧
      next.cpuVmMapping[(call.cpu : Int)]? = some vm.domId

/-- What the decisions in `entries` have done when the state is `mid`. -/
structure RunSound (nuiod mid : Nuiod D) (lists : List (List (Nat × D))) (env : PinEnv D)
    (entries : List (Decision × Nat)) : Prop where
  /-- a VM that is not named is as it was -/
  frame : ∀ k : Int, (∀ entry ∈ entries, entry.1.domId ≠ k) →
    mid.vmInfosMap[k]? = nuiod.vmInfosMap[k]?
  /-- the CPU of a VM that was moved is mapped to it -/
  seated : ∀ id, Repinned lists env nuiod entries id → Seated mid id
  distinct : ∀ id id' vm vm', Repinned lists env nuiod entries id →
    Repinned lists env nuiod entries id' → mid.vmInfosMap[id]? = some vm →
    mid.vmInfosMap[id']? = some vm' → vm.realCpuNo = vm'.realCpuNo → id = id'

theorem RunSound.of_run {lists : List (List (Nat × D))} {env : PinEnv D} {nuiod mid : Nuiod D}
    {entries : List (Decision × Nat)} (tracks : NamesTracked nuiod entries)
    (run : Run (performAct lists env) Anything nuiod entries mid) :
    RunSound nuiod mid lists env entries where
  frame _ unnamed := frame_run tracks run unnamed
  seated _ repinned := repinned.seated tracks run
  distinct id id' vm vm' repinned repinned' found found' same := by
    obtain ⟨_, here, _, held⟩ := repinned.seated tracks run
    obtain ⟨_, here', _, held'⟩ := repinned'.seated tracks run
    obtain rfl := Option.some.inj (here.symm.trans found)
    obtain rfl := Option.some.inj (here'.symm.trans found')
    rw [same] at held
    exact Option.some.inj (held.symm.trans held')

/-- The lists that `perform` has sorted, of usages that can be compared. -/
structure Sorted (nuiod : Nuiod D) (lists : List (List (Nat × D))) : Prop where
  listed : ∀ i < nuiod.numaNumber, ∃ node cpus, nuiod.numaNodes[i]? = some node ∧
    lists[i]? = some cpus ∧ cpus.Perm (cpuList nuiod.cpuUsage node) ∧
    StrictWeakOn secondLt cpus ∧ cpus.Pairwise fun a b => ¬ secondLt b a

theorem sorted_of_comparable {nuiod : Nuiod D} (sort : CpuSort D)
    (nodes : nuiod.numaNodes.length = nuiod.numaNumber)
    (comparable : StrictWeakOn (fun a b : D => a < b) nuiod.cpuUsage) :
    ∃ lists, nuiod.nodeSortedCpuList sort = .ok lists ∧ Sorted nuiod lists := by
  obtain ⟨lists, sorts, listed⟩ := nodeSortedCpuList_spec sort nodes
  refine ⟨lists, sorts, ⟨fun i inRange => ?_⟩⟩
  obtain ⟨node, found, here⟩ := listed i inRange
  have usages : ∀ p ∈ cpuList nuiod.cpuUsage node, p.2 ∈ nuiod.cpuUsage := fun p mem =>
    List.mem_of_getElem? (mem_cpuList.mp mem).2
  have weak : StrictWeakOn secondLt (cpuList nuiod.cpuUsage node) :=
    ⟨fun a aMem b bMem => comparable.1 _ (usages a aMem) _ (usages b bMem),
      fun a aMem b bMem c cMem => comparable.2 _ (usages a aMem) _ (usages b bMem) _ (usages c cMem)⟩
  have perm := sort.perm i (cpuList nuiod.cpuUsage node)
  refine ⟨node, _, found, here, perm, ⟨fun a aMem b bMem => ?_, fun a aMem b bMem c cMem => ?_⟩,
    sort.ascending i _ weak⟩
  · exact weak.1 a (perm.mem_iff.mp aMem) b (perm.mem_iff.mp bMem)
  · exact weak.2 a (perm.mem_iff.mp aMem) b (perm.mem_iff.mp bMem) c (perm.mem_iff.mp cMem)

/-- The decided node is one. -/
def NodeInRange (nuiod : Nuiod D) (act : Decision) : Prop :=
  0 ≤ act.cpuNodeId ∧ act.cpuNodeId < nuiod.numaNumber

instance (nuiod : Nuiod D) (act : Decision) : Decidable (NodeInRange nuiod act) :=
  inferInstanceAs (Decidable (_ ∧ _))

section Sorted

variable {nuiod mid : Nuiod D} {lists : List (List (Nat × D))} {env : PinEnv D}
  {entry : Decision × Nat}

theorem leastFree_of_target {cpu : Nat} (sorted : Sorted nuiod lists)
    (inRange : NodeInRange nuiod entry.1)
    (target : ∃ cpus, vecAtInt lists entry.1.cpuNodeId = .ok cpus ∧
      targetCpuno mid.cpuVmMapping cpus = some cpu) :
    LeastFree nuiod mid.cpuVmMapping entry.1 cpu := by
  obtain ⟨cpus, listed, target⟩ := target
  obtain ⟨nonneg, upper⟩ := inRange
  obtain ⟨node, cpus', found, listed', perm, weak, ascending⟩ :=
    sorted.listed entry.1.cpuNodeId.toNat (by omega)
  obtain rfl : cpus = cpus' := by
    rw [(vecAtInt_eq_ok.mp listed).2] at listed'
    exact Option.some.inj listed'
  obtain ⟨usage, mem, least⟩ := targetCpuno_least weak ascending target
  obtain ⟨onNode, used⟩ := mem_cpuList.mp (perm.mem_iff.mp mem)
  refine ⟨targetCpuno_free target, node, usage, found, onNode, used, ?_⟩
  intro cpu' usage' onNode' used'
  exact least cpu' usage' (perm.mem_iff.mpr (mem_cpuList.mpr ⟨onNode', used'⟩))

theorem ActSound.of_tracked {next : Nuiod D} {made : Option PinCall} (sorted : Sorted nuiod lists)
    (inRange : NodeInRange nuiod entry.1) (tracked : entry.1.domId ∈ mid.vmInfosMap)
    (done : performActCall lists env mid entry = .ok (next, made)) :
    ActSound nuiod mid next env entry made := by
  obtain ⟨vm, found⟩ := mem_iff_getElem?.mp tracked
  cases made with
  | none =>
      obtain rfl := performActCall_quiet done
      exact ⟨nofun, fun _ => .of_touched env tracked, nofun, nofun⟩
  | some call =>
      obtain ⟨domain, vcpu, _, target, left⟩ := performActCall_made found done
      refine ⟨fun _ same => ?_, nofun, fun _ same failed => ?_, fun _ same succeeded => ?_⟩
      · cases same
        exact ⟨vcpu, ⟨vm, found, domain⟩, leastFree_of_target sorted inRange target⟩
      · cases same
        rw [left, if_pos failed]
        exact .of_touched env tracked
      · cases same
        rw [left, if_neg succeeded]
        refine ⟨vm, found, ?_, ?_⟩
        · simp [changeCpuVmMapping]
        · simp [changeCpuVmMapping]

/-- With a CPU for each usage that is in the cpu map of libvirt, no decision faults. -/
theorem exists_performs {entries : List (Decision × Nat)} (sorted : Sorted nuiod lists)
    (fits : nuiod.cpuUsage.length ≤ nuiod.cpuNumber + 2)
    (inRange : ∀ entry ∈ entries, NodeInRange nuiod entry.1) (tracks : NamesTracked mid entries)
    (sameNumber : mid.cpuNumber = nuiod.cpuNumber) :
    ∃ final, Run (performAct lists env) Anything mid entries final := by
  have act : ∀ entry ∈ entries, ∀ s : Nuiod D, s.cpuNumber = nuiod.cpuNumber →
      entry.1.domId ∈ s.vmInfosMap →
      ∃ s', performAct lists env s entry = .ok s' ∧ s'.cpuNumber = nuiod.cpuNumber := by
    intro entry mem s same here
    obtain ⟨nonneg, upper⟩ := inRange entry mem
    obtain ⟨node, cpus, _, listed, perm, _⟩ := sorted.listed entry.1.cpuNodeId.toNat (by omega)
    have inMap : ∀ p ∈ cpus, p.1 / 8 < s.cpuNumber / 8 + 1 := by
      intro p mem
      have used := (mem_cpuList.mp (perm.mem_iff.mp mem)).2
      obtain ⟨covered, _⟩ := List.getElem?_eq_some_iff.mp used
      omega
    obtain ⟨s', performed⟩ := exists_performAct env here (vecAtInt_eq_ok.mpr ⟨nonneg, listed⟩) inMap
    refine ⟨s', performed, ?_⟩
    rcases performAct_spec performed with ⟨_, _, _, rfl⟩ | ⟨_, rfl⟩
    · exact same
    · exact same
  obtain ⟨final, run, _⟩ := performs_of_progress act sameNumber tracks.tracked
  exact ⟨final, run⟩

end Sorted

/-- `perform` on decisions for tracked VMs and existing nodes: every call pins the VM of the
decision to a least used free CPU of its node, a failed one changes nothing, other VMs are left
alone, and the VMs that were moved hold different CPUs, each with its own entry. -/
theorem perform_sound (nuiod : Nuiod D) (acts : List Decision) (sort : CpuSort D)
    (env : PinEnv D) (agree : KeysAgree nuiod.vmInfosMap)
    (tracked : ∀ act ∈ acts, act.domId ∈ nuiod.vmInfosMap)
    (inRange : ∀ act ∈ acts, NodeInRange nuiod act)
    (nodes : nuiod.numaNodes.length = nuiod.numaNumber)
    (comparable : StrictWeakOn (fun a b : D => a < b) nuiod.cpuUsage) :
    ∃ lists, nuiod.nodeSortedCpuList sort = .ok lists ∧
      (∀ before entry after mid next made, acts.zipIdx = before ++ entry :: after →
        Run (performAct lists env) Anything nuiod before mid →
        performActCall lists env mid entry = .ok (next, made) →
        ActSound nuiod mid next env entry made) ∧
      (∀ before after mid, acts.zipIdx = before ++ after →
        Run (performAct lists env) Anything nuiod before mid →
        RunSound nuiod mid lists env before) ∧
      (∀ final, nuiod.perform acts sort env = .ok final →
        RunSound nuiod final lists env acts.zipIdx) ∧
      (nuiod.cpuUsage.length ≤ nuiod.cpuNumber + 2 →
        ∃ final, nuiod.perform acts sort env = .ok final) := by
  obtain ⟨lists, sorts, sorted⟩ := sorted_of_comparable sort nodes comparable
  have listed : ∀ entry ∈ acts.zipIdx, entry.1 ∈ acts := fun _ mem => List.fst_mem_of_mem_zipIdx mem
  have tracks : NamesTracked nuiod acts.zipIdx :=
    ⟨agree, fun entry mem => tracked entry.1 (listed entry mem)⟩
  have performs : nuiod.perform acts sort env = acts.zipIdx.foldlM (performAct lists env) nuiod := by
    simp only [perform, sorts, bind, Except.bind]
  refine ⟨lists, sorts, ?_, ?_, ?_, ?_⟩
  · intro before entry after mid next made whole run done
    rw [whole] at tracks
    have own := (tracks.run run).tracked entry List.mem_cons_self
    exact .of_tracked sorted (inRange entry.1 (listed entry (by simp [whole]))) own done
  · intro before after mid whole run
    rw [whole] at tracks
    exact .of_run ⟨agree, fun entry mem => tracks.tracked entry (List.mem_append_left after mem)⟩ run
  · intro final done
    exact .of_run tracks (Run.foldlM_iff.mp (performs.symm.trans done))
  · intro fits
    obtain ⟨final, run⟩ := exists_performs sorted fits
      (fun entry mem => inRange entry.1 (listed entry mem)) tracks rfl
    exact ⟨final, performs.trans (Run.foldlM_iff.mpr run)⟩

/-- Two nodes of one CPU each, with a VM on the first. -/
def onFirstCpu : Nuiod ℚ :=
  { smallNuiod with
    vmInfosMap := vmMapOf [{ steadyVm 1 0 0 0 50 with domPtr := some 1 }]
    cpuNodeMapping := ((∅ : IntMap).insert 0 0).insert 1 1
    cpuVmMapping := (∅ : IntMap).insert 0 1
    numaNodes := twoNodes
    cpuUsage := [50, 80, 20] }

/-- Every pin succeeds. -/
def willing : PinEnv ℚ := ⟨fun _ => 0, fun _ => zeroed⟩

/-- The VM is moved to the other CPU. -/
theorem perform_sound_onFirstCpu : ∃ lists next final,
    onFirstCpu.nodeSortedCpuList (UnstableSort.byRank id) = .ok lists ∧
      performActCall lists willing onFirstCpu (⟨1, 1, 1⟩, 0) = .ok (next, some ⟨some 1, 0, 1⟩) ∧
      ActSound onFirstCpu onFirstCpu next willing (⟨1, 1, 1⟩, 0) (some ⟨some 1, 0, 1⟩) ∧
      onFirstCpu.perform [⟨1, 1, 1⟩] (UnstableSort.byRank id) willing = .ok final ∧
      RunSound onFirstCpu final lists willing [(⟨1, 1, 1⟩, 0)] := by
  obtain ⟨lists, sorts, act, _, all, ends⟩ := perform_sound onFirstCpu [⟨1, 1, 1⟩]
    (UnstableSort.byRank id) willing (vmMapOf_agree _) (by decide +kernel) (by decide +kernel) rfl
    (lt_strictWeakOn _)
  obtain ⟨final, done⟩ := ends (by decide +kernel)
  obtain ⟨lists', sorts', checked⟩ := exists_returned
    (onFirstCpu.nodeSortedCpuList (UnstableSort.byRank id))
    (fun lists => returns (fun r => r.2 == some ⟨some 1, 0, 1⟩)
      (performActCall lists willing onFirstCpu (⟨1, 1, 1⟩, 0))) (by decide +kernel)
  cases sorts.symm.trans sorts'
  obtain ⟨⟨next, made⟩, called, same⟩ := returns_iff.mp checked
  obtain rfl := eq_of_beq same
  exact ⟨lists, next, final, sorts, called, act [] _ [] _ next _ rfl (.nil _) called, done,
    all final done⟩

end VNams.Nuiod
