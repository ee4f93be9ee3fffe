import VNams.Nuiod.Perform

/-!
`refresh_cpu_mapping` as a reassignment in place.

libvirt reports a CPU for every VM, and the pass moves the VMs there one at a time, so in
between an entry may be missing or name a VM that has yet to move. `Settles` is what holds
in between; it does not depend on the order of the visits.
-/

namespace VNams.Nuiod

open Lib Strategy

variable {D : Type}

/-- The CPU recorded for a domain, -1 included. -/
def recordedCpu (nuiod : Nuiod D) (id : Int) : Option Int :=
  (nuiod.vmInfosMap[id]?).map VmInfo.realCpuNo

theorem recordedCpu_eq_some {nuiod : Nuiod D} {id c : Int} :
    nuiod.recordedCpu id = some c ↔ ∃ vm, nuiod.vmInfosMap[id]? = some vm ∧ vm.realCpuNo = c :=
  Option.map_eq_some_iff

/-- `cpu_vm_mapping` is exactly the inverse of the CPUs recorded for the tracked VMs. -/
def InverseMaps (nuiod : Nuiod D) : Prop :=
  ∀ c id : Int, nuiod.cpuVmMapping[c]? = some id ↔ nuiod.recordedCpu id = some c

/-- In such a state no two VMs are recorded on one CPU. -/
theorem InverseMaps.injective {nuiod : Nuiod D} (inverse : InverseMaps nuiod) {id id' c : Int}
    (first : nuiod.recordedCpu id = some c) (second : nuiod.recordedCpu id' = some c) : id = id' :=
  Option.some.inj (((inverse c id).mpr first).symm.trans ((inverse c id').mpr second))

/-- libvirt knows every VM and reports a CPU of its own for it. -/
structure Reassigns (nuiod : Nuiod D) (report : Int → Option Int) : Prop where
  handle : ∀ (id : Int) (vm : VmInfo D), nuiod.vmInfosMap[id]? = some vm → vm.domPtr ≠ none
  known : ∀ id ∈ nuiod.vmInfosMap, ∃ c, report id = some c ∧ c ≠ -1
  distinct : ∀ id ∈ nuiod.vmInfosMap, ∀ id' ∈ nuiod.vmInfosMap, report id = report id' → id = id'

/-- The state after a complete pass: every VM is on the CPU reported and otherwise the same,
and the map is the inverse of the new assignment. -/
structure Realises (nuiod : Nuiod D) (report : Int → Option Int) (nuiod' : Nuiod D) : Prop where
  vms : ∀ id : Int, nuiod'.vmInfosMap[id]? =
    (nuiod.vmInfosMap[id]?).map fun vm => { vm with realCpuNo := (report id).getD (-1) }
  reported : ∀ id ∈ nuiod.vmInfosMap, nuiod'.recordedCpu id = report id
  inverse : InverseMaps nuiod'

/-- A pass in progress over the VMs of `nuiod`, after the visits to `visited`. -/
structure Refreshing (nuiod : Nuiod D) (report : Int → Option Int) (visited : List Int)
    (mid : Nuiod D) : Prop where
  vms : ∀ id : Int, mid.vmInfosMap[id]? = (nuiod.vmInfosMap[id]?).map fun vm =>
    if id ∈ visited then { vm with realCpuNo := (report id).getD (-1) } else vm
  settles : Settles (fun id => if id ∈ nuiod.vmInfosMap then report id else none)
    (fun c : Int => mid.cpuVmMapping[c]?) mid.recordedCpu

namespace Refreshing

variable {nuiod mid : Nuiod D} {report : Int → Option Int} {visited : List Int}

/-- A VM that is recorded is one of those the pass began with. -/
theorem tracked (refreshing : Refreshing nuiod report visited mid) {id c : Int}
    (sits : mid.recordedCpu id = some c) : id ∈ nuiod.vmInfosMap := by
  obtain ⟨vm, present, _⟩ := recordedCpu_eq_some.mp sits
  rw [refreshing.vms] at present
  obtain ⟨vm, present, _⟩ := Option.map_eq_some_iff.mp present
  exact mem_iff_getElem?.mpr ⟨vm, present⟩

/-- A visited VM is recorded on the CPU reported for it. -/
theorem recordedCpu_visited (refreshing : Refreshing nuiod report visited mid)
    (reassigns : Reassigns nuiod report) {id : Int} (tracked : id ∈ nuiod.vmInfosMap)
    (seen : id ∈ visited) : mid.recordedCpu id = report id := by
  obtain ⟨vm, present⟩ := mem_iff_getElem?.mp tracked
  obtain ⟨c, reported, _⟩ := reassigns.known id tracked
  simp [recordedCpu, refreshing.vms, present, seen, reported]

/-- The rest of a VM does not depend on the visits. -/
theorem present (refreshing : Refreshing nuiod report visited mid) {id : Int} {vm : VmInfo D}
    (found : nuiod.vmInfosMap[id]? = some vm) :
    ∃ cpu, mid.vmInfosMap[id]? = some { vm with realCpuNo := cpu } := by
  rw [refreshing.vms, found]
  by_cases seen : id ∈ visited
  · exact ⟨(report id).getD (-1), by simp [seen]⟩
  · exact ⟨vm.realCpuNo, by simp [seen]⟩

/-- A visit writes the VM it is for. -/
theorem visit (refreshing : Refreshing nuiod report visited mid) {next : Nuiod D} {id : Int}
    (written : next.vmInfosMap[id]? =
      (nuiod.vmInfosMap[id]?).map fun vm => { vm with realCpuNo := (report id).getD (-1) })
    (others : ∀ x : Int, x ≠ id → next.vmInfosMap[x]? = mid.vmInfosMap[x]?)
    (settles : Settles (fun id => if id ∈ nuiod.vmInfosMap then report id else none)
      (fun c : Int => next.cpuVmMapping[c]?) next.recordedCpu) :
    Refreshing nuiod report (id :: visited) next := by
  refine ⟨fun x => ?_, settles⟩
  by_cases self : x = id
  · subst self
    simp [written]
  · rw [others x self, refreshing.vms]
    simp [self]

/-- The move of a VM to the CPU reported for it. -/
theorem settles_change (refreshing : Refreshing nuiod report visited mid)
    (reassigns : Reassigns nuiod report) {id c : Int} {vm : VmInfo D}
    (tracked : id ∈ nuiod.vmInfosMap) (found : mid.vmInfosMap[id]? = some vm)
    (own : vm.domId = id) (reported : report id = some c) :
    Settles (fun id => if id ∈ nuiod.vmInfosMap then report id else none)
      (fun x : Int => (mid.changeCpuVmMapping id vm c).cpuVmMapping[x]?)
      (mid.changeCpuVmMapping id vm c).recordedCpu := by
  have holders : (fun x : Int => (mid.changeCpuVmMapping id vm c).cpuVmMapping[x]?)
      = take (release (fun x : Int => mid.cpuVmMapping[x]?) vm.realCpuNo id) c id := by
    simp only [changeCpuVmMapping]
    rw [getElem?_insert, getElem?_releaseCpu, own]
  have seats : (mid.changeCpuVmMapping id vm c).recordedCpu
      = Function.update mid.recordedCpu id (some c) := by
    funext x
    simp only [recordedCpu, changeCpuVmMapping, Std.TreeMap.getElem?_insert, compare_eq_iff_eq]
    by_cases self : id = x
    · subst self
      simp
    · simp [self, Function.update_of_ne (Ne.symm self), recordedCpu]
  rw [holders, seats]
  refine refreshing.settles.move (recordedCpu_eq_some.mpr ⟨vm, found, rfl⟩) ?_ fun b wanted => ?_
  · rw [if_pos tracked, reported]
  · split_ifs at wanted with present
    exact reassigns.distinct b present id tracked (wanted.trans reported.symm)

/-- One visit of the loop. -/
theorem step (refreshing : Refreshing nuiod report visited mid) (agree : KeysAgree nuiod.vmInfosMap)
    (reassigns : Reassigns nuiod report) (id : Int) :
    ∃ next, refreshVm report mid id = .ok next ∧
      Refreshing nuiod report (id :: visited) next := by
  cases found : nuiod.vmInfosMap[id]? with
  | none =>
      have missing : mid.vmInfosMap[id]? = none := by
        rw [refreshing.vms, found]
        rfl
      refine ⟨mid, by simp only [refreshVm, missing], ?_⟩
      exact refreshing.visit (by rw [missing, found]; rfl) (fun _ _ => rfl) refreshing.settles
  | some vm =>
      have tracked : id ∈ nuiod.vmInfosMap := mem_iff_getElem?.mpr ⟨vm, found⟩
      obtain ⟨cpu, present⟩ := refreshing.present found
      obtain ⟨c, reported, known⟩ := reassigns.known id tracked
      obtain ⟨p, handle⟩ := Option.ne_none_iff_exists'.mp (reassigns.handle id vm found)
      have answer : getVmRealCpu vm.domPtr (report id) = c := by
        simp [getVmRealCpu, handle, reported]
      simp only [refreshVm, present, answer, known, false_or]
      by_cases stays : c = cpu
      · subst stays
        refine ⟨mid, if_pos rfl, ?_⟩
        refine refreshing.visit ?_ (fun _ _ => rfl) refreshing.settles
        rw [present, found, reported]
        rfl
      · refine ⟨_, if_neg stays, ?_⟩
        refine refreshing.visit ?_ (fun x other => ?_)
          (refreshing.settles_change reassigns tracked present (agree id vm found) reported)
        · simp [changeCpuVmMapping, found, reported]
        · simp [changeCpuVmMapping, Std.TreeMap.getElem?_insert, Ne.symm other]

/-- The visits of a list of VMs. -/
theorem run (agree : KeysAgree nuiod.vmInfosMap) (reassigns : Reassigns nuiod report)
    (order : List Int) (refreshing : Refreshing nuiod report visited mid) :
    ∃ final, order.foldlM (refreshVm report) mid = .ok final ∧
      ∃ seen, Refreshing nuiod report seen final ∧ ∀ id, id ∈ seen ↔ id ∈ order ∨ id ∈ visited := by
  induction order generalizing mid visited with
  | nil => exact ⟨mid, rfl, visited, refreshing, by simp⟩
  | cons id rest ih =>
      obtain ⟨next, stepped, visits⟩ := refreshing.step agree reassigns id
      obtain ⟨final, later, seen, refreshed, covers⟩ := ih visits
      refine ⟨final, ?_, seen, refreshed, fun x => ?_⟩
      · rw [List.foldlM_cons, stepped]
        exact later
      · rw [covers, List.mem_cons, List.mem_cons, or_left_comm, or_assoc]

/-- When every VM was visited the reassignment is complete. -/
theorem realises (refreshing : Refreshing nuiod report visited mid)
    (reassigns : Reassigns nuiod report) (all : ∀ id ∈ nuiod.vmInfosMap, id ∈ visited) :
    Realises nuiod report mid := by
  have arrived : ∀ id ∈ nuiod.vmInfosMap, mid.recordedCpu id = report id := fun id tracked =>
    refreshing.recordedCpu_visited reassigns tracked (all id tracked)
  refine ⟨fun id => ?_, arrived, refreshing.settles.exact_of_arrived fun id c sits => ?_⟩
  · rw [refreshing.vms]
    cases found : nuiod.vmInfosMap[id]? with
    | none => rfl
    | some vm => simp [all id (mem_iff_getElem?.mpr ⟨vm, found⟩)]
  · have tracked := refreshing.tracked sits
    rw [if_pos tracked, ← arrived id tracked, sits]

end Refreshing

/-- A pass has begun when nobody was visited. -/
theorem InverseMaps.refreshing {nuiod : Nuiod D} (inverse : InverseMaps nuiod)
    (report : Int → Option Int) : Refreshing nuiod report [] nuiod :=
  ⟨fun id => by simp, .of_exact inverse⟩

/-- `refresh_cpu_mapping` realises any reassignment in place: in whatever order the VMs are
visited, once or more often, every VM ends on the CPU reported for it and `cpu_vm_mapping`
is exactly the inverse of the new assignment. -/
theorem refresh_realises (nuiod : Nuiod D) (report : Int → Option Int)
    (agree : KeysAgree nuiod.vmInfosMap) (inverse : InverseMaps nuiod)
    (reassigns : Reassigns nuiod report) :
    (∀ order : List Int, (∀ id ∈ nuiod.vmInfosMap, id ∈ order) →
      ∃ final, order.foldlM (refreshVm report) nuiod = .ok final ∧
        Realises nuiod report final) ∧
      ∃ final, nuiod.refreshCpuMapping report = .ok final ∧ Realises nuiod report final := by
  have inOrder : ∀ order : List Int, (∀ id ∈ nuiod.vmInfosMap, id ∈ order) →
      ∃ final, order.foldlM (refreshVm report) nuiod = .ok final ∧
        Realises nuiod report final := by
    intro order all
    obtain ⟨final, folded, seen, refreshed, covers⟩ :=
      Refreshing.run agree reassigns order (inverse.refreshing report)
    exact ⟨final, folded, refreshed.realises reassigns fun id tracked =>
      (covers id).mpr (.inl (all id tracked))⟩
  exact ⟨inOrder, inOrder nuiod.vmInfosMap.keys fun id tracked =>
    Std.TreeMap.mem_keys.mpr tracked⟩

/-- A VM with a handle that runs on a CPU. -/
def runningOn (id : Nat) (cpu : Int) : VmInfo ℚ :=
  { steadyVm id cpu cpu 0 50 with domPtr := some id }

/-- Two nodes of one CPU each, with a VM on either. -/
def onBothCpus : Nuiod ℚ :=
  { smallNuiod with
    vmInfosMap := vmMapOf [runningOn 1 0, runningOn 2 1]
    cpuNodeMapping := ((∅ : IntMap).insert 0 0).insert 1 1
    cpuVmMapping := ((∅ : IntMap).insert 0 1).insert 1 2
    numaNodes := twoNodes
    cpuUsage := [100, 50, 50] }

theorem onBothCpus_vms (id : Int) : onBothCpus.vmInfosMap[id]? =
    if id = 1 then some (runningOn 1 0) else if id = 2 then some (runningOn 2 1) else none := by
  have ids : (runningOn 1 0).domId = 1 ∧ (runningOn 2 1).domId = 2 := ⟨rfl, rfl⟩
  simp only [onBothCpus, vmMapOf, List.foldr_cons, List.foldr_nil, Std.TreeMap.getElem?_insert,
    compare_eq_iff_eq, ids, eq_comm (a := id)]
  rfl

theorem onBothCpus_inverse : InverseMaps onBothCpus := by
  intro c id
  simp only [recordedCpu, onBothCpus_vms]
  simp only [onBothCpus, Std.TreeMap.getElem?_insert]
  grind [runningOn, steadyVm]

/-- The two VMs exchange their CPUs. -/
def exchanged (id : Int) : Option Int := if id = 1 then some 1 else some 0

theorem refresh_realises_exchanged :
    (∀ order : List Int, (∀ id ∈ onBothCpus.vmInfosMap, id ∈ order) →
      ∃ final, order.foldlM (refreshVm exchanged) onBothCpus = .ok final ∧
        Realises onBothCpus exchanged final) ∧
      ∃ final, onBothCpus.refreshCpuMapping exchanged = .ok final ∧
        Realises onBothCpus exchanged final := by
  refine refresh_realises onBothCpus exchanged (vmMapOf_agree _) onBothCpus_inverse
    ⟨fun id vm tracked => ?_, fun id _ => ?_, fun id tracked id' tracked' same => ?_⟩
  · rw [onBothCpus_vms] at tracked
    grind [runningOn]
  · refine ⟨if id = 1 then 1 else 0, ?_, ?_⟩
    · unfold exchanged
      split <;> rfl
    · split <;> omega
  · rw [mem_iff_getElem?, onBothCpus_vms] at tracked tracked'
    unfold exchanged at same
    grind

end VNams.Nuiod
