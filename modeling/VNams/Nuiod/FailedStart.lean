import VNams.Nuiod.Seats
import VNams.Nuiod.Boot

/-!
What a failed start leaves behind.

`set_vm_info` notes a failure in a flag and carries on, and the entry it fills in is in
`vm_infos_map` before it begins; nothing takes the entry or the mapping of its CPU back. So
a VM whose start failed is tracked like any other, with the constructor's values where a
query failed (`LeftBehind`); other VMs and the entries that existed are not touched.
-/

namespace VNams.Nuiod

open Lib Lib.CText Monitor Strategy

variable {D : Type}

/-- The VF number that the domain's xml gives; `none` when there is no xml, or an attribute
is missing in it. -/
def vfFound (conf : DomainConf) (env : DomainEnv) : Except Fault (Option Int) :=
  match env.xml with
  | none => .ok none
  | some xml => vfNo conf.netdevPciBusStr conf.netdevPciSlotVal xml

/-- The pid of a new VM: the constructor's, unless the pid file holds a number. -/
def newPid (env : DomainEnv) : UInt32 := (env.pidFile.bind scanUnsigned).getD (UInt32.ofInt (-1))

/-- What can fail inside `set_vm_info`. -/
inductive StartFailure (conf : DomainConf) (env : DomainEnv) : Prop where
  | vcpu (unread : getVmRealCpu env.handle env.vcpu = -1)
  | name {name : Text} (named : env.name = some name) (tooLong : 64 ≤ name.length)
  | pidFile (missing : env.pidFile = none)
  | numaMaps {ret : Int} {distr : List UInt32} (failed : ret ≠ 0)
      (read : getProcMemNumaDistribution conf.numaNumber (env.numaMaps (newPid env)) []
        = .ok (ret, distr))
  | xml (unfound : vfFound conf env = .ok none)

/-- The VF number is written when the xml has it. -/
theorem setVf_eq_ok {conf : DomainConf} {env : DomainEnv} {vm vm' : VmInfo D} {found : Bool}
    (done : setVf conf env vm = .ok (found, vm')) :
    ∃ vf, vfFound conf env = .ok vf ∧ found = vf.isSome ∧
      vm' = { vm with vfNo := vf.getD vm.vfNo } := by
  unfold setVf at done
  unfold vfFound
  cases described : env.xml with
  | none =>
      rw [described] at done
      cases done
      exact ⟨none, rfl, rfl, rfl⟩
  | some xml =>
      rw [described] at done
      obtain ⟨vf, parsed, done⟩ := bind_eq_ok.mp done
      refine ⟨vf, parsed, ?_⟩
      cases vf with
      | none =>
          cases done
          exact ⟨rfl, rfl⟩
      | some vf =>
          cases done
          exact ⟨rfl, rfl⟩

/-- The flag, read off the answers. -/
theorem failed_iff {conf : DomainConf} {env : DomainEnv} {name : Text} {ret : Int}
    {distr : List UInt32} {vf : Option Int} (named : env.name = some name)
    (counted : getProcMemNumaDistribution conf.numaNumber (env.numaMaps (newPid env)) []
      = .ok (ret, distr)) (looked : vfFound conf env = .ok vf) :
    (if getVmRealCpu env.handle env.vcpu ≠ -1 ∧ name.length < 64 ∧ env.pidFile.isSome ∧
      decide (ret = 0) ∧ vf.isSome then (0 : Int) else -1) = -1 ↔ StartFailure conf env := by
  constructor
  · intro isFlag
    by_contra fine
    have succeeded : getVmRealCpu env.handle env.vcpu ≠ -1 ∧ name.length < 64 ∧
        env.pidFile.isSome ∧ decide (ret = 0) ∧ vf.isSome := by
      refine ⟨fun unread => fine (.vcpu unread), ?_, ?_, ?_, ?_⟩
      · by_contra tooLong
        exact fine (.name named (not_lt.mp tooLong))
      · by_contra missing
        exact fine (.pidFile (by simpa using missing))
      · by_contra failed
        exact fine (.numaMaps (by simpa using failed) counted)
      · by_contra unfound
        exact fine (.xml (looked.trans (by simpa using unfound)))
    rw [if_pos succeeded] at isFlag
    cases isFlag
  · intro failure
    apply if_neg
    rintro ⟨cpu, short, pid, pages, xml⟩
    cases failure with
    | vcpu unread => exact cpu unread
    | name named' tooLong =>
        cases named'.symm.trans named
        exact absurd short (not_lt.mpr tooLong)
    | pidFile missing => simp [missing] at pid
    | numaMaps failed read =>
        cases read.symm.trans counted
        exact failed (by simpa using pages)
    | xml unfound =>
        cases unfound.symm.trans looked
        cases xml

section Double

variable [Double D]

/-- The flag of `set_vm_info` for a new VM is -1 exactly when something failed, and the VF
number is the constructor's unless it was found. -/
theorem setVmInfo_flag {conf : DomainConf} {env : DomainEnv} {rest : Indeterminate D}
    {domId flag : Int} {vm : VmInfo D} {cpuVmMapping cpuVmMapping' : IntMap}
    (done : setVmInfo conf env (VmInfo.new rest) domId cpuVmMapping
      = .ok (flag, vm, cpuVmMapping')) :
    (flag = -1 ↔ StartFailure conf env) ∧
      ∃ vf, vfFound conf env = .ok vf ∧ vm.vfNo = vf.getD (-1) := by
  obtain ⟨name, named, done⟩ := bind_eq_ok.mp done
  obtain ⟨⟨memRead, vm₁⟩, memory, done⟩ := bind_eq_ok.mp done
  obtain ⟨⟨ret, distr⟩, counted, stored⟩ := bind_eq_ok.mp memory
  obtain ⟨⟨found, vm₂⟩, vfSet, done⟩ := bind_eq_ok.mp done
  have pagesRead : memRead = decide (ret = 0) := by
    cases stored
    rfl
  have fresh : vm₁.vfNo = -1 := by
    cases stored
    rfl
  obtain ⟨vf, looked, rfl, written⟩ := setVf_eq_ok vfSet
  have nameKnown : env.name = some name := by
    unfold domName at named
    split at named
    · cases named
      assumption
    · cases named
  have flagEq : flag = if getVmRealCpu env.handle env.vcpu ≠ -1 ∧ name.length < 64 ∧
      env.pidFile.isSome ∧ memRead ∧ vf.isSome then 0 else -1 := by
    cases done
    rfl
  have vmEq : vm = vm₂ := by
    cases done
    rfl
  refine ⟨?_, vf, looked, ?_⟩
  · subst pagesRead
    rw [flagEq]
    exact failed_iff nameKnown counted looked
  · rw [vmEq, written]
    show vf.getD vm₁.vfNo = _
    rw [fresh]

/-- The state after a start, failed or not: a new VM under the id, filled in as far as the
queries went, and an entry for the CPU it was seen on if that CPU had none. -/
structure LeftBehind (nuiod : Nuiod D) (e : Event) (rest : Indeterminate D) (nuiod' : Nuiod D)
    (vm : VmInfo D) : Prop where
  filled : Filled nuiod.toDomainConf e.domain rest e.domId vm
  vf : ∃ vf, vfFound nuiod.toDomainConf e.domain = .ok vf ∧ vm.vfNo = vf.getD (-1)
  entry : nuiod'.vmInfosMap[e.domId]? = some { vm with vmEventState := .started }
  otherVms : ∀ id : Int, id ≠ e.domId → nuiod'.vmInfosMap[id]? = nuiod.vmInfosMap[id]?
  cpus : ∀ c : Int, nuiod'.cpuVmMapping[c]? =
    if c = vm.realCpuNo ∧ c ≠ -1 ∧ nuiod.cpuVmMapping[c]? = none then some e.domId
    else nuiod.cpuVmMapping[c]?
  frame : nuiod' = { nuiod with
    vmInfosMap := nuiod'.vmInfosMap
    cpuVmMapping := nuiod'.cpuVmMapping }

/-- Seating as a look-up. -/
theorem getElem?_seatVm_eq (cpu domId c : Int) (m : IntMap) :
    (seatVm cpu domId m)[c]? =
      if c = cpu ∧ c ≠ -1 ∧ m[c]? = none then some domId else m[c]? := by
  unfold seatVm
  split_ifs with unknown new new
  · exact absurd (new.1.trans unknown) new.2.1
  · rfl
  · obtain ⟨rfl, _, free⟩ := new
    have absent : c ∉ m := by
      rw [mem_iff_getElem?, free]
      simp
    rw [Std.TreeMap.getElem?_insertIfNew, if_pos ⟨compare_eq_iff_eq.mpr rfl, absent⟩]
  · rw [Std.TreeMap.getElem?_insertIfNew, if_neg]
    rintro ⟨same, free⟩
    obtain rfl := compare_eq_iff_eq.mp same
    refine new ⟨rfl, unknown, ?_⟩
    exact Std.TreeMap.getElem?_eq_none free

/-- A start that returns -1 is one in which something failed, and it is not undone: the new
VM stays in `vm_infos_map`, as far as it was filled in, with the event state STARTED, and
the CPU it was seen on keeps the entry it got. The other VMs, the entries that existed
before and the rest of the daemon are left alone. -/
theorem failed_start_leaves (nuiod nuiod' : Nuiod D) (e : Event) (rest : Indeterminate D)
    (isStarted : e.event = .started)
    (failed : nuiod.virVMEventCallBack e rest = .ok (-1, nuiod')) :
    StartFailure nuiod.toDomainConf e.domain ∧ ∃ vm, LeftBehind nuiod e rest nuiod' vm := by
  unfold virVMEventCallBack at failed
  rw [if_pos isStarted] at failed
  obtain ⟨⟨flag, added⟩, adds, stored⟩ := bind_eq_ok.mp failed
  cases stored
  obtain ⟨vm, filled, same⟩ := addVm_spec adds
  obtain ⟨⟨flag, vm', mapping⟩, fills, put⟩ := bind_eq_ok.mp adds
  obtain ⟨flagIff, vf⟩ := setVmInfo_flag fills
  have flagEq : flag = -1 := by
    cases put
    rfl
  have vmEq : vm' = vm := by
    have found : added.vmInfosMap[e.domId]? = some vm' := by
      cases put
      exact Std.TreeMap.getElem?_insert_self
    rw [same] at found
    exact (Option.some.inj (Std.TreeMap.getElem?_insert_self.symm.trans found)).symm
  subst vmEq
  refine ⟨flagIff.mp flagEq, vm', filled, vf, ?_, fun id other => ?_, fun c => ?_, ?_⟩
  · rw [same, getElem?_modify_state, if_pos rfl, Std.TreeMap.getElem?_insert_self, isStarted]
    rfl
  · rw [same, getElem?_modify_state, if_neg (Ne.symm other), Std.TreeMap.getElem?_insert,
      if_neg fun equal => other (compare_eq_iff_eq.mp equal).symm]
  · rw [same, getElem?_seatVm_eq]
  · rw [same]

end Double

/-- A guest that is started before its pid file is written. -/
def withoutPidFile : DomainEnv :=
  { guest (some 2) with
    pidFile := none
    numaMaps := fun _ => none }

theorem failed_start_leaves_withoutPidFile :
    ∃ nuiod' vm, smallNuiod.virVMEventCallBack ⟨.started, 1, withoutPidFile⟩ zeroed
      = .ok (-1, nuiod') ∧ StartFailure smallNuiod.toDomainConf withoutPidFile ∧
      LeftBehind smallNuiod ⟨.started, 1, withoutPidFile⟩ zeroed nuiod' vm := by
  obtain ⟨⟨ret, nuiod'⟩, handled, failed⟩ := exists_returned
    (smallNuiod.virVMEventCallBack ⟨.started, 1, withoutPidFile⟩ zeroed) (fun r => r.1 == -1)
    (by decide +kernel)
  obtain rfl : ret = -1 := beq_iff_eq.mp failed
  obtain ⟨failure, vm, left⟩ := failed_start_leaves smallNuiod nuiod'
    ⟨.started, 1, withoutPidFile⟩ zeroed rfl handled
  exact ⟨nuiod', vm, handled, failure, left⟩

/-- The guest stays in both maps although the callback returned -1. -/
theorem withoutPidFile_stays :
    ∃ nuiod', smallNuiod.virVMEventCallBack ⟨.started, 1, withoutPidFile⟩ zeroed
        = .ok (-1, nuiod') ∧
      ((1 : Int) ∉ smallNuiod.vmInfosMap ∧ (1 : Int) ∈ nuiod'.vmInfosMap) ∧
      smallNuiod.cpuVmMapping[(2 : Int)]? = none ∧ nuiod'.cpuVmMapping[(2 : Int)]? = some 1 := by
  obtain ⟨⟨ret, nuiod'⟩, handled, left⟩ := exists_returned
    (smallNuiod.virVMEventCallBack ⟨.started, 1, withoutPidFile⟩ zeroed)
    (fun r => r.1 == -1 && (decide ((1 : Int) ∈ r.2.vmInfosMap) &&
      r.2.cpuVmMapping[(2 : Int)]? == some 1)) (by decide +kernel)
  simp only [Bool.and_eq_true, beq_iff_eq, decide_eq_true_eq] at left
  obtain ⟨rfl, tracked, mapped⟩ := left
  exact ⟨nuiod', handled, ⟨by decide +kernel, tracked⟩, by decide +kernel, mapped⟩

end VNams.Nuiod
