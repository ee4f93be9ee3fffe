import VNams.Monitor.Mem

/-!
What the daemon learns about a domain: `set_vm_info` and what it calls.

`DomainEnv` is what libvirt and the files under `/var/run` and `/proc` answer about a
domain at one moment. `setVmInfo` is the only function that fills in a `VmInfo`;
`setVmInfo_spec` says which members it writes.
-/

namespace VNams.Nuiod

open Lib.CText Monitor

variable {D : Type}

/-- The answers about one domain. -/
structure DomainEnv where
  /-- `virDomainLookupByID` -/
  handle : Option DomainPtr
  /-- `virDomainGetVcpus` on vcpu 0: its CPU, or `none` when the call fails -/
  vcpu : Option Int
  /-- `virDomainGetName` -/
  name : Option Text
  /-- what `fopen` gives of `/var/run/libvirt/qemu/<name>.pid`, or of the first 63 characters of
  that path: `path_buf` holds no more -/
  pidFile : Option Text
  /-- `/proc/<pid>/numa_maps` -/
  numaMaps : UInt32 → Option Text
  /-- `virDomainGetXMLDesc` -/
  xml : Option Text

/-- Get the real cpu of VM. Return -1 if failed, which a reported CPU of -1 (a vcpu that
is offline) cannot be told from; libvirt refuses a null pointer. -/
def getVmRealCpu (domPtr : Option DomainPtr) (vcpu : Option Int) : Int :=
  match domPtr with
  | none => -1
  | some _ => vcpu.getD (-1)

/-- The loop for `mem_main_node_id`, from `node` on: `pagesNum` is the most pages seen so
far, on node `main`. -/
def mainNodeFrom : Nat → List UInt32 → UInt32 → Int → Int
  | _, [], _, main => main
  | node, pages :: rest, pagesNum, main =>
      if pagesNum < pages then mainNodeFrom (node + 1) rest pages node
      else mainNodeFrom (node + 1) rest pagesNum main

/-- Which node has maximum memory pages; `main` when no node has any. -/
def mainNode (memNodeDistr : List UInt32) (main : Int) : Int :=
  mainNodeFrom 0 memNodeDistr 0 main

/-- The loop ends on a node from `node` on, or keeps what it had. -/
theorem mainNodeFrom_cases (distr : List UInt32) (node : Nat) (pagesNum : UInt32) (main : Int) :
    (∃ i < distr.length, mainNodeFrom node distr pagesNum main = ((node + i : Nat) : Int)) ∨
      ((∀ pages ∈ distr, ¬ pagesNum < pages) ∧ mainNodeFrom node distr pagesNum main = main) := by
  induction distr generalizing node pagesNum main with
  | nil => exact .inr ⟨by simp, rfl⟩
  | cons pages rest ih =>
      simp only [mainNodeFrom, List.length_cons, List.forall_mem_cons]
      split
      · rcases ih (node + 1) pages node with ⟨i, inRange, found⟩ | ⟨_, kept⟩
        · refine .inl ⟨i + 1, by omega, ?_⟩
          rw [found, Nat.add_assoc, Nat.add_comm 1]
        · exact .inl ⟨0, by omega, kept⟩
      · rename_i fewer
        rcases ih (node + 1) pagesNum main with ⟨i, inRange, found⟩ | ⟨none, kept⟩
        · refine .inl ⟨i + 1, by omega, ?_⟩
          rw [found, Nat.add_assoc, Nat.add_comm 1]
        · exact .inr ⟨⟨fewer, none⟩, kept⟩

/-- With a page on some node the home is a node; without, it is what it was. -/
theorem mainNode_cases (distr : List UInt32) (main : Int) :
    (0 ≤ mainNode distr main ∧ mainNode distr main < distr.length) ∨
      ((∀ pages ∈ distr, ¬ 0 < pages) ∧ mainNode distr main = main) := by
  unfold mainNode
  rcases mainNodeFrom_cases distr 0 0 main with ⟨i, inRange, found⟩ | kept
  · left
    rw [found]
    omega
  · exact .inr kept

/-- Which pages decide the home, the number it had before does not matter. -/
theorem mainNodeFrom_congr {distr : List UInt32} {pagesNum : UInt32}
    (some : ∃ pages ∈ distr, pagesNum < pages) (node : Nat) (main main' : Int) :
    mainNodeFrom node distr pagesNum main = mainNodeFrom node distr pagesNum main' := by
  induction distr generalizing node with
  | nil =>
      obtain ⟨pages, mem, _⟩ := some
      cases mem
  | cons pages rest ih =>
      simp only [mainNodeFrom]
      split
      · rfl
      · rename_i fewer
        obtain ⟨more, mem, larger⟩ := some
        rcases List.mem_cons.mp mem with rfl | later
        · exact absurd larger fewer
        · exact ih ⟨more, later, larger⟩ (node + 1)

/-- The text after the next single quote. -/
def afterQuote (s : Text) : Except Fault Text :=
  match scanTo (fun c => c == '\'') s with
  | some (_ :: rest) => .ok rest
  | _ => .error .overread

/-- The VF number in a domain xml; `none` when an attribute is missing. `target_bus` has
room for a bus string of four characters. -/
def vfNo (netdevPciBusStr : Text) (netdevPciSlotVal : UInt32) (xml : Text) :
    Except Fault (Option Int) :=
  if 4 < netdevPciBusStr.length then .error .bufferOverflow
  else
    match strstr ("bus='".toList ++ netdevPciBusStr ++ ['\'']) xml with
    | none => .ok none
    | some busP =>
        match strstr "slot".toList busP with
        | none => .ok none
        | some slotP => do
            let slotP ← afterQuote slotP
            let (slotVal, slotP) := strtol 0 slotP
            match strstr "function".toList slotP with
            | none => .ok none
            | some functP => do
                let functP ← afterQuote functP
                let (funcVal, _) := strtol 0 functP
                .ok (some (toInt32 ((slotVal - netdevPciSlotVal.toNat) * 8 + (funcVal - 1))))

/-- What `set_vm_info` uses of the daemon. -/
structure DomainConf where
  numaNumber : Nat
  netdevPciBusStr : Text
  netdevPciSlotVal : UInt32

/-- `cpu_vm_mapping.insert(make_pair(cpu, dom_id))`, unless the CPU could not be read. -/
def seatVm (cpu domId : Int) (cpuVmMapping : IntMap) : IntMap :=
  if cpu = -1 then cpuVmMapping else cpuVmMapping.insertIfNew cpu domId

/-- `virDomainGetName`, measured by `strlen`. -/
def domName (env : DomainEnv) : Except Fault Text :=
  match env.handle, env.name with
  | some _, some name => .ok name
  | _, _ => .error .nullPointer

/-- The page counts of the VM and the home they give; the flag tells whether they could be
read. -/
def setMemory (conf : DomainConf) (env : DomainEnv) (vm : VmInfo D) :
    Except Fault (Bool × VmInfo D) := do
  let (ret, distr) ←
    getProcMemNumaDistribution conf.numaNumber (env.numaMaps vm.pid) vm.memNodeDistr
  .ok (ret = 0, { vm with
    memNodeDistr := distr, memMainNodeId := mainNode distr vm.memMainNodeId })

/-- Calculate the vf_no; the flag tells whether the xml had it. -/
def setVf (conf : DomainConf) (env : DomainEnv) (vm : VmInfo D) :
    Except Fault (Bool × VmInfo D) :=
  match env.xml with
  | none => .ok (false, vm)
  | some xml => do
      match ← vfNo conf.netdevPciBusStr conf.netdevPciSlotVal xml with
      | none => .ok (false, vm)
      | some vf => .ok (true, { vm with vfNo := vf })

/-- The members of the VM that libvirt and the pid file give. -/
def identify (env : DomainEnv) (domId : Int) (vm : VmInfo D) : VmInfo D :=
  let ret := getVmRealCpu env.handle env.vcpu
  { vm with
    domPtr := env.handle
    domId := domId
    realCpuNo := if ret = -1 then vm.realCpuNo else ret
    pid := (env.pidFile.bind scanUnsigned).getD vm.pid }

/-- Using the domain handle to initialize a VM: the flag, the VM, and the CPU map. -/
def setVmInfo (conf : DomainConf) (env : DomainEnv) (vm : VmInfo D) (domId : Int)
    (cpuVmMapping : IntMap) : Except Fault (Int × VmInfo D × IntMap) := do
  let ret := getVmRealCpu env.handle env.vcpu
  let name ← domName env
  let memory ← setMemory conf env (identify env domId vm)
  let vf ← setVf conf env memory.2
  let succeeded := ret ≠ -1 ∧ name.length < 64 ∧ env.pidFile.isSome ∧ memory.1 ∧ vf.1
  .ok (if succeeded then 0 else -1, vf.2, seatVm ret domId cpuVmMapping)

/-- A VM without a CPU gets the one reported, or stays without. -/
theorem identify_realCpuNo {env : DomainEnv} {vm : VmInfo D} (domId : Int)
    (unseated : vm.realCpuNo = -1) :
    (identify env domId vm).realCpuNo = getVmRealCpu env.handle env.vcpu := by
  show (if getVmRealCpu env.handle env.vcpu = -1 then vm.realCpuNo
    else getVmRealCpu env.handle env.vcpu) = _
  split
  · rename_i failed
    rw [unseated, failed]
  · rfl

theorem setVf_spec {conf : DomainConf} {env : DomainEnv} {vm vm' : VmInfo D} {found : Bool}
    (done : setVf conf env vm = .ok (found, vm')) : ∃ vf, vm' = { vm with vfNo := vf } := by
  unfold setVf at done
  cases xml : env.xml with
  | none =>
      rw [xml] at done
      cases done
      exact ⟨vm.vfNo, rfl⟩
  | some text =>
      rw [xml] at done
      obtain ⟨vf, _, done⟩ := Lib.bind_eq_ok.mp done
      cases vf with
      | none =>
          cases done
          exact ⟨vm.vfNo, rfl⟩
      | some vf =>
          cases done
          exact ⟨vf, rfl⟩

/-- What `setVmInfo` makes of a VM without a CPU: it writes the handle, the id, the CPU, the
pid, the page counts and the home they give, and the VF. -/
theorem setVmInfo_spec {conf : DomainConf} {env : DomainEnv} {vm vm' : VmInfo D} {domId flag : Int}
    {cpuVmMapping cpuVmMapping' : IntMap} (unseated : vm.realCpuNo = -1)
    (done : setVmInfo conf env vm domId cpuVmMapping = .ok (flag, vm', cpuVmMapping')) :
    ∃ (p : DomainPtr) (pid : UInt32) (distr : List UInt32) (vf ret : Int), env.handle = some p ∧
      pid = (env.pidFile.bind scanUnsigned).getD vm.pid ∧
      getProcMemNumaDistribution conf.numaNumber (env.numaMaps pid) vm.memNodeDistr
        = .ok (ret, distr) ∧
      vm' = { vm with
        domPtr := some p
        domId := domId
        realCpuNo := getVmRealCpu env.handle env.vcpu
        pid := pid
        memNodeDistr := distr
        memMainNodeId := mainNode distr vm.memMainNodeId
        vfNo := vf } ∧
      cpuVmMapping' = seatVm (getVmRealCpu env.handle env.vcpu) domId cpuVmMapping := by
  obtain ⟨name, named, done⟩ := Lib.bind_eq_ok.mp done
  obtain ⟨⟨memRead, vm₁⟩, memory, done⟩ := Lib.bind_eq_ok.mp done
  obtain ⟨⟨ret, distr⟩, counted, stored⟩ := Lib.bind_eq_ok.mp memory
  obtain ⟨⟨vfFound, vm₂⟩, vfSet, done⟩ := Lib.bind_eq_ok.mp done
  cases stored
  cases done
  obtain ⟨vf, rfl⟩ := setVf_spec vfSet
  obtain ⟨p, present⟩ : ∃ p, env.handle = some p := by
    unfold domName at named
    split at named
    · exact ⟨_, ‹_›⟩
    · cases named
  refine ⟨p, _, distr, vf, ret, present, rfl, counted, ?_, rfl⟩
  rw [← identify_realCpuNo domId unseated, ← present]
  rfl

end VNams.Nuiod
