import VNams.Nuiod.Boot
import VNams.Strategy.Classify

/-!
What the daemon acquires: domain handles, and open files.

`Held` is what was acquired and not released, beside the state of the daemon. Every start of a
VM looks up a handle and opens `numa_maps`; nothing releases the handle when the VM is removed
or its entry overwritten, and `numa_maps` is closed by the early returns alone. What leaks is
never released later, so `exact_iff` can say of every state of every run when the handles are
those in the map and no file is open: when no step so far has leaked.
-/

namespace VNams.Nuiod

open Lib CText Monitor Strategy
open scoped List

/-- The statistics of a virtual function. -/
inductive Statistic where
  | rxPackets | txPackets | rxBytes | txBytes
  deriving DecidableEq

/-- The files that are opened about a VM. -/
inductive OpenFile where
  /-- `/var/run/libvirt/qemu/<name>.pid` -/
  | pid (domName : Text)
  /-- `/proc/<pid>/numa_maps` -/
  | numaMaps (pid : UInt32)
  /-- `/sys/class/net/<netdev>/vf<vf_no>/statistics/<name>` -/
  | statistics (vfNo : Int) (name : Statistic)
  deriving DecidableEq

/-- What was acquired and not released; a handle occurs once for each `virDomainLookupByID`
that returned it. -/
structure Held where
  handles : List DomainPtr
  files : List OpenFile

namespace Held

/-- `virDomainLookupByID`. -/
def lookup (held : Held) (handle : Option DomainPtr) : Held :=
  { held with handles := handle.toList ++ held.handles }

/-- `virDomainFree`; libvirt refuses a null pointer. -/
def free (held : Held) (domPtr : Option DomainPtr) : Held :=
  { held with handles := held.handles.diff domPtr.toList }

def fopen (held : Held) (file : OpenFile) : Held :=
  { held with files := file :: held.files }

def fclose (held : Held) (file : OpenFile) : Held :=
  { held with files := held.files.erase file }

@[simp] theorem fclose_fopen (held : Held) (file : OpenFile) :
    (held.fopen file).fclose file = held := by
  simp [fopen, fclose]

/-- The tokens of `numa_maps`: an early return closes the file, the end does not. -/
def addTokens (held : Held) (file : OpenFile) (numaNumber : Nat) :
    List Text → List UInt32 → Held
  | [], _ => held
  | token :: rest, nodePages =>
      match addToken numaNumber nodePages token with
      | .error _ => held
      | .ok none => held.fclose file
      | .ok (some nodePages) => held.addTokens file numaNumber rest nodePages

/-- `get_proc_mem_numa_distribution`. -/
def getProcMemNumaDistribution (held : Held) (numaNumber : Nat) (pid : UInt32)
    (file : Option Text) : Held :=
  match file with
  | none => held
  | some text =>
      (held.fopen (.numaMaps pid)).addTokens (.numaMaps pid) numaNumber
        ((fgets memBufSize text).flatMap (tokens isTokenDelimiter))
        (List.replicate numaNumber 0)

/-- The pid file, which is closed once it was read. -/
def readPid (held : Held) (domName : Text) (file : Option Text) : Held :=
  match file with
  | none => held
  | some _ => (held.fopen (.pid domName)).fclose (.pid domName)

end Held

/-- The pid that `set_vm_info` gives a new VM. -/
def domainPid (env : DomainEnv) : UInt32 :=
  (env.pidFile.bind scanUnsigned).getD (UInt32.ofInt (-1))

namespace Held

/-- `set_vm_info` on a new VM, after the look-up of its handle. -/
def addVm (held : Held) (numaNumber : Nat) (env : DomainEnv) : Held :=
  let held := held.lookup env.handle
  let held := held.readPid (env.name.getD []) env.pidFile
  held.getProcMemNumaDistribution numaNumber (domainPid env) (env.numaMaps (domainPid env))

/-- One statistics file of `monitorIO`: it is closed once it was read. -/
def readStat (held : Held) (vfNo : Int) (name : Statistic) : Held :=
  (held.fopen (.statistics vfNo name)).fclose (.statistics vfNo name)

/-- `monitorIO`: it returns at the first file that cannot be opened. -/
def monitorIo (held : Held) (files : IoFiles) (vfNo : Int) : Held :=
  match files.rxPackets with
  | none => held
  | some _ =>
      let held := held.readStat vfNo .rxPackets
      match files.txPackets with
      | none => held
      | some _ =>
          let held := held.readStat vfNo .txPackets
          match files.rxBytes with
          | none => held
          | some _ =>
              let held := held.readStat vfNo .rxBytes
              match files.txBytes with
              | none => held
              | some _ => held.readStat vfNo .txBytes

variable {D : Type} [Double D]

/-- What an operation acquires and releases; `nuiod'` is the state it leads to. -/
def note (held : Held) (op : Op D) (nuiod' : Nuiod D) : Held :=
  match op with
  | .event e _ => if e.event = .started then held.addVm nuiod'.numaNumber e.domain else held
  | .monitor env => nuiod'.vmInfosMap.toList.foldl
      (fun held entry => held.monitorIo (env.io entry.1) entry.2.vfNo) held
  | _ => held

/-- The destructor: every VM's handle is freed. -/
def destroy (held : Held) (vms : VmMap D) : Held :=
  vms.values.foldl (fun held vm => held.free vm.domPtr) held

end Held

section Double

variable {D : Type} [Double D]

/-- The daemon with what it holds. -/
def tracked : Nuiod D × Held → Op D → Except Fault (Nuiod D × Held) :=
  withHistory step Held.note

/-- The ids that `init_vminfo` goes through. -/
def Listing.ids (listing : Listing D) : List Int :=
  (listing.runningDomIds.getD []).take listing.domNum.toNat

/-- What `init_vminfo` acquires. -/
def Listing.held (listing : Listing D) (numaNumber : Nat) : Held :=
  listing.ids.foldl (fun held domId => held.addVm numaNumber (listing.domain domId)) ⟨[], []⟩

/-- The handles in the map. -/
def mapHandles (vms : VmMap D) : List DomainPtr := vms.values.filterMap VmInfo.domPtr

/-- The held handles are those of the VMs, one each, and no file is open. -/
structure Exact (s : Nuiod D × Held) : Prop where
  handles : s.2.handles.Perm (mapHandles s.1.vmInfosMap)
  files : s.2.files = []

end Double

/-! ### What one function leaves open -/

/-- A token that ends the reading of `numa_maps`: its node is too large, or no `=` follows. -/
def malformed (numaNumber : Nat) : Text → Bool
  | 'N' :: p =>
      decide ((numaNumber : Int) ≤ toInt32 (strtol 10 p).1) || (strtol 10 p).2.head? != some '='
  | _ => false

/-- `numa_maps` cannot be opened, or is not read to its end. -/
def CutShort (numaNumber : Nat) (file : Option Text) : Prop :=
  ∀ text, file = some text →
    ((fgets memBufSize text).flatMap (tokens isTokenDelimiter)).any (malformed numaNumber) = true

theorem addToken_malformed {numaNumber : Nat} {nodePages : List UInt32} {token : Text}
    {next : Option (List UInt32)} (added : addToken numaNumber nodePages token = .ok next) :
    malformed numaNumber token = next.isNone := by
  cases addToken_spec added with
  | other noNode =>
      unfold malformed
      split
      · exact absurd rfl noNode
      · rfl
  | tooLarge large => simp [malformed, large]
  | noEquals inRange missing => simp [malformed, missing]
  | added nonneg inRange equals found => simp [malformed, not_le.mpr inRange, equals]

/-- A loop over the tokens that does not fault closes the file exactly at a malformed one. -/
theorem Held.addTokens_eq {numaNumber : Nat} {toks : List Text} {nodePages nodePages' : List UInt32}
    {ret : Int} (added : Monitor.addTokens numaNumber toks nodePages = .ok (ret, nodePages'))
    (held : Held) (file : OpenFile) :
    held.addTokens file numaNumber toks nodePages
      = if toks.any (malformed numaNumber) then held.fclose file else held := by
  induction toks generalizing nodePages with
  | nil => rfl
  | cons token rest ih =>
      simp only [Monitor.addTokens] at added
      obtain ⟨next, first, later⟩ := bind_eq_ok.mp added
      simp only [Held.addTokens, first, List.any_cons, addToken_malformed first]
      cases next with
      | none => rfl
      | some mid => exact ih later

/-- The files that one reading of `numa_maps` leaves open. -/
def leftOpen (numaNumber : Nat) (pid : UInt32) (file : Option Text) : List OpenFile :=
  match file with
  | none => []
  | some text =>
      if ((fgets memBufSize text).flatMap (tokens isTokenDelimiter)).any (malformed numaNumber)
      then [] else [.numaMaps pid]

theorem leftOpen_eq_nil {numaNumber : Nat} {pid : UInt32} {file : Option Text} :
    leftOpen numaNumber pid file = [] ↔ CutShort numaNumber file := by
  cases file with
  | none => simp [leftOpen, CutShort]
  | some text => simp [leftOpen, CutShort]

theorem Held.getProcMemNumaDistribution_eq {numaNumber : Nat} {file : Option Text}
    {nodePages nodePages' : List UInt32} {ret : Int}
    (read : Monitor.getProcMemNumaDistribution numaNumber file nodePages = .ok (ret, nodePages'))
    (held : Held) (pid : UInt32) :
    held.getProcMemNumaDistribution numaNumber pid file
      = { held with files := leftOpen numaNumber pid file ++ held.files } := by
  cases file with
  | none => rfl
  | some text =>
      simp only [Held.getProcMemNumaDistribution, Held.addTokens_eq read, leftOpen]
      split
      · rw [Held.fclose_fopen]
        rfl
      · rfl

@[simp] theorem Held.readPid_eq (held : Held) (domName : Text) (file : Option Text) :
    held.readPid domName file = held := by
  cases file with
  | none => rfl
  | some _ => exact held.fclose_fopen _

@[simp] theorem Held.monitorIo_eq (held : Held) (files : IoFiles) (vfNo : Int) :
    held.monitorIo files vfNo = held := by
  have stat : ∀ name, held.readStat vfNo name = held := fun name => held.fclose_fopen _
  unfold Held.monitorIo
  simp only [stat]
  split
  · rfl
  · split
    · rfl
    · split
      · rfl
      · split <;> rfl

/-! ### The account -/

section Account

variable {D : Type}

/-- The handle of the VM under the id, if there is one. -/
def handleAt (vms : VmMap D) (k : Int) : Option DomainPtr := vms[k]?.bind VmInfo.domPtr

theorem mapHandles_eq (vms : VmMap D) :
    mapHandles vms = (holdings VmInfo.domPtr vms).map Prod.snd := by
  unfold mapHandles holdings
  rw [values_eq_map_toList, List.filterMap_map, List.map_filterMap]
  simp

/-- Maps with the same handle under every id have the same handles. -/
theorem mapHandles_perm {vms vms' : VmMap D} (same : ∀ k, handleAt vms' k = handleAt vms k) :
    (mapHandles vms').Perm (mapHandles vms) := by
  rw [mapHandles_eq, mapHandles_eq]
  exact (holdings_perm same).map Prod.snd

/-- Where the handle changes under one id only, the old one and the new one are the difference. -/
theorem mapHandles_change {vms vms' : VmMap D} {k : Int}
    (others : ∀ x, x ≠ k → handleAt vms' x = handleAt vms x) :
    ((handleAt vms k).toList ++ mapHandles vms').Perm
      ((handleAt vms' k).toList ++ mapHandles vms) := by
  have changed := (holdings_change others).map Prod.snd
  rw [List.map_append, List.map_append, List.map_map, List.map_map] at changed
  rw [mapHandles_eq, mapHandles_eq]
  simpa [Function.comp_def, handleAt] using changed

/-- The held handles are those in the map and the `lost` ones, and the open files are `opened`. -/
structure Account (lost : List DomainPtr) (opened : List OpenFile) (s : Nuiod D × Held) : Prop where
  handles : s.2.handles.Perm (lost ++ mapHandles s.1.vmInfosMap)
  files : s.2.files = opened

/-- Nothing leaked: the account is empty. -/
theorem Account.clean_iff {lost : List DomainPtr} {opened : List OpenFile} {s : Nuiod D × Held}
    (account : Account lost opened s) : Exact s ↔ lost = [] ∧ opened = [] := by
  constructor
  · rintro ⟨handles, files⟩
    have length := (account.handles.symm.trans handles).length_eq
    rw [List.length_append] at length
    constructor
    · apply List.eq_nil_of_length_eq_zero
      omega
    · rw [← account.files, files]
  · rintro ⟨rfl, rfl⟩
    exact ⟨account.handles, account.files⟩

/-- The handle under `k` was replaced: what was there before is lost. -/
theorem Account.replace {lost gained : List DomainPtr} {opened left : List OpenFile}
    {nuiod nuiod' : Nuiod D} {held held' : Held} {k : Int}
    (account : Account lost opened (nuiod, held))
    (others : ∀ x, x ≠ k → handleAt nuiod'.vmInfosMap x = handleAt nuiod.vmInfosMap x)
    (here : (handleAt nuiod'.vmInfosMap k).toList = gained)
    (handles : held'.handles = gained ++ held.handles) (files : held'.files = left ++ held.files) :
    Account ((handleAt nuiod.vmInfosMap k).toList ++ lost) (left ++ opened) (nuiod', held') := by
  have changed := mapHandles_change others
  rw [here] at changed
  constructor
  · show held'.handles.Perm _
    rw [handles, List.append_assoc]
    calc gained ++ held.handles
        _ ~ gained ++ (lost ++ mapHandles nuiod.vmInfosMap) := account.handles.append_left _
        _ ~ lost ++ (gained ++ mapHandles nuiod.vmInfosMap) := List.perm_append_comm_assoc ..
        _ ~ lost ++ ((handleAt nuiod.vmInfosMap k).toList ++ mapHandles nuiod'.vmInfosMap) :=
            changed.symm.append_left _
        _ ~ (handleAt nuiod.vmInfosMap k).toList ++ (lost ++ mapHandles nuiod'.vmInfosMap) :=
            List.perm_append_comm_assoc ..
  · show held'.files = _
    rw [files, ← account.files]

/-- The handles do not change. -/
theorem Account.keep {lost : List DomainPtr} {opened : List OpenFile} {nuiod nuiod' : Nuiod D}
    {held : Held} (account : Account lost opened (nuiod, held))
    (same : ∀ k, handleAt nuiod'.vmInfosMap k = handleAt nuiod.vmInfosMap k) :
    Account lost opened (nuiod', held) :=
  ⟨account.handles.trans ((mapHandles_perm same).symm.append_left lost), account.files⟩

variable [Double D]

omit [Double D] in
/-- A VM was filled in: the handle that its id had is lost, and `numa_maps` may be left open. -/
theorem Account.fill {lost : List DomainPtr} {opened : List OpenFile} {nuiod nuiod' : Nuiod D}
    {held : Held} {env : DomainEnv} {rest : Indeterminate D} {domId : Int} {vm : VmInfo D}
    (account : Account lost opened (nuiod, held))
    (filled : Filled nuiod.toDomainConf env rest domId vm)
    (here : handleAt nuiod'.vmInfosMap domId = vm.domPtr)
    (others : ∀ x, x ≠ domId → handleAt nuiod'.vmInfosMap x = handleAt nuiod.vmInfosMap x) :
    Account ((handleAt nuiod.vmInfosMap domId).toList ++ lost)
      (leftOpen nuiod.numaNumber (domainPid env) (env.numaMaps (domainPid env)) ++ opened)
      (nuiod', held.addVm nuiod.numaNumber env) := by
  have pid : vm.pid = domainPid env := filled.pid
  obtain ⟨ret, counted⟩ := filled.pages
  rw [pid] at counted
  have acquired : held.addVm nuiod.numaNumber env = ⟨env.handle.toList ++ held.handles,
      leftOpen nuiod.numaNumber (domainPid env) (env.numaMaps (domainPid env)) ++ held.files⟩ := by
    simp only [Held.addVm, Held.readPid_eq]
    rw [Held.getProcMemNumaDistribution_eq counted]
    rfl
  rw [acquired]
  apply account.replace others
  · rw [here, filled.handle_eq]
  · rfl
  · rfl

/-- The event removes the VM. -/
def Removes (nuiod : Nuiod D) (e : Event) : Prop :=
  e.event = .stopped ∧ ∃ vm, nuiod.vmInfosMap[e.domId]? = some vm ∧
    (vm.vmEventState = .shutdown ∨ vm.vmEventState = .stopped)

/-- The operation leaks nothing: a VM with a handle is neither overwritten by one that starts
nor removed, and the `numa_maps` of one that starts is not read to its end. -/
def Releases (s : Nuiod D × Held) : Op D → Prop
  | .event e _ =>
      (e.event = .started ∨ Removes s.1 e → handleAt s.1.vmInfosMap e.domId = none) ∧
        (e.event = .started →
          CutShort s.1.numaNumber (e.domain.numaMaps (domainPid e.domain)))
  | _ => True

omit [Double D] in
/-- An operation that leaks nothing, and keeps the handles as they are. -/
theorem Account.clean {lost : List DomainPtr} {opened : List OpenFile} {nuiod nuiod' : Nuiod D}
    {held : Held} (account : Account lost opened (nuiod, held))
    (same : ∀ k, handleAt nuiod'.vmInfosMap k = handleAt nuiod.vmInfosMap k) {releases : Prop}
    (holds : releases) :
    ∃ lost' opened', Account (lost' ++ lost) (opened' ++ opened) (nuiod', held) ∧
      (lost' = [] ∧ opened' = [] ↔ releases) :=
  ⟨[], [], account.keep same, fun _ => holds, fun _ => ⟨rfl, rfl⟩⟩

/-- An event adds what it leaks to the account. -/
theorem event_account {lost : List DomainPtr} {opened : List OpenFile} {nuiod nuiod' : Nuiod D}
    {held : Held} {e : Event} {rest : Indeterminate D} (account : Account lost opened (nuiod, held))
    (handled : Handled nuiod e rest nuiod') :
    ∃ lost' opened', Account (lost' ++ lost) (opened' ++ opened)
        (nuiod', held.note (.event e rest) nuiod') ∧
      (lost' = [] ∧ opened' = [] ↔ Releases (nuiod, held) (.event e rest)) := by
  cases handled with
  | @started vm isStarted filled =>
      exists (handleAt nuiod.vmInfosMap e.domId).toList,
        leftOpen nuiod.numaNumber (domainPid e.domain) (e.domain.numaMaps (domainPid e.domain))
      constructor
      · simp only [Held.note, if_pos isStarted]
        apply account.fill filled
        · simp [handleAt]
        · intro x ne
          simp [handleAt, Std.TreeMap.getElem?_modify, Std.TreeMap.getElem?_insert, Ne.symm ne]
      · simp [Releases, isStarted, leftOpen_eq_nil]
  | @removed vm isStopped tracked down =>
      have notStarted : e.event ≠ .started := by simp [isStopped]
      have removes : Removes nuiod e := ⟨isStopped, vm, tracked, down⟩
      have gone : (handleAt (nuiod.removeVm e.domId vm).vmInfosMap e.domId).toList = [] := by
        simp [handleAt, removeVm]
      have others : ∀ x, x ≠ e.domId → handleAt (nuiod.removeVm e.domId vm).vmInfosMap x
          = handleAt nuiod.vmInfosMap x := by
        intro x ne
        simp [handleAt, removeVm, Std.TreeMap.getElem?_erase, Ne.symm ne]
      exists (handleAt nuiod.vmInfosMap e.domId).toList, []
      constructor
      · simp only [Held.note, if_neg notStarted]
        exact account.replace others gone rfl rfl
      · simp [Releases, notStarted, removes]
  | @recorded vm isRecorded tracked up =>
      have notStarted : e.event ≠ .started := by
        intro isStarted
        rw [isStarted] at isRecorded
        cases isRecorded
      have stays : ¬ Removes nuiod e := by
        rintro ⟨isStopped, vm', tracked', down⟩
        obtain rfl : vm = vm' := Option.some.inj (tracked.symm.trans tracked')
        obtain ⟨notShutdown, notStopped⟩ := up isStopped
        rcases down with shutdown | stopped
        · exact notShutdown shutdown
        · exact notStopped stopped
      simp only [Held.note, if_neg notStarted]
      apply account.clean
      · intro x
        by_cases same : x = e.domId
        · simp [handleAt, same, tracked]
        · simp [handleAt, Std.TreeMap.getElem?_insert, Ne.symm same]
      · simp [Releases, notStarted, stays]
  | ignored notStarted absent =>
      have stays : ¬ Removes nuiod e := by
        rintro ⟨isStopped, vm, tracked, _⟩
        rw [absent (by simp [isStopped, isRecorded])] at tracked
        cases tracked
      simp only [Held.note, if_neg notStarted]
      exact account.clean (fun _ => rfl) (by simp [Releases, notStarted, stays])

/-! ### Operations that leak nothing -/

omit [Double D] in
/-- Moving the VM under `key` leaves the handles as they are. -/
theorem changeCpuVmMapping_handles {nuiod : Nuiod D} {key cpu : Int} {vm : VmInfo D}
    (handle : vm.domPtr = handleAt nuiod.vmInfosMap key) (k : Int) :
    handleAt (nuiod.changeCpuVmMapping key vm cpu).vmInfosMap k
      = handleAt nuiod.vmInfosMap k := by
  by_cases same : k = key
  · simpa [changeCpuVmMapping, handleAt, same] using handle
  · simp [changeCpuVmMapping, handleAt, Std.TreeMap.getElem?_insert, Ne.symm same]

omit [Double D] in
theorem refreshVm_handles {report : Int → Option Int} {nuiod nuiod' : Nuiod D} {key : Int}
    (done : refreshVm report nuiod key = .ok nuiod') (k : Int) :
    handleAt nuiod'.vmInfosMap k = handleAt nuiod.vmInfosMap k := by
  rcases refreshVm_spec done with ⟨vm, cpu, relocates, rfl⟩ | ⟨_, rfl⟩
  · apply changeCpuVmMapping_handles
    simp [handleAt, relocates.tracked]
  · rfl

theorem monitor_handles {nuiod nuiod' : Nuiod D} {env : MonitorEnv}
    (done : nuiod.monitor env = .ok nuiod') (k : Int) :
    handleAt nuiod'.vmInfosMap k = handleAt nuiod.vmInfosMap k := by
  have monitored := monitor_spec done
  unfold handleAt
  cases found : nuiod.vmInfosMap[k]? with
  | none => rw [monitored.absent k found]
  | some vm =>
      obtain ⟨vm', found', sampled⟩ := monitored.sampled k vm found
      rw [found']
      exact sampled.same.domPtr

/-- An entry that `operator[]` inserts has no handle. -/
theorem touched_handles (nuiod : Nuiod D) (env : PinEnv D) (entry : Decision × Nat) (k : Int) :
    handleAt (nuiod.touched env entry).vmInfosMap k = handleAt nuiod.vmInfosMap k := by
  simp only [touched, handleAt, getElem?_insertIfNew_getD]
  split
  · rename_i same
    rw [same, Std.TreeMap.getD_eq_getD_getElem?]
    cases nuiod.vmInfosMap[entry.1.domId]? with
    | none => rfl
    | some vm => rfl
  · rfl

theorem performAct_handles {lists : List (List (Nat × D))} {env : PinEnv D} {nuiod nuiod' : Nuiod D}
    {entry : Decision × Nat} (done : performAct lists env nuiod entry = .ok nuiod') (k : Int) :
    handleAt nuiod'.vmInfosMap k = handleAt nuiod.vmInfosMap k := by
  rcases performAct_spec done with ⟨vm, cpu, pins, rfl⟩ | ⟨_, rfl⟩
  · rw [← touched_handles nuiod env entry k]
    apply changeCpuVmMapping_handles
    rw [touched_handles]
    simp [handleAt, pins.tracked]
  · exact touched_handles nuiod env entry k

omit [Double D] in
/-- A loop whose bodies keep the handles keeps them. -/
theorem foldlM_handles {α : Type} {body : Nuiod D → α → Except Fault (Nuiod D)}
    (keeps : ∀ nuiod a nuiod', body nuiod a = .ok nuiod' →
      ∀ k, handleAt nuiod'.vmInfosMap k = handleAt nuiod.vmInfosMap k)
    {as : List α} {nuiod nuiod' : Nuiod D} (done : as.foldlM body nuiod = .ok nuiod') (k : Int) :
    handleAt nuiod'.vmInfosMap k = handleAt nuiod.vmInfosMap k := by
  have run := Run.foldlM_iff.mp done
  exact run.invariant (fun mid a mid' same _ one => (keeps mid a mid' one k).trans same) rfl

theorem perform_handles {nuiod nuiod' : Nuiod D} {acts : List Decision} {sort : CpuSort D}
    {pins : PinEnv D} (done : nuiod.perform acts sort pins = .ok nuiod') (k : Int) :
    handleAt nuiod'.vmInfosMap k = handleAt nuiod.vmInfosMap k := by
  obtain ⟨lists, _, performed⟩ := bind_eq_ok.mp done
  exact foldlM_handles (fun _ _ _ one => performAct_handles one) performed k

/-! ### Whole runs -/

theorem Held.note_monitor (held : Held) (env : MonitorEnv) (nuiod : Nuiod D) :
    held.note (.monitor env) nuiod = held := by
  simp only [Held.note, Held.monitorIo_eq]
  induction nuiod.vmInfosMap.toList with
  | nil => rfl
  | cons entry rest ih => exact ih

/-- Every operation adds what it leaks to the account. -/
theorem step_account {lost : List DomainPtr} {opened : List OpenFile} {s s' : Nuiod D × Held}
    {op : Op D} (account : Account lost opened s) (done : tracked s op = .ok s') :
    ∃ lost' opened', Account (lost' ++ lost) (opened' ++ opened) s' ∧
      (lost' = [] ∧ opened' = [] ↔ Releases s op) := by
  obtain ⟨nuiod, held⟩ := s
  obtain ⟨nuiod', held'⟩ := s'
  obtain ⟨stepped, noted⟩ := withHistory_eq_ok.mp done
  simp only at stepped noted
  rw [noted]
  cases op with
  | event e rest =>
      obtain ⟨⟨ret, mid⟩, handled, stored⟩ := bind_eq_ok.mp stepped
      cases stored
      exact event_account account (virVMEventCallBack_spec handled)
  | refresh report =>
      exact account.clean (foldlM_handles (fun _ _ _ one => refreshVm_handles one) stepped) trivial
  | monitor env =>
      rw [Held.note_monitor]
      exact account.clean (monitor_handles stepped) trivial
  | decide env =>
      obtain ⟨acts, _, performed⟩ := bind_eq_ok.mp stepped
      exact account.clean (perform_handles performed) trivial
  | perform acts sort pins => exact account.clean (perform_handles stepped) trivial

/-- A run leaks nothing exactly if none of its operations does. -/
theorem run_account {lost : List DomainPtr} {opened : List OpenFile} {s s' : Nuiod D × Held}
    {ops : List (Op D)} (account : Account lost opened s) (run : Run tracked Anything s ops s') :
    ∃ lost' opened', Account (lost' ++ lost) (opened' ++ opened) s' ∧
      (lost' = [] ∧ opened' = [] ↔ Run tracked Releases s ops s') := by
  induction run generalizing lost opened with
  | nil s => exact ⟨[], [], account, by simp [Run.nil]⟩
  | @cons s mid s' op ops _ stepped _ ih =>
      obtain ⟨lost₁, opened₁, account₁, first⟩ := step_account account stepped
      obtain ⟨lost₂, opened₂, account₂, later⟩ := ih account₁
      rw [← List.append_assoc, ← List.append_assoc] at account₂
      refine ⟨_, _, account₂, ?_⟩
      rw [List.append_eq_nil_iff, List.append_eq_nil_iff]
      constructor
      · rintro ⟨⟨none₂, none₁⟩, empty₂, empty₁⟩
        exact .cons (first.mp ⟨none₁, empty₁⟩) stepped (later.mp ⟨none₂, empty₂⟩)
      · intro guarded
        cases guarded with
        | cons releases stepped' rest =>
            rw [stepped] at stepped'
            cases stepped'
            obtain ⟨none₁, empty₁⟩ := first.mpr releases
            obtain ⟨none₂, empty₂⟩ := later.mpr rest
            exact ⟨⟨none₂, none₁⟩, empty₂, empty₁⟩

/-- `init_vminfo` leaks nothing: the ids are distinct, and no `numa_maps` is read to its end. -/
def Listing.Releases (listing : Listing D) (numaNumber : Nat) : Prop :=
  listing.ids.Nodup ∧ ∀ domId ∈ listing.ids,
    CutShort numaNumber
      ((listing.domain domId).numaMaps (domainPid (listing.domain domId)))

/-- The loop of `init_vminfo` from position `i` on, where the VMs of `seen` were added. -/
theorem initLoop_account {listing : Listing D} {numaNumber i : Nat} {ids : List Int}
    (seen : Int → Prop) {lost : List DomainPtr} {opened : List OpenFile}
    {acc acc' : Int × Nuiod D} {held : Held} (conf : acc.2.numaNumber = numaNumber)
    (added : ∀ k, handleAt acc.2.vmInfosMap k = none ↔ ¬ seen k)
    (account : Account lost opened (acc.2, held))
    (done : (ids.zipIdx i).foldlM (initDomain listing) acc = .ok acc') :
    ∃ lost' opened', Account (lost' ++ lost) (opened' ++ opened) (acc'.2,
        ids.foldl (fun held domId => held.addVm numaNumber (listing.domain domId)) held) ∧
      (lost' = [] ∧ opened' = [] ↔ (ids.Nodup ∧ ∀ domId ∈ ids, ¬ seen domId) ∧
        ∀ domId ∈ ids, CutShort numaNumber
          ((listing.domain domId).numaMaps (domainPid (listing.domain domId)))) := by
  induction ids generalizing seen lost opened acc held i with
  | nil =>
      cases done
      exact ⟨[], [], account, by simp⟩
  | cons domId rest ih =>
      rw [List.zipIdx_cons, List.foldlM_cons] at done
      obtain ⟨mid, one, later⟩ := bind_eq_ok.mp done
      obtain ⟨⟨flag, nuiod⟩, adds, stored⟩ := bind_eq_ok.mp one
      cases stored
      have adds : acc.2.addVm (listing.domain domId) (listing.rest i) domId = .ok (flag, nuiod) :=
        adds
      obtain ⟨vm, filled, same⟩ := addVm_spec adds
      have here : handleAt nuiod.vmInfosMap domId = vm.domPtr := by
        simp [handleAt, same]
      have others : ∀ x, x ≠ domId → handleAt nuiod.vmInfosMap x
          = handleAt acc.2.vmInfosMap x := by
        intro x ne
        simp [handleAt, same, Std.TreeMap.getElem?_insert, Ne.symm ne]
      have added' : ∀ k, handleAt nuiod.vmInfosMap k = none ↔ ¬ (k = domId ∨ seen k) := by
        intro k
        by_cases own : k = domId
        · simp [own, here, filled.handle]
        · rw [others k own, added k]
          simp [own]
      have conf' : nuiod.numaNumber = numaNumber := by
        rw [same]
        exact conf
      have first := account.fill filled here others
      rw [conf] at first
      obtain ⟨lost', opened', account', clean⟩ := ih (fun k => k = domId ∨ seen k) conf' added' first later
      rw [← List.append_assoc, ← List.append_assoc] at account'
      refine ⟨_, _, account', ?_⟩
      have firstClean : (handleAt acc.2.vmInfosMap domId).toList = [] ↔ ¬ seen domId := by
        rw [← added domId, Option.toList_eq_nil_iff]
      rw [List.append_eq_nil_iff, List.append_eq_nil_iff, firstClean, leftOpen_eq_nil,
        List.nodup_cons, List.forall_mem_cons, List.forall_mem_cons]
      constructor
      · rintro ⟨⟨noLost, fresh⟩, noOpened, cutShort⟩
        obtain ⟨⟨nodup, apart⟩, allCutShort⟩ := clean.mp ⟨noLost, noOpened⟩
        have notLater : domId ∉ rest := fun mem => apart domId mem (.inl rfl)
        exact ⟨⟨⟨notLater, nodup⟩, fresh, fun x mem before => apart x mem (.inr before)⟩, cutShort,
          allCutShort⟩
      · rintro ⟨⟨⟨notLater, nodup⟩, fresh, apart⟩, cutShort, allCutShort⟩
        have apart' : ∀ x ∈ rest, ¬ (x = domId ∨ seen x) := by
          rintro x mem (rfl | before)
          · exact notLater mem
          · exact apart x mem before
        obtain ⟨noLost, noOpened⟩ := clean.mpr ⟨⟨nodup, apart'⟩, allCutShort⟩
        exact ⟨⟨noLost, fresh⟩, noOpened, cutShort⟩

/-- The account of `init`. -/
theorem init_account {conf : DomainConf} {cpuNumber : Nat} {strategy : SimpleStrategy}
    {machine : Machine D} {ret : Int} {nuiod₀ : Nuiod D}
    (booted : (Nuiod.new conf cpuNumber strategy).init machine = .ok (ret, nuiod₀)) :
    ∃ lost opened, Account lost opened (nuiod₀, machine.listing.held conf.numaNumber) ∧
      (lost = [] ∧ opened = [] ↔ machine.listing.Releases conf.numaNumber) := by
  obtain ⟨flag, added, listed, sameVms, _⟩ := (init_spec booted).maps
  have start : Account [] [] ((Nuiod.new conf cpuNumber strategy : Nuiod D), ⟨[], []⟩) :=
    ⟨List.Perm.refl [], rfl⟩
  have loop : (machine.listing.ids.zipIdx).foldlM (initDomain machine.listing)
      (0, Nuiod.new conf cpuNumber strategy) = .ok (flag, added) := by
    unfold initVminfo at listed
    split at listed
    · cases listed
    · unfold Listing.ids
      cases found : machine.listing.runningDomIds with
      | none =>
          rw [found] at listed
          rw [Option.getD_none, List.take_nil]
          exact listed
      | some ids =>
          rw [found] at listed
          exact listed
  have sameConf : (Nuiod.new conf cpuNumber strategy : Nuiod D).numaNumber = conf.numaNumber := rfl
  obtain ⟨lost, opened, account, clean⟩ :=
    initLoop_account (fun _ => False) sameConf (by simp [handleAt, Nuiod.new]) start loop
  rw [List.append_nil, List.append_nil] at account
  refine ⟨lost, opened, ?_, ?_⟩
  · apply account.keep
    intro k
    rw [sameVms]
  · rw [clean]
    simp [Listing.Releases]

/-! ### The destructor -/

omit [Double D] in
theorem Held.destroy_handles (held : Held) (vms : VmMap D) :
    (held.destroy vms).handles = held.handles.diff (mapHandles vms) := by
  unfold Held.destroy mapHandles
  induction vms.values generalizing held with
  | nil => rfl
  | cons vm rest ih =>
      rw [List.foldl_cons, ih]
      cases handle : vm.domPtr with
      | none => simp [Held.free, handle]
      | some p => simp [Held.free, handle]

omit [Double D] in
/-- The destructor releases what is in the map, and leaves what was lost. -/
theorem Account.destroy {lost : List DomainPtr} {opened : List OpenFile} {s : Nuiod D × Held}
    (account : Account lost opened s) : (s.2.destroy s.1.vmInfosMap).handles.Perm lost := by
  rw [Held.destroy_handles, List.perm_iff_count]
  intro p
  rw [List.count_diff, account.handles.count_eq, List.count_append, Nat.add_sub_cancel]

/-- In every state that a run of the daemon reaches, the held handles are those of the VMs, one
each, and no file is open, exactly if `init_vminfo` and all operations so far leaked nothing;
then the destructor releases all handles. -/
theorem exact_iff {conf : DomainConf} {cpuNumber : Nat} {strategy : SimpleStrategy}
    {machine : Machine D} {ret : Int} {nuiod₀ : Nuiod D}
    (booted : (Nuiod.new conf cpuNumber strategy).init machine = .ok (ret, nuiod₀))
    {ops : List (Op D)} {s : Nuiod D × Held}
    (run : Run tracked Anything (nuiod₀, machine.listing.held conf.numaNumber) ops s) :
    (Exact s ↔ machine.listing.Releases conf.numaNumber ∧
      Run tracked Releases (nuiod₀, machine.listing.held conf.numaNumber) ops s) ∧
    (Exact s → (s.2.destroy s.1.vmInfosMap).handles = []) := by
  obtain ⟨lost₁, opened₁, account₁, first⟩ := init_account booted
  obtain ⟨lost₂, opened₂, account₂, later⟩ := run_account account₁ run
  constructor
  · rw [account₂.clean_iff, ← first, ← later, List.append_eq_nil_iff, List.append_eq_nil_iff]
    constructor
    · rintro ⟨⟨none₂, none₁⟩, empty₂, empty₁⟩
      exact ⟨⟨none₁, empty₁⟩, none₂, empty₂⟩
    · rintro ⟨⟨none₁, empty₁⟩, none₂, empty₂⟩
      exact ⟨⟨none₂, none₁⟩, empty₂, empty₁⟩
  · intro exact
    have released := account₂.destroy
    rw [(account₂.clean_iff.mp exact).1] at released
    exact List.perm_nil.mp released

end Account

/-! ### One VM that starts, and one that stops -/

/-- A domain whose `numa_maps` is gone. -/
def unreadGuest : DomainEnv := { guest (some 2) with numaMaps := fun _ => none }

def guestEvent (event : VirDomainEventType) (domain : DomainEnv) : Op ℚ :=
  .event ⟨event, 1, domain⟩ zeroed

/-- No handle is lost and no file left open by a VM that starts without `numa_maps` and is only
suspended. -/
theorem exact_iff_unreadGuest : ∃ nuiod₀ s, smallNuiod.init (smallMachine []) = .ok (0, nuiod₀) ∧
    Exact s ∧ Run tracked Releases (nuiod₀, (smallMachine []).listing.held 2)
      [guestEvent .started unreadGuest, guestEvent .suspended unreadGuest] s := by
  obtain ⟨nuiod₀, s, booted, run, passed⟩ := exists_run_from
    (fun nuiod₀ => (nuiod₀, (smallMachine []).listing.held 2)) tracked
    [guestEvent .started unreadGuest, guestEvent .suspended unreadGuest]
    (smallNuiod.init (smallMachine []))
    (fun s => s.2.handles.isPerm (mapHandles s.1.vmInfosMap) && s.2.files == [])
    (by decide +kernel)
  rw [Bool.and_eq_true, List.isPerm_iff, beq_iff_eq] at passed
  have exact : Exact s := ⟨passed.1, passed.2⟩
  exact ⟨nuiod₀, s, booted, exact, ((exact_iff booted run).1.mp exact).2⟩

/-- A VM that starts, shuts down and stops leaves its handle and its `numa_maps` behind. -/
theorem stopped_leaks : ∃ nuiod₀ s, smallNuiod.init (smallMachine []) = .ok (0, nuiod₀) ∧
    Run tracked Anything (nuiod₀, (smallMachine []).listing.held 2)
      [guestEvent .started (guest (some 2)), guestEvent .shutdown (guest (some 2)),
        guestEvent .stopped (guest (some 2))] s ∧
    mapHandles s.1.vmInfosMap = [] ∧ s.2.handles = [1] ∧ s.2.files = [.numaMaps 12] ∧
      ¬ Exact s := by
  obtain ⟨nuiod₀, s, booted, run, passed⟩ := exists_run_from
    (fun nuiod₀ => (nuiod₀, (smallMachine []).listing.held 2)) tracked
    [guestEvent .started (guest (some 2)), guestEvent .shutdown (guest (some 2)),
      guestEvent .stopped (guest (some 2))]
    (smallNuiod.init (smallMachine []))
    (fun s => decide (mapHandles s.1.vmInfosMap = [] ∧ s.2.handles = [1] ∧
      s.2.files = [.numaMaps 12]))
    (by decide +kernel)
  obtain ⟨released, held, opened⟩ := of_decide_eq_true passed
  refine ⟨nuiod₀, s, booted, run, released, held, opened, fun exact => ?_⟩
  have files := exact.files
  rw [opened] at files
  cases files

end VNams.Nuiod
