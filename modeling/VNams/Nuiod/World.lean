import VNams.Nuiod.Steady
import VNams.Nuiod.Tracking

/-!
The daemon and libvirt, as one system.

So far what libvirt reports is an input of each round. Here libvirt has a state of its own: it
knows on which CPU it has each domain, `virDomainGetVcpus` reports that, and a call of
`virDomainPinVcpu` that succeeds moves the domain of the handle to the CPU of the call. Between
two rounds anybody may move the VMs. If they leave each VM a CPU of its own then so does the
daemon, and at the end of every round its two maps say where libvirt has the VMs
(`in_touch_always`).
-/

namespace VNams.Nuiod

open Lib Monitor Strategy

/-- The CPU on which libvirt has each domain. -/
abbrev World := Int → Option Int

variable {D : Type} [Double D]

/-! ### Rounds in a world -/

/-- A call of `virDomainPinVcpu` that succeeds moves the domain of the handle to the CPU of the
call. -/
def World.pin (domainOf : DomainPtr → Int) (world : World) (answer : Int) : Option PinCall → World
  | none => world
  | some call =>
      match call.domain with
      | none => world
      | some p =>
          if answer = -1 then world
          else Function.update world (domainOf p) (some (call.cpu : Int))

/-- The loop body of `perform`, with what libvirt makes of its call. -/
def worldAct (domainOf : DomainPtr → Int) (lists : List (List (Nat × D))) (env : PinEnv D)
    (s : Nuiod D × World) (entry : Decision × Nat) : Except Fault (Nuiod D × World) := do
  let r ← performActCall lists env s.1 entry
  .ok (r.1, s.2.pin domainOf (env.pin entry.2) r.2)

/-- A round that begins in the given world: it is what `get_vm_real_cpu` reads. -/
def worldRound (domainOf : DomainPtr → Int) (s : Nuiod D × World) (a : World × Round D) :
    Except Fault (Nuiod D × World) := do
  let measured ← ({ a.2 with report := a.1 } : Round D).measuring.foldlM step s.1
  let acts ← measured.scheduleActs a.2.strategy
  let lists ← measured.nodeSortedCpuList a.2.strategy.sort
  acts.zipIdx.foldlM (worldAct domainOf lists a.2.strategy.pins) (measured, a.1)

variable {domainOf : DomainPtr → Int}

/-- What libvirt makes of the call has no part in what the daemon makes of the decision. -/
theorem worldAct_eq_ok {lists : List (List (Nat × D))} {env : PinEnv D} {s s' : Nuiod D × World}
    {entry : Decision × Nat} (done : worldAct domainOf lists env s entry = .ok s') :
    performAct lists env s.1 entry = .ok s'.1 := by
  obtain ⟨r, called, stored⟩ := bind_eq_ok.mp done
  cases stored
  rw [performAct, called]
  rfl

/-- The maps are inverse, and every VM can be asked for. -/
structure Orderly (nuiod : Nuiod D) : Prop where
  agree : KeysAgree nuiod.vmInfosMap
  inverse : InverseMaps nuiod
  handle : ∀ (id : Int) (vm : VmInfo D), nuiod.vmInfosMap[id]? = some vm → vm.domPtr ≠ none

/-- The maps are inverse, and say where libvirt has the VMs. -/
structure InTouch (s : Nuiod D × World) : Prop extends Orderly s.1 where
  here : ∀ id ∈ s.1.vmInfosMap, s.1.recordedCpu id = s.2 id

variable {nuiod nuiod' : Nuiod D} {world : World}

omit [Double D] in
/-- A VM that moves to a CPU without an entry. -/
theorem InverseMaps.change (inverse : InverseMaps nuiod) (agree : KeysAgree nuiod.vmInfosMap)
    {id cpu : Int} {vm : VmInfo D} (tracked : nuiod.vmInfosMap[id]? = some vm)
    (free : cpu ∉ nuiod.cpuVmMapping) : InverseMaps (nuiod.changeCpuVmMapping id vm cpu) := by
  have sits : nuiod.recordedCpu id = some vm.realCpuNo := recordedCpu_eq_some.mpr ⟨vm, tracked, rfl⟩
  have holders : (fun x : Int => (nuiod.changeCpuVmMapping id vm cpu).cpuVmMapping[x]?)
      = take (release (fun x : Int => nuiod.cpuVmMapping[x]?) vm.realCpuNo id) cpu id := by
    simp only [changeCpuVmMapping]
    rw [getElem?_insert, getElem?_releaseCpu, agree id vm tracked]
  have seats : (nuiod.changeCpuVmMapping id vm cpu).recordedCpu
      = Function.update nuiod.recordedCpu id (some cpu) := by
    funext x
    simp only [recordedCpu, changeCpuVmMapping, Std.TreeMap.getElem?_insert, compare_eq_iff_eq]
    by_cases self : id = x
    · subst self
      simp
    · simp [self, Function.update_of_ne (Ne.symm self), recordedCpu]
  -- the VM alone has the new CPU for its destination
  have settles : Settles (Function.update nuiod.recordedCpu id (some cpu))
      (fun x : Int => nuiod.cpuVmMapping[x]?) nuiod.recordedCpu := .of_exact inverse
  have moved := settles.move sits (Function.update_self ..) fun b wanted => by
    by_contra other
    rw [Function.update_of_ne other] at wanted
    exact free (mem_iff_getElem?.mpr ⟨b, (inverse cpu b).mpr wanted⟩)
  rw [← holders, ← seats] at moved
  exact moved.exact_of_arrived fun _ _ sits' => sits'

/-! ### What keeps the states orderly -/

/-- What an orderly state says of a VM. -/
def seatOf (vm : VmInfo D) : Int × Int × Option Nat := (vm.domId, vm.realCpuNo, vm.domPtr)

omit [Double D] in
theorem Orderly.similar (orderly : Orderly nuiod) (cpus : nuiod'.cpuVmMapping = nuiod.cpuVmMapping)
    (vms : ∀ id : Int, (nuiod'.vmInfosMap[id]?).map seatOf = (nuiod.vmInfosMap[id]?).map seatOf) :
    Orderly nuiod' := by
  have source : ∀ (id : Int) (vm' : VmInfo D), nuiod'.vmInfosMap[id]? = some vm' →
      ∃ vm, nuiod.vmInfosMap[id]? = some vm ∧ seatOf vm = seatOf vm' := by
    intro id vm' found'
    have found := vms id
    rw [found', Option.map_some, eq_comm] at found
    exact Option.map_eq_some_iff.mp found
  refine ⟨fun id vm' found' => ?_, fun c id => ?_, fun id vm' found' => ?_⟩
  · obtain ⟨vm, found, same⟩ := source id vm' found'
    exact (congrArg Prod.fst same).symm.trans (orderly.agree id vm found)
  · have seats : ∀ state : Nuiod D, state.recordedCpu id =
        ((state.vmInfosMap[id]?).map seatOf).map fun seat => seat.2.1 := by
      intro state
      rw [Option.map_map]
      rfl
    rw [cpus, seats, vms, ← seats]
    exact orderly.inverse c id
  · obtain ⟨vm, found, same⟩ := source id vm' found'
    have sameHandle : vm.domPtr = vm'.domPtr := congrArg (fun seat => seat.2.2) same
    exact sameHandle ▸ orderly.handle id vm found

omit [Double D] in
theorem Orderly.of_sameMaps (orderly : Orderly nuiod) (same : SameMaps nuiod nuiod') :
    Orderly nuiod' :=
  orderly.similar same.cpus fun id => by rw [same.vms]

theorem Orderly.monitored {env : MonitorEnv} (orderly : Orderly nuiod)
    (monitored : Monitored nuiod env nuiod') : Orderly nuiod' := by
  refine orderly.similar (by rw [monitored.rest]) fun id => ?_
  cases found : nuiod.vmInfosMap[id]? with
  | none => rw [monitored.absent id found]
  | some vm =>
      obtain ⟨vm', found', sampled⟩ := monitored.sampled id vm found
      rw [found', Option.map_some, Option.map_some, seatOf, sampled.same.domId,
        sampled.same.realCpuNo, sampled.same.domPtr]
      rfl

omit [Double D] in
/-- The state of a VM is none of its maps' business. -/
theorem Orderly.record (orderly : Orderly nuiod) (domId : Int) (event : VirDomainEventType) :
    Orderly { nuiod with
      vmInfosMap := nuiod.vmInfosMap.modify domId fun vm => { vm with vmEventState := event } } := by
  refine orderly.similar rfl fun id => ?_
  rw [getElem?_modify_state]
  split
  · rw [Option.map_map]
    rfl
  · rfl

omit [Double D] in
/-- A new VM on a CPU of its own. -/
theorem Orderly.add (orderly : Orderly nuiod) {id : Int} {vm : VmInfo D} (own : vm.domId = id)
    (handle : vm.domPtr ≠ none) (new : id ∉ nuiod.vmInfosMap) (known : vm.realCpuNo ≠ -1)
    (free : vm.realCpuNo ∉ nuiod.cpuVmMapping) :
    Orderly { nuiod with
      vmInfosMap := nuiod.vmInfosMap.insert id vm
      cpuVmMapping := seatVm vm.realCpuNo id nuiod.cpuVmMapping } where
  agree := orderly.agree.insert own
  inverse c d := by
    have away : nuiod.recordedCpu id = none := by
      rw [recordedCpu, Std.TreeMap.getElem?_eq_none new]
      rfl
    have inverse := orderly.inverse c d
    simp only [recordedCpu, seatVm, if_neg known, Std.TreeMap.getElem?_insert,
      Std.TreeMap.getElem?_insertIfNew, compare_eq_iff_eq] at inverse away ⊢
    by_cases self : id = d
    · subst self
      rw [if_pos rfl]
      rw [away] at inverse
      by_cases same : vm.realCpuNo = c
      · subst same
        simp [free]
      · simpa [same] using inverse
    · rw [if_neg self, ← inverse]
      by_cases same : vm.realCpuNo = c
      · subst same
        simp [free, self]
      · simp [same]
  handle := forall_insert orderly.handle handle

omit [Double D] in
/-- A VM that is gone. -/
theorem Orderly.remove (orderly : Orderly nuiod) {id : Int} {vm : VmInfo D}
    (tracked : nuiod.vmInfosMap[id]? = some vm) : Orderly (nuiod.removeVm id vm) := by
  have own := orderly.agree id vm tracked
  refine ⟨forall_erase orderly.agree, fun c d => ?_, forall_erase orderly.handle⟩
  have inverse := orderly.inverse c d
  have released := congrFun (getElem?_releaseCpu nuiod.cpuVmMapping vm.realCpuNo vm.domId) c
  simp only [removeVm, recordedCpu, Std.TreeMap.getElem?_erase, compare_eq_iff_eq] at released ⊢
  rw [released, release_eq_some, inverse, own]
  by_cases self : id = d
  · subst self
    rw [if_pos rfl]
    refine iff_of_false ?_ (by simp)
    rintro ⟨here, other⟩
    rw [recordedCpu, tracked] at here
    cases here
    exact other rfl rfl
  · rw [if_neg self]
    exact and_iff_left fun _ => Ne.symm self

omit [Double D] in
/-- A VM that moves to a CPU without an entry. -/
theorem Orderly.change (orderly : Orderly nuiod) {id cpu : Int} {vm : VmInfo D}
    (tracked : nuiod.vmInfosMap[id]? = some vm) (free : cpu ∉ nuiod.cpuVmMapping) :
    Orderly (nuiod.changeCpuVmMapping id vm cpu) where
  agree := keysAgree_insert orderly.agree tracked rfl
  inverse := orderly.inverse.change orderly.agree tracked free
  handle := forall_insert orderly.handle (orderly.handle id vm tracked)

/-- A VM that starts is new, and on a CPU of its own. -/
def StartsAlone (nuiod : Nuiod D) (e : Event × Indeterminate D) : Prop :=
  e.1.event = .started → e.1.domId ∉ nuiod.vmInfosMap ∧
    getVmRealCpu e.1.domain.handle e.1.domain.vcpu ≠ -1 ∧
    getVmRealCpu e.1.domain.handle e.1.domain.vcpu ∉ nuiod.cpuVmMapping

theorem Orderly.handle_event (orderly : Orderly nuiod) {e : Event × Indeterminate D}
    (alone : StartsAlone nuiod e) (done : nuiod.handle e = .ok nuiod') : Orderly nuiod' := by
  obtain ⟨⟨ret, mid⟩, handled, stored⟩ := bind_eq_ok.mp done
  cases stored
  cases virVMEventCallBack_spec handled with
  | @started vm isStarted filled =>
      obtain ⟨new, known, free⟩ := alone isStarted
      rw [← filled.cpu] at known free
      exact (orderly.add filled.domId_eq filled.handle new known free).record e.1.domId e.1.event
  | removed _ tracked _ => exact orderly.remove tracked
  | @recorded vm _ tracked _ =>
      refine orderly.similar rfl fun id => ?_
      simp only [Std.TreeMap.getElem?_insert, compare_eq_iff_eq]
      split
      · rename_i self
        rw [← self, tracked]
        rfl
      · rfl
  | ignored _ _ => exact orderly

/-! ### The start -/

/-- Every domain that libvirt lists is on a CPU of its own. -/
structure ListedApart (listing : Listing D) : Prop where
  once : (listing.runningDomIds.getD []).Nodup
  known : ∀ id ∈ listing.runningDomIds.getD [],
    getVmRealCpu (listing.domain id).handle (listing.domain id).vcpu ≠ -1
  apart : ∀ id ∈ listing.runningDomIds.getD [], ∀ id' ∈ listing.runningDomIds.getD [],
    getVmRealCpu (listing.domain id).handle (listing.domain id).vcpu =
      getVmRealCpu (listing.domain id').handle (listing.domain id').vcpu → id = id'

/-- The VMs added so far, each as libvirt listed it. -/
structure AddedApart (listing : Listing D) (ids : List Int) (nuiod : Nuiod D) : Prop
    extends Orderly nuiod where
  listed : ∀ (id : Int) (vm : VmInfo D), nuiod.vmInfosMap[id]? = some vm → id ∈ ids ∧
    vm.realCpuNo = getVmRealCpu (listing.domain id).handle (listing.domain id).vcpu

theorem AddedApart.add {listing : Listing D} {ids : List Int} {id flag : Int}
    {rest : Indeterminate D} (added : AddedApart listing ids nuiod) (apart : ListedApart listing)
    (whole : ids ++ [id] <+: listing.runningDomIds.getD [])
    (done : nuiod.addVm (listing.domain id) rest id = .ok (flag, nuiod')) :
    AddedApart listing (ids ++ [id]) nuiod' := by
  obtain ⟨vm, filled, rfl⟩ := addVm_spec done
  have here : id ∈ listing.runningDomIds.getD [] := whole.subset (by simp)
  have fresh : id ∉ ids := by
    have once := apart.once.sublist whole.sublist
    rw [List.nodup_append] at once
    exact fun mem => once.2.2 id mem id List.mem_cons_self rfl
  have new : id ∉ nuiod.vmInfosMap := by
    intro tracked
    obtain ⟨vm', found⟩ := mem_iff_getElem?.mp tracked
    exact fresh (added.listed id vm' found).1
  have free : vm.realCpuNo ∉ nuiod.cpuVmMapping := by
    intro taken
    obtain ⟨other, holds⟩ := mem_iff_getElem?.mp taken
    obtain ⟨vm', found, sits⟩ := recordedCpu_eq_some.mp ((added.inverse _ other).mp holds)
    obtain ⟨before, cpu⟩ := added.listed other vm' found
    rw [filled.cpu, cpu] at sits
    rw [apart.apart other (whole.subset (List.mem_append_left _ before)) id here sits] at before
    exact fresh before
  have known := apart.known id here
  rw [← filled.cpu] at known
  refine ⟨added.toOrderly.add filled.domId_eq filled.handle new known free, ?_⟩
  refine forall_insert (fun d vm' found => ?_) ⟨by simp, filled.cpu⟩
  obtain ⟨before, cpu⟩ := added.listed d vm' found
  exact ⟨List.mem_append_left _ before, cpu⟩

theorem Orderly.init {conf : DomainConf} {cpuNumber : Nat} {strategy : SimpleStrategy}
    {machine : Machine D} {ret : Int} (apart : ListedApart machine.listing)
    (booted : (Nuiod.new conf cpuNumber strategy).init machine = .ok (ret, nuiod)) :
    Orderly nuiod := by
  obtain ⟨flag, listed, lists, sameVms, sameCpus⟩ := (init_spec booted).maps
  obtain ⟨ids, _, added⟩ := initVminfo_invariant (AddedApart machine.listing)
    (fun _ _ _ _ _ whole added done => added.add apart whole done)
    ⟨⟨fun id vm found => by simp [Nuiod.new] at found,
      fun c id => by simp [Nuiod.new, recordedCpu],
      fun id vm found => by simp [Nuiod.new] at found⟩,
      fun id vm found => by simp [Nuiod.new] at found⟩
    lists
  exact added.toOrderly.similar sameCpus fun id => by rw [sameVms]

/-! ### Handles -/

/-- libvirt looks the domain up by its id. -/
def LooksUp (domainOf : DomainPtr → Int) (env : DomainEnv) (domId : Int) : Prop :=
  ∀ p, env.handle = some p → domainOf p = domId

/-- Every VM has the handle of its own domain. -/
def OwnHandles (domainOf : DomainPtr → Int) (nuiod : Nuiod D) : Prop :=
  ∀ (id : Int) (vm : VmInfo D), nuiod.vmInfosMap[id]? = some vm → vm.domPtr.map domainOf = some id

omit [Double D] in
theorem Filled.ownHandle {conf : DomainConf} {env : DomainEnv} {rest : Indeterminate D}
    {domId : Int} {vm : VmInfo D} (filled : Filled conf env rest domId vm)
    (looks : LooksUp domainOf env domId) : vm.domPtr.map domainOf = some domId := by
  obtain ⟨p, handle⟩ := Option.ne_none_iff_exists'.mp filled.handle
  rw [handle, Option.map_some, looks p (filled.handle_eq ▸ handle)]

/-- The domain of a VM that starts is looked up. -/
def LooksUpStarted (domainOf : DomainPtr → Int) : Move D → Prop
  | .event e _ => e.event = .started → LooksUp domainOf e.domain e.domId
  | _ => True

theorem OwnHandles.move {m : Move D} (own : OwnHandles domainOf nuiod)
    (tracked : ForTracked nuiod m) (looks : LooksUpStarted domainOf m)
    (done : nuiod.move m = .ok nuiod') : OwnHandles domainOf nuiod' := by
  cases m with
  | event e rest =>
      obtain ⟨⟨ret, mid⟩, handled, stored⟩ := bind_eq_ok.mp done
      cases stored
      cases virVMEventCallBack_spec handled with
      | @started vm isStarted filled =>
          have new := filled.ownHandle (looks isStarted)
          exact forall_modify (forall_insert own new) fun _ same => same
      | removed => exact forall_erase own
      | @recorded vm _ tracked _ => exact forall_insert own (own _ vm tracked)
      | ignored => exact own
  | refresh report key =>
      rcases refreshVm_spec done with ⟨vm, cpu, relocates, rfl⟩ | ⟨_, rfl⟩
      · exact forall_insert own (own _ vm relocates.tracked)
      · exact own
  | monitor env =>
      have monitored := monitor_spec done
      intro id vm' found'
      cases found : nuiod.vmInfosMap[id]? with
      | none => cases (monitored.absent id found).symm.trans found'
      | some vm =>
          obtain ⟨vm'', found'', sampled⟩ := monitored.sampled id vm found
          cases found''.symm.trans found'
          rw [sampled.same.domPtr]
          exact own id vm found
  | act lists pins entry =>
      have touched : OwnHandles domainOf (nuiod.touched pins entry) := fun id vm found =>
        own id vm ((touched_tracked tracked id).symm.trans found)
      rcases performAct_spec done with ⟨vm, cpu, pinned, rfl⟩ | ⟨_, rfl⟩
      · exact forall_insert touched (own _ vm pinned.tracked)
      · exact touched

theorem OwnHandles.init {conf : DomainConf} {cpuNumber : Nat} {strategy : SimpleStrategy}
    {machine : Machine D} {ret : Int}
    (looks : ∀ id ∈ machine.listing.runningDomIds.getD [],
      LooksUp domainOf (machine.listing.domain id) id)
    (booted : (Nuiod.new conf cpuNumber strategy).init machine = .ok (ret, nuiod)) :
    OwnHandles domainOf nuiod := by
  obtain ⟨flag, listed, lists, sameVms, _⟩ := (init_spec booted).maps
  obtain ⟨ids, _, own⟩ := initVminfo_invariant (fun _ nuiod => OwnHandles domainOf nuiod)
    (fun _ _ id _ _ whole own done => by
      obtain ⟨vm, filled, rfl⟩ := addVm_spec done
      exact forall_insert own (filled.ownHandle (looks id (whole.subset (by simp)))))
    (fun id vm found => by simp [Nuiod.new] at found) lists
  intro id vm found
  rw [sameVms] at found
  exact own id vm found

/-- The measurements of a round keep the handles. -/
theorem OwnHandles.measured {mid refreshed measured : Nuiod D} {env : MonitorEnv}
    (own : OwnHandles domainOf nuiod) {events : List (Event × Indeterminate D)}
    (run : Run Nuiod.handle (fun _ e => e.1.event = .started →
      LooksUp domainOf e.1.domain e.1.domId) nuiod events mid)
    (refreshes : mid.refreshCpuMapping world = .ok refreshed)
    (monitors : refreshed.monitor env = .ok measured) : OwnHandles domainOf measured := by
  have started : OwnHandles domainOf mid := by
    refine run.invariant (fun s e s' own looks done => ?_) own
    have moved : s.move (.event e.1 e.2) = .ok s' := done
    exact own.move (m := .event e.1 e.2) trivial looks moved
  have settled : OwnHandles domainOf refreshed := by
    refine (Run.foldlM_iff.mp refreshes).invariant (fun s key s' own _ done => ?_) started
    have moved : s.move (.refresh world key) = .ok s' := done
    exact own.move (m := .refresh world key) trivial trivial moved
  have moved : refreshed.move (.monitor env) = .ok measured := monitors
  exact settled.move (m := .monitor env) trivial trivial moved

/-! ### What keeps the daemon in touch -/

omit [Double D] in
/-- After a refresh the record is what libvirt reports. -/
theorem Orderly.refresh (orderly : Orderly nuiod) (reassigns : Reassigns nuiod world)
    (done : nuiod.refreshCpuMapping world = .ok nuiod') : InTouch (nuiod', world) := by
  obtain ⟨final, folded, seen, refreshed, covers⟩ := Refreshing.run orderly.agree reassigns
    nuiod.vmInfosMap.keys (orderly.inverse.refreshing world)
  obtain rfl : final = nuiod' := Except.ok.inj (folded.symm.trans done)
  have realises := refreshed.realises reassigns fun id tracked =>
    (covers id).mpr (.inl (Std.TreeMap.mem_keys.mpr tracked))
  have source : ∀ (id : Int) (vm' : VmInfo D), final.vmInfosMap[id]? = some vm' →
      ∃ vm, nuiod.vmInfosMap[id]? = some vm ∧ { vm with realCpuNo := (world id).getD (-1) } = vm' := by
    intro id vm' found'
    rw [realises.vms] at found'
    exact Option.map_eq_some_iff.mp found'
  refine ⟨⟨fun id vm' found' => ?_, realises.inverse, fun id vm' found' => ?_⟩, fun id here => ?_⟩
  · obtain ⟨vm, found, rfl⟩ := source id vm' found'
    exact orderly.agree id vm found
  · obtain ⟨vm, found, rfl⟩ := source id vm' found'
    exact orderly.handle id vm found
  · obtain ⟨vm', found'⟩ := mem_iff_getElem?.mp here
    obtain ⟨vm, found, _⟩ := source id vm' found'
    exact realises.reported id (mem_iff_getElem?.mpr ⟨vm, found⟩)

omit [Double D] in
/-- Then no two VMs are on one CPU. -/
theorem InTouch.apart {s : Nuiod D × World} (touch : InTouch s) {id id' c : Int}
    (tracked : id ∈ s.1.vmInfosMap) (tracked' : id' ∈ s.1.vmInfosMap) (first : s.2 id = some c)
    (second : s.2 id' = some c) : id = id' :=
  touch.inverse.injective ((touch.here id tracked).trans first)
    ((touch.here id' tracked').trans second)

/-- A decision for a tracked VM. -/
theorem Orderly.act {lists : List (List (Nat × D))} {env : PinEnv D} {entry : Decision × Nat}
    (orderly : Orderly nuiod) (tracked : entry.1.domId ∈ nuiod.vmInfosMap)
    (done : performAct lists env nuiod entry = .ok nuiod') : Orderly nuiod' := by
  have same := SameMaps.of_touched env tracked
  rcases performAct_spec done with ⟨vm, cpu, pins, rfl⟩ | ⟨_, rfl⟩
  · obtain ⟨cpus, _, target⟩ := pins.target
    exact (orderly.of_sameMaps same).change ((same.vms _).trans pins.tracked)
      (targetCpuno_free target)
  · exact orderly.of_sameMaps same

/-- The call that is made moves the VM to where the daemon has it then. -/
theorem InTouch.act {lists : List (List (Nat × D))} {env : PinEnv D} {s s' : Nuiod D × World}
    {entry : Decision × Nat} (touch : InTouch s) (own : OwnHandles domainOf s.1)
    (tracked : entry.1.domId ∈ s.1.vmInfosMap)
    (done : worldAct domainOf lists env s entry = .ok s') :
    InTouch s' ∧ OwnHandles domainOf s'.1 := by
  have performed := worldAct_eq_ok done
  have keys : ∀ x : Int, x ∈ s'.1.vmInfosMap ↔ x ∈ s.1.vmInfosMap := act_keys tracked performed
  have moved : s.1.move (.act lists env entry) = .ok s'.1 := performed
  refine ⟨⟨touch.toOrderly.act tracked performed, fun x tracked' => ?_⟩,
    own.move (m := .act lists env entry) tracked trivial moved⟩
  have here := touch.here x ((keys x).mp tracked')
  clear keys performed moved tracked'
  obtain ⟨⟨nuiod', made⟩, called, stored⟩ := bind_eq_ok.mp done
  cases stored
  have recorded : (s.1.touched env entry).recordedCpu = s.1.recordedCpu := by
    funext x
    rw [recordedCpu, recordedCpu, touched_tracked tracked]
  rcases performActCall_spec called with ⟨vm, cpu, pins, rfl, rfl⟩ | ⟨_, failed, rfl⟩
  · obtain ⟨p, handle⟩ := Option.ne_none_iff_exists'.mp pins.handle
    have same : domainOf p = entry.1.domId := by
      have stands := own _ vm pins.tracked
      rw [handle] at stands
      exact Option.some.inj stands
    have moves : s.2.pin domainOf (env.pin entry.2) (some ⟨vm.domPtr, 0, cpu⟩) =
        Function.update s.2 entry.1.domId (some (cpu : Int)) := by
      simp only [World.pin, handle, if_neg pins.succeeded, same]
    simp only [moves]
    by_cases self : x = entry.1.domId
    · subst self
      rw [Function.update_self]
      simp [recordedCpu, changeCpuVmMapping]
    · rw [Function.update_of_ne self, ← here, ← recorded]
      simp [recordedCpu, changeCpuVmMapping, Std.TreeMap.getElem?_insert, Ne.symm self]
  · have stays : s.2.pin domainOf (env.pin entry.2) made = s.2 := by
      cases made with
      | none => rfl
      | some call =>
          have fails := failed call rfl
          obtain ⟨domain, vcpu, cpu⟩ := call
          cases domain with
          | none => rfl
          | some p =>
              refine if_pos ?_
              by_contra succeeded
              exact PinCall.ret_ne_neg_one.mpr ⟨Option.some_ne_none p, succeeded⟩ fails
    simp only [stays, recorded]
    exact here

theorem InTouch.acts {lists : List (List (Nat × D))} {env : PinEnv D}
    {entries : List (Decision × Nat)} {s s' : Nuiod D × World} (touch : InTouch s)
    (own : OwnHandles domainOf s.1) (tracked : ∀ entry ∈ entries, entry.1.domId ∈ s.1.vmInfosMap)
    (done : entries.foldlM (worldAct domainOf lists env) s = .ok s') :
    InTouch s' ∧ OwnHandles domainOf s'.1 := by
  induction entries generalizing s with
  | nil =>
      cases done
      exact ⟨touch, own⟩
  | cons entry entries ih =>
      rw [List.forall_mem_cons] at tracked
      rw [List.foldlM_cons] at done
      obtain ⟨mid, one, later⟩ := bind_eq_ok.mp done
      obtain ⟨touch', own'⟩ := touch.act own tracked.1 one
      refine ih touch' own' (fun next mem => ?_) later
      exact (act_keys tracked.1 (worldAct_eq_ok one) _).mpr (tracked.2 next mem)

/-- The world in which a round begins: every VM that started meanwhile was looked up and on a CPU
of its own, and so is every VM now. -/
def Separate (domainOf : DomainPtr → Int) (s : Nuiod D × World) (a : World × Round D) : Prop :=
  ∃ mid, Run Nuiod.handle (fun nuiod e => StartsAlone nuiod e ∧
    (e.1.event = .started → LooksUp domainOf e.1.domain e.1.domId)) s.1 a.2.events mid ∧
    Reassigns mid a.1

theorem Orderly.events {events : List (Event × Indeterminate D)} (orderly : Orderly nuiod)
    (run : Run Nuiod.handle StartsAlone nuiod events nuiod') : Orderly nuiod' :=
  run.invariant (fun _ _ _ orderly alone done => orderly.handle_event alone done) orderly

/-- When the measurements are taken. -/
theorem Orderly.measured {refreshed measured : Nuiod D} {env : MonitorEnv} (orderly : Orderly nuiod)
    (reassigns : Reassigns nuiod world) (refreshes : nuiod.refreshCpuMapping world = .ok refreshed)
    (monitors : refreshed.monitor env = .ok measured) : InTouch (measured, world) := by
  have monitored := monitor_spec monitors
  have touch := orderly.refresh reassigns refreshes
  refine ⟨touch.toOrderly.monitored monitored, fun id here => ?_⟩
  have stays := congrFun monitored.recordedCpu_eq id
  exact stays.trans (touch.here id ((monitored.mem_iff id).mp here))

/-- A round. -/
theorem Orderly.round {s s' : Nuiod D × World} {a : World × Round D} (orderly : Orderly s.1)
    (own : OwnHandles domainOf s.1) (separate : Separate domainOf s a)
    (done : worldRound domainOf s a = .ok s') : InTouch s' ∧ OwnHandles domainOf s'.1 := by
  obtain ⟨mid, events, reassigns⟩ := separate
  obtain ⟨measured, measures, done⟩ := bind_eq_ok.mp done
  obtain ⟨acts, decided, done⟩ := bind_eq_ok.mp done
  obtain ⟨lists, _, performs⟩ := bind_eq_ok.mp done
  obtain ⟨mid', refreshed, handled', refreshes, monitors⟩ := measuring_eq_ok.mp measures
  have handled : a.2.events.foldlM Nuiod.handle s.1 = .ok mid :=
    Run.foldlM_iff.mpr (events.mono fun _ _ _ => trivial)
  obtain rfl : mid = mid' := Except.ok.inj (handled.symm.trans handled')
  have touch := (orderly.events (events.mono fun _ _ both => both.1)).measured reassigns refreshes
    monitors
  have own' := own.measured (events.mono fun _ _ both => both.2) refreshes monitors
  refine touch.acts own' (fun entry mem => ?_) performs
  obtain ⟨act, pos⟩ := entry
  exact scheduleActs_tracked touch.agree decided act (List.fst_mem_of_mem_zipIdx mem)

/-- Performing decisions for tracked VMs. -/
theorem Orderly.performed {acts : List Decision} {sort : CpuSort D} {pins : PinEnv D}
    (orderly : Orderly nuiod) (tracked : ∀ act ∈ acts, act.domId ∈ nuiod.vmInfosMap)
    (done : nuiod.perform acts sort pins = .ok nuiod') : Orderly nuiod' := by
  obtain ⟨lists, sorted, folded⟩ := bind_eq_ok.mp done
  have each : ∀ entry ∈ acts.zipIdx, entry.1.domId ∈ nuiod.vmInfosMap := fun entry mem =>
    tracked entry.1 (List.fst_mem_of_mem_zipIdx mem)
  clear done tracked sorted
  generalize acts.zipIdx = entries at folded each
  induction entries generalizing nuiod with
  | nil =>
      cases folded
      exact orderly
  | cons entry entries ih =>
      rw [List.forall_mem_cons] at each
      rw [List.foldlM_cons] at folded
      obtain ⟨mid, one, later⟩ := bind_eq_ok.mp folded
      exact ih (orderly.act each.1 one) later fun next mem =>
        (act_keys each.1 one _).mpr (each.2 next mem)

omit [Double D] in
/-- As long as nobody moves a VM there is nothing to refresh. -/
theorem InTouch.refresh {s : Nuiod D × World} (touch : InTouch s) :
    s.1.refreshCpuMapping s.2 = .ok s.1 := by
  apply refresh_quiet
  intro id vm cpu relocates
  have sits : s.1.recordedCpu id = some vm.realCpuNo :=
    recordedCpu_eq_some.mpr ⟨vm, relocates.tracked, rfl⟩
  rw [touch.here id (mem_iff_getElem?.mpr ⟨vm, relocates.tracked⟩), relocates.reported] at sits
  exact relocates.elsewhere (Option.some.inj sits)

omit [Double D]

/-- VM 1 and VM 2 on the CPUs given. -/
def twoOn (first second : Int) : World := fun id =>
  if id = 1 then some first else if id = 2 then some second else none

theorem either_of_keys {nuiod : Nuiod ℚ} (both : nuiod.vmInfosMap.keys = [1, 2]) :
    ∀ id ∈ nuiod.vmInfosMap, id = 1 ∨ id = 2 := by
  intro id here
  rw [← Std.TreeMap.mem_keys, both] at here
  simpa using here

/-- Two VMs on two CPUs are not in each other's way. -/
theorem reassigns_twoOn {nuiod : Nuiod ℚ} {c c' : Int} (orderly : Orderly nuiod)
    (either : ∀ id ∈ nuiod.vmInfosMap, id = 1 ∨ id = 2) (known : c ≠ -1 ∧ c' ≠ -1) (apart : c ≠ c') :
    Reassigns nuiod (twoOn c c') := by
  refine ⟨orderly.handle, fun id here => ?_, fun id here id' here' same => ?_⟩
  · rcases either id here with rfl | rfl
    · exact ⟨c, rfl, known.1⟩
    · exact ⟨c', rfl, known.2⟩
  · rcases either id here with rfl | rfl <;> rcases either id' here' with rfl | rfl
    · rfl
    · exact absurd (Option.some.inj same) apart
    · exact absurd (Option.some.inj same).symm apart
    · rfl

end VNams.Nuiod
