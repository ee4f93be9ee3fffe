import VNams.Lib.Seating
import VNams.Nuiod.Moves

/-!
The CPU map and the recorded CPUs as an arrangement.

`arrangement` forgets everything but who holds which CPU and which CPU each VM is recorded
on. `move_simulates` says that every move changes it by at most one `Change`, the one that
`Reseats` reads off the move, so what the library knows about changes of arrangements
carries over to runs of the daemon (`throughout_arrangement_iff`).
-/

namespace VNams.Nuiod

open Lib Strategy

variable {D : Type}

/-- A CPU that could be read. -/
def place (cpu : Int) : Option Int := if cpu = -1 then none else some cpu

theorem place_eq_some {cpu c : Int} : place cpu = some c ↔ cpu = c ∧ c ≠ -1 := by
  unfold place
  split_ifs with unknown
  · subst unknown
    simp only [ne_eq, false_iff, not_and, not_not]
    exact Eq.symm
  · simp only [Option.some.injEq, ne_eq]
    refine ⟨fun same => ⟨same, ?_⟩, And.left⟩
    rwa [← same]

/-- The CPU that is recorded for a domain. -/
def seat (nuiod : Nuiod D) (domId : Int) : Option Int :=
  (nuiod.vmInfosMap[domId]?).bind fun vm => place vm.realCpuNo

/-- Who holds which CPU, and who is recorded on which. -/
def arrangement (nuiod : Nuiod D) : Arrangement Int Int where
  holder c := nuiod.cpuVmMapping[c]?
  seat := nuiod.seat

theorem seat_of_tracked {nuiod : Nuiod D} {domId : Int} {vm : VmInfo D}
    (tracked : nuiod.vmInfosMap[domId]? = some vm) : nuiod.seat domId = place vm.realCpuNo := by
  simp [seat, tracked]

theorem seat_eq_some {nuiod : Nuiod D} {domId c : Int} :
    nuiod.seat domId = some c ↔
      ∃ vm, nuiod.vmInfosMap[domId]? = some vm ∧ vm.realCpuNo = c ∧ c ≠ -1 := by
  simp only [seat, Option.bind_eq_some_iff, place_eq_some]

/-- What every state has: a VM carries its own id, unless it is an entry that `operator[]`
made up for an unknown id, and no entry is under the CPU -1. -/
structure Sound (nuiod : Nuiod D) : Prop where
  ids : ∀ (k : Int) (vm : VmInfo D), nuiod.vmInfosMap[k]? = some vm →
    vm.domId = k ∨ (vm.domPtr = none ∧ vm.realCpuNo = -1)
  noEntry : nuiod.cpuVmMapping[(-1 : Int)]? = none

theorem Sound.id_of_handle {nuiod : Nuiod D} (sound : Sound nuiod) {k : Int} {vm : VmInfo D}
    (tracked : nuiod.vmInfosMap[k]? = some vm) (handle : vm.domPtr ≠ none) : vm.domId = k := by
  rcases sound.ids k vm tracked with own | made
  · exact own
  · exact absurd made.1 handle

/-! ### The updates of the CPU map -/

theorem getElem?_seatVm (cpu domId : Int) (m : IntMap) :
    (fun c : Int => (seatVm cpu domId m)[c]?)
      = enter (fun c : Int => m[c]?) domId (place cpu) := by
  unfold seatVm place
  split_ifs with unknown
  · rfl
  · funext x
    simp only [enter, claim, Std.TreeMap.getElem?_insertIfNew, Std.TreeMap.mem_iff_isSome_getElem?,
      compare_eq_iff_eq]
    by_cases free : m[cpu]? = none
    · by_cases here : cpu = x
      · subst here
        simp [free]
      · simp [free, here, Function.update_of_ne (Ne.symm here)]
    · obtain ⟨d, held⟩ := Option.ne_none_iff_exists'.mp free
      simp [held]

/-- Seating a domain adds no entry but its own. -/
theorem entry_of_seatVm {cpu domId c d : Int} {m : IntMap}
    (held : (seatVm cpu domId m)[c]? = some d) : d = domId ∨ m[c]? = some d := by
  unfold seatVm at held
  split_ifs at held
  · exact .inr held
  · rw [Std.TreeMap.getElem?_insertIfNew] at held
    split_ifs at held
    · exact .inl (Option.some.inj held).symm
    · exact .inr held

/-- Nothing is entered under the CPU -1. -/
theorem seatVm_noEntry {m : IntMap} (noEntry : m[(-1 : Int)]? = none) (cpu domId : Int) :
    (seatVm cpu domId m)[(-1 : Int)]? = none := by
  unfold seatVm
  split_ifs with unknown
  · exact noEntry
  · simp [Std.TreeMap.getElem?_insertIfNew, unknown, noEntry]

/-- A CPU without an entry stays without one. -/
theorem releaseCpu_noEntry {m : IntMap} {c : Int} (noEntry : m[c]? = none) (cpu domId : Int) :
    (releaseCpu m cpu domId)[c]? = none := by
  unfold releaseCpu
  split_ifs
  · simp [Std.TreeMap.getElem?_erase, noEntry]
  · exact noEntry

theorem getElem?_releaseCpu (m : IntMap) (cpu domId : Int) :
    (fun c : Int => (releaseCpu m cpu domId)[c]?) = release (fun c : Int => m[c]?) cpu domId := by
  unfold releaseCpu release
  split_ifs with own
  · funext x
    simp only [Std.TreeMap.getElem?_erase, compare_eq_iff_eq]
    by_cases here : cpu = x
    · subst here
      simp
    · simp [here, Function.update_of_ne (Ne.symm here)]
  · rfl

theorem getElem?_insert (m : IntMap) (cpu domId : Int) :
    (fun c : Int => (m.insert cpu domId)[c]?) = take (fun c : Int => m[c]?) cpu domId := by
  funext x
  simp only [take, Std.TreeMap.getElem?_insert, compare_eq_iff_eq]
  by_cases here : cpu = x
  · subst here
    simp
  · simp [here, Function.update_of_ne (Ne.symm here)]

/-- Releasing the CPU of a VM is giving up its seat. -/
theorem released_eq {nuiod : Nuiod D} (sound : Sound nuiod) {k : Int} {vm : VmInfo D}
    (tracked : nuiod.vmInfosMap[k]? = some vm) :
    (fun c : Int => (releaseCpu nuiod.cpuVmMapping vm.realCpuNo vm.domId)[c]?)
      = nuiod.arrangement.released k := by
  have nothing : vm.realCpuNo = -1 →
      releaseCpu nuiod.cpuVmMapping vm.realCpuNo vm.domId = nuiod.cpuVmMapping := by
    intro unknown
    simp [releaseCpu, unknown, sound.noEntry]
  have sits : nuiod.arrangement.seat k = place vm.realCpuNo := seat_of_tracked tracked
  simp only [Arrangement.released, sits]
  by_cases unknown : vm.realCpuNo = -1
  · rw [nothing unknown]
    simp [place, unknown, arrangement]
  · rcases sound.ids k vm tracked with own | made
    · rw [getElem?_releaseCpu, own]
      simp [place, unknown, arrangement]
    · exact absurd made.2 unknown

/-- Changing the mapping of a VM is a move. -/
theorem arrangement_change {nuiod : Nuiod D} (sound : Sound nuiod) {key newCpu : Int} {vm : VmInfo D}
    (tracked : nuiod.vmInfosMap[key]? = some vm) (handle : vm.domPtr ≠ none)
    (known : newCpu ≠ -1) :
    (nuiod.changeCpuVmMapping key vm newCpu).arrangement
      = nuiod.arrangement.apply (.move key newCpu) := by
  have holders : (fun c : Int => (nuiod.changeCpuVmMapping key vm newCpu).cpuVmMapping[c]?)
      = take (nuiod.arrangement.released key) newCpu key := by
    simp only [changeCpuVmMapping]
    rw [getElem?_insert, released_eq sound tracked, sound.id_of_handle tracked handle]
  have seats : (nuiod.changeCpuVmMapping key vm newCpu).seat
      = Function.update nuiod.seat key (some newCpu) := by
    funext d
    simp only [seat, changeCpuVmMapping, Std.TreeMap.getElem?_insert, compare_eq_iff_eq]
    by_cases self : key = d
    · subst self
      simp [place, known]
    · simp [self, Function.update_of_ne (Ne.symm self), seat]
  simp only [arrangement, Arrangement.apply] at holders ⊢
  rw [holders, seats]

/-- Two states with the same CPU map and the same recorded CPUs. -/
theorem arrangement_congr {nuiod nuiod' : Nuiod D}
    (holders : nuiod'.cpuVmMapping = nuiod.cpuVmMapping)
    (seats : ∀ d, nuiod'.seat d = nuiod.seat d) : nuiod'.arrangement = nuiod.arrangement := by
  simp only [arrangement, holders]
  rw [funext seats]

/-- A domain that was seated as `set_vm_info` does entered the arrangement. -/
theorem arrangement_enter {nuiod nuiod' : Nuiod D} {domId cpu : Int}
    (holders : nuiod'.cpuVmMapping = seatVm cpu domId nuiod.cpuVmMapping)
    (seats : ∀ d, nuiod'.seat d = Function.update nuiod.seat domId (place cpu) d) :
    nuiod'.arrangement = nuiod.arrangement.apply (.enter domId (place cpu)) := by
  simp only [arrangement, Arrangement.apply, holders, getElem?_seatVm]
  rw [funext seats]

theorem Sound.change {nuiod : Nuiod D} (sound : Sound nuiod) {key newCpu : Int} {vm : VmInfo D}
    (tracked : nuiod.vmInfosMap[key]? = some vm) (handle : vm.domPtr ≠ none)
    (known : newCpu ≠ -1) : Sound (nuiod.changeCpuVmMapping key vm newCpu) := by
  have own := sound.id_of_handle tracked handle
  refine ⟨forall_insert sound.ids (.inl own), ?_⟩
  simp only [changeCpuVmMapping, Std.TreeMap.getElem?_insert, compare_eq_iff_eq, known, if_false]
  exact releaseCpu_noEntry sound.noEntry vm.realCpuNo vm.domId

/-- A VM stored with a new event state sits where it sat. -/
theorem seat_record {nuiod : Nuiod D} {domId : Int} {vm : VmInfo D}
    (tracked : nuiod.vmInfosMap[domId]? = some vm) (state : VirDomainEventType) (d : Int) :
    seat { nuiod with
      vmInfosMap := nuiod.vmInfosMap.insert domId { vm with vmEventState := state } } d
      = nuiod.seat d := by
  simp only [seat, Std.TreeMap.getElem?_insert, compare_eq_iff_eq]
  by_cases self : domId = d
  · subst self
    simp [tracked]
  · simp [self]

/-- Setting the event state of a new VM changes neither map of the arrangement. -/
theorem getElem?_modify_state {vms : VmMap D} {domId : Int} (state : VirDomainEventType) (d : Int) :
    (vms.modify domId fun vm => { vm with vmEventState := state })[d]? =
      if domId = d then (vms[d]?).map fun vm => { vm with vmEventState := state } else vms[d]? := by
  simp only [Std.TreeMap.getElem?_modify, compare_eq_iff_eq]
  by_cases self : domId = d
  · subst self
    simp
  · simp [self]

section Double

variable [Double D]

/-- Adding a VM puts it on the CPU reported for it. -/
theorem arrangement_addVm {nuiod nuiod' : Nuiod D} {env : DomainEnv} {rest : Indeterminate D}
    {domId flag : Int} (done : nuiod.addVm env rest domId = .ok (flag, nuiod')) :
    nuiod'.arrangement
      = nuiod.arrangement.apply (.enter domId (place (getVmRealCpu env.handle env.vcpu))) := by
  obtain ⟨vm, filled, rfl⟩ := addVm_spec done
  have seats : ∀ d, seat { nuiod with
      vmInfosMap := nuiod.vmInfosMap.insert domId vm
      cpuVmMapping := seatVm vm.realCpuNo domId nuiod.cpuVmMapping } d
        = Function.update nuiod.seat domId (place vm.realCpuNo) d := by
    intro d
    simp only [seat, Std.TreeMap.getElem?_insert, compare_eq_iff_eq]
    by_cases self : domId = d
    · subst self
      simp
    · simp [self, Function.update_of_ne (Ne.symm self), seat]
  rw [← filled.cpu]
  exact arrangement_enter rfl seats

theorem Sound.addVm {nuiod nuiod' : Nuiod D} (sound : Sound nuiod) {env : DomainEnv}
    {rest : Indeterminate D} {domId flag : Int}
    (done : nuiod.addVm env rest domId = .ok (flag, nuiod')) : Sound nuiod' := by
  obtain ⟨vm, filled, rfl⟩ := addVm_spec done
  exact ⟨forall_insert sound.ids (.inl filled.domId_eq),
    seatVm_noEntry sound.noEntry vm.realCpuNo domId⟩

/-! ### Moves -/

/-- The change that a move makes to the arrangement, read off the move and the state. -/
inductive Reseats (nuiod : Nuiod D) : Move D → Change Int Int → Prop where
  | started {e : Event} {rest : Indeterminate D} (isStarted : e.event = .started) :
      Reseats nuiod (.event e rest)
        (.enter e.domId (place (getVmRealCpu e.domain.handle e.domain.vcpu)))
  | stopped {e : Event} {rest : Indeterminate D} {vm : VmInfo D} (isStopped : e.event = .stopped)
      (tracked : nuiod.vmInfosMap[e.domId]? = some vm)
      (down : vm.vmEventState = .shutdown ∨ vm.vmEventState = .stopped) :
      Reseats nuiod (.event e rest) (.leave e.domId)
  | reported {report : Int → Option Int} {key : Int} {vm : VmInfo D} {cpu : Int}
      (relocates : Relocates nuiod report key vm cpu) :
      Reseats nuiod (.refresh report key) (.move key cpu)
  | pinned {lists : List (List (Nat × D))} {pins : PinEnv D} {entry : Decision × Nat}
      {vm : VmInfo D} {cpu : Nat} (moved : Pins nuiod lists pins entry vm cpu) :
      Reseats nuiod (.act lists pins entry) (.move entry.1.domId cpu)

/-- A move makes one change at most. -/
theorem Reseats.unique {nuiod : Nuiod D} {m : Move D} {change change' : Change Int Int}
    (first : Reseats nuiod m change) (second : Reseats nuiod m change') : change = change' := by
  cases first with
  | started isStarted =>
      cases second with
      | started _ => rfl
      | stopped isStopped => cases isStarted.symm.trans isStopped
  | stopped isStopped =>
      cases second with
      | started isStarted => cases isStarted.symm.trans isStopped
      | stopped _ => rfl
  | reported relocates =>
      cases second with
      | reported relocates' =>
          cases relocates.reported.symm.trans relocates'.reported
          rfl
  | pinned moved =>
      cases second with
      | pinned moved' =>
          obtain ⟨cpus, listed, target⟩ := moved.target
          obtain ⟨cpus', listed', target'⟩ := moved'.target
          cases listed.symm.trans listed'
          cases target.symm.trans target'
          rfl

/-- The touch of a decision adds an entry without a handle and a CPU at most. -/
theorem touched_vm {nuiod : Nuiod D} (pins : PinEnv D) (entry : Decision × Nat) (x : Int) :
    (nuiod.touched pins entry).vmInfosMap[x]? = nuiod.vmInfosMap[x]? ∨
      (nuiod.vmInfosMap[x]? = none ∧ x = entry.1.domId ∧
        (nuiod.touched pins entry).vmInfosMap[x]? = some (VmInfo.new (pins.rest entry.2))) := by
  simp only [touched, getElem?_insertIfNew_getD]
  split
  · rename_i here
    subst here
    rw [Std.TreeMap.getD_eq_getD_getElem?]
    cases found : nuiod.vmInfosMap[entry.1.domId]? with
    | none => exact .inr ⟨rfl, rfl, rfl⟩
    | some vm => exact .inl rfl
  · exact .inl rfl

/-- Reading a tracked VM with `operator[]` changes nothing. -/
theorem touched_tracked {nuiod : Nuiod D} {pins : PinEnv D} {entry : Decision × Nat}
    (tracked : entry.1.domId ∈ nuiod.vmInfosMap) (x : Int) :
    (nuiod.touched pins entry).vmInfosMap[x]? = nuiod.vmInfosMap[x]? := by
  rcases touched_vm pins entry x with same | ⟨missing, here, _⟩
  · exact same
  · obtain ⟨vm, present⟩ := mem_iff_getElem?.mp tracked
    rw [here, present] at missing
    cases missing

theorem Sound.touched {nuiod : Nuiod D} (sound : Sound nuiod) (pins : PinEnv D)
    (entry : Decision × Nat) : Sound (nuiod.touched pins entry) := by
  refine ⟨fun k vm tracked => ?_, sound.noEntry⟩
  rcases touched_vm pins entry k with same | ⟨_, _, made⟩
  · rw [same] at tracked
    exact sound.ids k vm tracked
  · rw [made] at tracked
    cases tracked
    exact .inr ⟨rfl, rfl⟩

theorem arrangement_touched (nuiod : Nuiod D) (pins : PinEnv D) (entry : Decision × Nat) :
    (nuiod.touched pins entry).arrangement = nuiod.arrangement := by
  refine arrangement_congr rfl fun d => ?_
  unfold seat
  rcases touched_vm pins entry d with same | ⟨missing, _, made⟩
  · rw [same]
  · rw [made, missing]
    rfl

theorem move_sound {nuiod nuiod' : Nuiod D} {m : Move D} (sound : Sound nuiod)
    (done : nuiod.move m = .ok nuiod') : Sound nuiod' := by
  cases m with
  | event e rest =>
      obtain ⟨⟨ret, mid⟩, handled, stored⟩ := bind_eq_ok.mp done
      cases stored
      cases virVMEventCallBack_spec handled with
      | @started vm isStarted filled =>
          have added := forall_insert sound.ids (.inl filled.domId_eq)
          exact ⟨forall_modify added fun _ own => own,
            seatVm_noEntry sound.noEntry vm.realCpuNo e.domId⟩
      | @removed vm isStopped tracked down =>
          exact ⟨forall_erase sound.ids,
            releaseCpu_noEntry sound.noEntry vm.realCpuNo vm.domId⟩
      | @recorded vm isRecorded tracked up =>
          exact ⟨forall_insert sound.ids (sound.ids _ vm tracked), sound.noEntry⟩
      | ignored => exact sound
  | refresh report key =>
      rcases refreshVm_spec done with ⟨vm, cpu, relocates, rfl⟩ | ⟨_, rfl⟩
      · exact sound.change relocates.tracked relocates.handle relocates.known
      · exact sound
  | monitor env =>
      have monitored := monitor_spec done
      refine ⟨fun k vm tracked => ?_, ?_⟩
      · cases before : nuiod.vmInfosMap[k]? with
        | none =>
            rw [monitored.absent k before] at tracked
            cases tracked
        | some old =>
            obtain ⟨vm', stored, sampled⟩ := monitored.sampled k old before
            obtain rfl : vm = vm' := Option.some.inj (tracked.symm.trans stored)
            rw [sampled.same.domId, sampled.same.domPtr, sampled.same.realCpuNo]
            exact sound.ids k old before
      · rw [monitored.rest]
        exact sound.noEntry
  | act lists pins entry =>
      rcases performAct_spec done with ⟨vm, cpu, moved, rfl⟩ | ⟨_, rfl⟩
      · have own : entry.1.domId ∈ nuiod.vmInfosMap := mem_iff_getElem?.mpr ⟨vm, moved.tracked⟩
        have tracked : (nuiod.touched pins entry).vmInfosMap[entry.1.domId]? = some vm := by
          rw [touched_tracked own]
          exact moved.tracked
        exact (sound.touched pins entry).change tracked moved.handle (by omega)
      · exact sound.touched pins entry

/-- Every move is the change that `Reseats` reads off it, or leaves the arrangement alone. -/
theorem move_simulates {nuiod nuiod' : Nuiod D} {m : Move D} (sound : Sound nuiod)
    (done : nuiod.move m = .ok nuiod') :
    (∃ change, Reseats nuiod m change ∧ nuiod'.arrangement = nuiod.arrangement.apply change) ∨
      ((∀ change, ¬ Reseats nuiod m change) ∧ nuiod'.arrangement = nuiod.arrangement) := by
  cases m with
  | event e rest =>
      obtain ⟨⟨ret, mid⟩, handled, stored⟩ := bind_eq_ok.mp done
      cases stored
      cases virVMEventCallBack_spec handled with
      | @started vm isStarted filled =>
          refine .inl ⟨_, .started isStarted, ?_⟩
          have seats : ∀ d, seat { nuiod with
              vmInfosMap := (nuiod.vmInfosMap.insert e.domId vm).modify e.domId
                fun vm => { vm with vmEventState := e.event }
              cpuVmMapping := seatVm vm.realCpuNo e.domId nuiod.cpuVmMapping } d
              = Function.update nuiod.seat e.domId (place vm.realCpuNo) d := by
            intro d
            simp only [seat, getElem?_modify_state, Std.TreeMap.getElem?_insert, compare_eq_iff_eq]
            by_cases self : e.domId = d
            · subst self
              simp
            · simp [self, Function.update_of_ne (Ne.symm self), seat]
          rw [← filled.cpu]
          exact arrangement_enter rfl seats
      | @removed vm isStopped tracked down =>
          refine .inl ⟨_, .stopped isStopped tracked down, ?_⟩
          have seats : ∀ d, (nuiod.removeVm e.domId vm).seat d
              = Function.update nuiod.seat e.domId none d := by
            intro d
            simp only [seat, removeVm, Std.TreeMap.getElem?_erase, compare_eq_iff_eq]
            by_cases self : e.domId = d
            · subst self
              simp
            · simp [self, Function.update_of_ne (Ne.symm self), seat]
          simp only [arrangement, Arrangement.apply]
          rw [funext seats]
          congr 1
          exact released_eq sound tracked
      | @recorded vm isRecorded tracked up =>
          refine .inr ⟨fun change reseats => ?_, arrangement_congr rfl (seat_record tracked e.event)⟩
          cases reseats with
          | started isStarted =>
              rw [isStarted] at isRecorded
              cases isRecorded
          | stopped isStopped tracked' down =>
              obtain rfl := Option.some.inj (tracked.symm.trans tracked')
              obtain ⟨notShutdown, notStopped⟩ := up isStopped
              exact down.elim notShutdown notStopped
      | ignored notStarted absent =>
          refine .inr ⟨fun change reseats => ?_, rfl⟩
          cases reseats with
          | started isStarted => exact notStarted isStarted
          | stopped isStopped tracked =>
              rw [absent (by rw [isStopped]; rfl)] at tracked
              cases tracked
  | refresh report key =>
      rcases refreshVm_spec done with ⟨vm, cpu, relocates, rfl⟩ | ⟨stays, rfl⟩
      · exact .inl ⟨_, .reported relocates,
          arrangement_change sound relocates.tracked relocates.handle relocates.known⟩
      · refine .inr ⟨fun change reseats => ?_, rfl⟩
        cases reseats with
        | reported relocates => exact stays _ _ relocates
  | monitor env =>
      refine .inr ⟨fun change reseats => (by cases reseats), ?_⟩
      have monitored := monitor_spec done
      refine arrangement_congr (by rw [monitored.rest]) fun d => ?_
      unfold seat
      cases before : nuiod.vmInfosMap[d]? with
      | none => rw [monitored.absent d before]
      | some old =>
          obtain ⟨vm', stored, sampled⟩ := monitored.sampled d old before
          rw [stored]
          exact congrArg place sampled.same.realCpuNo
  | act lists pins entry =>
      rcases performAct_spec done with ⟨vm, cpu, moved, rfl⟩ | ⟨stays, rfl⟩
      · refine .inl ⟨_, .pinned moved, ?_⟩
        have own : entry.1.domId ∈ nuiod.vmInfosMap := mem_iff_getElem?.mpr ⟨vm, moved.tracked⟩
        have tracked : (nuiod.touched pins entry).vmInfosMap[entry.1.domId]? = some vm := by
          rw [touched_tracked own]
          exact moved.tracked
        rw [arrangement_change (sound.touched pins entry) tracked moved.handle (by omega),
          arrangement_touched]
      · refine .inr ⟨fun change reseats => ?_, arrangement_touched nuiod pins entry⟩
        cases reseats with
        | pinned moved => exact stays _ _ moved

/-- A property of arrangements holds throughout a run exactly when every change of the run
meets the condition under which it survives. -/
theorem throughout_arrangement_iff (good : Arrangement Int Int → Prop)
    (meets : Arrangement Int Int → Change Int Int → Prop)
    (survives : ∀ arr change, good arr → (good (arr.apply change) ↔ meets arr change))
    {nuiod nuiod' : Nuiod D} {moves : List (Move D)} (sound : Sound nuiod)
    (start : good nuiod.arrangement) (run : Run move Anything nuiod moves nuiod') :
    Run.Throughout move (fun nuiod => good nuiod.arrangement) nuiod moves ↔
      Run move (fun nuiod m => ∀ change, Reseats nuiod m change → meets nuiod.arrangement change)
        nuiod moves nuiod' := by
  refine Run.throughout_iff Sound _ (fun _ _ _ sound done => move_sound sound done) ?_ sound
    start run
  intro nuiod m nuiod' sound holds done
  rcases move_simulates sound done with ⟨change, reseats, after⟩ | ⟨none, after⟩
  · rw [after, survives _ change holds]
    constructor
    · intro met change' reseats'
      rw [← reseats.unique reseats']
      exact met
    · exact fun all => all change reseats
  · rw [after]
    exact ⟨fun _ change reseats => absurd reseats (none change), fun _ => holds⟩

end Double

end VNams.Nuiod
