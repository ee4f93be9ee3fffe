import VNams.Nuiod.Boot
import VNams.Nuiod.Seats

/-!
Does the CPU map tell which CPUs are taken?

Two VMs on one CPU have one entry between them. When the one that owns the entry leaves, the
entry goes with it and the other VM no longer counts as occupying its CPU: that is the only
way to lose an occupied CPU (`occupied_iff`). A started domain is seated without giving up
the CPU it held before, and that is the only way to a stale entry (`entriesTrue_iff`).
-/

namespace VNams.Nuiod

open Lib Strategy

variable {D : Type}

/-! ### Initialisation -/

section Boot

variable [Double D] {conf : DomainConf} {cpuNumber : Nat} {strategy : SimpleStrategy}
  {machine : Machine D} {ret : Int} {nuiod₀ : Nuiod D}

omit [Double D] in
/-- The daemon before any domain is known. -/
theorem new_sound : Sound (Nuiod.new (D := D) conf cpuNumber strategy) := by
  refine ⟨fun k vm tracked => ?_, by simp [Nuiod.new]⟩
  simp [Nuiod.new] at tracked

theorem sound_of_init
    (booted : (Nuiod.new conf cpuNumber strategy).init machine = .ok (ret, nuiod₀)) :
    Sound nuiod₀ := by
  obtain ⟨flag, added, listed, sameVms, sameCpus⟩ := (init_spec booted).maps
  obtain ⟨_, _, sound⟩ := initVminfo_invariant (fun _ nuiod => Sound nuiod)
    (fun _ _ _ _ _ _ sound done => sound.addVm done) new_sound listed
  refine ⟨?_, ?_⟩
  · rw [sameVms]
    exact sound.ids
  · rw [sameCpus]
    exact sound.noEntry

omit [Double D] in
theorem arrangement_of_maps {nuiod nuiod' : Nuiod D} (vms : nuiod'.vmInfosMap = nuiod.vmInfosMap)
    (cpus : nuiod'.cpuVmMapping = nuiod.cpuVmMapping) :
    nuiod'.arrangement = nuiod.arrangement :=
  arrangement_congr cpus fun d => by simp only [seat, vms]

/-- After `init` every VM occupies its CPU. -/
theorem covered_of_init
    (booted : (Nuiod.new conf cpuNumber strategy).init machine = .ok (ret, nuiod₀)) :
    nuiod₀.arrangement.Covered := by
  obtain ⟨flag, added, listed, sameVms, sameCpus⟩ := (init_spec booted).maps
  rw [arrangement_of_maps sameVms sameCpus]
  obtain ⟨_, _, covered⟩ := initVminfo_invariant (fun _ nuiod => nuiod.arrangement.Covered)
    (fun _ nuiod domId flag nuiod' _ covered done => by
      rw [arrangement_addVm done, Arrangement.covered_apply_iff covered]
      trivial)
    (by
      intro a c sits
      simp [arrangement, seat, Nuiod.new] at sits)
    listed
  exact covered

/-- After `init` over distinct domains every entry is true. -/
theorem faithful_of_init (distinct : (machine.listing.runningDomIds.getD []).Nodup)
    (booted : (Nuiod.new conf cpuNumber strategy).init machine = .ok (ret, nuiod₀)) :
    Faithful nuiod₀.arrangement.holder nuiod₀.arrangement.seat := by
  obtain ⟨flag, added, listed, sameVms, sameCpus⟩ := (init_spec booted).maps
  rw [arrangement_of_maps sameVms sameCpus]
  obtain ⟨_, _, faithful, _⟩ := initVminfo_invariant
    (fun ids nuiod => Faithful nuiod.arrangement.holder nuiod.arrangement.seat ∧
      ∀ d, d ∉ ids → nuiod.arrangement.seat d = none)
    (fun done nuiod domId flag nuiod' listed holds added => by
      obtain ⟨faithful, unseated⟩ := holds
      have fresh : domId ∉ done := by
        have apart := distinct.sublist listed.sublist
        rw [List.nodup_append] at apart
        exact fun mem => apart.2.2 domId mem domId List.mem_cons_self rfl
      refine ⟨?_, fun d notListed => ?_⟩
      · rw [arrangement_addVm added, Arrangement.faithful_apply_iff faithful]
        exact fun c held => absurd held (faithful.unseated (unseated domId fresh) c)
      · rw [List.mem_append, List.mem_singleton, not_or] at notListed
        rw [arrangement_addVm added]
        show Function.update nuiod.arrangement.seat domId _ d = none
        rw [Function.update_of_ne notListed.2]
        exact unseated d notListed.1)
    (by
      refine ⟨fun c a held => ?_, fun d _ => ?_⟩
      · simp [arrangement, Nuiod.new] at held
      · simp [arrangement, seat, Nuiod.new])
    listed
  exact faithful

end Boot

/-! ### Occupied CPUs -/

/-- Every tracked VM whose CPU is known has it as a key of the CPU map, and the CPU that
`perform` would pick, whatever the order it tries them in, is not that of a tracked VM. -/
def Occupied (nuiod : Nuiod D) : Prop :=
  (∀ (k : Int) (vm : VmInfo D), nuiod.vmInfosMap[k]? = some vm → vm.realCpuNo ≠ -1 →
    vm.realCpuNo ∈ nuiod.cpuVmMapping) ∧
  ∀ (cpus : List (Nat × D)) (cpu : Nat), targetCpuno nuiod.cpuVmMapping cpus = some cpu →
    ∀ (k : Int) (vm : VmInfo D), nuiod.vmInfosMap[k]? = some vm → vm.realCpuNo ≠ cpu

/-- A picked CPU has no entry. -/
theorem targetCpuno_free {mapping : IntMap} {cpus : List (Nat × D)} {cpu : Nat}
    (picked : targetCpuno mapping cpus = some cpu) : (cpu : Int) ∉ mapping := by
  unfold targetCpuno at picked
  obtain ⟨entry, found, rfl⟩ := Option.map_eq_some_iff.mp picked
  have free := List.find?_some found
  intro taken
  rw [Std.TreeMap.contains_iff_mem.mpr taken] at free
  cases free

theorem occupied_iff_covered {nuiod : Nuiod D} : Occupied nuiod ↔ nuiod.arrangement.Covered := by
  constructor
  · rintro ⟨marked, _⟩ d c sits
    obtain ⟨vm, tracked, rfl, known⟩ := seat_eq_some.mp sits
    have held := marked d vm tracked known
    rw [Std.TreeMap.mem_iff_isSome_getElem?] at held
    exact Option.isSome_iff_ne_none.mp held
  · intro covered
    have marked : ∀ (k : Int) (vm : VmInfo D), nuiod.vmInfosMap[k]? = some vm →
        vm.realCpuNo ≠ -1 → vm.realCpuNo ∈ nuiod.cpuVmMapping := by
      intro k vm tracked known
      rw [Std.TreeMap.mem_iff_isSome_getElem?]
      exact Option.isSome_iff_ne_none.mpr
        (covered k vm.realCpuNo (seat_eq_some.mpr ⟨vm, tracked, rfl, known⟩))
    refine ⟨marked, fun cpus cpu picked k vm tracked same => ?_⟩
    apply targetCpuno_free picked
    rw [← same]
    exact marked k vm tracked (by omega)

section Runs

variable [Double D]

/-- A VM that gives up a CPU whose entry is its own (because libvirt reports another CPU, a
decision pins it elsewhere, or it is removed) is the only tracked VM on that CPU. -/
def LeavesAlone (nuiod : Nuiod D) (m : Move D) : Prop :=
  ∀ change, Reseats nuiod m change → nuiod.arrangement.LeavesAlone change

/-- No CPU is double-booked in any state of a run exactly when every VM that gives up its
CPU's entry leaves that CPU alone. -/
theorem occupied_iff {conf : DomainConf} {cpuNumber : Nat} {strategy : SimpleStrategy}
    {machine : Machine D} {ret : Int} {nuiod₀ nuiod : Nuiod D} {moves : List (Move D)}
    (booted : (Nuiod.new conf cpuNumber strategy).init machine = .ok (ret, nuiod₀))
    (run : Run move Anything nuiod₀ moves nuiod) :
    Run.Throughout move Occupied nuiod₀ moves ↔ Run move LeavesAlone nuiod₀ moves nuiod := by
  have main := throughout_arrangement_iff Arrangement.Covered Arrangement.LeavesAlone
    (fun _ change covered => Arrangement.covered_apply_iff covered change)
    (sound_of_init booted) (covered_of_init booted) run
  refine Iff.trans ?_ main
  unfold Run.Throughout
  simp only [occupied_iff_covered]

/-- What libvirt reports when domain 1 leaves CPU 3 for CPU 1 and domain 2 stays there. -/
def ownerLeaves (domId : Int) : Option Int := if domId = 1 then some 1 else some 3

/-- The moves of that refresh. -/
def ownerLeavesMoves : List (Move ℚ) := [.refresh ownerLeaves 1, .refresh ownerLeaves 2]

theorem occupied_iff_ownerLeaves :
    ∃ nuiod₀ nuiod : Nuiod ℚ, smallNuiod.init (smallMachine [(1, 3), (2, 3)]) = .ok (0, nuiod₀) ∧
      Run move Anything nuiod₀ ownerLeavesMoves nuiod ∧
      (Run.Throughout move Occupied nuiod₀ ownerLeavesMoves ↔
        Run move LeavesAlone nuiod₀ ownerLeavesMoves nuiod) := by
  obtain ⟨nuiod₀, nuiod, booted, run, _⟩ := exists_run move ownerLeavesMoves
    (smallNuiod.init (smallMachine [(1, 3), (2, 3)])) (fun _ => true) (by decide +kernel)
  exact ⟨nuiod₀, nuiod, booted, run, occupied_iff booted run⟩

/-- Two domains share CPU 3, and domain 1 owns its entry: when it moves to CPU 1, nothing
says any more that domain 2 is on CPU 3. -/
theorem ownerLeaves_frees_shared :
    ∃ nuiod₀ nuiod : Nuiod ℚ, smallNuiod.init (smallMachine [(1, 3), (2, 3)]) = .ok (0, nuiod₀) ∧
      Run step Anything nuiod₀ [.refresh ownerLeaves] nuiod ∧ ¬ Occupied nuiod := by
  obtain ⟨nuiod₀, nuiod, booted, run, checked⟩ := exists_run step [.refresh ownerLeaves]
    (smallNuiod.init (smallMachine [(1, 3), (2, 3)]))
    (fun nuiod => decide (nuiod.seat 2 = some 3 ∧ nuiod.cpuVmMapping[(3 : Int)]? = none))
    (by decide +kernel)
  obtain ⟨sits, free⟩ := of_decide_eq_true checked
  refine ⟨nuiod₀, nuiod, booted, run, fun occupied => ?_⟩
  exact occupied_iff_covered.mp occupied 2 3 sits free

/-! ### Stale entries -/

/-- Every entry names a tracked VM that is recorded on that CPU, and so no VM has two. -/
def EntriesTrue (nuiod : Nuiod D) : Prop :=
  (∀ c d : Int, nuiod.cpuVmMapping[c]? = some d →
    ∃ vm, nuiod.vmInfosMap[d]? = some vm ∧ vm.realCpuNo = c) ∧
  ∀ c c' d : Int, nuiod.cpuVmMapping[c]? = some d → nuiod.cpuVmMapping[c']? = some d → c = c'

omit [Double D] in
theorem entriesTrue_iff_faithful {nuiod : Nuiod D} (sound : Sound nuiod) :
    EntriesTrue nuiod ↔ Faithful nuiod.arrangement.holder nuiod.arrangement.seat := by
  constructor
  · rintro ⟨recorded, _⟩ c d held
    obtain ⟨vm, tracked, same⟩ := recorded c d held
    refine seat_eq_some.mpr ⟨vm, tracked, same, ?_⟩
    rintro rfl
    have none := sound.noEntry
    rw [show nuiod.cpuVmMapping[(-1 : Int)]? = some d from held] at none
    cases none
  · intro faithful
    refine ⟨fun c d held => ?_, fun c c' d held held' => faithful.holder_injective held held'⟩
    obtain ⟨vm, tracked, same, _⟩ := seat_eq_some.mp (faithful c d held)
    exact ⟨vm, tracked, same⟩

/-- A domain that starts has no entry but under the CPU that is reported for it now. -/
def StartsClean (nuiod : Nuiod D) : Move D → Prop
  | .event e _ => e.event = .started → ∀ c : Int, nuiod.cpuVmMapping[c]? = some e.domId →
      place (getVmRealCpu e.domain.handle e.domain.vcpu) = some c
  | _ => True

theorem startsClean_iff {nuiod : Nuiod D} {m : Move D} :
    (∀ change, Reseats nuiod m change → nuiod.arrangement.EntersClean change) ↔
      StartsClean nuiod m := by
  constructor
  · intro clean
    cases m with
    | event e rest => exact fun isStarted => clean _ (.started isStarted)
    | refresh report key => exact trivial
    | monitor env => exact trivial
    | act lists pins entry => exact trivial
  · intro clean change reseats
    cases reseats with
    | started isStarted => exact clean isStarted
    | stopped _ _ _ => exact trivial
    | reported _ => exact trivial
    | pinned _ => exact trivial

/-- No state of a run has a stale entry exactly when every domain that starts is clean. -/
theorem entriesTrue_iff {conf : DomainConf} {cpuNumber : Nat} {strategy : SimpleStrategy}
    {machine : Machine D} {ret : Int} {nuiod₀ nuiod : Nuiod D} {moves : List (Move D)}
    (distinct : (machine.listing.runningDomIds.getD []).Nodup)
    (booted : (Nuiod.new conf cpuNumber strategy).init machine = .ok (ret, nuiod₀))
    (run : Run move Anything nuiod₀ moves nuiod) :
    Run.Throughout move EntriesTrue nuiod₀ moves ↔ Run move StartsClean nuiod₀ moves nuiod := by
  have sound := sound_of_init booted
  have main := throughout_arrangement_iff (fun arr => Faithful arr.holder arr.seat)
    Arrangement.EntersClean (fun _ change faithful => Arrangement.faithful_apply_iff faithful change)
    sound (faithful_of_init distinct booted) run
  simp only [startsClean_iff] at main
  rw [← main]
  have same : ∀ before mid, Run move Anything nuiod₀ before mid →
      (EntriesTrue mid ↔ Faithful mid.arrangement.holder mid.arrangement.seat) :=
    fun before mid reached => entriesTrue_iff_faithful
      (reached.invariant (fun _ _ _ sound _ done => move_sound sound done) sound)
  constructor
  · exact fun always before after mid split reached =>
      (same before mid reached).mp (always before after mid split reached)
  · exact fun always before after mid split reached =>
      (same before mid reached).mpr (always before after mid split reached)

/-- Domain 1 is reported as started, on CPU 2. -/
def startedAgain : Event := ⟨.started, 1, guest (some 2)⟩

theorem entriesTrue_iff_startedAgain :
    ∃ nuiod₀ nuiod : Nuiod ℚ, smallNuiod.init (smallMachine [(1, 3)]) = .ok (0, nuiod₀) ∧
      Run move Anything nuiod₀ [.event startedAgain zeroed] nuiod ∧
      (Run.Throughout move EntriesTrue nuiod₀ [.event startedAgain zeroed] ↔
        Run move StartsClean nuiod₀ [.event startedAgain zeroed] nuiod) := by
  obtain ⟨nuiod₀, nuiod, booted, run, _⟩ := exists_run move [.event startedAgain zeroed]
    (smallNuiod.init (smallMachine [(1, 3)])) (fun _ => true) (by decide +kernel)
  exact ⟨nuiod₀, nuiod, booted, run, entriesTrue_iff (by decide) booted run⟩

/-- Domain 1 was listed on CPU 3, and has moved when its start is reported: its old entry
stays. -/
theorem startedAgain_leaves_stale :
    ∃ nuiod₀ nuiod : Nuiod ℚ, smallNuiod.init (smallMachine [(1, 3)]) = .ok (0, nuiod₀) ∧
      Run step Anything nuiod₀ [.event startedAgain zeroed] nuiod ∧ ¬ EntriesTrue nuiod := by
  obtain ⟨nuiod₀, nuiod, booted, run, checked⟩ := exists_run step [.event startedAgain zeroed]
    (smallNuiod.init (smallMachine [(1, 3)]))
    (fun nuiod => decide (nuiod.cpuVmMapping[(2 : Int)]? = some 1 ∧
      nuiod.cpuVmMapping[(3 : Int)]? = some 1))
    (by decide +kernel)
  obtain ⟨fresh, stale⟩ := of_decide_eq_true checked
  refine ⟨nuiod₀, nuiod, booted, run, fun entries => ?_⟩
  cases entries.2 2 3 1 fresh stale

end Runs

end VNams.Nuiod
