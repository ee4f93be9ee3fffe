import VNams.Nuiod.Occupancy

/-!
Are the tracked VMs the running ones?

`running` follows the lifecycle as libvirt reports it: a domain runs from its STARTED to its
STOPPED. The callback removes a VM only at a STOPPED that comes after a SHUTDOWN or another
STOPPED, so a domain that is destroyed stays in the map; `tracks_iff` says that nothing else
makes the map differ.
-/

namespace VNams.Nuiod

open Lib Strategy

variable {D : Type}

/-- Which domains run after an event. -/
def lifecycle (running : Int → Prop) (e : Event) (domId : Int) : Prop :=
  if domId = e.domId then e.event = .started ∨ (running domId ∧ e.event ≠ .stopped)
  else running domId

/-- Which domains run after some events. -/
def running (initially : Int → Prop) (events : List (Event × Indeterminate D)) : Int → Prop :=
  events.foldl (fun running e => lifecycle running e.1) initially

/-- The map has exactly the running domains, and only those have an entry in the CPU map. -/
structure Tracks (nuiod : Nuiod D) (running : Int → Prop) : Prop where
  keys : ∀ d : Int, d ∈ nuiod.vmInfosMap ↔ running d
  entries : ∀ c d : Int, nuiod.cpuVmMapping[c]? = some d → running d

/-- A tracked domain that stops was recorded as shut down or stopped before, and has no entry
but under its own CPU. -/
def StopsDown (nuiod : Nuiod D) (e : Event × Indeterminate D) : Prop :=
  e.1.event = .stopped → ∀ vm, nuiod.vmInfosMap[e.1.domId]? = some vm →
    (vm.vmEventState = .shutdown ∨ vm.vmEventState = .stopped) ∧
    ∀ c : Int, nuiod.cpuVmMapping[c]? = some e.1.domId → vm.realCpuNo = c

section Lifecycle

variable {r : Int → Prop} {e : Event}

theorem lifecycle_started (isStarted : e.event = .started) {d : Int} :
    lifecycle r e d ↔ d = e.domId ∨ r d := by
  unfold lifecycle
  split_ifs with self
  · simp [isStarted, self]
  · simp [self]

theorem lifecycle_stopped (isStopped : e.event = .stopped) {d : Int} :
    lifecycle r e d ↔ d ≠ e.domId ∧ r d := by
  unfold lifecycle
  split_ifs with self
  · simp [isStopped, self]
  · simp [self]

/-- Other events leave a running domain running. -/
theorem lifecycle_neither (notStarted : e.event ≠ .started) (notStopped : e.event ≠ .stopped)
    {d : Int} : lifecycle r e d ↔ r d := by
  unfold lifecycle
  split_ifs
  · simp [notStarted, notStopped]
  · exact Iff.rfl

end Lifecycle

section Events

variable [Double D]

/-- The callback, with an event as its only input. -/
def handle (nuiod : Nuiod D) (e : Event × Indeterminate D) : Except Fault (Nuiod D) :=
  nuiod.step (.event e.1 e.2)

theorem handle_sound {nuiod nuiod' : Nuiod D} {e : Event × Indeterminate D} (sound : Sound nuiod)
    (done : nuiod.handle e = .ok nuiod') : Sound nuiod' :=
  move_sound (m := .event e.1 e.2) sound done

/-- After an event the map still follows the lifecycle exactly when a domain that stopped
had been recorded as down. -/
theorem tracks_handle_iff {nuiod nuiod' : Nuiod D} {r : Int → Prop}
    {e : Event × Indeterminate D} (sound : Sound nuiod) (tracks : Tracks nuiod r)
    (done : nuiod.handle e = .ok nuiod') :
    Tracks nuiod' (lifecycle r e.1) ↔ StopsDown nuiod e := by
  obtain ⟨⟨ret, mid⟩, handled, stored⟩ := bind_eq_ok.mp done
  cases stored
  cases virVMEventCallBack_spec handled with
  | @started vm isStarted filled =>
      have notStopped : e.1.event ≠ .stopped := by
        rw [isStarted]
        decide
      refine ⟨fun _ isStopped => absurd isStopped notStopped, fun _ => ⟨fun d => ?_, ?_⟩⟩
      · rw [lifecycle_started isStarted, ← tracks.keys]
        simp only [Std.TreeMap.mem_modify, Std.TreeMap.mem_insert, compare_eq_iff_eq]
        exact or_congr_left ⟨Eq.symm, Eq.symm⟩
      · intro c d held
        rw [lifecycle_started isStarted]
        exact (entry_of_seatVm held).imp_right (tracks.entries c d)
  | @removed vm isStopped tracked down =>
      have kept : ∀ c d : Int, (nuiod.removeVm e.1.domId vm).cpuVmMapping[c]? = some d ↔
          nuiod.cpuVmMapping[c]? = some d ∧ (c = vm.realCpuNo → d ≠ vm.domId) := by
        intro c d
        have released := congrFun (getElem?_releaseCpu nuiod.cpuVmMapping vm.realCpuNo vm.domId) c
        simp only [removeVm, released]
        exact release_eq_some
      constructor
      · intro after _ vm' tracked'
        obtain rfl : vm = vm' := Option.some.inj (tracked.symm.trans tracked')
        refine ⟨down, fun c held => ?_⟩
        by_contra away
        have left := after.entries c e.1.domId
          ((kept c e.1.domId).mpr ⟨held, fun here => absurd here.symm away⟩)
        exact ((lifecycle_stopped isStopped).mp left).1 rfl
      · intro guarded
        obtain ⟨_, own⟩ := guarded isStopped vm tracked
        refine ⟨fun d => ?_, fun c d held => ?_⟩
        · rw [lifecycle_stopped isStopped, ← tracks.keys]
          simp only [removeVm, Std.TreeMap.mem_erase, ne_eq, compare_eq_iff_eq]
          exact and_congr_left fun _ => not_congr ⟨Eq.symm, Eq.symm⟩
        · obtain ⟨before, notOwn⟩ := (kept c d).mp held
          rw [lifecycle_stopped isStopped]
          refine ⟨?_, tracks.entries c d before⟩
          rintro rfl
          have here := own c before
          rcases sound.ids _ vm tracked with sameId | made
          · exact notOwn here.symm sameId.symm
          · rw [← here, made.2] at before
            rw [sound.noEntry] at before
            cases before
  | @recorded vm isRecorded tracked up =>
      have notStarted : e.1.event ≠ .started := by
        intro isStarted
        rw [isStarted] at isRecorded
        cases isRecorded
      have sameKeys : ∀ d : Int, d ∈ nuiod.vmInfosMap.insert e.1.domId
          { vm with vmEventState := e.1.event } ↔ d ∈ nuiod.vmInfosMap :=
        mem_insert_of_mem (mem_iff_getElem?.mpr ⟨vm, tracked⟩) _
      by_cases isStopped : e.1.event = .stopped
      · obtain ⟨notShutdown, notStopped⟩ := up isStopped
        constructor
        · intro after
          have present := (sameKeys e.1.domId).mpr (mem_iff_getElem?.mpr ⟨vm, tracked⟩)
          exact absurd rfl ((lifecycle_stopped isStopped).mp ((after.keys _).mp present)).1
        · intro guarded
          exact absurd (guarded isStopped vm tracked).1 (not_or.mpr ⟨notShutdown, notStopped⟩)
      · refine ⟨fun _ stops => absurd stops isStopped, fun _ => ⟨fun d => ?_, fun c d held => ?_⟩⟩
        · rw [lifecycle_neither notStarted isStopped, ← tracks.keys]
          exact sameKeys d
        · rw [lifecycle_neither notStarted isStopped]
          exact tracks.entries c d held
  | ignored notStarted absent =>
      have same : ∀ d, lifecycle r e.1 d ↔ r d := by
        intro d
        by_cases isStopped : e.1.event = .stopped
        · have untracked : ¬ r e.1.domId := by
            rw [← tracks.keys, mem_iff_getElem?]
            rw [absent (by rw [isStopped]; rfl)]
            rintro ⟨_, impossible⟩
            cases impossible
          rw [lifecycle_stopped isStopped]
          refine and_iff_right_of_imp fun runs => ?_
          rintro rfl
          exact untracked runs
        · exact lifecycle_neither notStarted isStopped
      constructor
      · intro _ isStopped vm tracked
        rw [absent (by rw [isStopped]; rfl)] at tracked
        cases tracked
      · exact fun _ => ⟨fun d => (tracks.keys d).trans (same d).symm,
          fun c d held => (same d).mpr (tracks.entries c d held)⟩

/-! ### Runs of events -/

/-- The callback beside the lifecycle. -/
def watch (s : Nuiod D × (Int → Prop)) (e : Event × Indeterminate D) :
    Except Fault (Nuiod D × (Int → Prop)) := do
  let nuiod ← s.1.handle e
  .ok (nuiod, lifecycle s.2 e.1)

theorem watch_eq_ok {s s' : Nuiod D × (Int → Prop)} {e : Event × Indeterminate D} :
    watch s e = .ok s' ↔ s.1.handle e = .ok s'.1 ∧ s'.2 = lifecycle s.2 e.1 := by
  unfold watch
  rw [bind_eq_ok]
  constructor
  · rintro ⟨nuiod, handled, stored⟩
    cases stored
    exact ⟨handled, rfl⟩
  · rintro ⟨handled, follows⟩
    refine ⟨s'.1, handled, ?_⟩
    rw [← follows]

/-- Watching a run does not change it. -/
theorem run_watch_iff (guard : Nuiod D → Event × Indeterminate D → Prop)
    {events : List (Event × Indeterminate D)} {s s' : Nuiod D × (Int → Prop)} :
    Run watch (fun s e => guard s.1 e) s events s' ↔
      Run handle guard s.1 events s'.1 ∧ s'.2 = running s.2 events := by
  induction events generalizing s with
  | nil =>
      constructor
      · intro run
        cases run
        exact ⟨.nil _, rfl⟩
      · rintro ⟨run, follows⟩
        obtain ⟨nuiod', r'⟩ := s'
        obtain ⟨nuiod, r⟩ := s
        cases run
        cases follows
        exact .nil _
  | cons e rest ih =>
      constructor
      · intro run
        cases run with
        | cons meets watched later =>
            obtain ⟨handled, follows⟩ := watch_eq_ok.mp watched
            obtain ⟨run, after⟩ := ih.mp later
            rw [follows] at after
            exact ⟨.cons meets handled run, after⟩
      · rintro ⟨run, after⟩
        cases run with
        | @cons _ mid _ _ _ meets handled later =>
            refine .cons meets (watch_eq_ok.mpr ⟨handled, rfl⟩)
              ((ih (s := (mid, lifecycle s.2 e.1))).mpr ⟨later, after⟩)

/-- Watching an unrestricted run: the lifecycle goes along. -/
theorem watch_run_iff {nuiod nuiod' : Nuiod D} {r r' : Int → Prop}
    {events : List (Event × Indeterminate D)} :
    Run watch Anything (nuiod, r) events (nuiod', r') ↔
      Run handle Anything nuiod events nuiod' ∧ r' = running r events :=
  ⟨fun watched => (run_watch_iff Anything).mp (watched.mono fun _ _ _ => trivial),
    fun both => ((run_watch_iff Anything).mpr both).mono fun _ _ _ => trivial⟩

/-- A domain that was added is tracked, and so is every domain with an entry. -/
theorem tracks_of_init {conf : DomainConf} {cpuNumber : Nat} {strategy : SimpleStrategy}
    {machine : Machine D} {ret : Int} {nuiod₀ : Nuiod D}
    (booted : (Nuiod.new conf cpuNumber strategy).init machine = .ok (ret, nuiod₀)) :
    Tracks nuiod₀ (· ∈ nuiod₀.vmInfosMap) := by
  refine ⟨fun d => Iff.rfl, ?_⟩
  obtain ⟨flag, added, listed, sameVms, sameCpus⟩ := (init_spec booted).maps
  rw [sameVms, sameCpus]
  obtain ⟨_, _, entries⟩ := initVminfo_invariant
    (fun _ nuiod => ∀ c d : Int, nuiod.cpuVmMapping[c]? = some d → d ∈ nuiod.vmInfosMap)
    (fun _ nuiod domId flag nuiod' _ entries added c d held => by
      obtain ⟨vm, filled, rfl⟩ := addVm_spec added
      simp only at held ⊢
      rw [Std.TreeMap.mem_insert, compare_eq_iff_eq]
      exact (entry_of_seatVm held).imp Eq.symm (entries c d))
    (by
      intro c d held
      simp [Nuiod.new] at held)
    listed
  exact entries

/-- After every event of a run the map has exactly the running domains, and only those have
entries, exactly when every domain that stops was recorded as down. -/
theorem tracks_iff {conf : DomainConf} {cpuNumber : Nat} {strategy : SimpleStrategy}
    {machine : Machine D} {ret : Int} {nuiod₀ nuiod : Nuiod D}
    {events : List (Event × Indeterminate D)}
    (booted : (Nuiod.new conf cpuNumber strategy).init machine = .ok (ret, nuiod₀))
    (run : Run handle Anything nuiod₀ events nuiod) :
    (∀ before after mid, events = before ++ after → Run handle Anything nuiod₀ before mid →
      Tracks mid (running (· ∈ nuiod₀.vmInfosMap) before)) ↔
    Run handle StopsDown nuiod₀ events nuiod := by
  have keeps : ∀ (s : Nuiod D × (Int → Prop)) e s', Sound s.1 → watch s e = .ok s' →
      Sound s'.1 := fun s e s' sound done => handle_sound sound (watch_eq_ok.mp done).1
  have decides : ∀ (s : Nuiod D × (Int → Prop)) e s', Sound s.1 → Tracks s.1 s.2 →
      watch s e = .ok s' → (Tracks s'.1 s'.2 ↔ StopsDown s.1 e) := by
    intro s e s' sound tracks done
    obtain ⟨handled, follows⟩ := watch_eq_ok.mp done
    rw [follows]
    exact tracks_handle_iff sound tracks handled
  have main := Run.throughout_iff (fun s : Nuiod D × (Int → Prop) => Sound s.1)
    (fun s => Tracks s.1 s.2) keeps decides (sound_of_init booted) (tracks_of_init booted)
    (watch_run_iff.mpr ⟨run, rfl⟩)
  refine Iff.trans ?_ (main.trans ((run_watch_iff StopsDown).trans (and_iff_left rfl)))
  constructor
  · rintro always before after ⟨mid, r⟩ split reached
    obtain ⟨run, rfl⟩ := watch_run_iff.mp reached
    exact always before after mid split run
  · intro always before after mid split reached
    exact always before after (mid, _) split (watch_run_iff.mpr ⟨reached, rfl⟩)

/-- Domain 1 is destroyed. -/
def destroyed : Event := ⟨.stopped, 1, guest none⟩

theorem tracks_iff_destroyed :
    ∃ nuiod₀ nuiod : Nuiod ℚ, smallNuiod.init (smallMachine [(1, 3)]) = .ok (0, nuiod₀) ∧
      Run handle Anything nuiod₀ [(destroyed, zeroed)] nuiod ∧
      ((∀ before after mid, [(destroyed, zeroed)] = before ++ after →
        Run handle Anything nuiod₀ before mid →
        Tracks mid (running (· ∈ nuiod₀.vmInfosMap) before)) ↔
      Run handle StopsDown nuiod₀ [(destroyed, zeroed)] nuiod) := by
  obtain ⟨nuiod₀, nuiod, booted, run, _⟩ := exists_run handle [(destroyed, zeroed)]
    (smallNuiod.init (smallMachine [(1, 3)])) (fun _ => true) (by decide +kernel)
  exact ⟨nuiod₀, nuiod, booted, run, tracks_iff booted run⟩

/-- A domain that is destroyed stops without a SHUTDOWN before, and stays in the map, with the
entry of its CPU. -/
theorem destroyed_stays_tracked :
    ∃ nuiod₀ nuiod : Nuiod ℚ, smallNuiod.init (smallMachine [(1, 3)]) = .ok (0, nuiod₀) ∧
      Run handle Anything nuiod₀ [(destroyed, zeroed)] nuiod ∧
      (1 : Int) ∈ nuiod.vmInfosMap ∧ nuiod.cpuVmMapping[(3 : Int)]? = some 1 ∧
      ¬ running (· ∈ nuiod₀.vmInfosMap) [(destroyed, zeroed)] 1 := by
  obtain ⟨nuiod₀, nuiod, booted, run, checked⟩ := exists_run handle [(destroyed, zeroed)]
    (smallNuiod.init (smallMachine [(1, 3)]))
    (fun nuiod => decide ((1 : Int) ∈ nuiod.vmInfosMap ∧ nuiod.cpuVmMapping[(3 : Int)]? = some 1))
    (by decide +kernel)
  obtain ⟨tracked, held⟩ := of_decide_eq_true checked
  refine ⟨nuiod₀, nuiod, booted, run, tracked, held, fun runs => ?_⟩
  have after : lifecycle (· ∈ nuiod₀.vmInfosMap) destroyed 1 := runs
  exact ((lifecycle_stopped rfl).mp after).1 rfl

end Events

end VNams.Nuiod
