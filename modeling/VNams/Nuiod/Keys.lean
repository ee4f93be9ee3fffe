import VNams.Strategy.Safety
import VNams.Nuiod.Occupancy

/-!
Keys and ids agree.

Every operation stores a VM under the id it carries, as long as the decisions that are
performed name tracked VMs; and those of `SimpleStrategy` do, because it only ever moves ids
of known VMs between its lists. The two facts rest on each other, so they are proved
together, over runs in which the strategy makes its own decisions.
-/

namespace VNams.Nuiod

open Lib Monitor Strategy

variable {D : Type} [Double D]

/-- The decisions are those of the strategy. -/
def OwnDecisions (_ : Nuiod D) : Op D → Prop
  | .perform _ _ _ => False
  | _ => True

/-- A decision is for a tracked VM. -/
def ForTracked (nuiod : Nuiod D) : Move D → Prop
  | .act _ _ entry => entry.1.domId ∈ nuiod.vmInfosMap
  | _ => True

omit [Double D] in
/-- Storing a VM in place of one with its id. -/
theorem keysAgree_insert {vms : VmMap D} (agree : KeysAgree vms) {k : Int} {vm vm' : VmInfo D}
    (tracked : vms[k]? = some vm) (sameId : vm'.domId = vm.domId) :
    KeysAgree (vms.insert k vm') :=
  agree.insert (sameId.trans (agree k vm tracked))

/-- A decision for a tracked VM neither adds nor removes a key. -/
theorem act_keys {nuiod nuiod' : Nuiod D} {lists : List (List (Nat × D))} {pins : PinEnv D}
    {entry : Decision × Nat} (tracked : entry.1.domId ∈ nuiod.vmInfosMap)
    (done : performAct lists pins nuiod entry = .ok nuiod') (k : Int) :
    k ∈ nuiod'.vmInfosMap ↔ k ∈ nuiod.vmInfosMap := by
  have same : k ∈ (nuiod.touched pins entry).vmInfosMap ↔ k ∈ nuiod.vmInfosMap := by
    rw [mem_iff_getElem?, mem_iff_getElem?, touched_tracked tracked]
  rcases performAct_spec done with ⟨vm, cpu, moved, rfl⟩ | ⟨_, rfl⟩
  · have present : entry.1.domId ∈ (nuiod.touched pins entry).vmInfosMap := by
      rw [mem_iff_getElem?, touched_tracked tracked, ← mem_iff_getElem?]
      exact tracked
    exact (mem_insert_of_mem present _ k).trans same
  · exact same

/-- Every move keeps keys and ids in agreement, if its decision is for a tracked VM. -/
theorem move_keysAgree {nuiod nuiod' : Nuiod D} {m : Move D} (agree : KeysAgree nuiod.vmInfosMap)
    (own : ForTracked nuiod m) (done : nuiod.move m = .ok nuiod') :
    KeysAgree nuiod'.vmInfosMap := by
  cases m with
  | event e rest =>
      obtain ⟨⟨ret, mid⟩, handled, stored⟩ := bind_eq_ok.mp done
      cases stored
      cases virVMEventCallBack_spec handled with
      | @started vm isStarted filled =>
          exact forall_modify (agree.insert filled.domId_eq) fun _ own => own
      | @removed vm isStopped tracked down => exact forall_erase agree
      | @recorded vm isRecorded tracked up => exact keysAgree_insert agree tracked rfl
      | ignored => exact agree
  | refresh report key =>
      rcases refreshVm_spec done with ⟨vm, cpu, relocates, rfl⟩ | ⟨_, rfl⟩
      · exact keysAgree_insert agree relocates.tracked rfl
      · exact agree
  | monitor env =>
      have monitored := monitor_spec done
      intro k vm tracked
      cases before : nuiod.vmInfosMap[k]? with
      | none =>
          rw [monitored.absent k before] at tracked
          cases tracked
      | some old =>
          obtain ⟨vm', stored, sampled⟩ := monitored.sampled k old before
          obtain rfl : vm = vm' := Option.some.inj (tracked.symm.trans stored)
          rw [sampled.same.domId]
          exact agree k old before
  | act lists pins entry =>
      have touched : KeysAgree (nuiod.touched pins entry).vmInfosMap := by
        intro k vm tracked
        rw [touched_tracked own] at tracked
        exact agree k vm tracked
      rcases performAct_spec done with ⟨vm, cpu, moved, rfl⟩ | ⟨_, rfl⟩
      · have tracked : (nuiod.touched pins entry).vmInfosMap[entry.1.domId]? = some vm := by
          rw [touched_tracked own]
          exact moved.tracked
        exact keysAgree_insert touched tracked rfl
      · exact touched

/-- Decisions for tracked VMs keep the agreement and the set of keys, all the way. -/
theorem acts_keys {lists : List (List (Nat × D))} {pins : PinEnv D}
    {entries : List (Decision × Nat)} {nuiod nuiod' : Nuiod D}
    (agree : KeysAgree nuiod.vmInfosMap)
    (tracked : ∀ entry ∈ entries, entry.1.domId ∈ nuiod.vmInfosMap)
    (run : Run move Anything nuiod (entries.map (.act lists pins)) nuiod') :
    KeysAgree nuiod'.vmInfosMap ∧ ∀ k : Int, k ∈ nuiod'.vmInfosMap ↔ k ∈ nuiod.vmInfosMap := by
  induction entries generalizing nuiod with
  | nil =>
      cases run
      exact ⟨agree, fun k => Iff.rfl⟩
  | cons entry rest ih =>
      cases run with
      | cons _ done later =>
          have own := tracked entry List.mem_cons_self
          have sameKeys := act_keys own done
          obtain ⟨agree', keys⟩ := ih (move_keysAgree agree (m := .act lists pins entry) own done)
            (fun e mem => (sameKeys _).mpr (tracked e (List.mem_cons_of_mem _ mem))) later
          exact ⟨agree', fun k => (keys k).trans (sameKeys k)⟩

theorem scheduleActs_meets (nuiod : Nuiod D) (agree : KeysAgree nuiod.vmInfosMap)
    (env : StrategyEnv D) :
    Meets Missing (fun acts => ∀ act ∈ acts, ∃ vm, nuiod.vmInfosMap[act.domId]? = some vm)
      (nuiod.scheduleActs env) := by
  have own : KeysAgree nuiod.scheduleArgs.vmInfosMap := agree
  exact schedule_meets own env.vmStateSlot env.ties

/-- What the strategy decides on agreeing keys. -/
theorem scheduleActs_tracked {nuiod : Nuiod D} (agree : KeysAgree nuiod.vmInfosMap)
    {env : StrategyEnv D} {acts : List Decision} (scheduled : nuiod.scheduleActs env = .ok acts) :
    ∀ act ∈ acts, act.domId ∈ nuiod.vmInfosMap := by
  intro act mem
  have meets := nuiod.scheduleActs_meets agree env
  exact mem_iff_getElem?.mpr (meets.of_ok scheduled act mem)

/-- The moves of `perform` are its decisions, one after another. -/
theorem performMoves_eq_ok {nuiod : Nuiod D} {acts : List Decision} {sort : CpuSort D}
    {pins : PinEnv D} {moves : List (Move D)}
    (made : nuiod.performMoves acts sort pins = .ok moves) :
    ∃ lists, moves = acts.zipIdx.map (.act lists pins) := by
  obtain ⟨lists, _, stored⟩ := bind_eq_ok.mp made
  cases stored
  exact ⟨lists, rfl⟩

/-- A prefix of the decisions of a round. -/
theorem perform_prefix_keys {nuiod mid : Nuiod D} {acts : List Decision} {sort : CpuSort D}
    {pins : PinEnv D} {before after : List (Move D)} (agree : KeysAgree nuiod.vmInfosMap)
    (tracked : ∀ act ∈ acts, act.domId ∈ nuiod.vmInfosMap)
    (made : nuiod.performMoves acts sort pins = .ok (before ++ after))
    (run : Run move Anything nuiod before mid) :
    KeysAgree mid.vmInfosMap ∧ ∀ k : Int, k ∈ mid.vmInfosMap ↔ k ∈ nuiod.vmInfosMap := by
  obtain ⟨lists, split⟩ := performMoves_eq_ok made
  obtain ⟨first, last, whole, rfl, _⟩ := List.map_eq_append_iff.mp split.symm
  refine acts_keys agree (fun entry mem => tracked entry.1 ?_) run
  have listed : entry ∈ acts.zipIdx := by
    rw [whole]
    exact List.mem_append_left last mem
  exact List.fst_mem_of_mem_zipIdx listed

/-- Moves that are no decisions keep the agreement. -/
theorem run_keysAgree {nuiod nuiod' : Nuiod D} {moves : List (Move D)}
    (agree : KeysAgree nuiod.vmInfosMap)
    (own : ∀ m ∈ moves, ∀ nuiod : Nuiod D, ForTracked nuiod m)
    (run : Run move Anything nuiod moves nuiod') : KeysAgree nuiod'.vmInfosMap := by
  induction run with
  | nil => exact agree
  | cons _ done _ ih =>
      exact ih (move_keysAgree agree (own _ List.mem_cons_self _) done)
        fun m mem => own m (List.mem_cons_of_mem _ mem)

/-- Every state inside an operation has agreeing keys. -/
theorem op_prefix_keysAgree {nuiod mid : Nuiod D} {op : Op D} {before after : List (Move D)}
    (agree : KeysAgree nuiod.vmInfosMap) (own : OwnDecisions nuiod op)
    (made : op.moves nuiod = .ok (before ++ after)) (run : Run move Anything nuiod before mid) :
    KeysAgree mid.vmInfosMap := by
  cases op with
  | event e rest =>
      refine run_keysAgree agree (fun m mem nuiod => ?_) run
      have here : m ∈ [Move.event e rest] := by
        rw [Except.ok.inj made]
        exact List.mem_append_left after mem
      rw [List.mem_singleton.mp here]
      trivial
  | refresh report =>
      refine run_keysAgree agree (fun m mem nuiod' => ?_) run
      have here : m ∈ nuiod.vmInfosMap.keys.map (Move.refresh report) := by
        rw [Except.ok.inj made]
        exact List.mem_append_left after mem
      obtain ⟨key, _, rfl⟩ := List.mem_map.mp here
      trivial
  | monitor env =>
      refine run_keysAgree agree (fun m mem nuiod => ?_) run
      have here : m ∈ [Move.monitor env] := by
        rw [Except.ok.inj made]
        exact List.mem_append_left after mem
      rw [List.mem_singleton.mp here]
      trivial
  | decide env =>
      obtain ⟨acts, scheduled, made⟩ := bind_eq_ok.mp made
      exact (perform_prefix_keys agree (scheduleActs_tracked agree scheduled) made run).1
  | perform acts sort pins => exact absurd own id

/-- An operation keeps the agreement. -/
theorem step_keysAgree {nuiod nuiod' : Nuiod D} {op : Op D} (agree : KeysAgree nuiod.vmInfosMap)
    (own : OwnDecisions nuiod op) (done : nuiod.step op = .ok nuiod') :
    KeysAgree nuiod'.vmInfosMap := by
  rw [step_eq_moves] at done
  obtain ⟨moves, made, folded⟩ := bind_eq_ok.mp done
  rw [← List.append_nil moves] at made
  exact op_prefix_keysAgree agree own made (Run.foldlM_iff.mp folded)

/-- After `init` the keys agree. -/
theorem keysAgree_of_init {conf : DomainConf} {cpuNumber : Nat} {strategy : SimpleStrategy}
    {machine : Machine D} {ret : Int} {nuiod₀ : Nuiod D}
    (booted : (Nuiod.new conf cpuNumber strategy).init machine = .ok (ret, nuiod₀)) :
    KeysAgree nuiod₀.vmInfosMap := by
  obtain ⟨flag, added, listed, sameVms, _⟩ := (init_spec booted).maps
  rw [sameVms]
  obtain ⟨_, _, agree⟩ := initVminfo_invariant (fun _ nuiod => KeysAgree nuiod.vmInfosMap)
    (fun _ nuiod domId flag nuiod' _ agree added => by
      obtain ⟨vm, filled, rfl⟩ := addVm_spec added
      exact agree.insert filled.domId_eq)
    KeysAgree.empty listed
  exact agree

/-- In every state of every run of the daemon with its strategy, inside an operation or
between two, each key is the id of its VM; `at` finds every id the strategy looks up, every
decision is for a tracked VM, and performing the decisions changes no key. -/
theorem keys_agree {conf : DomainConf} {cpuNumber : Nat} {strategy : SimpleStrategy}
    {machine : Machine D} {ret : Int} {nuiod₀ nuiod : Nuiod D} {ops : List (Op D)}
    (booted : (Nuiod.new conf cpuNumber strategy).init machine = .ok (ret, nuiod₀))
    (run : Run step OwnDecisions nuiod₀ ops nuiod) :
    (∀ (op : Op D) (before after : List (Move D)) (mid : Nuiod D), OwnDecisions nuiod op →
      op.moves nuiod = .ok (before ++ after) → Run move Anything nuiod before mid →
      KeysAgree mid.vmInfosMap) ∧
    KeysAgree nuiod.vmInfosMap ∧
    ∀ env : StrategyEnv D, nuiod.scheduleActs env ≠ .error .mapAtMissing ∧
      ∀ acts, nuiod.scheduleActs env = .ok acts →
        (∀ act ∈ acts, act.domId ∈ nuiod.vmInfosMap) ∧
        ∀ (before after : List (Move D)) (mid : Nuiod D),
          nuiod.performMoves acts env.sort env.pins = .ok (before ++ after) →
          Run move Anything nuiod before mid →
          ∀ k : Int, k ∈ mid.vmInfosMap ↔ k ∈ nuiod.vmInfosMap := by
  have keeps : ∀ (nuiod : Nuiod D) op nuiod', KeysAgree nuiod.vmInfosMap →
      OwnDecisions nuiod op → nuiod.step op = .ok nuiod' → KeysAgree nuiod'.vmInfosMap :=
    fun _ _ _ agree own done => step_keysAgree agree own done
  have agree : KeysAgree nuiod.vmInfosMap :=
    Run.invariant keeps (keysAgree_of_init booted) run
  refine ⟨fun op before after mid own made reached => op_prefix_keysAgree agree own made reached,
    agree, fun env => ⟨?_, fun acts scheduled => ?_⟩⟩
  · exact (nuiod.scheduleActs_meets agree env).ne_error rfl
  · have tracked := scheduleActs_tracked agree scheduled
    exact ⟨tracked, fun before after mid made reached =>
      (perform_prefix_keys agree tracked made reached).2⟩

/-! ### A round on the small machine -/

/-- Nothing but `/proc/stat` can be read. -/
def statOnly (stat : ProcStat) : MonitorEnv where
  io _ := ⟨none, none, none, none, 0⟩
  procStat := stat
  perfBuffer _ := []
  perfOutput _ := some []

/-- Every pin succeeds, and ties go to the lowest number. -/
def plainStrategy : StrategyEnv ℚ where
  vmStateSlot _ := .otherStat
  ties := UnstableSort.byRank id
  sort := UnstableSort.byRank id
  pins := ⟨fun _ => 0, fun _ => zeroed⟩

/-- A round in which both domains are reported on CPU 3. -/
def sharedRound : List (Op ℚ) :=
  [.refresh fun _ => some 3, .monitor (statOnly (evenStat 200)), .decide plainStrategy]

theorem keys_agree_sharedRound :
    ∃ nuiod₀ nuiod : Nuiod ℚ, smallNuiod.init (smallMachine [(1, 3), (2, 2)]) = .ok (0, nuiod₀) ∧
      Run step OwnDecisions nuiod₀ sharedRound nuiod ∧ KeysAgree nuiod.vmInfosMap ∧
      nuiod.scheduleActs plainStrategy ≠ .error .mapAtMissing := by
  obtain ⟨nuiod₀, nuiod, booted, run, _⟩ := exists_run step sharedRound
    (smallNuiod.init (smallMachine [(1, 3), (2, 2)])) (fun _ => true) (by decide +kernel)
  have own : Run step OwnDecisions nuiod₀ sharedRound nuiod := by
    refine run.of_forall fun op mem nuiod => ?_
    simp only [sharedRound, List.mem_cons, List.not_mem_nil, or_false] at mem
    rcases mem with rfl | rfl | rfl
    · trivial
    · trivial
    · trivial
  obtain ⟨_, agree, schedules⟩ := keys_agree booted own
  exact ⟨nuiod₀, nuiod, booted, own, agree, (schedules plainStrategy).1⟩

end VNams.Nuiod
