import VNams.Nuiod.Effects

/-!
The daemon in single moves.

`refresh_cpu_mapping` and `perform` change one VM at a time, and `perform` looks at the
CPU map between two changes. `Move` has one constructor for each loop body, so a run of
moves passes through every state in which the code looks at its maps; `run_moves` says
that each run of operations is one. Runs of moves are more general: they may interleave
the loop bodies of different operations.
-/

namespace VNams.Nuiod

open Lib Strategy

variable {D : Type} [Double D]

/-- One loop body of the daemon. -/
inductive Move (D : Type) [Double D] where
  | event (e : Event) (rest : Indeterminate D)
  | refresh (report : Int → Option Int) (key : Int)
  | monitor (env : MonitorEnv)
  | act (lists : List (List (Nat × D))) (pins : PinEnv D) (entry : Decision × Nat)

def move (nuiod : Nuiod D) : Move D → Except Fault (Nuiod D)
  | .event e rest => do
      let r ← nuiod.virVMEventCallBack e rest
      .ok r.2
  | .refresh report key => refreshVm report nuiod key
  | .monitor env => nuiod.monitor env
  | .act lists pins entry => performAct lists pins nuiod entry

/-- The moves of `perform`. -/
def performMoves (nuiod : Nuiod D) (acts : List Decision) (sort : CpuSort D) (pins : PinEnv D) :
    Except Fault (List (Move D)) := do
  let lists ← nuiod.nodeSortedCpuList sort
  .ok (acts.zipIdx.map (.act lists pins))

/-- The moves an operation is made of. -/
def Op.moves (nuiod : Nuiod D) : Op D → Except Fault (List (Move D))
  | .event e rest => .ok [.event e rest]
  | .refresh report => .ok (nuiod.vmInfosMap.keys.map (.refresh report))
  | .monitor env => .ok [.monitor env]
  | .decide env => do
      let acts ← nuiod.scheduleActs env
      nuiod.performMoves acts env.sort env.pins
  | .perform acts sort pins => nuiod.performMoves acts sort pins

/-- A fold over one move is that move. -/
theorem foldlM_single (nuiod : Nuiod D) (m : Move D) : [m].foldlM move nuiod = nuiod.move m := by
  show (nuiod.move m >>= fun nuiod' => Except.ok nuiod') = nuiod.move m
  cases nuiod.move m with
  | error e => rfl
  | ok nuiod' => rfl

theorem perform_eq_moves (nuiod : Nuiod D) (acts : List Decision) (sort : CpuSort D)
    (pins : PinEnv D) :
    nuiod.perform acts sort pins = (nuiod.performMoves acts sort pins >>= fun moves =>
      moves.foldlM move nuiod) := by
  unfold perform performMoves
  cases nuiod.nodeSortedCpuList sort with
  | error e => rfl
  | ok lists =>
      show acts.zipIdx.foldlM (performAct lists pins) nuiod
        = (acts.zipIdx.map (Move.act lists pins)).foldlM move nuiod
      rw [List.foldlM_map]
      rfl

/-- An operation is the sequence of its moves. -/
theorem step_eq_moves (nuiod : Nuiod D) (op : Op D) :
    nuiod.step op = (op.moves nuiod >>= fun moves => moves.foldlM move nuiod) := by
  cases op with
  | event e rest => exact (foldlM_single nuiod (.event e rest)).symm
  | refresh report =>
      show nuiod.vmInfosMap.keys.foldlM (refreshVm report) nuiod
        = (nuiod.vmInfosMap.keys.map (Move.refresh report)).foldlM move nuiod
      rw [List.foldlM_map]
      rfl
  | monitor env => exact (foldlM_single nuiod (.monitor env)).symm
  | decide env =>
      show (nuiod.scheduleActs env >>= fun acts => nuiod.perform acts env.sort env.pins) = _
      simp only [Op.moves]
      cases nuiod.scheduleActs env with
      | error e => rfl
      | ok acts => exact perform_eq_moves nuiod acts env.sort env.pins
  | perform acts sort pins => exact perform_eq_moves nuiod acts sort pins

/-- Every run of operations is a run of moves. -/
theorem run_moves {nuiod nuiod' : Nuiod D} {ops : List (Op D)}
    (run : Run step Anything nuiod ops nuiod') :
    ∃ moves, Run move Anything nuiod moves nuiod' := by
  induction run with
  | nil nuiod => exact ⟨[], .nil nuiod⟩
  | cons _ stepped _ ih =>
      rw [step_eq_moves] at stepped
      obtain ⟨first, _, folded⟩ := bind_eq_ok.mp stepped
      obtain ⟨later, runs⟩ := ih
      exact ⟨first ++ later, (Run.foldlM_iff.mp folded).append runs⟩

end VNams.Nuiod
