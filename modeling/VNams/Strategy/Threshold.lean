import VNams.Strategy.Destination

/-!
The class of a VM against the threshold.

`analyzeIOState` compares strictly on both sides, so a smoothed rate equal to the threshold
writes no state; the balancing code then reads the default of the map, which is `IO_STAT`.
Only there does the class miss "more than `io_threshold` packets per second".
-/

namespace VNams.Strategy

open Lib

/-- The smoothed packet rate of a VM, exactly. -/
def smoothedRate (vm : VmInfo ℚ) : ℚ :=
  let f : ℚ := if vm.packetsPerSec < vm.packetsPerSecHistory then 0.85 else 0.4
  vm.packetsPerSecHistory * f + vm.packetsPerSec * (1 - f)

theorem smoothedPps_eq (vm : VmInfo ℚ) : smoothedPps vm = smoothedRate vm := by
  have falls : (Double.lit 85 100 : ℚ) = 0.85 := by
    change ((85 : Int) : ℚ) / ((100 : Int) : ℚ) = 0.85
    norm_num
  have rises : (Double.lit 4 10 : ℚ) = 0.4 := by
    change ((4 : Int) : ℚ) / ((10 : Int) : ℚ) = 0.4
    norm_num
  have one : (Double.ofInt 1 : ℚ) = 1 := Int.cast_one
  simp only [smoothedPps, smoothedRate, smoothFactor, falls, rises, one]

/-- The class of a VM, read off its smoothed rate. -/
theorem ioClass_eq (strategy : SimpleStrategy) (vm : VmInfo ℚ) :
    ioClass strategy vm =
      if smoothedRate vm < strategy.ioThreshold then .otherStat else .ioStat := by
  have threshold : (Double.ofInt strategy.ioThreshold : ℚ) = strategy.ioThreshold := rfl
  unfold ioClass
  rw [smoothedPps_eq, threshold]
  by_cases below : smoothedRate vm < strategy.ioThreshold
  · simp only [if_neg (not_lt.mpr below.le), if_pos below]
  · simp only [if_neg below, ite_self]

/-- The state read for the VM is `IO_STAT` when its smoothed rate is above the threshold, and
`OTHER_STAT` otherwise. -/
structure ReadsExactly (strategy : SimpleStrategy) (states : VmStateMap) (vm : VmInfo ℚ) :
    Prop where
  io_iff : states.read vm.domId = .ioStat ↔ (strategy.ioThreshold : ℚ) < smoothedRate vm
  other : ¬ (strategy.ioThreshold : ℚ) < smoothedRate vm → states.read vm.domId = .otherStat

/-- The classification of a listed VM is exact unless its smoothed rate is the threshold. -/
theorem readsExactly_iff (strategy : SimpleStrategy) (args : ScheduleArgs ℚ)
    (vmStateSlot : Nat → VmState) (agree : KeysAgree args.vmInfosMap) {c : Classified}
    (classified : classify strategy args vmStateSlot = .ok c) {vm : VmInfo ℚ}
    (listed : vm ∈ scheduled args vmStateSlot) :
    ReadsExactly strategy c.vmStateMap vm ↔ smoothedRate vm ≠ strategy.ioThreshold := by
  have state : c.vmStateMap.read vm.domId = _ :=
    ((classify_spec agree classified).class_ vm listed).trans (ioClass_eq strategy vm)
  constructor
  · rintro ⟨_, other⟩ same
    rw [state, same] at other
    have isOther := other (lt_irrefl _)
    rw [if_neg (lt_irrefl _)] at isOther
    cases isOther
  · intro apart
    rcases lt_or_gt_of_ne apart with below | above
    · rw [if_pos below] at state
      exact ⟨by simp [state, below.le], fun _ => state⟩
    · rw [if_neg (not_lt.mpr above.le)] at state
      exact ⟨by simp [state, above], fun notAbove => absurd above notAbove⟩

/-- One VM whose rate is always the threshold, homed on node 1. -/
def atThreshold : ScheduleArgs ℚ :=
  twoNodeArgs [steadyVm 1 1 1 100000 50] [60, 60, 60]

theorem atThreshold_classified :
    ∃ c, classify {} atThreshold (fun _ => .otherStat) = .ok c :=
  (classify_isOk {}).mpr ⟨by decide +kernel, by decide +kernel⟩

theorem readsExactly_iff_atThreshold :
    ∃ c, classify {} atThreshold (fun _ => .otherStat) = .ok c ∧
      (ReadsExactly {} c.vmStateMap (steadyVm 1 1 1 100000 50) ↔
        smoothedRate (steadyVm 1 1 1 100000 50) ≠ ((100000 : Int) : ℚ)) := by
  obtain ⟨c, classified⟩ := atThreshold_classified
  exact ⟨c, classified, readsExactly_iff {} atThreshold (fun _ => .otherStat)
    (twoNodeArgs_agree _ _) classified (by decide +kernel)⟩

/-- Its state reads as `IO_STAT`, although the rate is not above the threshold. -/
theorem atThreshold_reads_io : ∃ c, classify {} atThreshold (fun _ => .otherStat) = .ok c ∧
    ∃ vm ∈ scheduled atThreshold fun _ => .otherStat,
      smoothedRate vm = 100000 ∧ c.vmStateMap.read vm.domId = .ioStat ∧
        ¬ ReadsExactly {} c.vmStateMap vm := by
  obtain ⟨c, classified⟩ := atThreshold_classified
  have listed : steadyVm 1 1 1 100000 50 ∈ scheduled atThreshold fun _ => .otherStat := by
    decide +kernel
  have rate : smoothedRate (steadyVm 1 1 1 100000 50) = 100000 := by decide +kernel
  have isIo : ioClass {} (steadyVm 1 1 1 100000 50) = .ioStat := by decide +kernel
  have reads := ((classify_spec (twoNodeArgs_agree _ _) classified).class_ _ listed).trans isIo
  refine ⟨c, classified, _, listed, rate, reads, ?_⟩
  rintro ⟨io_iff, _⟩
  have above := io_iff.mp reads
  rw [rate] at above
  exact lt_irrefl _ above

end VNams.Strategy
