import VNams.Lib.Ascending
import VNams.Lib.Run
import VNams.Lib.Wrapping
import VNams.Monitor.Cpu
import Mathlib.Algebra.Order.Field.Basic
import Mathlib.Tactic.NormNum
import Mathlib.Tactic.Linarith

/-!
What the CPU usage is worth.

A line's usage is the busy share of the time between two samples, both summed modulo 2⁶⁴, so
it is a percentage exactly when the idle time can be added to the busy time without a wrap
and some time has passed (`usage_percentage_iff`). `usageLines_spec` says what the loop does
with each line, whatever its usage is worth.
-/

namespace VNams.Monitor

open Lib

variable {D : Type}

/-! ### The loop over the lines -/

section Double

variable [Double D]

/-- What the loop does from line `cnt` on: entry and statistics of each line. -/
structure ReadsLines (cpuNumber cnt : Nat) (lines : List CpuLine) (stats stats' : List (CpuStat D))
    (usage usage' : List D) : Prop where
  length : usage'.length = usage.length + lines.length
  lengthStats : stats'.length = stats.length
  fits : lines = [] ∨ cnt + lines.length ≤ stats.length
  entry : ∀ k line, lines[k]? = some line → ∃ stat, stats[cnt + k]? = some stat ∧
    usage'[usage.length + k]? = some (usageOf cpuNumber (cnt + k) stat.times line.times) ∧
    (stats'[cnt + k]?).map CpuStat.times = some line.times
  earlier : ∀ k < usage.length, usage'[k]? = usage[k]?
  others : ∀ j, (j < cnt ∨ cnt + lines.length ≤ j) → stats'[j]? = stats[j]?

theorem usageLines_spec {cpuNumber cnt : Nat} {lines : List CpuLine}
    {stats stats' : List (CpuStat D)} {usage usage' : List D}
    (read : usageLines cpuNumber cnt lines stats usage = .ok (stats', usage')) :
    ReadsLines cpuNumber cnt lines stats stats' usage usage' := by
  induction lines generalizing cnt stats usage with
  | nil =>
      cases read
      exact ⟨rfl, rfl, .inl rfl, fun k line none => by simp at none, fun _ _ => rfl, fun _ _ => rfl⟩
  | cons line rest ih =>
      simp only [usageLines] at read
      split at read
      · cases read
      · rename_i stat here
        have later := ih read
        have inRange := (List.getElem?_eq_some_iff.mp here).1
        refine ⟨?_, ?_, .inr ?_, fun k line' at_ => ?_, fun k before => ?_, fun j away => ?_⟩
        · rw [later.length, List.length_append, List.length_singleton, List.length_cons]
          omega
        · rw [later.lengthStats, List.length_set]
        · rw [List.length_cons]
          rcases later.fits with rfl | fits
          · exact inRange
          · rw [List.length_set] at fits
            omega
        · cases k with
          | zero =>
              cases at_
              refine ⟨stat, here, ?_, ?_⟩
              · rw [Nat.add_zero, later.earlier usage.length (by simp)]
                simp
              · rw [Nat.add_zero, later.others cnt (.inl (Nat.lt_succ_self cnt)),
                  List.getElem?_set_self inRange]
                rfl
          | succ k =>
              obtain ⟨stat', found, reported, stored⟩ := later.entry k line' at_
              rw [List.getElem?_set_ne (by omega)] at found
              rw [show cnt + (k + 1) = cnt + 1 + k by omega,
                show usage.length + (k + 1) = (usage ++ [usageOf cpuNumber cnt stat.times
                  line.times]).length + k by rw [List.length_append, List.length_singleton]; omega]
              exact ⟨stat', found, reported, stored⟩
        · rw [later.earlier k (by rw [List.length_append]; omega), List.getElem?_append_left before]
        · rw [List.length_cons] at away
          rw [later.others j (by omega), List.getElem?_set_ne (by omega)]

/-- The loop goes through when there is an entry for each line. -/
theorem exists_usageLines (cpuNumber : Nat) {cnt : Nat} {lines : List CpuLine}
    {stats : List (CpuStat D)} (usage : List D) (fits : cnt + lines.length ≤ stats.length) :
    ∃ r, usageLines cpuNumber cnt lines stats usage = .ok r := by
  induction lines generalizing cnt stats usage with
  | nil => exact ⟨_, rfl⟩
  | cons line rest ih =>
      rw [List.length_cons] at fits
      have here := List.getElem?_eq_getElem (l := stats) (i := cnt) (by omega)
      simp only [usageLines, here]
      exact ih _ (by rw [List.length_set]; omega)

end Double

/-! ### Percentages -/

/-- A counter that cannot decrease did, so the line is skipped. -/
def Skipped (last now : CpuTimes) : Prop :=
  now.totalUser < last.totalUser ∨ now.totalSys < last.totalSys ∨ now.totalGuest < last.totalGuest

/-- By how much the counters of the time not idle changed together. -/
def busyChange (last now : CpuTimes) : Int :=
  (now.totalUser.toNat - last.totalUser.toNat) + (now.totalUserLow.toNat - last.totalUserLow.toNat)
    + (now.totalSys.toNat - last.totalSys.toNat)
    + (now.totalIowait.toNat - last.totalIowait.toNat) + (now.totalIrq.toNat - last.totalIrq.toNat)
    + (now.totalSoftirq.toNat - last.totalSoftirq.toNat)
    + (now.totalSteal.toNat - last.totalSteal.toNat)
    + (now.totalGuest.toNat - last.totalGuest.toNat)
    + (now.totalGuestNice.toNat - last.totalGuestNice.toNat)

/-- By how much the idle counter changed. -/
def idleChange (last now : CpuTimes) : Int := now.totalIdle.toNat - last.totalIdle.toNat

/-- The changes, each taken modulo 2⁶⁴, are not both nothing and do not add up to 2⁶⁴. -/
def Measurable (last now : CpuTimes) : Prop :=
  0 < busyChange last now % 2 ^ 64 + idleChange last now % 2 ^ 64 ∧
    busyChange last now % 2 ^ 64 + idleChange last now % 2 ^ 64 < 2 ^ 64

theorem busyTime_represents (last now : CpuTimes) :
    Represents (busyTime last now) (busyChange last now) := by
  have each : ∀ a b : UInt64, Represents (a - b) (a.toNat - b.toNat) := fun a b =>
    (Represents.toNat a).sub (.toNat b)
  exact ((((((((each _ _).add (each _ _)).add (each _ _)).add (each _ _)).add (each _ _)).add
    (each _ _)).add (each _ _)).add (each _ _)).add (each _ _)

/-- The value is the usage of a line: it is defined, and between 0 and 100 for a CPU, between
0 and 100 for each CPU for the aggregate. -/
structure IsPercentage (cpuNumber cnt : Nat) (last now : CpuTimes) (usage : ℚ) : Prop where
  defined : Skipped last now ∨ totalTime last now ≠ 0
  nonneg : 0 ≤ usage
  le : usage ≤ if cnt = 0 then 100 * (cpuNumber : ℚ) else 100

/-- Busy and total time of two samples in range. -/
theorem measurable_iff (last now : CpuTimes) :
    Measurable last now ↔
      totalTime last now ≠ 0 ∧ (busyTime last now).toNat ≤ (totalTime last now).toNat := by
  have busy := (busyTime_represents last now).toNat_eq
  have idle := ((Represents.toNat now.totalIdle).sub (.toNat last.totalIdle)).toNat_eq
  have small := (busyTime last now).toNat_lt
  have small' := (now.totalIdle - last.totalIdle).toNat_lt
  have total : (totalTime last now).toNat
      = ((busyTime last now).toNat + (now.totalIdle - last.totalIdle).toNat) % 2 ^ 64 :=
    UInt64.toNat_add _ _
  have isZero : totalTime last now = 0 ↔ (totalTime last now).toNat = 0 := by
    rw [← UInt64.toNat_inj]
    rfl
  unfold Measurable idleChange
  rw [← busy, ← idle, ne_eq, isZero, total]
  omega

/-- The percentage of a line that is not skipped. -/
theorem usageOf_eq (cpuNumber cnt : Nat) {last now : CpuTimes} (counts : ¬ Skipped last now) :
    (usageOf cpuNumber cnt last now : ℚ) =
      (busyTime last now).toNat / (totalTime last now).toNat * 100
        * if cnt = 0 then (cpuNumber : ℚ) else 1 := by
  unfold Skipped at counts
  unfold usageOf
  rw [if_neg counts]
  show (if cnt = 0 then ((((busyTime last now).toNat : ℤ) : ℚ)
      / (((totalTime last now).toNat : ℤ) : ℚ) * ((100 : ℤ) : ℚ)) * ((cpuNumber : ℤ) : ℚ)
    else (((busyTime last now).toNat : ℤ) : ℚ) / (((totalTime last now).toNat : ℤ) : ℚ)
      * ((100 : ℤ) : ℚ)) = _
  push_cast
  split
  · rfl
  · rw [mul_one]

/-- The share of a part, as a percentage, is at most 100 exactly if the part is no more than
the whole. -/
theorem share_le_iff {part whole : Nat} (positive : 0 < whole) :
    (part : ℚ) / whole * 100 ≤ 100 ↔ part ≤ whole := by
  have isPositive : (0 : ℚ) < whole := by exact_mod_cast positive
  rw [mul_le_iff_le_one_left (by norm_num), div_le_one₀ isPositive, Nat.cast_le]

/-- The usage of a line is a percentage exactly when the line is skipped or its counters are
measurable. -/
theorem isPercentage_iff {cpuNumber : Nat} (cnt : Nat) (last now : CpuTimes)
    (positive : 0 < cpuNumber) :
    IsPercentage cpuNumber cnt last now (usageOf cpuNumber cnt last now) ↔
      Skipped last now ∨ Measurable last now := by
  have cpus : (0 : ℚ) < cpuNumber := by exact_mod_cast positive
  by_cases skipped : Skipped last now
  · have zero : (usageOf cpuNumber cnt last now : ℚ) = 0 := if_pos skipped
    refine ⟨fun _ => .inl skipped, fun _ => ⟨.inl skipped, zero.ge, ?_⟩⟩
    rw [zero]
    split
    · exact mul_nonneg (by norm_num) cpus.le
    · norm_num
  · rw [or_iff_right skipped, measurable_iff]
    have value := usageOf_eq cpuNumber cnt skipped
    constructor
    · intro percentage
      have moved := percentage.defined.resolve_left skipped
      have someTime : 0 < (totalTime last now).toNat :=
        Nat.pos_of_ne_zero fun none => moved (UInt64.toNat_inj.mp none)
      refine ⟨moved, (share_le_iff someTime).mp ?_⟩
      have bounded := percentage.le
      rw [value] at bounded
      split at bounded
      · exact le_of_mul_le_mul_right bounded cpus
      · rwa [mul_one] at bounded
    · rintro ⟨moved, part⟩
      have someTime : 0 < (totalTime last now).toNat :=
        Nat.pos_of_ne_zero fun none => moved (UInt64.toNat_inj.mp none)
      have share := (share_le_iff someTime).mpr part
      have nonneg : (0 : ℚ) ≤ (busyTime last now).toNat / (totalTime last now).toNat * 100 :=
        mul_nonneg (div_nonneg (Nat.cast_nonneg _) (Nat.cast_nonneg _)) (by norm_num)
      refine ⟨.inr moved, ?_, ?_⟩
      · rw [value]
        split
        · exact mul_nonneg nonneg cpus.le
        · rwa [mul_one]
      · rw [value]
        split
        · exact mul_le_mul_of_nonneg_right share cpus.le
        · rwa [mul_one]

/-- What `get_cpu_usage` stores for a line is a percentage exactly when a counter that cannot
decrease did, or the changes of the busy counters and of the idle counter are measurable. -/
theorem usage_percentage_iff (monitor monitor' : CpuMonitor ℚ) (stats : List (CpuStat ℚ))
    (lines : List CpuLine) (usage usage' : List ℚ) (ready : monitor.cpuStatArray = some stats)
    (positive : 0 < monitor.cpuNumber)
    (read : getCpuUsage monitor (some lines) usage = .ok (0, monitor', usage')) :
    usage'.length = lines.length ∧ ∀ k line, lines[k]? = some line →
      ∃ stat percent, stats[k]? = some stat ∧ usage'[k]? = some percent ∧
        (IsPercentage monitor.cpuNumber k stat.times line.times percent ↔
          Skipped stat.times line.times ∨ Measurable stat.times line.times) := by
  simp only [getCpuUsage, ready] at read
  obtain ⟨⟨stats', usage''⟩, reads, stored⟩ := bind_eq_ok.mp read
  cases stored
  have spec := usageLines_spec reads
  refine ⟨spec.length.trans (by simp), fun k line at_ => ?_⟩
  obtain ⟨stat, found, reported, _⟩ := spec.entry k line at_
  rw [Nat.zero_add] at found reported
  rw [List.length_nil, Nat.zero_add] at reported
  exact ⟨stat, _, found, reported, isPercentage_iff k _ _ positive⟩

/-- One CPU that has waited for IO for a while. -/
def waitingMonitor : CpuMonitor ℚ :=
  ⟨1, some [⟨⟨0, 0, 0, 0, 10, 0, 0, 0, 0, 0⟩, 0⟩, ⟨⟨0, 0, 0, 0, 10, 0, 0, 0, 0, 0⟩, 0⟩]⟩

/-- Its iowait counter goes back by 5 while it is idle for 10. -/
def iowaitBack : List CpuLine :=
  [⟨none, ⟨0, 0, 0, 10, 5, 0, 0, 0, 0, 0⟩⟩, ⟨some 0, ⟨0, 0, 0, 10, 5, 0, 0, 0, 0, 0⟩⟩]

theorem usage_percentage_iff_iowaitBack :
    ∃ stats monitor' usage', waitingMonitor.cpuStatArray = some stats ∧
      getCpuUsage waitingMonitor (some iowaitBack) [] = .ok (0, monitor', usage') ∧
      usage'.length = 2 ∧ ∀ k line, iowaitBack[k]? = some line →
        ∃ stat percent, stats[k]? = some stat ∧ usage'[k]? = some percent ∧
          (IsPercentage 1 k stat.times line.times percent ↔
            Skipped stat.times line.times ∨ Measurable stat.times line.times) :=
  ⟨_, _, _, rfl, rfl, usage_percentage_iff waitingMonitor _ _ iowaitBack [] _ rfl Nat.one_pos rfl⟩

/-- Its usage is far above 100. -/
theorem iowaitBack_above :
    ∃ monitor' usage' percent,
      getCpuUsage waitingMonitor (some iowaitBack) [] = .ok (0, monitor', usage') ∧
      usage'[1]? = some percent ∧ ¬ IsPercentage 1 1 ⟨0, 0, 0, 0, 10, 0, 0, 0, 0, 0⟩
        ⟨0, 0, 0, 10, 5, 0, 0, 0, 0, 0⟩ percent := by
  refine ⟨_, _, _, rfl, rfl, fun percentage => ?_⟩
  have bounded := percentage.le
  revert bounded
  decide +kernel

end VNams.Monitor
