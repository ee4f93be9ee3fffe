import VNams.Types

/-!
`Cpu_monitor`: CPU usage from consecutive readings of `/proc/stat`.

A reading is the list of the lines at the head of the file that contain "cpu", in
file order; the aggregate line comes first. The code stores and reports by line
position, and ignores the number in the label of a `cpuN` line.
-/

namespace VNams.Monitor

variable {D : Type} [Double D]

/-- The ten counters of a line of `/proc/stat`. -/
structure CpuTimes where
  totalUser : UInt64
  totalUserLow : UInt64
  totalSys : UInt64
  totalIdle : UInt64
  totalIowait : UInt64
  totalIrq : UInt64
  totalSoftirq : UInt64
  totalSteal : UInt64
  totalGuest : UInt64
  totalGuestNice : UInt64
  deriving DecidableEq, Repr

/-- A line of `/proc/stat`: its CPU, or `none` on the aggregate line. -/
structure CpuLine where
  cpu : Option Nat
  times : CpuTimes

/-- The lines of `/proc/stat`, or `none` when it cannot be opened. -/
abbrev ProcStat := Option (List CpuLine)

/-- `struct Cpu_stat`. -/
structure CpuStat (D : Type) where
  times : CpuTimes
  usage : D

/-- `Cpu_monitor`: `cpu_stat_array` is null until it is initialised. -/
structure CpuMonitor (D : Type) where
  cpuNumber : Nat
  cpuStatArray : Option (List (CpuStat D))

/-- The time not idle between two samples, summed modulo 2⁶⁴. -/
def busyTime (last now : CpuTimes) : UInt64 :=
  (now.totalUser - last.totalUser) + (now.totalUserLow - last.totalUserLow)
    + (now.totalSys - last.totalSys) + (now.totalIowait - last.totalIowait)
    + (now.totalIrq - last.totalIrq) + (now.totalSoftirq - last.totalSoftirq)
    + (now.totalSteal - last.totalSteal) + (now.totalGuest - last.totalGuest)
    + (now.totalGuestNice - last.totalGuestNice)

/-- All time between two samples. -/
def totalTime (last now : CpuTimes) : UInt64 :=
  busyTime last now + (now.totalIdle - last.totalIdle)

/-- The usage that line `cnt` reports; 0 when a counter that cannot decrease did. -/
def usageOf (cpuNumber cnt : Nat) (last now : CpuTimes) : D :=
  if now.totalUser < last.totalUser ∨ now.totalSys < last.totalSys
      ∨ now.totalGuest < last.totalGuest then
    Double.ofInt 0
  else
    let percent : D := Double.ofInt (busyTime last now).toNat
      / Double.ofInt (totalTime last now).toNat * Double.ofInt 100
    if cnt = 0 then percent * Double.ofInt cpuNumber else percent

/-- The loop of `init_cpu_monitor` from line `cnt` on. -/
def initLines : Nat → List CpuLine → List (CpuStat D) → Except Fault (List (CpuStat D))
  | _, [], stats => .ok stats
  | cnt, line :: rest, stats =>
      match stats[cnt]? with
      | none => .error .indexOutOfRange
      | some stat => initLines (cnt + 1) rest (stats.set cnt { stat with times := line.times })

/-- Init all data; `fresh` is what `new Cpu_stat[cpu_number + 1]` contains. -/
def initCpuMonitor (cpuNumber : Nat) (fresh : Nat → CpuStat D) (file : ProcStat) :
    Except Fault (Int × CpuMonitor D) :=
  let stats := (List.range (cpuNumber + 1)).map fresh
  match file with
  | none => .ok (-1, ⟨cpuNumber, some stats⟩)
  | some lines => do
      let stats ← initLines 0 lines stats
      .ok (0, ⟨cpuNumber, some stats⟩)

/-- The loop of `get_cpu_usage` from line `cnt` on. -/
def usageLines (cpuNumber : Nat) :
    Nat → List CpuLine → List (CpuStat D) → List D → Except Fault (List (CpuStat D) × List D)
  | _, [], stats, usage => .ok (stats, usage)
  | cnt, line :: rest, stats, usage =>
      match stats[cnt]? with
      | none => .error .indexOutOfRange
      | some stat =>
          let percent := usageOf cpuNumber cnt stat.times line.times
          usageLines cpuNumber (cnt + 1) rest (stats.set cnt ⟨line.times, percent⟩)
            (usage ++ [percent])

/-- Fill `usage`: entry 0 is the total, entry 1 the first CPU. The vector is cleared
before the file is opened, and not at all before initialisation. -/
def getCpuUsage (monitor : CpuMonitor D) (file : ProcStat) (usage : List D) :
    Except Fault (Int × CpuMonitor D × List D) :=
  match monitor.cpuStatArray with
  | none => .ok (-1, monitor, usage)
  | some stats =>
      match file with
      | none => .ok (-1, monitor, [])
      | some lines => do
          let (stats, usage) ← usageLines monitor.cpuNumber 0 lines stats []
          .ok (0, { monitor with cpuStatArray := some stats }, usage)

end VNams.Monitor
