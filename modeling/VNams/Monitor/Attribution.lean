import VNams.Monitor.Usage

/-!
Which CPU an entry of the usage is the usage of.

`init_cpu_monitor` and `get_cpu_usage` count the lines they read, and every consumer of the
vector takes entry `c + 1` for CPU `c`. The two agree exactly when every reading lists the
CPUs from 0 on without a gap and none that the first reading did not list
(`attributed_iff`).
-/

namespace VNams.Monitor

open Lib

/-- The head of `/proc/stat`: the aggregate line, and a line for each online CPU in
ascending order. -/
structure StatReading where
  aggregate : CpuTimes
  cpus : List (Nat × CpuTimes)
  ascending : (cpus.map Prod.fst).Pairwise (· < ·)

namespace StatReading

/-- The online CPUs. -/
def online (reading : StatReading) : List Nat := reading.cpus.map Prod.fst

def lines (reading : StatReading) : List CpuLine :=
  ⟨none, reading.aggregate⟩ :: reading.cpus.map fun entry => ⟨some entry.1, entry.2⟩

/-- The line of a CPU. -/
def timesOf (reading : StatReading) (cpu : Nat) : Option CpuTimes :=
  (reading.cpus.find? fun entry => entry.1 == cpu).map Prod.snd

theorem timesOf_eq_some {reading : StatReading} {cpu : Nat} {times : CpuTimes} :
    reading.timesOf cpu = some times ↔ (cpu, times) ∈ reading.cpus := by
  unfold timesOf
  rw [Option.map_eq_some_iff]
  constructor
  · rintro ⟨⟨cpu', times'⟩, found, rfl⟩
    obtain rfl : cpu' = cpu := by simpa using List.find?_some found
    exact List.mem_of_find?_eq_some found
  · intro mem
    have nodup : (reading.cpus.map Prod.fst).Nodup :=
      reading.ascending.imp fun less => Nat.ne_of_lt less
    obtain ⟨entry, found⟩ := Option.isSome_iff_exists.mp
      (List.find?_isSome (p := fun entry : Nat × CpuTimes => entry.1 == cpu)
        |>.mpr ⟨_, mem, beq_self_eq_true cpu⟩)
    have same : entry.1 = cpu := by simpa using List.find?_some found
    have only := List.inj_on_of_nodup_map nodup (List.mem_of_find?_eq_some found) mem same
    exact ⟨entry, found, congrArg Prod.snd only⟩

theorem exists_timesOf {reading : StatReading} {cpu : Nat} :
    (∃ times, reading.timesOf cpu = some times) ↔ cpu ∈ reading.online := by
  simp only [timesOf_eq_some, online, List.mem_map]
  constructor
  · rintro ⟨times, mem⟩
    exact ⟨(cpu, times), mem, rfl⟩
  · rintro ⟨⟨cpu, times⟩, mem, rfl⟩
    exact ⟨times, mem⟩

@[simp] theorem length_lines (reading : StatReading) :
    reading.lines.length = reading.online.length + 1 := by
  simp [lines, online]

/-- A CPU that stands at its own position has its line there. -/
theorem lines_of_online {reading : StatReading} {cpu : Nat}
    (at_ : reading.online[cpu]? = some cpu) :
    ∃ times, reading.timesOf cpu = some times ∧
      reading.lines[cpu + 1]? = some ⟨some cpu, times⟩ := by
  obtain ⟨⟨cpu', times⟩, here, same⟩ := List.getElem?_map .. ▸ at_ |> Option.map_eq_some_iff.mp
  obtain rfl : cpu' = cpu := same
  refine ⟨times, timesOf_eq_some.mpr (List.mem_of_getElem? here), ?_⟩
  rw [lines, List.getElem?_cons_succ, List.getElem?_map, here]
  rfl

end StatReading

/-- The latest line of a CPU in the readings, the latest first. -/
def latest (history : List StatReading) (cpu : Nat) : Option CpuTimes :=
  history.findSome? fun reading => reading.timesOf cpu

/-- The reading lists the CPUs from 0 on without a gap, and each of them is in the first
reading. -/
def GapFree (first reading : StatReading) : Prop :=
  reading.online = List.range reading.online.length ∧ ∀ cpu ∈ reading.online, cpu ∈ first.online

section Double

variable {D : Type} [Double D]

/-! ### The monitor -/

omit [Double D] in
/-- What `init_cpu_monitor` stores: the lines by position. -/
theorem initLines_spec {cnt : Nat} {lines : List CpuLine} {stats stats' : List (CpuStat D)}
    (read : initLines cnt lines stats = .ok stats') :
    stats'.length = stats.length ∧ (lines = [] ∨ cnt + lines.length ≤ stats.length) ∧
      (∀ k line, lines[k]? = some line → (stats'[cnt + k]?).map CpuStat.times = some line.times) ∧
      ∀ j < cnt, stats'[j]? = stats[j]? := by
  induction lines generalizing cnt stats with
  | nil =>
      cases read
      exact ⟨rfl, .inl rfl, fun k line none => by simp at none, fun _ _ => rfl⟩
  | cons line rest ih =>
      simp only [initLines] at read
      split at read
      · cases read
      · rename_i stat here
        have inRange := (List.getElem?_eq_some_iff.mp here).1
        obtain ⟨length, fits, stored, others⟩ := ih read
        rw [List.length_set] at length fits
        refine ⟨length, .inr ?_, fun k line' at_ => ?_, fun j before => ?_⟩
        · rw [List.length_cons]
          rcases fits with rfl | fits
          · exact inRange
          · omega
        · cases k with
          | zero =>
              cases at_
              rw [Nat.add_zero, others cnt (Nat.lt_succ_self cnt), List.getElem?_set_self inRange]
              rfl
          | succ k =>
              rw [show cnt + (k + 1) = cnt + 1 + k by omega]
              exact stored k line' at_
        · rw [others j (by omega), List.getElem?_set_ne (by omega)]

omit [Double D] in
theorem exists_initLines {cnt : Nat} {lines : List CpuLine} {stats : List (CpuStat D)}
    (fits : cnt + lines.length ≤ stats.length) :
    ∃ stats', initLines cnt lines stats = .ok stats' := by
  induction lines generalizing cnt stats with
  | nil => exact ⟨_, rfl⟩
  | cons line rest ih =>
      rw [List.length_cons] at fits
      have here := List.getElem?_eq_getElem (l := stats) (i := cnt) (by omega)
      simp only [initLines, here]
      exact ih (by rw [List.length_set]; omega)

/-- One reading by `get_cpu_usage`. -/
def readUsage (s : CpuMonitor D × List D) (reading : StatReading) :
    Except Fault (CpuMonitor D × List D) := do
  let r ← getCpuUsage s.1 (some reading.lines) s.2
  .ok r.2

/-- The readings, with those before beside the monitor. -/
def watched : (CpuMonitor D × List D) × List StatReading → StatReading →
    Except Fault ((CpuMonitor D × List D) × List StatReading) :=
  withHistory readUsage fun history reading _ => reading :: history

/-- The reading succeeds within `cpu_stat_array`, and entry `c + 1` is the usage of CPU `c`
between its two latest lines, for every CPU that is online. -/
def Attributes (s : (CpuMonitor D × List D) × List StatReading) (reading : StatReading) : Prop :=
  ∃ monitor' usage', getCpuUsage s.1.1 (some reading.lines) s.1.2 = .ok (0, monitor', usage') ∧
    ∀ cpu now, reading.timesOf cpu = some now → ∃ last, latest s.2 cpu = some last ∧
      usage'[cpu + 1]? = some (usageOf s.1.1.cpuNumber (cpu + 1) last now)

/-- A successful reading is the loop over its lines. -/
theorem getCpuUsage_eq_ok {monitor monitor' : CpuMonitor D} {lines : List CpuLine}
    {usage usage' : List D} (read : getCpuUsage monitor (some lines) usage
      = .ok (0, monitor', usage')) :
    ∃ stats stats', monitor.cpuStatArray = some stats ∧
      monitor' = { monitor with cpuStatArray := some stats' } ∧
      ReadsLines monitor.cpuNumber 0 lines stats stats' [] usage' := by
  cases ready : monitor.cpuStatArray with
  | none =>
      simp only [getCpuUsage, ready] at read
      cases read
  | some stats =>
      simp only [getCpuUsage, ready] at read
      obtain ⟨⟨stats', usage''⟩, reads, stored⟩ := bind_eq_ok.mp read
      cases stored
      exact ⟨stats, stats', rfl, rfl, usageLines_spec reads⟩

/-! ### Only gap-free readings are attributed -/

/-- A reading that is attributed lists known CPUs without a gap. -/
theorem Attributes.gapFree {first reading : StatReading}
    {s : (CpuMonitor D × List D) × List StatReading} (attributes : Attributes s reading)
    (known : ∀ cpu times, latest s.2 cpu = some times → cpu ∈ first.online) :
    GapFree first reading := by
  obtain ⟨monitor', usage', read, each⟩ := attributes
  obtain ⟨stats, stats', _, _, spec⟩ := getCpuUsage_eq_ok read
  have length := spec.length
  rw [List.length_nil, Nat.zero_add, StatReading.length_lines] at length
  have seen : ∀ cpu ∈ reading.online, cpu ∈ first.online ∧ cpu < reading.online.length := by
    intro cpu here
    obtain ⟨now, listed⟩ := StatReading.exists_timesOf.mpr here
    obtain ⟨last, before, entry⟩ := each cpu now listed
    have inRange := (List.getElem?_eq_some_iff.mp entry).1
    exact ⟨known cpu last before, by omega⟩
  exact ⟨eq_range_of_lt_length reading.ascending fun cpu here => (seen cpu here).2,
    fun cpu here => (seen cpu here).1⟩

theorem gapFree_of_run {first : StatReading} {later : List StatReading}
    {s s' : (CpuMonitor D × List D) × List StatReading}
    (run : Run watched Attributes s later s')
    (known : ∀ cpu times, latest s.2 cpu = some times → cpu ∈ first.online) :
    ∀ reading ∈ later, GapFree first reading := by
  induction run with
  | nil => exact fun _ none => by cases none
  | @cons s mid s' reading rest attributes stepped _ ih =>
      have gapFree := attributes.gapFree known
      obtain ⟨_, noted⟩ := withHistory_eq_ok.mp stepped
      refine List.forall_mem_cons.mpr ⟨gapFree, ih fun cpu times found => ?_⟩
      rw [noted, latest, List.findSome?_cons] at found
      split at found
      · rename_i here
        exact gapFree.2 cpu (StatReading.exists_timesOf.mp ⟨_, here⟩)
      · exact known cpu times found

/-! ### Gap-free readings are attributed -/

/-- The monitor has an entry for each CPU that may come, which holds the latest line of the
CPU. -/
structure Remembers (cpuNumber : Nat) (first : StatReading)
    (s : (CpuMonitor D × List D) × List StatReading) : Prop where
  number : s.1.1.cpuNumber = cpuNumber
  array : ∃ stats, s.1.1.cpuStatArray = some stats ∧ stats.length = cpuNumber + 1 ∧
    ∀ cpu, (∀ x ≤ cpu, x ∈ first.online) → ∃ stat, stats[cpu + 1]? = some stat ∧
      latest s.2 cpu = some stat.times

/-- A gap-free reading is attributed, and remembered. -/
theorem Remembers.step {cpuNumber : Nat} {first reading : StatReading}
    {s : (CpuMonitor D × List D) × List StatReading} (remembers : Remembers cpuNumber first s)
    (fits : first.online.length ≤ cpuNumber) (gapFree : GapFree first reading) :
    Attributes s reading ∧ ∃ s', watched s reading = .ok s' ∧ Remembers cpuNumber first s' := by
  obtain ⟨stats, ready, length, holds⟩ := remembers.array
  have nodup : reading.online.Nodup := reading.ascending.imp fun less => Nat.ne_of_lt less
  have fewer : reading.online.length ≤ first.online.length := by
    rw [← List.toFinset_card_of_nodup nodup]
    refine (Finset.card_le_card fun cpu mem => ?_).trans (List.toFinset_card_le first.online)
    exact List.mem_toFinset.mpr (gapFree.2 cpu (List.mem_toFinset.mp mem))
  obtain ⟨⟨stats', usage'⟩, reads⟩ := exists_usageLines s.1.1.cpuNumber []
    (show 0 + reading.lines.length ≤ stats.length by rw [StatReading.length_lines]; omega)
  have spec := usageLines_spec reads
  have read : getCpuUsage s.1.1 (some reading.lines) s.1.2
      = .ok (0, { s.1.1 with cpuStatArray := some stats' }, usage') := by
    simp only [getCpuUsage, ready, reads, bind, Except.bind]
  have here : ∀ cpu < reading.online.length, ∃ times, reading.timesOf cpu = some times ∧
      reading.lines[cpu + 1]? = some ⟨some cpu, times⟩ := fun cpu below =>
    StatReading.lines_of_online (by
      rw [gapFree.1]
      exact List.getElem?_range below)
  have online : ∀ cpu, cpu ∈ reading.online ↔ cpu < reading.online.length := fun cpu => by
    rw [gapFree.1, List.length_range]
    exact List.mem_range
  refine ⟨⟨_, usage', read, fun cpu now listed => ?_⟩,
    (({ s.1.1 with cpuStatArray := some stats' }, usage'), reading :: s.2), ?_,
    remembers.number, stats', rfl, spec.lengthStats.trans length, fun cpu upTo => ?_⟩
  · have below := (online cpu).mp (StatReading.exists_timesOf.mp ⟨now, listed⟩)
    obtain ⟨times, listed', atLine⟩ := here cpu below
    cases listed.symm.trans listed'
    obtain ⟨stat, found, before⟩ := holds cpu fun x le =>
      gapFree.2 x ((online x).mpr (by omega))
    obtain ⟨stat', found', entry, _⟩ := spec.entry (cpu + 1) _ atLine
    rw [Nat.zero_add] at found' entry
    rw [List.length_nil, Nat.zero_add] at entry
    cases found.symm.trans found'
    exact ⟨stat.times, before, entry⟩
  · refine withHistory_eq_ok.mpr ⟨?_, rfl⟩
    simp only [readUsage, read, bind, Except.bind]
  · by_cases below : cpu < reading.online.length
    · obtain ⟨times, listed, atLine⟩ := here cpu below
      obtain ⟨_, _, _, stored⟩ := spec.entry (cpu + 1) _ atLine
      rw [Nat.zero_add] at stored
      obtain ⟨stat, found, same⟩ := Option.map_eq_some_iff.mp stored
      refine ⟨stat, found, ?_⟩
      rw [latest, List.findSome?_cons, listed, same]
    · have absent : reading.timesOf cpu = none := by
        refine Option.eq_none_iff_forall_ne_some.mpr fun times listed => below ?_
        exact (online cpu).mp (StatReading.exists_timesOf.mp ⟨times, listed⟩)
      obtain ⟨stat, found, before⟩ := holds cpu upTo
      refine ⟨stat, ?_, ?_⟩
      · rw [spec.others (cpu + 1) (by rw [StatReading.length_lines]; omega), found]
      · rw [latest, List.findSome?_cons, absent]
        exact before

theorem exists_attributed {cpuNumber : Nat} {first : StatReading} {later : List StatReading}
    {s : (CpuMonitor D × List D) × List StatReading} (remembers : Remembers cpuNumber first s)
    (fits : first.online.length ≤ cpuNumber) (gapFree : ∀ reading ∈ later, GapFree first reading) :
    ∃ s', Run watched Attributes s later s' := by
  induction later generalizing s with
  | nil => exact ⟨s, .nil s⟩
  | cons reading rest ih =>
      obtain ⟨now, later⟩ := List.forall_mem_cons.mp gapFree
      obtain ⟨attributes, mid, stepped, remembers'⟩ := remembers.step fits now
      obtain ⟨s', run⟩ := ih remembers' later
      exact ⟨s', .cons attributes stepped run⟩

/-- Over any sequence of readings: all of them go through within `cpu_stat_array`, and every
online CPU finds its own usage, exactly when the first reading lists no more than
`cpu_number` CPUs and every later one lists the CPUs from 0 on without a gap, all of them in
the first reading. -/
theorem attributed_iff (cpuNumber : Nat) (fresh : Nat → CpuStat D) (usage : List D)
    (first : StatReading) (later : List StatReading) :
    (∃ monitor s, initCpuMonitor cpuNumber fresh (some first.lines) = .ok (0, monitor) ∧
      Run watched Attributes ((monitor, usage), [first]) later s) ↔
    first.online.length ≤ cpuNumber ∧ ∀ reading ∈ later, GapFree first reading := by
  constructor
  · rintro ⟨monitor, s, initialised, run⟩
    obtain ⟨stats, reads, _⟩ := bind_eq_ok.mp initialised
    obtain ⟨_, fits, _⟩ := initLines_spec reads
    refine ⟨?_, gapFree_of_run run fun cpu times found => ?_⟩
    · rw [StatReading.length_lines, List.length_map, List.length_range] at fits
      rcases fits with none | fits
      · cases none
      · omega
    · refine StatReading.exists_timesOf.mp ⟨times, ?_⟩
      simpa [latest] using found
  · rintro ⟨fits, gapFree⟩
    obtain ⟨stats, reads⟩ := exists_initLines
      (show 0 + first.lines.length ≤ ((List.range (cpuNumber + 1)).map fresh).length by
        rw [StatReading.length_lines, List.length_map, List.length_range]
        omega)
    obtain ⟨length, _, stored, _⟩ := initLines_spec reads
    have initialised : initCpuMonitor cpuNumber fresh (some first.lines)
        = .ok (0, ⟨cpuNumber, some stats⟩) := by
      simp only [initCpuMonitor, reads, bind, Except.bind]
    have remembers : Remembers cpuNumber first
        (((⟨cpuNumber, some stats⟩ : CpuMonitor D), usage), [first]) := by
      refine ⟨rfl, stats, rfl, ?_, fun cpu upTo => ?_⟩
      · rw [length, List.length_map, List.length_range]
      · obtain ⟨times, listed, atLine⟩ := StatReading.lines_of_online
          (getElem?_eq_self first.ascending upTo)
        have entry := stored (cpu + 1) _ atLine
        rw [Nat.zero_add] at entry
        obtain ⟨stat, found, same⟩ := Option.map_eq_some_iff.mp entry
        refine ⟨stat, found, ?_⟩
        rw [latest, List.findSome?_cons, listed, same]
    obtain ⟨s, run⟩ := exists_attributed remembers fits gapFree
    exact ⟨_, s, initialised, run⟩

end Double

/-- Two online CPUs, with CPU 1 offline between them. -/
def offlineBetween (jiffies : UInt64) : StatReading where
  aggregate := ⟨jiffies, 0, 0, jiffies, 0, 0, 0, 0, 0, 0⟩
  cpus := [(0, ⟨0, 0, 0, jiffies, 0, 0, 0, 0, 0, 0⟩), (2, ⟨jiffies, 0, 0, 0, 0, 0, 0, 0, 0, 0⟩)]
  ascending := by simp

/-- CPU 2 is fully used, and has no entry; its usage stands where that of CPU 1 is looked
up. -/
theorem offlineBetween_misattributed :
    ∃ monitor monitor' usage', initCpuMonitor 2 (fun _ => (⟨⟨0, 0, 0, 0, 0, 0, 0, 0, 0, 0⟩, 0⟩ :
        CpuStat ℚ)) (some (offlineBetween 100).lines) = .ok (0, monitor) ∧
      getCpuUsage monitor (some (offlineBetween 200).lines) [] = .ok (0, monitor', usage') ∧
      (offlineBetween 200).online = [0, 2] ∧ usage'[1 + 1]? = some 100 ∧ usage'[2 + 1]? = none ∧
      ¬ Attributes ((monitor, []), [offlineBetween 100]) (offlineBetween 200) := by
  refine ⟨_, _, _, rfl, rfl, rfl, by decide +kernel, rfl, ?_⟩
  rintro ⟨monitor', usage', read, each⟩
  obtain ⟨last, _, entry⟩ := each 2 ⟨200, 0, 0, 0, 0, 0, 0, 0, 0, 0⟩ rfl
  cases read
  cases entry

end VNams.Monitor
