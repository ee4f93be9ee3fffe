import VNams.Lib.Wrapping
import VNams.Nuiod.Records

/-!
Which measurements a decision smooths.

The IO monitor takes the growth since the VM's last sample, and the members it compares with
start at zero: the first sample of a VM is a growth since the constructor's counters at time
0, and it reaches the strategy in two rounds, as the new rate and then as the history. Nothing
discards it. The CPU usage that the strategy takes for the previous one is never written.
And the differences are unsigned: where the packets or the clock went back, they are no growth
(`measures_iff`). `smooths_iff` says when the values are measurements all the same.
-/

namespace VNams.Nuiod

open Lib Monitor Strategy

variable {D : Type} [Double D]

/-! ### Samples -/

/-- What a sample says about the packets of a VM. -/
structure Counters where
  rxPackets : UInt64
  txPackets : UInt64
  timestampUsec : UInt64
  deriving DecidableEq

/-- The counters of a complete sample: the four files hold a number each. -/
def counters (files : IoFiles) : Option Counters :=
  match files.rxPackets, files.txPackets, files.rxBytes, files.txBytes with
  | some (some rx), some (some tx), some (some _), some (some _) =>
      some ⟨rx, tx, files.timestampUsec⟩
  | _, _, _, _ => none

/-- The counters that the next sample of a VM is compared with. -/
def lastCounters (vm : VmInfo D) : Counters := ⟨vm.rxPackets, vm.txPackets, vm.ioTimestampUsec⟩

/-- The growth of the packets between two samples. -/
def growth (last now : Counters) : Int :=
  ((now.rxPackets.toNat : Int) + now.txPackets.toNat)
    - (last.rxPackets.toNat + last.txPackets.toNat)

/-- The time between two samples in microseconds. -/
def elapsed (last now : Counters) : Int :=
  (now.timestampUsec.toNat : Int) - last.timestampUsec.toNat

/-- The total is the growth of the packets between two samples, and the rate is the growth by the
time between them, which is positive. -/
structure Measures (last now : Counters) (total : UInt64) (rate : D) : Prop where
  total : (total.toNat : Int) = growth last now
  positive : 0 < elapsed last now
  rate : rate = Double.ofInt (growth last now)
    / (Double.ofInt (elapsed last now) / Double.ofInt 1000000)

/-- The packets did not decrease, by less than 2⁶⁴, and the clock went forwards. -/
structure Serves (last now : Counters) : Prop where
  grows : 0 ≤ growth last now
  fits : growth last now < 2 ^ 64
  forwards : last.timestampUsec < now.timestampUsec

/-- What the code takes for the growth. -/
def unsignedGrowth (last now : Counters) : UInt64 :=
  (now.rxPackets - last.rxPackets) + (now.txPackets - last.txPackets)

/-- What the code takes for the rate. -/
def unsignedRate (last now : Counters) : D :=
  Double.ofInt (unsignedGrowth last now).toNat / elapsedTime last.timestampUsec now.timestampUsec

/-- The unsigned growth is the growth modulo 2⁶⁴. -/
theorem unsignedGrowth_eq_iff (last now : Counters) :
    ((unsignedGrowth last now).toNat : Int) = growth last now ↔
      0 ≤ growth last now ∧ growth last now < 2 ^ 64 := by
  have value := (((Represents.toNat now.rxPackets).sub (.toNat last.rxPackets)).add
    ((Represents.toNat now.txPackets).sub (.toNat last.txPackets))).toNat_eq
  have small := (unsignedGrowth last now).toNat_lt
  unfold unsignedGrowth at small ⊢
  unfold growth
  omega

/-- The unsigned time is the time if the clock went forwards. -/
theorem elapsedTime_eq_elapsed {last now : Counters}
    (forwards : last.timestampUsec < now.timestampUsec) :
    (elapsedTime last.timestampUsec now.timestampUsec : D) =
      Double.ofInt (elapsed last now) / Double.ofInt 1000000 := by
  have moved := toNat_sub_add now.timestampUsec last.timestampUsec
  rw [wraps_of_le (UInt64.le_of_lt forwards), Nat.zero_mul, Nat.add_zero] at moved
  have exact : ((now.timestampUsec - last.timestampUsec).toNat : Int) = elapsed last now := by
    unfold elapsed
    omega
  unfold elapsedTime
  rw [exact]

/-- The code measures between two samples exactly when they serve. -/
theorem measures_iff (last now : Counters) :
    Measures last now (unsignedGrowth last now) (unsignedRate last now : D) ↔ Serves last now := by
  constructor
  · intro measures
    obtain ⟨grows, fits⟩ := (unsignedGrowth_eq_iff last now).mp measures.total
    refine ⟨grows, fits, ?_⟩
    rw [UInt64.lt_iff_toNat_lt]
    have positive := measures.positive
    unfold elapsed at positive
    omega
  · intro serves
    have exact := (unsignedGrowth_eq_iff last now).mpr ⟨serves.grows, serves.fits⟩
    refine ⟨exact, ?_, ?_⟩
    · have forwards := UInt64.lt_iff_toNat_lt.mp serves.forwards
      unfold elapsed
      omega
    · unfold unsignedRate
      rw [exact, elapsedTime_eq_elapsed serves.forwards]

/-- A complete sample replaces the counters, and moves the total and the rate into the
history. -/
theorem sample_counters (vm : VmInfo D) {reading : Reading D} {now : Counters}
    (complete : counters reading.io = some now) :
    lastCounters (sample vm reading) = now ∧
      (sample vm reading).totalPackets = unsignedGrowth (lastCounters vm) now ∧
      (sample vm reading).packetsPerSec = unsignedRate (lastCounters vm) now ∧
      (sample vm reading).totalPacketsHistory = vm.totalPackets ∧
      (sample vm reading).packetsPerSecHistory = vm.packetsPerSec := by
  unfold counters at complete
  split at complete
  · rename_i rx tx _ _ rxRead txRead rxBytesRead txBytesRead
    cases complete
    simp only [sample, Monitor.monitorIo, rxRead, txRead, rxBytesRead, txBytesRead]
    exact ⟨rfl, rfl, rfl, rfl, rfl⟩
  · cases complete

/-! ### Runs in which the monitors succeed -/

/-- Everything that a round of the monitors reads about the tracked VMs is there. -/
def MonitorsSucceed (nuiod : Nuiod D) : Op D → Prop
  | .monitor env => (∀ id ∈ nuiod.vmInfosMap,
      (counters (env.io id)).isSome ∧ (env.perfOutput id).isSome) ∧ env.procStat.isSome
  | _ => True

/-- The samples of a record are complete. -/
def Record.Complete (record : Record D) : Prop :=
  ∀ reading ∈ record.readings, (counters reading.io).isSome

/-- When all monitors succeed, the records stay complete. -/
theorem note_complete {nuiod nuiod' : Nuiod D} {records : Records D} {op : Op D}
    (complete : ∀ k record, records k = some record → record.Complete)
    (succeed : MonitorsSucceed nuiod op) (done : nuiod.step op = .ok nuiod') :
    ∀ k record, note records op nuiod' k = some record → record.Complete := by
  have first : ∀ k record, nuiod'.firstRecords k = some record → record.Complete := by
    intro k record noted reading mem
    obtain ⟨vm, _, rfl⟩ := Option.map_eq_some_iff.mp noted
    cases mem
  cases op with
  | event e rest =>
      intro k record noted
      simp only [note] at noted
      split at noted
      · by_cases here : k = e.domId
        · subst here
          rw [Function.update_self] at noted
          exact first _ record noted
        · rw [Function.update_of_ne here] at noted
          exact complete k record noted
      · exact complete k record noted
  | refresh report => exact complete
  | monitor env =>
      intro k record noted reading mem
      obtain ⟨vm, tracked, extended⟩ := Option.bind_eq_some_iff.mp noted
      obtain ⟨old, before, rfl⟩ := Option.map_eq_some_iff.mp extended
      rcases List.mem_append.mp mem with earlier | latest
      · exact complete k old before reading earlier
      · rw [List.mem_singleton.mp latest]
        have present : k ∈ nuiod.vmInfosMap := by
          rw [mem_iff_getElem?]
          cases found : nuiod.vmInfosMap[k]? with
          | none =>
              have absent := (monitor_spec done).absent k found
              rw [tracked] at absent
              cases absent
          | some old => exact ⟨old, rfl⟩
        exact (succeed.1 k present).1
  | decide env => exact complete
  | perform acts sort pins => exact complete

/-- The values that the strategy smooths are measurements: the rates of the last two
intervals between samples, and the CPU usage of the round before. -/
def Smooths (record : Record D) (vm : VmInfo D) : Prop :=
  ∃ before third second last x y z, record.readings = before ++ [third, second, last] ∧
    counters third.io = some x ∧ counters second.io = some y ∧ counters last.io = some z ∧
    Measures y z vm.totalPackets vm.packetsPerSec ∧
    Measures x y vm.totalPacketsHistory vm.packetsPerSecHistory ∧
    second.cpuUsage = some vm.realCpuUsage

/-- The VM has three samples, the last two intervals between them serve, and what the usage
member contained when the VM was filled in is the usage of the round before. -/
def CanSmooth (record : Record D) : Prop :=
  ∃ before third second last x y z, record.readings = before ++ [third, second, last] ∧
    counters third.io = some x ∧ counters second.io = some y ∧ counters last.io = some z ∧
    Serves y z ∧ Serves x y ∧ second.cpuUsage = some record.filled.realCpuUsage

/-- From the third sample on, the rates are those of the last two intervals. -/
theorem rates_of_readings {conf : DomainConf} {record : Record D} {vm : VmInfo D}
    (accounts : Accounts conf record vm) {before : List (Reading D)}
    {third second last : Reading D} {x y z : Counters}
    (readings : record.readings = before ++ [third, second, last])
    (isThird : counters third.io = some x) (isSecond : counters second.io = some y)
    (isLast : counters last.io = some z) :
    (vm.totalPackets = unsignedGrowth y z ∧ vm.packetsPerSec = unsignedRate y z) ∧
      vm.totalPacketsHistory = unsignedGrowth x y ∧ vm.packetsPerSecHistory = unsignedRate x y := by
  have rates := accounts.rates
  rw [readings, List.foldl_append] at rates
  obtain ⟨counted, _⟩ := sample_counters (before.foldl sample record.filled) isThird
  obtain ⟨counted', total, rate, _⟩ :=
    sample_counters (sample (before.foldl sample record.filled) third) isSecond
  rw [counted] at total rate
  obtain ⟨_, total', rate', totalHistory, history⟩ :=
    sample_counters (sample (sample (before.foldl sample record.filled) third) second) isLast
  rw [counted'] at total' rate'
  rw [total] at totalHistory
  rw [rate] at history
  exact ⟨⟨rates.totalPackets.trans total', rates.packetsPerSec.trans rate'⟩,
    rates.totalPacketsHistory.trans totalHistory, rates.packetsPerSecHistory.trans history⟩

/-- What the strategy smooths for a VM that its record accounts for. -/
theorem Accounts.smooths_of_readings {conf : DomainConf} {record : Record D} {vm : VmInfo D}
    (accounts : Accounts conf record vm) : Smooths record vm ↔ CanSmooth record := by
  constructor
  · rintro ⟨before, third, second, last, x, y, z, readings, isThird, isSecond, isLast, newest,
      history, usage⟩
    obtain ⟨⟨total, rate⟩, total', rate'⟩ := rates_of_readings accounts readings isThird isSecond
      isLast
    rw [total, rate, measures_iff] at newest
    rw [total', rate', measures_iff] at history
    rw [accounts.realCpuUsage] at usage
    exact ⟨before, third, second, last, x, y, z, readings, isThird, isSecond, isLast, newest,
      history, usage⟩
  · rintro ⟨before, third, second, last, x, y, z, readings, isThird, isSecond, isLast, newest,
      history, usage⟩
    obtain ⟨⟨total, rate⟩, total', rate'⟩ := rates_of_readings accounts readings isThird isSecond
      isLast
    refine ⟨before, third, second, last, x, y, z, readings, isThird, isSecond, isLast, ?_, ?_, ?_⟩
    · rw [total, rate, measures_iff]
      exact newest
    · rw [total', rate', measures_iff]
      exact history
    · rw [accounts.realCpuUsage]
      exact usage

/-- In every state of every run in which all monitors succeed: what the strategy smooths for a
VM are measurements exactly from the VM's third round on, if the packets and the clock did not go
back in the last two intervals, and if the member that should hold the previous CPU usage happens
to contain it from the start. -/
theorem smooths_iff {conf : DomainConf} {cpuNumber : Nat} {strategy : SimpleStrategy}
    {machine : Machine D} {nuiod₀ : Nuiod D} {s : Nuiod D × Records D} {ops : List (Op D)}
    (booted : (Nuiod.new conf cpuNumber strategy).init machine = .ok (0, nuiod₀))
    (run : Run recorded (fun s op => OwnDecisions s.1 op ∧ MonitorsSucceed s.1 op)
      (nuiod₀, nuiod₀.firstRecords) ops s)
    {k : Int} {vm : VmInfo D} (tracked : s.1.vmInfosMap[k]? = some vm) :
    ∃ record, s.2 k = some record ∧ record.Complete ∧ (Smooths record vm ↔ CanSmooth record) := by
  obtain ⟨_, holds⟩ := recorded_run booted (run.mono fun _ _ guarded => guarded.1)
  obtain ⟨record, noted, accounts⟩ := holds k vm tracked
  have keeps : ∀ (s : Nuiod D × Records D) op s',
      (∀ k record, s.2 k = some record → record.Complete) →
      OwnDecisions s.1 op ∧ MonitorsSucceed s.1 op → recorded s op = .ok s' →
      ∀ k record, s'.2 k = some record → record.Complete := by
    intro s op s' complete guarded done
    obtain ⟨stepped, noted⟩ := withHistory_eq_ok.mp done
    rw [noted]
    exact note_complete complete guarded.2 stepped
  have start : ∀ k record, nuiod₀.firstRecords k = some record → record.Complete := by
    intro k record noted reading mem
    obtain ⟨vm, _, rfl⟩ := Option.map_eq_some_iff.mp noted
    cases mem
  exact ⟨record, noted, Run.invariant keeps start run k record noted, accounts.smooths_of_readings⟩

/-! ### A VM in its first rounds -/

/-- Every statistics file holds `packets`, at a time of `sec` seconds. -/
def trafficAt (packets sec : UInt64) : MonitorEnv where
  io _ := ⟨some (some packets), some (some packets), some (some 0), some (some 0), sec * 1000000⟩
  procStat := evenStat 100
  perfBuffer _ := []
  perfOutput _ := some []

omit [Double D] in
/-- These monitors succeed. -/
theorem trafficAt_succeeds (packets : List (UInt64 × UInt64)) :
    ∀ op ∈ packets.map (fun p => Op.monitor (D := ℚ) (trafficAt p.1 p.2)),
      ∀ s : Nuiod ℚ × Records ℚ, OwnDecisions s.1 op ∧ MonitorsSucceed s.1 op := by
  intro op mem s
  obtain ⟨p, _, rfl⟩ := List.mem_map.mp mem
  exact ⟨trivial, fun _ _ => ⟨rfl, rfl⟩, rfl⟩

/-- Three rounds, one second apart, of a VM that was up long before. -/
def threeRounds : List (Op ℚ) :=
  [(5000, 1000), (7000, 1001), (10000, 1002)].map fun p : UInt64 × UInt64 =>
    Op.monitor (trafficAt p.1 p.2)

/-- The counters that a round of `trafficAt` reads. -/
def countersAt (packets sec : UInt64) : Counters := ⟨packets, packets, sec * 1000000⟩

/-- In its third round a VM with growing counters, whose usage member happens to be right, is
smoothed over measurements. -/
theorem smooths_iff_threeRounds :
    ∃ (nuiod₀ : Nuiod ℚ) (s : Nuiod ℚ × Records ℚ) (vm : VmInfo ℚ) (record : Record ℚ),
      smallNuiod.init (smallMachine [(1, 3)]) = .ok (0, nuiod₀) ∧
      Run recorded (fun s op => OwnDecisions s.1 op ∧ MonitorsSucceed s.1 op)
        (nuiod₀, nuiod₀.firstRecords) threeRounds s ∧
      s.1.vmInfosMap[(1 : Int)]? = some vm ∧ s.2 1 = some record ∧ record.Complete ∧
      CanSmooth record ∧ Smooths record vm := by
  obtain ⟨nuiod₀, s, booted, run, checked⟩ := exists_run_from
    (fun nuiod => (nuiod, nuiod.firstRecords)) recorded threeRounds
    (smallNuiod.init (smallMachine [(1, 3)]))
    (fun s => decide ((1 : Int) ∈ s.1.vmInfosMap ∧
      (s.2 1).map (fun record => (record.filled.realCpuUsage,
        record.readings.map fun reading => (counters reading.io, reading.cpuUsage))) =
      some (0, [(some (countersAt 5000 1000), some 0), (some (countersAt 7000 1001), some 0),
        (some (countersAt 10000 1002), some 0)]))) (by decide +kernel)
  obtain ⟨present, read⟩ := of_decide_eq_true checked
  obtain ⟨vm, tracked⟩ := mem_iff_getElem?.mp present
  have succeeding := run.of_forall (trafficAt_succeeds _)
  obtain ⟨record, noted, complete, smooths⟩ := smooths_iff booted succeeding tracked
  have can : CanSmooth record := by
    rw [noted, Option.map_some, Option.some_inj, Prod.mk_inj, List.map_eq_cons_iff] at read
    obtain ⟨usage, third, _, readings, isThird, later⟩ := read
    obtain ⟨second, _, rfl, isSecond, later⟩ := List.map_eq_cons_iff.mp later
    obtain ⟨last, _, rfl, isLast, none⟩ := List.map_eq_cons_iff.mp later
    rw [List.map_eq_nil_iff] at none
    rw [Prod.mk_inj] at isThird isSecond isLast
    refine ⟨[], third, second, last, _, _, _, ?_, isThird.1, isSecond.1, isLast.1, ?_, ?_, ?_⟩
    · rw [readings, none, List.nil_append]
    · exact ⟨by decide, by decide, by decide⟩
    · exact ⟨by decide, by decide, by decide⟩
    · rw [isSecond.2, usage]
  exact ⟨nuiod₀, s, vm, record, booted, succeeding, tracked, noted, complete, can, smooths.mpr can⟩

/-- In its first round the rate of a VM that carries no traffic any more is its whole traffic
since it was set up, over the time since 1970. -/
theorem firstRound_not_measured :
    ∃ (nuiod₀ : Nuiod ℚ) (s : Nuiod ℚ × Records ℚ) (vm : VmInfo ℚ) (record : Record ℚ),
      smallNuiod.init (smallMachine [(1, 3)]) = .ok (0, nuiod₀) ∧
      Run recorded (fun s op => OwnDecisions s.1 op ∧ MonitorsSucceed s.1 op)
        (nuiod₀, nuiod₀.firstRecords) [Op.monitor (trafficAt 5000 1000)] s ∧
      s.1.vmInfosMap[(1 : Int)]? = some vm ∧ s.2 1 = some record ∧
      vm.packetsPerSec = 10 ∧ ¬ Smooths record vm := by
  obtain ⟨nuiod₀, s, booted, run, checked⟩ := exists_run_from
    (fun nuiod => (nuiod, nuiod.firstRecords)) recorded [Op.monitor (trafficAt 5000 1000)]
    (smallNuiod.init (smallMachine [(1, 3)]))
    (fun s => decide (s.1.vmInfosMap[(1 : Int)]?.map VmInfo.packetsPerSec = some 10 ∧
      (s.2 1).map (fun record => record.readings.length) = some 1)) (by decide +kernel)
  obtain ⟨newest, once⟩ := of_decide_eq_true checked
  obtain ⟨vm, tracked, rate⟩ := Option.map_eq_some_iff.mp newest
  obtain ⟨record, noted, length⟩ := Option.map_eq_some_iff.mp once
  refine ⟨nuiod₀, s, vm, record, booted, ?_, tracked, noted, rate, ?_⟩
  · exact run.of_forall (trafficAt_succeeds [(5000, 1000)])
  · rintro ⟨before, third, second, last, _, _, _, readings, _⟩
    rw [readings] at length
    simp at length

end VNams.Nuiod
