import VNams.Lib.Wrapping
import VNams.Lib.Run
import VNams.Monitor.Io
import VNams.Rounded
import Mathlib.Tactic.Linarith
import Mathlib.Tactic.NormNum
import Mathlib.Tactic.Ring
import Mathlib.Algebra.Order.Field.Basic

/-!
What the I/O rates are worth.

The differences of the counters are unsigned, so the rates are bounded by the new sample as
long as the counters and the clock moved forwards, and in a few other cases by accident, up to
what rounding adds to a sum of bytes and to a time (`StaysBounded`). In any arithmetic a call
that succeeds takes the growth since the sample that the VM holds (`growthSince_of_noLess`). In
exact arithmetic the rates measure the growth since the last call that succeeded only if no call
failed after it had read a counter that moved: a failing call keeps the counters it read, but
not the time (`samples_exact_iff`).
-/

namespace VNams.Monitor

open Lib

/-- The counters of a virtual function, and the clock. -/
structure IoSample where
  rxPackets : UInt64
  txPackets : UInt64
  rxBytes : UInt64
  txBytes : UInt64
  timestampUsec : UInt64
  deriving DecidableEq

/-- What a VM holds of its last samples. -/
def sampleOf {D : Type} (vm : VmInfo D) : IoSample :=
  ⟨vm.rxPackets, vm.txPackets, vm.rxBytes, vm.txBytes, vm.ioTimestampUsec⟩

/-! ### Bounds -/

section Bounds

variable {D : Type} [Rounded D]

open Rounded

/-- What rounding adds to a sum of two numbers of bytes. -/
def bytesGain (D : Type) [Rounded D] (rxBytes txBytes : Nat) : ℚ :=
  stored D (stored D rxBytes + stored D txBytes) - (rxBytes + txBytes)

/-- The time between two samples, in seconds. -/
theorem val_elapsedTime (last now : UInt64) :
    val (elapsedTime last now : D) = stored D (stored D (now - last).toNat / 1000000) := by
  have million : val (Double.ofInt 1000000 : D) = 1000000 := val_ofNat_of_le (by norm_num)
  unfold elapsedTime
  rw [val_div _ _ (by rw [million]; norm_num), million, val_ofNat]
  rfl

/-- The time between two samples is positive exactly when the clock moved. -/
theorem elapsedTime_pos_iff (last now : UInt64) :
    0 < val (elapsedTime last now : D) ↔ last ≠ now := by
  have moved := toNat_sub_add now last
  have small := last.toNat_lt
  rw [val_elapsedTime]
  constructor
  · rintro positive rfl
    simp [stored] at positive
  · intro other
    have apart : last.toNat ≠ now.toNat := fun same => other (UInt64.toNat_inj.mp same)
    have some' : 0 < (now - last).toNat := by
      unfold wraps at moved
      split at moved <;> omega
    exact stored_pos (div_pos (stored_pos (Nat.cast_pos.mpr some')) (by norm_num))

/-- Nothing is added to fewer than 2⁵³ bytes. -/
theorem bytesGain_eq_zero {rxBytes txBytes : Nat} (few : rxBytes + txBytes ≤ 2 ^ 53) :
    bytesGain D rxBytes txBytes = 0 := by
  rw [bytesGain, stored_natCast (by omega), stored_natCast (by omega), ← Nat.cast_add,
    stored_natCast few, sub_self]

/-- From there on a byte may be added. -/
example : bytesGain Binary64 (2 ^ 53 + 3) 0 = 1 := by decide +kernel

end Bounds

/-- The totals that a successful call leaves. -/
theorem monitorIo_complete {D : Type} [Double D] (vm : VmInfo D) (rx tx rxb txb : Option UInt64)
    (timestamp : UInt64) :
    ∃ vm', monitorIo ⟨some rx, some tx, some rxb, some txb, timestamp⟩ vm = (0, vm') ∧
      sampleOf vm' = ⟨rx.getD vm.rxPackets, tx.getD vm.txPackets, rxb.getD vm.rxBytes,
        txb.getD vm.txBytes, timestamp⟩ ∧
      vm'.totalPackets = (vm'.rxPackets - vm.rxPackets) + (vm'.txPackets - vm.txPackets) ∧
      vm'.totalKB = Double.ofInt (vm'.rxBytes - vm.rxBytes).toNat / Double.ofInt 1024
        + Double.ofInt (vm'.txBytes - vm.txBytes).toNat / Double.ofInt 1024 ∧
      vm'.packetsPerSec = Double.ofInt vm'.totalPackets.toNat
        / elapsedTime vm.ioTimestampUsec vm'.ioTimestampUsec ∧
      vm'.kbPerSec = vm'.totalKB / elapsedTime vm.ioTimestampUsec vm'.ioTimestampUsec :=
  ⟨_, rfl, rfl, rfl, rfl, rfl, rfl⟩

/-- What the statistics hold at a call, and which of the four files open. -/
structure IoCall where
  counters : IoSample
  rxPacketsOpens : Bool
  txPacketsOpens : Bool
  rxBytesOpens : Bool
  txBytesOpens : Bool

/-- The files as the call finds them. -/
def IoCall.files (call : IoCall) : IoFiles where
  rxPackets := if call.rxPacketsOpens then some (some call.counters.rxPackets) else none
  txPackets := if call.txPacketsOpens then some (some call.counters.txPackets) else none
  rxBytes := if call.rxBytesOpens then some (some call.counters.rxBytes) else none
  txBytes := if call.txBytesOpens then some (some call.counters.txBytes) else none
  timestampUsec := call.counters.timestampUsec

/-- All four files open. -/
def IoCall.succeeds (call : IoCall) : Bool :=
  call.rxPacketsOpens && call.txPacketsOpens && call.rxBytesOpens && call.txBytesOpens

/-- No counter decreased. -/
structure NoLess (last now : IoSample) : Prop where
  rxPackets : last.rxPackets ≤ now.rxPackets
  txPackets : last.txPackets ≤ now.txPackets
  rxBytes : last.rxBytes ≤ now.rxBytes
  txBytes : last.txBytes ≤ now.txBytes

theorem NoLess.trans {a b c : IoSample} (first : NoLess a b) (second : NoLess b c) : NoLess a c :=
  ⟨UInt64.le_trans first.1 second.1, UInt64.le_trans first.2 second.2,
    UInt64.le_trans first.3 second.3, UInt64.le_trans first.4 second.4⟩

/-- The time from one sample to a later one in seconds. -/
def secondsSince (last now : IoSample) : ℚ :=
  ((now.timestampUsec.toNat : ℚ) - last.timestampUsec.toNat) / 1000000

/-- The totals are the exact growth since `last`, and the rates are these totals by the time
since `last`. -/
structure ExactSince (last now : IoSample) (vm : VmInfo ℚ) : Prop where
  packets : vm.totalPackets.toNat + (last.rxPackets.toNat + last.txPackets.toNat)
    = now.rxPackets.toNat + now.txPackets.toNat
  kb : vm.totalKB = (((now.rxBytes.toNat : ℚ) + now.txBytes.toNat)
    - (last.rxBytes.toNat + last.txBytes.toNat)) / 1024
  elapsed : secondsSince last now ≠ 0
  packetsPerSec : vm.packetsPerSec = (vm.totalPackets.toNat : ℚ) / secondsSince last now
  kbPerSec : vm.kbPerSec = vm.totalKB / secondsSince last now

/-- The calls on one VM, with the sample of the last call that succeeded beside it. -/
def sampled : VmInfo ℚ × IoSample → IoCall → Except Fault (VmInfo ℚ × IoSample) :=
  withHistory (fun vm call => .ok (monitorIo call.files vm).2)
    fun last call _ => if call.succeeds then call.counters else last

/-- A failing call leaves the VM as it is; one that succeeds measures the growth since the
last one that did. -/
def CountsExactly (s : VmInfo ℚ × IoSample) (call : IoCall) : Prop :=
  ((monitorIo call.files s.1).1 = -1 → (monitorIo call.files s.1).2 = s.1) ∧
    ((monitorIo call.files s.1).1 = 0 →
      ExactSince s.2 call.counters (monitorIo call.files s.1).2)

/-- The clock went forwards, or it went back and no counter moved. -/
def ClockServes (last now : IoSample) : Prop :=
  last.timestampUsec < now.timestampUsec ∨ (now.timestampUsec < last.timestampUsec ∧
    now.rxPackets = last.rxPackets ∧ now.txPackets = last.txPackets ∧
    now.rxBytes = last.rxBytes ∧ now.txBytes = last.txBytes)

/-- A call that fails does so before a counter that has moved is read; one that succeeds
finds a growth of the packets that fits 64 bits, and a clock that serves. -/
structure Harmless (s : VmInfo ℚ × IoSample) (call : IoCall) : Prop where
  rxPackets : call.succeeds = false → call.rxPacketsOpens = true →
    call.counters.rxPackets = s.1.rxPackets
  txPackets : call.succeeds = false → call.rxPacketsOpens = true → call.txPacketsOpens = true →
    call.counters.txPackets = s.1.txPackets
  rxBytes : call.succeeds = false → call.rxPacketsOpens = true → call.txPacketsOpens = true →
    call.rxBytesOpens = true → call.counters.rxBytes = s.1.rxBytes
  fits : call.succeeds = true → call.counters.rxPackets.toNat + call.counters.txPackets.toNat
    < s.1.rxPackets.toNat + s.1.txPackets.toNat + 2 ^ 64
  clock : call.succeeds = true → ClockServes (sampleOf s.1) call.counters

/-- What a failing call leaves: the counters that were read before. -/
theorem monitorIo_failed (vm : VmInfo ℚ) {call : IoCall} (fails : call.succeeds = false) :
    monitorIo call.files vm = (-1, { vm with
      rxPackets := if call.rxPacketsOpens then call.counters.rxPackets else vm.rxPackets
      txPackets := if call.rxPacketsOpens && call.txPacketsOpens then call.counters.txPackets
        else vm.txPackets
      rxBytes := if call.rxPacketsOpens && call.txPacketsOpens && call.rxBytesOpens then
          call.counters.rxBytes
        else vm.rxBytes }) := by
  obtain ⟨counters, rx, tx, rxb, txb⟩ := call
  cases rx with
  | false => rfl
  | true =>
      cases tx with
      | false => rfl
      | true =>
          cases rxb with
          | false => rfl
          | true =>
              cases txb with
              | false => rfl
              | true => cases fails

/-- The files of a call that succeeds. -/
theorem IoCall.files_of_succeeds {call : IoCall} (succeeds : call.succeeds = true) :
    call.files = ⟨some (some call.counters.rxPackets), some (some call.counters.txPackets),
      some (some call.counters.rxBytes), some (some call.counters.txBytes),
      call.counters.timestampUsec⟩ := by
  simp only [IoCall.succeeds, Bool.and_eq_true] at succeeds
  obtain ⟨⟨⟨rx, tx⟩, rxb⟩, txb⟩ := succeeds
  simp [IoCall.files, rx, tx, rxb, txb]

/-- The time that the code divides by, exactly. -/
theorem elapsedTime_eq (last now : UInt64) :
    (elapsedTime last now : ℚ) = ((now - last).toNat : ℚ) / 1000000 := by
  simp [elapsedTime, Double.ofInt]

/-- A difference that does not wrap. -/
theorem sub_cast {last now : UInt64} (noLess : last ≤ now) :
    ((now - last).toNat : Int) = (now.toNat : Int) - last.toNat := by
  have exact := toNat_sub_add now last
  rw [wraps_of_le noLess] at exact
  omega

/-- The time that the code divides by is the time that passed if the clock went forwards. -/
theorem elapsedTime_of_lt {last now : IoSample}
    (forwards : last.timestampUsec < now.timestampUsec) :
    elapsedTime last.timestampUsec now.timestampUsec = secondsSince last now ∧
      0 < secondsSince last now := by
  have exact : ((now.timestampUsec - last.timestampUsec).toNat : ℚ)
      = now.timestampUsec.toNat - last.timestampUsec.toNat := by
    exact_mod_cast sub_cast (UInt64.le_of_lt forwards)
  have later : (last.timestampUsec.toNat : ℚ) < now.timestampUsec.toNat := by
    exact_mod_cast UInt64.lt_iff_toNat_lt.mp forwards
  refine ⟨?_, div_pos (sub_pos.mpr later) (by norm_num)⟩
  rw [elapsedTime_eq, exact]
  rfl

/-- If it went back, the two differ in sign. -/
theorem elapsedTime_of_gt {last now : IoSample} (back : now.timestampUsec < last.timestampUsec) :
    0 < (elapsedTime last.timestampUsec now.timestampUsec : ℚ) ∧ secondsSince last now < 0 := by
  have earlier : (now.timestampUsec.toNat : ℚ) < last.timestampUsec.toNat := by
    exact_mod_cast UInt64.lt_iff_toNat_lt.mp back
  have positive := (elapsedTime_pos_iff (D := ℚ) _ _).mpr (UInt64.ne_of_lt back).symm
  exact ⟨positive, div_neg_of_neg_of_pos (sub_neg.mpr earlier) (by norm_num)⟩

/-- A total by two times of different sign is the same only if there is none. -/
theorem eq_zero_of_div_eq {total a b : ℚ} (positive : 0 < a) (negative : b < 0)
    (same : total / a = total / b) : total = 0 := by
  rw [div_eq_div_iff positive.ne' negative.ne] at same
  have apart : b - a ≠ 0 := (by linarith : b - a < 0).ne
  have none : total * (b - a) = 0 := by
    rw [mul_sub]
    linarith
  exact (mul_eq_zero.mp none).resolve_right apart

/-- The totals and the rates are the code's expressions of the exact growth since `last`, and of
the time since then. -/
structure GrowthSince {D : Type} [Double D] (last now : IoSample) (vm : VmInfo D) : Prop where
  packets : (vm.totalPackets.toNat : Int) = ((now.rxPackets.toNat : Int) - last.rxPackets.toNat)
    + (now.txPackets.toNat - last.txPackets.toNat)
  kb : vm.totalKB = Double.ofInt ((now.rxBytes.toNat : Int) - last.rxBytes.toNat) / Double.ofInt 1024
    + Double.ofInt ((now.txBytes.toNat : Int) - last.txBytes.toNat) / Double.ofInt 1024
  packetsPerSec : vm.packetsPerSec = Double.ofInt vm.totalPackets.toNat
    / (Double.ofInt ((now.timestampUsec.toNat : Int) - last.timestampUsec.toNat)
      / Double.ofInt 1000000)
  kbPerSec : vm.kbPerSec = vm.totalKB
    / (Double.ofInt ((now.timestampUsec.toNat : Int) - last.timestampUsec.toNat)
      / Double.ofInt 1000000)

/-- On counters and a clock that go forwards a call that succeeds takes the growth since the last
sample, whatever the arithmetic makes of it. -/
theorem growthSince_of_noLess {D : Type} [Double D] {vm : VmInfo D} {call : IoCall}
    (succeeds : call.succeeds = true) (noLess : NoLess (sampleOf vm) call.counters)
    (fits : call.counters.rxPackets.toNat + call.counters.txPackets.toNat
      < vm.rxPackets.toNat + vm.txPackets.toNat + 2 ^ 64)
    (forwards : vm.ioTimestampUsec < call.counters.timestampUsec) :
    ∃ vm', monitorIo call.files vm = (0, vm') ∧ sampleOf vm' = call.counters ∧
      GrowthSince (sampleOf vm) call.counters vm' := by
  obtain ⟨vm', done, same, packets, kb, packetsPerSec, kbPerSec⟩ := monitorIo_complete vm
    (some call.counters.rxPackets) (some call.counters.txPackets) (some call.counters.rxBytes)
    (some call.counters.txBytes) call.counters.timestampUsec
  rw [← IoCall.files_of_succeeds succeeds] at done
  have counters : sampleOf vm' = call.counters := same
  refine ⟨vm', done, counters, ?_⟩
  rw [← counters] at noLess fits forwards ⊢
  have value := (((Represents.toNat vm'.rxPackets).sub (.toNat vm.rxPackets)).add
    ((Represents.toNat vm'.txPackets).sub (.toNat vm.txPackets))).toNat_eq
  rw [← packets] at value
  have rx := UInt64.le_iff_toNat_le.mp noLess.rxPackets
  have tx := UInt64.le_iff_toNat_le.mp noLess.txPackets
  have rxb := sub_cast noLess.rxBytes
  have txb := sub_cast noLess.txBytes
  have time := sub_cast (UInt64.le_of_lt forwards)
  simp only [sampleOf] at rx tx rxb txb fits time
  refine ⟨?_, ?_, ?_, ?_⟩
  · simp only [sampleOf]
    omega
  · rw [kb, rxb, txb]
    rfl
  · rw [packetsPerSec, elapsedTime, time]
    rfl
  · rw [kbPerSec, elapsedTime, time]
    rfl

/-- The kilobytes of a call whose byte counters did not go back are their growth. -/
theorem totalKB_growth {vm vm' : VmInfo ℚ}
    (kb : vm'.totalKB = Double.ofInt (vm'.rxBytes - vm.rxBytes).toNat / Double.ofInt 1024
      + Double.ofInt (vm'.txBytes - vm.txBytes).toNat / Double.ofInt 1024)
    (rxBytes : vm.rxBytes ≤ vm'.rxBytes) (txBytes : vm.txBytes ≤ vm'.txBytes) :
    vm'.totalKB = (((vm'.rxBytes.toNat : ℚ) + vm'.txBytes.toNat)
      - (vm.rxBytes.toNat + vm.txBytes.toNat)) / 1024 := by
  rw [kb, sub_cast rxBytes, sub_cast txBytes]
  push_cast [Double.ofInt]
  ring

/-- A call that succeeds on growing counters measures their growth exactly when it fits and
the clock serves. -/
theorem exactSince_iff {vm : VmInfo ℚ} {call : IoCall} (succeeds : call.succeeds = true)
    (noLess : NoLess (sampleOf vm) call.counters) :
    ∃ vm', monitorIo call.files vm = (0, vm') ∧ sampleOf vm' = call.counters ∧
      (ExactSince (sampleOf vm) call.counters vm' ↔
        call.counters.rxPackets.toNat + call.counters.txPackets.toNat
          < vm.rxPackets.toNat + vm.txPackets.toNat + 2 ^ 64 ∧
        ClockServes (sampleOf vm) call.counters) := by
  obtain ⟨vm', done, same, packets, kb, packetsPerSec, kbPerSec⟩ := monitorIo_complete vm
    (some call.counters.rxPackets) (some call.counters.txPackets) (some call.counters.rxBytes)
    (some call.counters.txBytes) call.counters.timestampUsec
  rw [← IoCall.files_of_succeeds succeeds] at done
  have counters : sampleOf vm' = call.counters := same
  refine ⟨vm', done, counters, ?_⟩
  rw [← counters] at noLess ⊢
  have value := (((Represents.toNat vm'.rxPackets).sub (.toNat vm.rxPackets)).add
    ((Represents.toNat vm'.txPackets).sub (.toNat vm.txPackets))).toNat_eq
  rw [← packets] at value
  have rx := UInt64.le_iff_toNat_le.mp noLess.rxPackets
  have tx := UInt64.le_iff_toNat_le.mp noLess.txPackets
  have rxb := UInt64.le_iff_toNat_le.mp noLess.rxBytes
  have txb := UInt64.le_iff_toNat_le.mp noLess.txBytes
  have growth := totalKB_growth kb noLess.rxBytes noLess.txBytes
  have whole : (Double.ofInt (vm'.totalPackets.toNat : Int) : ℚ) = vm'.totalPackets.toNat :=
    Int.cast_natCast _
  rw [whole] at packetsPerSec
  have small := vm'.totalPackets.toNat_lt
  simp only [sampleOf] at rx tx rxb txb
  constructor
  · intro exact
    have total := exact.packets
    simp only [sampleOf] at total
    refine ⟨by simp only [sampleOf]; omega, ?_⟩
    by_cases forwards : (sampleOf vm).timestampUsec < (sampleOf vm').timestampUsec
    · exact .inl forwards
    · by_cases back : (sampleOf vm').timestampUsec < (sampleOf vm).timestampUsec
      · obtain ⟨positive, negative⟩ := elapsedTime_of_gt back
        have noPackets := eq_zero_of_div_eq positive negative
          (packetsPerSec.symm.trans exact.packetsPerSec)
        have noBytes := eq_zero_of_div_eq positive negative (kbPerSec.symm.trans exact.kbPerSec)
        rw [Nat.cast_eq_zero] at noPackets
        rw [growth, div_eq_zero_iff, or_iff_left (by norm_num), sub_eq_zero] at noBytes
        norm_cast at noBytes
        refine .inr ⟨back, ?_, ?_, ?_, ?_⟩ <;> rw [← UInt64.toNat_inj] <;>
          simp only [sampleOf] <;> omega
      · refine absurd ?_ exact.elapsed
        have same : (sampleOf vm).timestampUsec = (sampleOf vm').timestampUsec :=
          UInt64.le_antisymm (UInt64.not_lt.mp back) (UInt64.not_lt.mp forwards)
        simp [secondsSince, same]
  · rintro ⟨fits, clock⟩
    simp only [sampleOf] at fits
    have total : vm'.totalPackets.toNat + (vm.rxPackets.toNat + vm.txPackets.toNat)
        = vm'.rxPackets.toNat + vm'.txPackets.toNat := by omega
    rcases clock with forwards | ⟨back, rx', tx', rxb', txb'⟩
    · obtain ⟨same, positive⟩ := elapsedTime_of_lt forwards
      exact ⟨total, growth, positive.ne', by rw [← same]; exact packetsPerSec,
        by rw [← same]; exact kbPerSec⟩
    · obtain ⟨_, negative⟩ := elapsedTime_of_gt back
      simp only [sampleOf] at rx' tx' rxb' txb'
      have noPackets : vm'.totalPackets.toNat = 0 := by
        rw [rx', tx'] at total
        omega
      have noBytes : vm'.totalKB = 0 := by simp [growth, rxb', txb']
      refine ⟨total, growth, negative.ne, ?_, ?_⟩
      · rw [packetsPerSec, noPackets, Nat.cast_zero, zero_div, zero_div]
      · rw [kbPerSec, noBytes, zero_div, zero_div]

/-- On growing counters a call counts exactly when it is harmless, if the VM holds the sample
of the last call that succeeded; it then does so again. -/
theorem countsExactly_iff {vm : VmInfo ℚ} {call : IoCall}
    (noLess : NoLess (sampleOf vm) call.counters) :
    (CountsExactly (vm, sampleOf vm) call ↔ Harmless (vm, sampleOf vm) call) ∧
      (CountsExactly (vm, sampleOf vm) call →
        (if call.succeeds then call.counters else sampleOf vm)
          = sampleOf (monitorIo call.files vm).2) := by
  cases succeeds : call.succeeds with
  | true =>
      obtain ⟨vm', done, counters, exactIff⟩ := exactSince_iff succeeds noLess
      refine ⟨⟨fun counts => ?_, fun harmless => ?_⟩, fun _ => ?_⟩
      · refine ⟨?_, ?_, ?_, fun _ => ?_, ?_⟩
        · simp [succeeds]
        · simp [succeeds]
        · simp [succeeds]
        · exact (exactIff.mp (by simpa [done] using counts.2)).1
        · exact fun _ => (exactIff.mp (by simpa [done] using counts.2)).2
      · refine ⟨by simp [done], fun _ => ?_⟩
        simpa [done] using exactIff.mpr ⟨harmless.fits succeeds, harmless.clock succeeds⟩
      · simp [done, counters]
  | false =>
      have failed := monitorIo_failed vm succeeds
      refine ⟨⟨fun counts => ?_, fun harmless => ?_⟩, fun counts => ?_⟩
      · have same := counts.1 (by rw [failed])
        rw [failed] at same
        refine ⟨fun _ rx => ?_, fun _ rx tx => ?_, fun _ rx tx rxb => ?_, ?_, ?_⟩
        · simpa [rx] using congrArg VmInfo.rxPackets same
        · simpa [rx, tx] using congrArg VmInfo.txPackets same
        · simpa [rx, tx, rxb] using congrArg VmInfo.rxBytes same
        · simp [succeeds]
        · simp [succeeds]
      · refine ⟨fun _ => ?_, by simp [failed]⟩
        have rx : (if call.rxPacketsOpens then call.counters.rxPackets else vm.rxPackets)
            = vm.rxPackets :=
          ite_eq_right_iff.mpr (harmless.rxPackets succeeds)
        have tx : (if call.rxPacketsOpens && call.txPacketsOpens then call.counters.txPackets
            else vm.txPackets) = vm.txPackets := by
          refine ite_eq_right_iff.mpr fun opened => ?_
          rw [Bool.and_eq_true] at opened
          exact harmless.txPackets succeeds opened.1 opened.2
        have rxb : (if call.rxPacketsOpens && call.txPacketsOpens && call.rxBytesOpens then
            call.counters.rxBytes else vm.rxBytes) = vm.rxBytes := by
          refine ite_eq_right_iff.mpr fun opened => ?_
          rw [Bool.and_eq_true, Bool.and_eq_true] at opened
          exact harmless.rxBytes succeeds opened.1.1 opened.1.2 opened.2
        rw [failed]
        simp only [rx, tx, rxb]
      · have same := counts.1 (by rw [failed])
        rw [same]
        rfl

/-- A VM without a sample. -/
def unsampledVm : VmInfo ℚ := VmInfo.new ⟨0, 0, 0, 0, 0, 0, 0, 0, 0, 0, 0, 0, 0, 0⟩

/-- A call never faults, so every list of calls is a run. -/
theorem exists_sampled (s : VmInfo ℚ × IoSample) (calls : List IoCall) :
    ∃ s', Run sampled Anything s calls s' := by
  induction calls generalizing s with
  | nil => exact ⟨s, .nil s⟩
  | cons call rest ih =>
      obtain ⟨s', later⟩ := ih ((monitorIo call.files s.1).2,
        if call.succeeds then call.counters else s.2)
      exact ⟨s', .cons trivial rfl later⟩

/-- In any run of calls on counters that never decrease, every call counts exactly if and
only if every call is harmless where it is made. -/
theorem samples_exact_iff (vm : VmInfo ℚ) (calls : List IoCall)
    (growing : (sampleOf vm :: calls.map IoCall.counters).IsChain NoLess) :
    ∃ s, Run sampled Anything (vm, sampleOf vm) calls s ∧
      (Run sampled CountsExactly (vm, sampleOf vm) calls s ↔
        Run sampled Harmless (vm, sampleOf vm) calls s) := by
  obtain ⟨s, run⟩ := exists_sampled (vm, sampleOf vm) calls
  refine ⟨s, run, Run.guard_iff
    (fun s calls => s.2 = sampleOf s.1 ∧ (s.2 :: calls.map IoCall.counters).IsChain NoLess)
    ?_ ?_ ⟨rfl, growing⟩⟩
  · rintro ⟨vm, last⟩ call rest ⟨held, chain⟩
    obtain rfl : last = sampleOf vm := held
    rw [List.map_cons, List.isChain_cons_cons] at chain
    exact (countsExactly_iff chain.1).1
  · rintro ⟨vm, last⟩ call rest ⟨vm', last'⟩ ⟨held, chain⟩ counts stepped
    obtain rfl : last = sampleOf vm := held
    obtain ⟨noLess, chain⟩ := List.isChain_cons_cons.mp chain
    obtain ⟨stepped, noted⟩ := withHistory_eq_ok.mp stepped
    have same := (countsExactly_iff noLess).2 counts
    cases stepped
    obtain rfl : last' = if call.succeeds then call.counters else sampleOf vm := noted
    refine ⟨same, ?_⟩
    show (ite _ _ _ :: rest.map IoCall.counters).IsChain NoLess
    split
    · exact chain
    · cases rest with
      | nil => exact .singleton _
      | cons next rest =>
          rw [List.map_cons, List.isChain_cons_cons] at chain ⊢
          exact ⟨noLess.trans chain.1, chain.2⟩

/-- Five packets are received before a call that cannot open `tx_packets`, and five more
before one that succeeds. -/
def interrupted : List IoCall :=
  [⟨⟨5, 0, 0, 0, 1000000⟩, true, false, true, true⟩,
    ⟨⟨10, 0, 0, 0, 2000000⟩, true, true, true, true⟩]

theorem interrupted_growing :
    (sampleOf unsampledVm :: interrupted.map IoCall.counters).IsChain NoLess := by
  refine .cons_cons ⟨?_, ?_, ?_, ?_⟩ (.cons_cons ⟨?_, ?_, ?_, ?_⟩ (.singleton _)) <;> decide

theorem samples_exact_iff_interrupted :
    ∃ s, Run sampled Anything (unsampledVm, sampleOf unsampledVm) interrupted s ∧
      (Run sampled CountsExactly (unsampledVm, sampleOf unsampledVm) interrupted s ↔
        Run sampled Harmless (unsampledVm, sampleOf unsampledVm) interrupted s) :=
  samples_exact_iff unsampledVm interrupted interrupted_growing

/-- The failing call keeps the five packets it read, and the next one counts five of ten. -/
theorem interrupted_loses_packets :
    (sampleOf unsampledVm :: interrupted.map IoCall.counters).IsChain NoLess ∧
      ∃ s, Run sampled Anything (unsampledVm, sampleOf unsampledVm) interrupted s ∧
        ¬ Run sampled CountsExactly (unsampledVm, sampleOf unsampledVm) interrupted s ∧
        s.1.totalPackets = 5 := by
  refine ⟨interrupted_growing, _, .cons trivial rfl (.cons trivial rfl (.nil _)), ?_, rfl⟩
  intro counts
  cases counts with
  | cons first _ _ =>
      have same := congrArg VmInfo.rxPackets (first.1 rfl)
      revert same
      decide

end VNams.Monitor
