import VNams.Types

/-!
`IOMonitor::monitorIO`: one sample of the statistics of a VM's virtual function.

The four counters are overwritten one file at a time, and the rates are only
recomputed when all four files could be opened.
-/

namespace VNams.Monitor

variable {D : Type} [Double D]

/-- One statistics file: `none` when it cannot be opened, `some none` when it opens
but `fscanf` finds no number in it. -/
abbrev StatFile := Option (Option UInt64)

/-- What one call of `monitorIO` reads: the four files of the virtual function and
the clock in microseconds. -/
structure IoFiles where
  rxPackets : StatFile
  txPackets : StatFile
  rxBytes : StatFile
  txBytes : StatFile
  timestampUsec : UInt64

/-- The time between two timestamps in seconds. -/
def elapsedTime (last now : UInt64) : D :=
  Double.ofInt (now - last).toNat / Double.ofInt 1000000

/-- The part of `monitorIO` after the four reads: `last` is the VM before the call,
`vm` the VM with the new counters. -/
def updateRates (last vm : VmInfo D) (timestampUsec : UInt64) : VmInfo D :=
  let elapsed : D := elapsedTime last.ioTimestampUsec timestampUsec
  let totalPackets := (vm.rxPackets - last.rxPackets) + (vm.txPackets - last.txPackets)
  let totalKB : D := Double.ofInt (vm.rxBytes - last.rxBytes).toNat / Double.ofInt 1024
    + Double.ofInt (vm.txBytes - last.txBytes).toNat / Double.ofInt 1024
  { vm with
    ioTimestampUsec := timestampUsec
    totalPacketsHistory := vm.totalPackets
    totalKBHistory := vm.totalKB
    totalPackets := totalPackets
    totalKB := totalKB
    packetsPerSecHistory := vm.packetsPerSec
    packetsPerSec := Double.ofInt totalPackets.toNat / elapsed
    kbPerSecHistory := vm.kbPerSec
    kbPerSec := totalKB / elapsed }

/-- Monitor the IO of a specific VM. Returns -1 as soon as a file cannot be opened,
keeping the counters read before it. -/
def monitorIo (files : IoFiles) (vm : VmInfo D) : Int × VmInfo D :=
  match files.rxPackets with
  | none => (-1, vm)
  | some rxPackets =>
      let vm₁ := { vm with rxPackets := rxPackets.getD vm.rxPackets }
      match files.txPackets with
      | none => (-1, vm₁)
      | some txPackets =>
          let vm₂ := { vm₁ with txPackets := txPackets.getD vm.txPackets }
          match files.rxBytes with
          | none => (-1, vm₂)
          | some rxBytes =>
              let vm₃ := { vm₂ with rxBytes := rxBytes.getD vm.rxBytes }
              match files.txBytes with
              | none => (-1, vm₃)
              | some txBytes =>
                  let vm₄ := { vm₃ with txBytes := txBytes.getD vm.txBytes }
                  (0, updateRates vm vm₄ files.timestampUsec)

end VNams.Monitor
