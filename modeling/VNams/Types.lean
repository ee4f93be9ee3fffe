import Std.Data.TreeMap
import Mathlib.Algebra.Order.Field.Rat
import VNams.Lib.CText
import VNams.Lib.Run

/-!
The data of the daemon: what it records about a virtual machine, a NUMA node and a
scheduling decision.

`double` is kept abstract as a type with the operations and comparisons the code
uses and no laws, so a result stated over `Double D` holds for every rounding and for
not-a-number values alike; results about exact values are stated at `ℚ`.

`std::map<int, T>` is a `TreeMap`: ordered by key, one value for each key. What the
code reads without having written it (uninitialised members and locals) is a
parameter: `Indeterminate` for the members that the `VM_info` constructor leaves out.
-/

namespace VNams

open Lib.CText (Text)

/-- Why an operation has no defined continuation. -/
inductive Fault where
  /-- an element access outside a vector or array -/
  | indexOutOfRange
  /-- `std::map::at` on a missing key (an uncaught `std::out_of_range`) -/
  | mapAtMissing
  /-- dereferencing `begin()` of an empty list -/
  | emptyList
  /-- reading through a null pointer -/
  | nullPointer
  /-- scanning past the terminator of a string -/
  | overread
  /-- writing past the end of a character array -/
  | bufferOverflow
  /-- an exception that nothing catches -/
  | uncaught
  /-- a loop that was cut off before it exited -/
  | diverges
  deriving DecidableEq, Repr

/-- The operations on C++ `double` values that the program uses. -/
class Double (D : Type) extends Add D, Sub D, Mul D, Div D, LT D, LE D where
  ofInt : Int → D
  decLt : DecidableLT D
  decLe : DecidableLE D

instance Double.decidableLT {D : Type} [Double D] : DecidableLT D := Double.decLt
instance Double.decidableLE {D : Type} [Double D] : DecidableLE D := Double.decLe

/-- Exact arithmetic. -/
instance Double.exact : Double ℚ where
  ofInt n := n
  decLt := inferInstance
  decLe := inferInstance

/-- A decimal literal `n / d`. -/
def Double.lit {D : Type} [Double D] (n d : Nat) : D := ofInt n / ofInt d

/-- The event types of libvirt, in the order of `virDomainEventType`. -/
inductive VirDomainEventType where
  | defined | undefined | started | suspended | resumed | stopped | shutdown
  | pmsuspended | crashed
  deriving DecidableEq, Repr

/-- The state of a VM (`VM_State`); `ioStat` is the value 0 a map default has. -/
inductive VmState where
  | ioStat | otherStat | idleStat
  deriving DecidableEq, Repr

/-- A libvirt domain handle (`virDomainPtr`); a null pointer is `none`. -/
abbrev DomainPtr := Nat

/-- Virtual machine object (`VM_info`), less the members nothing reads. -/
structure VmInfo (D : Type) where
  vfNo : Int
  rxPackets : UInt64
  txPackets : UInt64
  totalPackets : UInt64
  totalPacketsHistory : UInt64
  packetsPerSecHistory : D
  packetsPerSec : D
  rxBytes : UInt64
  txBytes : UInt64
  totalKB : D
  totalKBHistory : D
  kbPerSec : D
  kbPerSecHistory : D
  ioTimestampUsec : UInt64
  cycles : UInt64
  instructions : UInt64
  llcDataRdMiss : UInt64
  llcDataRdHit : UInt64
  llcAllReference : UInt64
  llcAllMiss : UInt64
  domPtr : Option DomainPtr
  domId : Int
  realCpuNo : Int
  realCpuUsage : D
  memNodeDistr : List UInt32
  memMainNodeId : Int
  pid : UInt32
  vmEventState : VirDomainEventType
  deriving DecidableEq

/-- The content that the members without an initialiser happen to have. -/
structure Indeterminate (D : Type) where
  totalPacketsHistory : UInt64
  packetsPerSecHistory : D
  packetsPerSec : D
  totalKBHistory : D
  kbPerSec : D
  kbPerSecHistory : D
  cycles : UInt64
  instructions : UInt64
  llcDataRdMiss : UInt64
  llcDataRdHit : UInt64
  llcAllReference : UInt64
  llcAllMiss : UInt64
  realCpuUsage : D
  memMainNodeId : Int

/-- The constructor `VM_info::VM_info`. -/
def VmInfo.new {D : Type} [Double D] (rest : Indeterminate D) : VmInfo D where
  vfNo := -1
  rxPackets := 0
  txPackets := 0
  totalPackets := 0
  totalPacketsHistory := rest.totalPacketsHistory
  packetsPerSecHistory := rest.packetsPerSecHistory
  packetsPerSec := rest.packetsPerSec
  rxBytes := 0
  txBytes := 0
  totalKB := Double.ofInt 0
  totalKBHistory := rest.totalKBHistory
  kbPerSec := rest.kbPerSec
  kbPerSecHistory := rest.kbPerSecHistory
  ioTimestampUsec := 0
  cycles := rest.cycles
  instructions := rest.instructions
  llcDataRdMiss := rest.llcDataRdMiss
  llcDataRdHit := rest.llcDataRdHit
  llcAllReference := rest.llcAllReference
  llcAllMiss := rest.llcAllMiss
  domPtr := none
  domId := -1
  realCpuNo := -1
  realCpuUsage := rest.realCpuUsage
  memNodeDistr := []
  memMainNodeId := rest.memMainNodeId
  pid := UInt32.ofInt (-1)
  vmEventState := .undefined

/-- Migrate decision of a specific VM (`Decision`). -/
structure Decision where
  domId : Int
  cpuNodeId : Int
  memNodeId : Int
  deriving DecidableEq, Repr

/-- A numa node in the system (`Numa_node`): its cpus in ascending order and the
nodes in ascending order of memory latency. -/
structure NumaNode (D : Type) where
  nodeId : Int
  cpuIds : List Nat
  sortedLatNodeList : List (Nat × D)
  deriving DecidableEq

/-- `std::map<int, VM_info>`, keyed by domain id. -/
abbrev VmMap (D : Type) := Std.TreeMap Int (VmInfo D)

/-- `std::map<int, int>`. -/
abbrev IntMap := Std.TreeMap Int Int

/-- The unsigned difference of two counts: it wraps when the second is larger. -/
def unsignedSub (a b : Nat) : Nat := if b ≤ a then a - b else 2 ^ 32 + a - b

@[simp] theorem unsignedSub_of_le {a b : Nat} (le : b ≤ a) : unsignedSub a b = a - b := by
  simp [unsignedSub, le]

/-- `v[i]` for a vector: the element, or a fault. -/
def vecAt {α : Type} (v : List α) (i : Nat) : Except Fault α :=
  match v[i]? with
  | some x => .ok x
  | none => .error .indexOutOfRange

/-- An `int` index converts to `size_t`, so a negative one is out of range. -/
def vecAtInt {α : Type} (v : List α) (i : Int) : Except Fault α :=
  if 0 ≤ i then vecAt v i.toNat else .error .indexOutOfRange

theorem vecAt_eq_ok {α : Type} {v : List α} {i : Nat} {x : α} :
    vecAt v i = .ok x ↔ v[i]? = some x := by
  unfold vecAt
  cases v[i]? <;> simp

theorem vecAtInt_natCast {α : Type} (v : List α) (i : Nat) : vecAtInt v (i : Int) = vecAt v i := by
  simp [vecAtInt]

theorem vecAtInt_eq_ok {α : Type} {v : List α} {i : Int} {x : α} :
    vecAtInt v i = .ok x ↔ 0 ≤ i ∧ v[i.toNat]? = some x := by
  unfold vecAtInt
  split
  · rename_i nonneg
    simp [vecAt_eq_ok, nonneg]
  · rename_i negative
    simp [negative]

end VNams
