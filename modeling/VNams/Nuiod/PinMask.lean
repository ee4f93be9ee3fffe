import VNams.Lib.ByteSet
import VNams.Nuiod.Daemon

/-!
The CPU mask that `Thread_migrate` hands to libvirt.

The object owns one row of bytes for all its calls; a call clears the row and switches the
bit of each target CPU on. The row has the length that the constructor computed, which is
part of its type. The daemon only ever asks for one CPU, and what it learns from the call is
what the daemon's model takes from it.
-/

namespace VNams

open Lib (bit)

/-- The class with what its constructor leaves in it. -/
structure ThreadMigrate where
  numaNumber : Int
  cpuNumber : Int
  cpumapsLen : Int
  /-- cpumask for libvirt virDomainPinVcpu -/
  cpumaps : Vector UInt8 cpumapsLen.toNat
  /-- each 'unsigned char' can represent 8 cpus -/
  len_eq : cpumapsLen = cpuNumber.tdiv 8 + 1
  len_nonneg : 0 ≤ cpumapsLen

namespace ThreadMigrate

/-- The constructor; `memory` is what the new array happens to contain. `new[]` refuses a
negative length with an exception. -/
def create (numaNum cpuNum : Int) (memory : Nat → UInt8) : Except Fault ThreadMigrate :=
  if nonneg : 0 ≤ cpuNum.tdiv 8 + 1 then
    .ok ⟨numaNum, cpuNum, cpuNum.tdiv 8 + 1, Vector.ofFn fun i => memory i, rfl, nonneg⟩
  else .error .uncaught

/-- The byte with the bit on: it is promoted, combined with the mask and cut off. -/
def withBit (byte : UInt8) (offset : UInt32) : UInt8 :=
  let bitMask : UInt32 := 1 <<< offset
  (byte.toUInt32 ||| bitMask).toUInt8

/-- Calculate which cpumaps and which bit it is, and set the bit on. -/
def setCpu {len : Nat} (cpumaps : Vector UInt8 len) (node : UInt32) :
    Except Fault (Vector UInt8 len) :=
  let cpumapsIdx := (node / 8).toNat
  let offset := node % 8
  if inside : cpumapsIdx < len then
    .ok (cpumaps.set cpumapsIdx (withBit cpumaps[cpumapsIdx] offset) inside)
  else .error .indexOutOfRange

/-- Clear the cpumaps and translate the `target_node` to them. -/
def translate (len : Nat) (targetNode : List UInt32) : Except Fault (Vector UInt8 len) :=
  targetNode.foldlM setCpu (Vector.replicate len 0)

/-- What `virDomainPinVcpu` is called with. -/
structure PinCall where
  domain : Option DomainPtr
  vcpu : UInt32
  cpumaps : List UInt8
  cpumapsLen : Int

/-- Pin the vcpu of domain to target node. Return 0 if succeed, or -1 if failed, with the
call that was made and the object afterwards. -/
def pinVcpuTo (migrate : ThreadMigrate) (virDomainPinVcpu : PinCall → Int)
    (domain : Option DomainPtr) (vcpu : UInt32) (targetNode : List UInt32) :
    Except Fault (Int × PinCall × ThreadMigrate) := do
  let cpumaps ← translate migrate.cpumapsLen.toNat targetNode
  let call : PinCall := ⟨domain, vcpu, cpumaps.toList, migrate.cpumapsLen⟩
  .ok (if virDomainPinVcpu call = -1 then -1 else 0, call, { migrate with cpumaps := cpumaps })

/-! ### One bit -/

theorem testBit_one (i : Nat) : Nat.testBit 1 i = decide (i = 0) := by
  rw [Bool.eq_iff_iff, decide_eq_true_iff]
  exact Nat.testBit_one_eq_true_iff_self_eq_zero

/-- The byte keeps its bits and gets one more. -/
theorem testBit_withBit (byte : UInt8) (node : UInt32) {i : Nat} (low : i < 8) :
    (withBit byte (node % 8)).toNat.testBit i =
      (byte.toNat.testBit i || decide (i = node.toNat % 8)) := by
  have offset : node.toNat % 8 < 8 := Nat.mod_lt _ (by omega)
  have unmasked : (node % 8).toNat % 32 = node.toNat % 8 := by
    rw [UInt32.toNat_mod]
    exact Nat.mod_eq_of_lt (Nat.lt_trans offset (by decide))
  have shifted : ((1 : UInt32) <<< (node % 8)).toNat.testBit i =
      decide (i = node.toNat % 8) := by
    rw [UInt32.toNat_shiftLeft, unmasked, Nat.testBit_mod_two_pow, Nat.testBit_shiftLeft,
      UInt32.toNat_one, testBit_one, Bool.eq_iff_iff]
    simp only [Bool.and_eq_true, decide_eq_true_iff]
    omega
  unfold withBit
  rw [UInt32.toNat_toUInt8, Nat.testBit_mod_two_pow, UInt32.toNat_or, Nat.testBit_or, shifted,
    UInt8.toNat_toUInt32]
  simp [low]

/-- A CPU within the row gets its bit. -/
theorem setCpu_spec {len : Nat} (cpumaps : Vector UInt8 len) {node : UInt32}
    (inside : node.toNat / 8 < len) :
    ∃ after, setCpu cpumaps node = .ok after ∧
      ∀ c, bit after.toList c = (bit cpumaps.toList c || decide (c = node.toNat)) := by
  have index : (node / 8).toNat = node.toNat / 8 := UInt32.toNat_div node 8
  have inside' : (node / 8).toNat < len := index ▸ inside
  refine ⟨_, dif_pos inside', ?_⟩
  intro c
  rw [Vector.toList_set]
  simp only [index]
  apply Lib.bit_set
  · exact List.getElem?_eq_getElem (by simpa using inside)
  · intro i low
    simpa using testBit_withBit cpumaps[node.toNat / 8] node low

/-! ### The row -/

/-- The loop over the targets: the row gets the bits of all of them. -/
theorem foldlM_setCpu {len : Nat} {targets : List UInt32}
    (inside : ∀ node ∈ targets, node.toNat / 8 < len) (cpumaps : Vector UInt8 len) :
    ∃ after, targets.foldlM setCpu cpumaps = .ok after ∧ ∀ c, bit after.toList c = true ↔
      bit cpumaps.toList c = true ∨ ∃ node ∈ targets, node.toNat = c := by
  induction targets generalizing cpumaps with
  | nil => exact ⟨cpumaps, rfl, by simp⟩
  | cons node targets ih =>
      rw [List.forall_mem_cons] at inside
      obtain ⟨first, set, bits⟩ := setCpu_spec cpumaps inside.1
      obtain ⟨after, looped, all⟩ := ih inside.2 first
      refine ⟨after, ?_, ?_⟩
      · rw [List.foldlM_cons, set]
        exact looped
      · intro c
        rw [all, bits, Bool.or_eq_true, decide_eq_true_iff, List.exists_mem_cons_iff, or_assoc,
          @eq_comm _ c]

/-- The mask of targets within the row decodes to them, and no other row of the length does. -/
theorem translate_spec {len : Nat} {targets : List UInt32}
    (inside : ∀ node ∈ targets, node.toNat / 8 < len) :
    ∃ mask, translate len targets = .ok mask ∧
      ∀ c, bit mask.toList c = true ↔ ∃ node ∈ targets, node.toNat = c := by
  obtain ⟨mask, looped, bits⟩ := foldlM_setCpu inside (Vector.replicate len 0)
  refine ⟨mask, looped, ?_⟩
  intro c
  rw [bits, Vector.toList_replicate, Lib.bit_clear]
  simp

/-- Targets below the number of CPUs are within the row. -/
theorem index_lt (migrate : ThreadMigrate) {node : UInt32}
    (below : (node.toNat : Int) < migrate.cpuNumber) :
    node.toNat / 8 < migrate.cpumapsLen.toNat := by
  have length := migrate.len_eq
  rw [Int.tdiv_eq_ediv_of_nonneg (by omega)] at length
  omega

/-- A row for a positive number of CPUs can be had. -/
theorem create_ok (numaNum : Int) {cpuNum : Int} (memory : Nat → UInt8) (positive : 0 < cpuNum) :
    ∃ migrate, create numaNum cpuNum memory = .ok migrate ∧ migrate.cpuNumber = cpuNum := by
  have nonneg : 0 ≤ cpuNum.tdiv 8 + 1 := by
    rw [Int.tdiv_eq_ediv_of_nonneg (by omega)]
    omega
  exact ⟨_, dif_pos nonneg, rfl⟩

/-- The call that is made once the mask is there. -/
theorem pinVcpuTo_of_translate {migrate : ThreadMigrate} {targets : List UInt32}
    {mask : Vector UInt8 migrate.cpumapsLen.toNat}
    (translated : translate migrate.cpumapsLen.toNat targets = .ok mask)
    (virDomainPinVcpu : PinCall → Int) (domain : Option DomainPtr) (vcpu : UInt32) :
    ∃ ret after, migrate.pinVcpuTo virDomainPinVcpu domain vcpu targets =
        .ok (ret, ⟨domain, vcpu, mask.toList, migrate.cpumapsLen⟩, after) ∧
      after.cpuNumber = migrate.cpuNumber := by
  unfold pinVcpuTo
  rw [translated]
  exact ⟨_, _, rfl, rfl⟩

/-- Objects for as many CPUs pass the same mask on for the same targets, in whatever order and
whatever their rows contained. -/
theorem call_unique {migrate other : ThreadMigrate} {targets again : List UInt32}
    (below : ∀ node ∈ targets, (node.toNat : Int) < migrate.cpuNumber)
    (number : other.cpuNumber = migrate.cpuNumber) (same : ∀ node, node ∈ again ↔ node ∈ targets)
    {mask : Vector UInt8 migrate.cpumapsLen.toNat}
    (bits : ∀ c, bit mask.toList c = true ↔ ∃ node ∈ targets, node.toNat = c)
    (virDomainPinVcpu : PinCall → Int) (domain : Option DomainPtr) (vcpu : UInt32) :
    ∃ ret after, other.pinVcpuTo virDomainPinVcpu domain vcpu again =
      .ok (ret, ⟨domain, vcpu, mask.toList, migrate.cpumapsLen⟩, after) := by
  have len : other.cpumapsLen = migrate.cpumapsLen := by
    rw [other.len_eq, migrate.len_eq, number]
  have inside : ∀ node ∈ again, node.toNat / 8 < other.cpumapsLen.toNat := by
    intro node mem
    apply other.index_lt
    rw [number]
    exact below node ((same node).mp mem)
  obtain ⟨mask', translated, bits'⟩ := translate_spec inside
  have row : mask'.toList = mask.toList := by
    apply Lib.eq_of_bit
    · rw [Vector.length_toList, Vector.length_toList, len]
    · intro c
      rw [Bool.eq_iff_iff, bits, bits']
      simp only [same]
  obtain ⟨ret, after, called, _⟩ :=
    pinVcpuTo_of_translate translated virDomainPinVcpu domain vcpu
  rw [row, len] at called
  exact ⟨ret, after, called⟩

/-- For targets below the number of CPUs the bytes that are written lie within the row, and
the mask that is passed on, whatever the row contained, is exactly their set: another object
for as many CPUs passes the same mask on for any list of the same CPUs. -/
theorem mask_exact (migrate : ThreadMigrate) (virDomainPinVcpu : PinCall → Int)
    (domain : Option DomainPtr) (vcpu : UInt32) (targets : List UInt32)
    (below : ∀ node ∈ targets, (node.toNat : Int) < migrate.cpuNumber) :
    (∀ node ∈ targets, ((node / 8).toNat : Int) < migrate.cpumapsLen) ∧
    ∃ ret call after,
      migrate.pinVcpuTo virDomainPinVcpu domain vcpu targets = .ok (ret, call, after) ∧
      (call.cpumaps.length : Int) = migrate.cpumapsLen ∧ call.cpumapsLen = migrate.cpumapsLen ∧
      (∀ c, bit call.cpumaps c = true ↔ ∃ node ∈ targets, node.toNat = c) ∧
      after.cpuNumber = migrate.cpuNumber ∧
      ∀ (other : ThreadMigrate) (again : List UInt32), other.cpuNumber = migrate.cpuNumber →
        (∀ node, node ∈ again ↔ node ∈ targets) →
        ∃ ret' after',
          other.pinVcpuTo virDomainPinVcpu domain vcpu again = .ok (ret', call, after') := by
  have nonneg := migrate.len_nonneg
  have inside := fun node mem => migrate.index_lt (below node mem)
  obtain ⟨mask, translated, bits⟩ := translate_spec inside
  obtain ⟨ret, after, called, number⟩ :=
    pinVcpuTo_of_translate translated virDomainPinVcpu domain vcpu
  constructor
  · intro node mem
    have index : (node / 8).toNat = node.toNat / 8 := UInt32.toNat_div node 8
    have lt := inside node mem
    omega
  · refine ⟨ret, _, after, called, ?_, rfl, bits, number, ?_⟩
    · rw [Vector.length_toList]
      omega
    · intro other again number' same
      exact call_unique below number' same bits virDomainPinVcpu domain vcpu

/-- Nine CPUs, of which two are asked for twice; the row was full before. -/
theorem mask_exact_nine :
    (∀ node ∈ [8, 1, 8], ((node / 8 : UInt32).toNat : Int) < 2) ∧
    ∃ ret call after,
      pinVcpuTo ⟨1, 9, 2, #v[255, 255], by decide, by decide⟩ (fun _ => 0) (some 1) 0 [8, 1, 8] =
        .ok (ret, call, after) ∧
      (call.cpumaps.length : Int) = 2 ∧ call.cpumapsLen = 2 ∧
      (∀ c, bit call.cpumaps c = true ↔ ∃ node ∈ [8, 1, 8], (node : UInt32).toNat = c) ∧
      after.cpuNumber = 9 ∧
      ∀ (other : ThreadMigrate) (again : List UInt32), other.cpuNumber = 9 →
        (∀ node, node ∈ again ↔ node ∈ [8, 1, 8]) →
        ∃ ret' after',
          other.pinVcpuTo (fun _ => 0) (some 1) 0 again = .ok (ret', call, after') :=
  mask_exact ⟨1, 9, 2, #v[255, 255], by decide, by decide⟩ (fun _ => 0) (some 1) 0 [8, 1, 8]
    (by simp)

/-! ### The daemon's calls -/

/-- The call has the mask of the one CPU. -/
structure Decodes (made : PinCall) (call : Nuiod.PinCall) : Prop where
  domain : made.domain = call.domain
  vcpu : made.vcpu.toNat = call.vcpu
  cpumaps : ∀ c, bit made.cpumaps c = true ↔ c = call.cpu

/-- What the daemon's model says of a call for one CPU: the call that is made has the mask of
that CPU, the call for a domain that is not there fails, and a CPU behind the row has no call. -/
theorem pinVcpuTo_single (migrate : ThreadMigrate) {cpuNumber cpu : Nat}
    (number : migrate.cpuNumber = cpuNumber) (small : cpu < 2 ^ 32) (domain : Option DomainPtr)
    (vcpu : UInt32) (answer : Int) :
    (∀ ret call, Nuiod.pinVcpuTo cpuNumber domain vcpu.toNat cpu answer = .ok (ret, call) →
      ∃ made after, migrate.pinVcpuTo (fun call => if call.domain = none then -1 else answer) domain
        vcpu [UInt32.ofNat cpu] = .ok (ret, made, after) ∧ Decodes made call) ∧
    ∀ fault, Nuiod.pinVcpuTo cpuNumber domain vcpu.toNat cpu answer = .error fault →
      migrate.pinVcpuTo (fun call => if call.domain = none then -1 else answer) domain vcpu
        [UInt32.ofNat cpu] = .error fault := by
  have len : migrate.cpumapsLen.toNat = cpuNumber / 8 + 1 := by
    rw [migrate.len_eq, number, Int.tdiv_eq_ediv_of_nonneg (by omega)]
    omega
  have target : (UInt32.ofNat cpu).toNat = cpu := UInt32.toNat_ofNat_of_lt' small
  unfold Nuiod.pinVcpuTo
  constructor
  · intro ret call called
    split at called
    · rename_i inside
      cases called
      have inRow : ∀ node ∈ [UInt32.ofNat cpu], node.toNat / 8 < migrate.cpumapsLen.toNat := by
        rwa [List.forall_mem_singleton, target, len]
      obtain ⟨mask, translated, bits⟩ := translate_spec inRow
      refine ⟨⟨domain, vcpu, mask.toList, migrate.cpumapsLen⟩, { migrate with cpumaps := mask },
        ?_, rfl, rfl, fun c => ?_⟩
      · unfold pinVcpuTo
        rw [translated]
        cases domain <;> rfl
      · simp only [bits, List.mem_singleton, exists_eq_left, target]
        exact eq_comm
    · cases called
  · intro fault faults
    split at faults
    · cases faults
    · rename_i outside
      cases faults
      have index : (UInt32.ofNat cpu / 8).toNat = cpu / 8 := by
        rw [UInt32.toNat_div, target]
        rfl
      unfold pinVcpuTo translate setCpu
      rw [List.foldlM_cons]
      simp only [index, len]
      rw [dif_neg outside]
      rfl

end ThreadMigrate

end VNams
