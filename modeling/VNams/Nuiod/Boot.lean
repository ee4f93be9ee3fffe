import VNams.Nuiod.Effects
import VNams.Strategy.Exactness

/-!
Initialisation.

`initVminfo` adds the listed domains one by one; `initVminfo_invariant` is the induction
over them. `init_spec` says what a successful `init` has established besides.
-/

namespace VNams.Nuiod

open Lib Monitor Strategy

variable {D : Type} [Double D] {nuiod nuiod' : Nuiod D} {ret : Int}

/-- The loop of `init_vminfo` over the ids from position `i` on. -/
theorem initLoop_invariant {listing : Listing D} {inv : List Int → Nuiod D → Prop}
    (keeps : ∀ done nuiod domId flag nuiod', done ++ [domId] <+: listing.runningDomIds.getD [] →
      inv done nuiod →
      nuiod.addVm (listing.domain domId) (listing.rest done.length) domId = .ok (flag, nuiod') →
      inv (done ++ [domId]) nuiod')
    {ids seen : List Int} (whole : seen ++ ids <+: listing.runningDomIds.getD [])
    {acc : Int × Nuiod D} (start : inv seen acc.2)
    (done : (ids.zipIdx seen.length).foldlM (initDomain listing) acc = .ok (ret, nuiod')) :
    inv (seen ++ ids) nuiod' := by
  induction ids generalizing seen acc with
  | nil =>
      cases done
      rw [List.append_nil]
      exact start
  | cons domId rest ih =>
      rw [List.zipIdx_cons, List.foldlM_cons] at done
      obtain ⟨acc', one, later⟩ := bind_eq_ok.mp done
      obtain ⟨⟨flag, mid⟩, added, stored⟩ := bind_eq_ok.mp one
      cases stored
      rw [List.append_cons] at whole ⊢
      have kept := keeps seen acc.2 domId flag mid ((List.prefix_append _ rest).trans whole)
        start added
      refine ih whole (show inv _ (if flag = -1 then -1 else acc.1, mid).2 from kept) ?_
      rw [List.length_append, List.length_singleton]
      exact later

/-- What every addition keeps, holds after `init_vminfo`. -/
theorem initVminfo_invariant {listing : Listing D} (inv : List Int → Nuiod D → Prop)
    (keeps : ∀ done nuiod domId flag nuiod', done ++ [domId] <+: listing.runningDomIds.getD [] →
      inv done nuiod →
      nuiod.addVm (listing.domain domId) (listing.rest done.length) domId = .ok (flag, nuiod') →
      inv (done ++ [domId]) nuiod')
    (start : inv [] nuiod) (done : nuiod.initVminfo listing = .ok (ret, nuiod')) :
    ∃ ids, ids <+: listing.runningDomIds.getD [] ∧ inv ids nuiod' := by
  unfold initVminfo at done
  split at done
  · cases done
  · cases listed : listing.runningDomIds with
    | none =>
        rw [listed] at done
        cases done
        exact ⟨[], List.nil_prefix, start⟩
    | some all =>
        rw [listed] at done
        have whole : all.take listing.domNum.toNat <+: listing.runningDomIds.getD [] := by
          rw [listed]
          exact List.take_prefix _ _
        refine ⟨_, List.take_prefix listing.domNum.toNat all, ?_⟩
        rw [← List.nil_append (all.take _)]
        exact initLoop_invariant keeps (by simpa using whole) start done

/-- How `init` ends: it gives up after `init_vminfo`, or it has a CPU monitor, the NIC's
node and the nodes. -/
inductive Booted (nuiod : Nuiod D) (machine : Machine D) : Int → Nuiod D → Prop where
  | failed {flag : Int} {added : Nuiod D}
      (listed : nuiod.initVminfo machine.listing = .ok (flag, added)) :
      Booted nuiod machine (-1) added
  | ready {added : Nuiod D} {cpuMonitor : CpuMonitor D} {netdevNumanode : Int}
      {nodes : List (NumaNode D)}
      (listed : nuiod.initVminfo machine.listing = .ok (0, added))
      (monitoring : initCpuMonitor nuiod.cpuNumber machine.freshStats machine.procStat
        = .ok (0, cpuMonitor))
      (netdev : machine.netdevFile.bind CText.scanInt = some netdevNumanode)
      (numa : initNumaInfo nuiod.numaNumber machine = some nodes) :
      Booted nuiod machine 0 { added with
        cpuMonitor := cpuMonitor
        netdevNumanode := netdevNumanode
        numaNodes := nodes
        cpuNodeMapping := cpuNodes nodes }

theorem init_spec {machine : Machine D} (done : nuiod.init machine = .ok (ret, nuiod')) :
    Booted nuiod machine ret nuiod' := by
  obtain ⟨⟨flag, added⟩, listed, done⟩ := bind_eq_ok.mp done
  split at done
  · cases done
    exact .failed listed
  · rename_i succeeded
    obtain rfl : flag = 0 := not_not.mp succeeded
    obtain ⟨⟨monitored, cpuMonitor⟩, monitoring, done⟩ := bind_eq_ok.mp done
    split at done
    · cases done
      exact .failed listed
    · rename_i started
      obtain rfl : monitored = 0 := not_not.mp started
      split at done
      · rename_i netdevNumanode nodes netdev numa
        cases done
        exact .ready listed monitoring netdev numa
      · cases done
        exact .failed listed

/-- The maps that `init` leaves are those of `init_vminfo`. -/
theorem Booted.maps {machine : Machine D} (booted : Booted nuiod machine ret nuiod') :
    ∃ flag added, nuiod.initVminfo machine.listing = .ok (flag, added) ∧
      nuiod'.vmInfosMap = added.vmInfosMap ∧ nuiod'.cpuVmMapping = added.cpuVmMapping := by
  cases booted with
  | failed listed => exact ⟨_, _, listed, rfl, rfl⟩
  | ready listed _ _ _ => exact ⟨_, _, listed, rfl, rfl⟩

/-! ### A machine with two nodes -/

/-- A domain that libvirt and the files under `/proc` describe completely. -/
def guest (vcpu : Option Int) : DomainEnv where
  handle := some 1
  vcpu := vcpu
  name := some "guest".toList
  pidFile := some "12".toList
  numaMaps _ := some "N0=5".toList
  xml := some "<address bus='0x07' slot='0x00' function='0x4'/>".toList

/-- `/proc/stat` of four CPUs that were busy for a while and idle for as long. -/
def evenStat (jiffies : UInt64) : ProcStat :=
  some ((List.range 5).map fun cnt =>
    ⟨if cnt = 0 then none else some (cnt - 1), ⟨jiffies, 0, 0, jiffies, 0, 0, 0, 0, 0, 0⟩⟩)

/-- Two nodes of two CPUs each, the NIC on node 0; the domains run on the CPUs given. -/
def smallMachine (domains : List (Int × Int)) : Machine ℚ where
  listing := {
    domNum := domains.length
    runningDomIds := some (domains.map Prod.fst)
    domain := fun domId => guest (domains.lookup domId)
    rest := fun _ => zeroed }
  freshStats _ := ⟨⟨0, 0, 0, 0, 0, 0, 0, 0, 0, 0⟩, 0⟩
  procStat := evenStat 100
  netdevFile := some "0".toList
  nodeCpus node := some [2 * node, 2 * node + 1]
  numaLatency i j := if i = j then 10 else 20
  latencySort := UnstableSort.byRank id

/-- The daemon on that machine, before `init`. -/
def smallNuiod : Nuiod ℚ := Nuiod.new ⟨2, "0x07".toList, 0⟩ 4 {}

omit [Double D] in
/-- A run after a successful `init`, found by computing it. -/
theorem exists_run_from {σ α : Type} (start : Nuiod D → σ) (act : σ → α → Except Fault σ)
    (as : List α) (boot : Except Fault (Int × Nuiod D)) (test : σ → Bool)
    (computed : returns (fun r => r.1 == 0 && returns test (as.foldlM act (start r.2))) boot
      = true) :
    ∃ nuiod₀ s, boot = .ok (0, nuiod₀) ∧ Run act Anything (start nuiod₀) as s ∧
      test s = true := by
  obtain ⟨⟨ret, nuiod₀⟩, booted, checked⟩ := returns_iff.mp computed
  rw [Bool.and_eq_true, beq_iff_eq] at checked
  obtain ⟨rfl, later⟩ := checked
  obtain ⟨s, folded, passed⟩ := returns_iff.mp later
  exact ⟨nuiod₀, s, booted, Run.foldlM_iff.mp folded, passed⟩

omit [Double D] in
/-- A run of the daemon alone. -/
theorem exists_run {α : Type} (act : Nuiod D → α → Except Fault (Nuiod D)) (as : List α)
    (boot : Except Fault (Int × Nuiod D)) (test : Nuiod D → Bool)
    (computed : returns (fun r => r.1 == 0 && returns test (as.foldlM act r.2)) boot = true) :
    ∃ nuiod₀ nuiod, boot = .ok (0, nuiod₀) ∧ Run act Anything nuiod₀ as nuiod ∧
      test nuiod = true :=
  exists_run_from id act as boot test computed

end VNams.Nuiod
