import VNams.Nuiod.FailedStart
import VNams.Nuiod.Handles

/-!
What a successful `init_vminfo` is worth.

The loop goes on after a failure and returns -1 in the end, so once every step of every
listed domain comes to an end, 0 means that none of them failed (`initLoop_spec`). Outside
the loop nothing is looked at: a listing that fails counts as no domains, a negative number
of them is an array length, and a handle or a name that is missing is read through. Inside,
a pid file without a number is no failure. `startsComplete_iff` is what remains.
-/

namespace VNams.Nuiod

open Lib Lib.CText Monitor

variable {D : Type}

/-- The steps of `set_vm_info` come to an end, failed or not. -/
structure StepsEnd (conf : DomainConf) (env : DomainEnv) : Prop where
  handle : env.handle ≠ none
  name : env.name ≠ none
  pages : ∃ r, getProcMemNumaDistribution conf.numaNumber (env.numaMaps (newPid env)) [] = .ok r
  vf : ∃ vf, vfFound conf env = .ok vf

/-- The entry of a domain with everything in it: a handle, a real CPU, the pid of its file, a
memory distribution that could be read, and a VF number. -/
structure CompleteEntry (conf : DomainConf) (env : DomainEnv) (vm : VmInfo D) : Prop where
  handle : vm.domPtr ≠ none ∧ vm.domPtr = env.handle
  cpu : vm.realCpuNo ≠ -1 ∧ env.vcpu = some vm.realCpuNo
  pid : env.pidFile.bind scanUnsigned = some vm.pid
  pages : getProcMemNumaDistribution conf.numaNumber (env.numaMaps vm.pid) []
    = .ok (0, vm.memNodeDistr)
  vf : vfFound conf env = .ok (some vm.vfNo)

/-- A libvirt call that fails while the domains are listed. -/
inductive FailedCall (listing : Listing D) : Prop where
  | numOfDomains (negative : listing.domNum < 0)
  | listDomains (failed : listing.runningDomIds = none)
  | lookup {id : Int} (mem : id ∈ listing.ids) (null : (listing.domain id).handle = none)
  | vcpus {id : Int} (mem : id ∈ listing.ids) (failed : (listing.domain id).vcpu = none)
  | name {id : Int} (mem : id ∈ listing.ids) (null : (listing.domain id).name = none)
  | xmlDesc {id : Int} (mem : id ∈ listing.ids) (null : (listing.domain id).xml = none)

/-! ### One domain -/

/-- What is known of an entry when the steps came to an end. -/
structure Entered (conf : DomainConf) (env : DomainEnv) (id : Int) (vm : VmInfo D) : Prop where
  filled : ∃ rest, Filled conf env rest id vm
  vf : ∃ vf, vfFound conf env = .ok vf ∧ vm.vfNo = vf.getD (-1)

/-- An entry is complete when nothing failed and the pid file holds a number. -/
theorem Entered.complete {conf : DomainConf} {env : DomainEnv} {id : Int} {vm : VmInfo D}
    (entered : Entered conf env id vm) (fine : ¬ StartFailure conf env) {pid : UInt32}
    (scanned : env.pidFile.bind scanUnsigned = some pid) : CompleteEntry conf env vm := by
  obtain ⟨⟨rest, filled⟩, vf, looked, stored⟩ := entered
  have pidEq : vm.pid = newPid env := filled.pid
  obtain ⟨ret, counted⟩ := filled.pages
  have reported : getVmRealCpu env.handle env.vcpu ≠ -1 := fun unread => fine (.vcpu unread)
  refine ⟨⟨filled.handle, filled.handle_eq⟩, ?_, ?_, ?_, ?_⟩
  · rw [filled.cpu]
    refine ⟨reported, ?_⟩
    unfold getVmRealCpu at reported ⊢
    split at reported
    · exact absurd rfl reported
    · cases vcpu : env.vcpu with
      | none =>
          rw [vcpu] at reported
          exact absurd rfl reported
      | some cpu => rfl
  · rw [pidEq, newPid, scanned]
    rfl
  · have succeeded : ret = 0 := by
      by_contra failed
      rw [pidEq] at counted
      exact fine (.numaMaps failed counted)
    rw [counted, succeeded]
  · cases vf with
    | none => exact absurd (.xml looked) fine
    | some vf =>
        rw [looked, stored]
        rfl

theorem setVf_of_vfFound {conf : DomainConf} {env : DomainEnv} {vf : Option Int}
    (looked : vfFound conf env = .ok vf) (vm : VmInfo D) : ∃ r, setVf conf env vm = .ok r := by
  unfold vfFound at looked
  unfold setVf
  cases described : env.xml with
  | none => exact ⟨_, rfl⟩
  | some xml =>
      rw [described] at looked
      cases vf with
      | none => exact ⟨_, bind_eq_ok.mpr ⟨none, looked, rfl⟩⟩
      | some vf => exact ⟨_, bind_eq_ok.mpr ⟨some vf, looked, rfl⟩⟩

section Double

variable [Double D]

/-- The steps that come to an end are those of an addition that does. -/
theorem addVm_ok_iff {nuiod : Nuiod D} {env : DomainEnv} {rest : Indeterminate D} {id : Int} :
    (∃ r, nuiod.addVm env rest id = .ok r) ↔ StepsEnd nuiod.toDomainConf env := by
  constructor
  · rintro ⟨r, added⟩
    obtain ⟨⟨flag, vm, mapping⟩, fills, _⟩ := bind_eq_ok.mp added
    obtain ⟨_, vf, looked, _⟩ := setVmInfo_flag fills
    obtain ⟨p, pid, distr, _, ret, handle, rfl, counted, _⟩ := setVmInfo_spec rfl fills
    obtain ⟨name, named, _⟩ := bind_eq_ok.mp fills
    refine ⟨by simp [handle], ?_, ⟨_, counted⟩, ⟨vf, looked⟩⟩
    intro missing
    unfold domName at named
    rw [missing, handle] at named
    cases named
  · rintro ⟨handle, name, ⟨⟨ret, distr⟩, counted⟩, vf, looked⟩
    obtain ⟨p, isHandle⟩ := Option.ne_none_iff_exists'.mp handle
    obtain ⟨text, isName⟩ := Option.ne_none_iff_exists'.mp name
    have named : domName env = .ok text := by
      unfold domName
      rw [isHandle, isName]
    obtain ⟨memory, read⟩ : ∃ memory,
        setMemory nuiod.toDomainConf env (identify env id (VmInfo.new rest)) = .ok memory :=
      ⟨_, bind_eq_ok.mpr ⟨(ret, distr), counted, rfl⟩⟩
    obtain ⟨r, set⟩ := setVf_of_vfFound looked memory.2
    have fills : ∃ r, setVmInfo nuiod.toDomainConf env (VmInfo.new rest) id nuiod.cpuVmMapping
        = .ok r :=
      ⟨_, bind_eq_ok.mpr ⟨text, named, bind_eq_ok.mpr ⟨memory, read, bind_eq_ok.mpr ⟨r, set, rfl⟩⟩⟩⟩
    obtain ⟨filled, fills⟩ := fills
    exact ⟨_, bind_eq_ok.mpr ⟨filled, fills, rfl⟩⟩

/-- What an addition that comes to an end does. -/
theorem addVm_entered {nuiod nuiod' : Nuiod D} {env : DomainEnv} {rest : Indeterminate D}
    {id flag : Int} (added : nuiod.addVm env rest id = .ok (flag, nuiod')) :
    (flag = -1 ↔ StartFailure nuiod.toDomainConf env) ∧
      nuiod'.toDomainConf = nuiod.toDomainConf ∧
      ∃ vm, nuiod'.vmInfosMap = nuiod.vmInfosMap.insert id vm ∧
        Entered nuiod.toDomainConf env id vm := by
  obtain ⟨vm, filled, same⟩ := addVm_spec added
  obtain ⟨⟨flag', vm', mapping⟩, fills, put⟩ := bind_eq_ok.mp added
  obtain ⟨flagIff, vf⟩ := setVmInfo_flag fills
  have flagEq : flag' = flag := by
    cases put
    rfl
  have vmEq : vm' = vm := by
    have found : nuiod'.vmInfosMap[id]? = some vm' := by
      cases put
      exact Std.TreeMap.getElem?_insert_self
    rw [same] at found
    exact (Option.some.inj (Std.TreeMap.getElem?_insert_self.symm.trans found)).symm
  subst flagEq vmEq
  refine ⟨flagIff, ?_, vm', ?_, ⟨⟨rest, filled⟩, vf⟩⟩
  · rw [same]
  · rw [same]

/-! ### The loop -/

/-- What the loop over some ids has done when it comes to its end: every step did, the flag is
-1 if one of them failed, and every id has its entry. -/
theorem initLoop_spec {listing : Listing D} {conf : DomainConf} {ids : List Int} {i : Nat}
    {acc : Int × Nuiod D} {ret : Int} {after : Nuiod D} (same : acc.2.toDomainConf = conf)
    (done : (ids.zipIdx i).foldlM (initDomain listing) acc = .ok (ret, after)) :
    (∀ id ∈ ids, StepsEnd conf (listing.domain id)) ∧
    (ret = -1 ↔ acc.1 = -1 ∨ ∃ id ∈ ids, StartFailure conf (listing.domain id)) ∧
    (ret = acc.1 ∨ ret = -1) ∧
    ∀ id, (id ∈ ids ∨ ∃ vm, acc.2.vmInfosMap[id]? = some vm ∧
        Entered conf (listing.domain id) id vm) →
      ∃ vm, after.vmInfosMap[id]? = some vm ∧ Entered conf (listing.domain id) id vm := by
  induction ids generalizing i acc with
  | nil =>
      cases done
      exact ⟨by simp, by simp, .inl rfl, fun id entered => entered.resolve_left (by simp)⟩
  | cons first ids ih =>
      rw [List.zipIdx_cons, List.foldlM_cons] at done
      obtain ⟨acc', one, later⟩ := bind_eq_ok.mp done
      obtain ⟨⟨flag, mid⟩, added, stored⟩ := bind_eq_ok.mp one
      have ended := addVm_ok_iff.mp ⟨_, added⟩
      obtain ⟨flagIff, sameConf, vm, inserted, entered⟩ := addVm_entered added
      rw [same] at ended flagIff sameConf entered
      cases stored
      obtain ⟨others, failed, flags, entries⟩ := ih sameConf later
      refine ⟨List.forall_mem_cons.mpr ⟨ended, others⟩, ?_, ?_, ?_⟩
      · rw [failed]
        simp only [List.mem_cons, exists_eq_or_imp, ← flagIff]
        split
        · rename_i isFailed
          simp [isFailed]
        · rename_i isFine
          simp [isFine]
      · by_cases isFailed : flag = -1
        · rw [if_pos isFailed] at flags
          exact .inr (flags.elim id id)
        · rw [if_neg isFailed] at flags
          exact flags
      · intro id before
        apply entries
        by_cases isFirst : id = first
        · subst isFirst
          refine .inr ⟨vm, ?_, entered⟩
          rw [inserted, Std.TreeMap.getElem?_insert_self]
        · rcases before with mem | ⟨old, found, was⟩
          · exact .inl ((List.mem_cons.mp mem).resolve_left isFirst)
          · refine .inr ⟨old, ?_, was⟩
            rw [inserted, Std.TreeMap.getElem?_insert,
              if_neg fun equal => isFirst (compare_eq_iff_eq.mp equal).symm]
            exact found

/-- The loop comes to its end when every step does. -/
theorem initLoop_ends {listing : Listing D} {conf : DomainConf} {ids : List Int}
    (ends : ∀ id ∈ ids, StepsEnd conf (listing.domain id)) (i : Nat) (acc : Int × Nuiod D)
    (same : acc.2.toDomainConf = conf) :
    ∃ r, (ids.zipIdx i).foldlM (initDomain listing) acc = .ok r := by
  induction ids generalizing i acc with
  | nil => exact ⟨acc, rfl⟩
  | cons first ids ih =>
      rw [List.forall_mem_cons] at ends
      obtain ⟨⟨flag, mid⟩, added⟩ := addVm_ok_iff.mpr (same ▸ ends.1)
      have sameConf := (addVm_entered added).2.1
      obtain ⟨r, later⟩ := ih ends.2 (i + 1) (if flag = -1 then -1 else acc.1, mid)
        (sameConf.trans same)
      refine ⟨r, ?_⟩
      rw [List.zipIdx_cons, List.foldlM_cons]
      exact bind_eq_ok.mpr ⟨_, bind_eq_ok.mpr ⟨_, added, rfl⟩, later⟩

/-- With a number of domains and a listing, `init_vminfo` is its loop. -/
theorem initVminfo_listed {nuiod : Nuiod D} {listing : Listing D} (counted : 0 ≤ listing.domNum)
    (listed : listing.runningDomIds ≠ none) : nuiod.initVminfo listing =
      (listing.ids.zipIdx 0).foldlM (initDomain listing) (0, nuiod) := by
  obtain ⟨ids, isListed⟩ := Option.ne_none_iff_exists'.mp listed
  unfold initVminfo Listing.ids
  rw [if_neg (by omega), isListed]
  rfl

/-! ### The start -/

/-- What is asked of `init_vminfo`: 0 comes with a complete entry for every listed domain, and
-1 with every call that fails. -/
structure StartsComplete (nuiod : Nuiod D) (listing : Listing D) : Prop where
  complete : ∀ after, nuiod.initVminfo listing = .ok (0, after) → ∀ id ∈ listing.ids,
    ∃ vm, after.vmInfosMap[id]? = some vm ∧
      CompleteEntry nuiod.toDomainConf (listing.domain id) vm
  reported : FailedCall listing → ∃ after, nuiod.initVminfo listing = .ok (-1, after)

/-- When it is so: the two listing calls succeed, the handle and the name of every listed
domain are there, no step faults when a call failed, and if no step failed every pid file
holds a number. -/
structure SoundListing (conf : DomainConf) (listing : Listing D) : Prop where
  counted : 0 ≤ listing.domNum
  listed : listing.runningDomIds ≠ none
  known : ∀ id ∈ listing.ids,
    (listing.domain id).handle ≠ none ∧ (listing.domain id).name ≠ none
  ends : (∃ id ∈ listing.ids, (listing.domain id).vcpu = none ∨ (listing.domain id).xml = none) →
    ∀ id ∈ listing.ids, StepsEnd conf (listing.domain id)
  pids : (∀ id ∈ listing.ids, StepsEnd conf (listing.domain id) ∧
      ¬ StartFailure conf (listing.domain id)) →
    ∀ id ∈ listing.ids, (listing.domain id).pidFile.bind scanUnsigned ≠ none

/-- 0 is returned exactly when every step ended and none failed. -/
theorem initVminfo_zero_iff {nuiod : Nuiod D} {listing : Listing D} (counted : 0 ≤ listing.domNum)
    (listed : listing.runningDomIds ≠ none) :
    (∃ after, nuiod.initVminfo listing = .ok (0, after)) ↔
      ∀ id ∈ listing.ids, StepsEnd nuiod.toDomainConf (listing.domain id) ∧
        ¬ StartFailure nuiod.toDomainConf (listing.domain id) := by
  rw [initVminfo_listed counted listed]
  constructor
  · rintro ⟨after, done⟩ id mem
    obtain ⟨ends, failed, _⟩ := initLoop_spec rfl done
    refine ⟨ends id mem, ?_⟩
    intro failure
    have minus := failed.mpr (.inr ⟨id, mem, failure⟩)
    cases minus
  · intro fine
    obtain ⟨⟨ret, after⟩, done⟩ :=
      initLoop_ends (fun id mem => (fine id mem).1) 0 (0, nuiod) rfl
    obtain ⟨_, failed, flags, _⟩ := initLoop_spec rfl done
    rcases flags with zero | minus
    · exact ⟨after, by rw [done, zero]⟩
    · rcases failed.mp minus with started | ⟨id, mem, failure⟩
      · cases started
      · exact absurd failure (fine id mem).2

/-- A failed query of a listed domain makes `init_vminfo` return -1 if the steps end. -/
theorem initVminfo_failed {nuiod : Nuiod D} {listing : Listing D} (counted : 0 ≤ listing.domNum)
    (listed : listing.runningDomIds ≠ none)
    (ends : ∀ id ∈ listing.ids, StepsEnd nuiod.toDomainConf (listing.domain id)) {id : Int}
    (mem : id ∈ listing.ids) (failure : StartFailure nuiod.toDomainConf (listing.domain id)) :
    ∃ after, nuiod.initVminfo listing = .ok (-1, after) := by
  obtain ⟨⟨ret, after⟩, done⟩ := initLoop_ends ends 0 (0, nuiod) rfl
  obtain ⟨_, failed, _⟩ := initLoop_spec rfl done
  refine ⟨after, ?_⟩
  rw [initVminfo_listed counted listed, done, failed.mpr (.inr ⟨id, mem, failure⟩)]

/-- `init_vminfo` succeeds only with a complete table, and fails with every call, exactly when
the listing is sound. -/
theorem startsComplete_iff (nuiod : Nuiod D) (listing : Listing D) :
    StartsComplete nuiod listing ↔ SoundListing nuiod.toDomainConf listing := by
  constructor
  · intro starts
    have counted : 0 ≤ listing.domNum := by
      by_contra negative
      obtain ⟨after, done⟩ := starts.reported (.numOfDomains (by omega))
      unfold initVminfo at done
      rw [if_pos (by omega)] at done
      cases done
    have listed : listing.runningDomIds ≠ none := by
      intro failed
      obtain ⟨after, done⟩ := starts.reported (.listDomains failed)
      unfold initVminfo at done
      rw [if_neg (by omega), failed] at done
      cases done
    -- a failed call that is reported is one after which every step ended
    have ends : FailedCall listing →
        ∀ id ∈ listing.ids, StepsEnd nuiod.toDomainConf (listing.domain id) := by
      intro failed
      obtain ⟨after, done⟩ := starts.reported failed
      rw [initVminfo_listed counted listed] at done
      exact (initLoop_spec rfl done).1
    refine ⟨counted, listed, ?_, ?_, ?_⟩
    · intro id mem
      exact ⟨fun null => (ends (.lookup mem null) id mem).handle null,
        fun null => (ends (.name mem null) id mem).name null⟩
    · rintro ⟨id, mem, failed | null⟩
      · exact ends (.vcpus mem failed)
      · exact ends (.xmlDesc mem null)
    · intro fine id mem
      obtain ⟨after, done⟩ := (initVminfo_zero_iff counted listed).mpr fine
      obtain ⟨vm, _, complete⟩ := starts.complete after done id mem
      rw [complete.pid]
      simp
  · intro sound
    constructor
    · intro after done id mem
      have fine := (initVminfo_zero_iff sound.counted sound.listed).mp ⟨after, done⟩
      obtain ⟨pid, scanned⟩ := Option.ne_none_iff_exists'.mp (sound.pids fine id mem)
      rw [initVminfo_listed sound.counted sound.listed] at done
      obtain ⟨_, _, _, entries⟩ := initLoop_spec rfl done
      obtain ⟨vm, found, entered⟩ := entries id (.inl mem)
      exact ⟨vm, found, entered.complete (fine id mem).2 scanned⟩
    · intro failed
      cases failed with
      | numOfDomains negative => exact absurd sound.counted (by omega)
      | listDomains failed => exact absurd failed sound.listed
      | lookup mem null => exact absurd null (sound.known _ mem).1
      | name mem null => exact absurd null (sound.known _ mem).2
      | vcpus mem failed =>
          apply initVminfo_failed sound.counted sound.listed (sound.ends ⟨_, mem, .inl failed⟩) mem
          apply StartFailure.vcpu
          unfold getVmRealCpu
          rw [failed]
          split <;> rfl
      | xmlDesc mem null =>
          apply initVminfo_failed sound.counted sound.listed (sound.ends ⟨_, mem, .inr null⟩) mem
          apply StartFailure.xml
          unfold vfFound
          rw [null]

end Double

/-- `virConnectListDomains` fails: no domain is in the table and 0 is returned. -/
theorem failed_listing_succeeds :
    ¬ StartsComplete smallNuiod { (smallMachine [(1, 2)]).listing with runningDomIds := none } := by
  intro starts
  obtain ⟨after, done⟩ := starts.reported (.listDomains rfl)
  cases done

end VNams.Nuiod
