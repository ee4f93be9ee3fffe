import VNams.Mgen.Session
import VNams.Nuiod.Latency

/-!
Where the measured latencies come from.

`cal_and_create_numa_lat` measures one cell after the other with `get_numa_latency`, which
keeps its state in static variables, while a `Measurement` is a value of its own for each cell.
On a machine on which the calls come to an end both are the same: a cell has the average of its
own reads (`AverageOf`), or -1, and no state goes from one measurement to the next
(`cal_numa_lat_measures`).
-/

namespace VNams.Nuiod

open Lib CText Mgen

/-! ### Loops over a state -/

section Yields

universe u

variable {σ ε α β : Type u}

/-- The computation gives this value, from every state. -/
def Yields (m : StateT σ (ExceptT ε Option) α) (a : α) : Prop := ∀ s, ∃ s', m s = some (.ok (a, s'))

theorem Yields.bind {m : StateT σ (ExceptT ε Option) α} {k : α → StateT σ (ExceptT ε Option) β}
    {a : α} {b : β} (first : Yields m a) (second : Yields (k a) b) : Yields (m >>= k) b := by
  intro s
  obtain ⟨mid, one⟩ := first s
  obtain ⟨s', two⟩ := second mid
  refine ⟨s', ?_⟩
  show Option.bind (m s) _ = _
  rw [one]
  exact two

/-- So a loop of such steps gives all the values. -/
theorem Yields.mapM {f : α → StateT σ (ExceptT ε Option) β} {g : α → β} {as : List α}
    (each : ∀ a ∈ as, Yields (f a) (g a)) : Yields (as.mapM f) (as.map g) := by
  induction as with
  | nil => exact fun s => ⟨s, rfl⟩
  | cons a as ih =>
      rw [List.forall_mem_cons] at each
      rw [List.mapM_cons, List.map_cons]
      exact each.1.bind ((ih each.2).bind fun s => ⟨s, rfl⟩)

end Yields

/-- What holds of each element from some amount on holds of all of them from some amount on. -/
theorem exists_enough {α : Type} {p : α → Nat → Prop} {as : List α}
    (each : ∀ a ∈ as, ∃ k, ∀ fuel, k ≤ fuel → p a fuel) :
    ∃ k, ∀ fuel, k ≤ fuel → ∀ a ∈ as, p a fuel := by
  induction as with
  | nil => exact ⟨0, fun _ _ a mem => absurd mem List.not_mem_nil⟩
  | cons a as ih =>
      rw [List.forall_mem_cons] at each
      obtain ⟨k, first⟩ := each.1
      obtain ⟨k', others⟩ := ih each.2
      refine ⟨max k k', fun fuel enough => ?_⟩
      rw [List.forall_mem_cons]
      exact ⟨first fuel (le_trans (le_max_left k k') enough),
        others fuel (le_trans (le_max_right k k') enough)⟩

/-! ### The measurements -/

section Double

variable {D : Type} [Double D] [Truncates D]

/-- The call for a cell, from what the machine answers to it. -/
def cellCall (nodeCpus : Nat → Option (List Nat)) (answers : Nat → Nat → Call) (i j : Nat) : Call :=
  { answers i j with fromNode := i, toNode := getNodeFirstCpu (nodeCpus j) }

/-- The loops of `cal_and_create_numa_lat` over the cells. -/
def calNumaLat (n : Nat) [NeZero n] (size : Nat) (number : Literal → D) (fuel numaNumber : Nat)
    (nodeCpus : Nat → Option (List Nat)) (answers : Nat → Nat → Call) :
    StateT (Session D) (ExceptT Fault Option) (List (List D)) :=
  (List.range numaNumber).mapM fun i => (List.range numaNumber).mapM fun j => fun s =>
    ExceptT.mk (Mgen.getNumaLatency n size number fuel s (cellCall nodeCpus answers i j))

/-- A call as a measurement. -/
def measurementOf (call : Call) (average : D) : Measurement D :=
  ⟨call.handlers, call.allocated.isSome, call.read.bound, average⟩

end Double

section Rounded

variable {D : Type} [Truncating D]

/-- The average of the reads of a call: of the first laps that come to a second of the counter, at
the frequency that the call finds. -/
def AverageOf (number : Literal → D) (call : Call) (v : D) : Prop :=
  ∃ (t : Timing D) (a b run last : Nat) (clock : Clock call.read a b),
    (∃ before k, calibrate number call.calibration call.tvbase before k = some t) ∧
      run ≤ t.clkofsec.toNat + 1 ∧ t.clkofsec.toNat ≤ run + 1 ∧ Laps clock run last ∧
      v = lapsAverage t clock last

/-- The call comes to an end: the buffer can be filled, a frequency of its own is found, and the
counter is one that the reads can be timed with. -/
structure Works (n : Nat) [NeZero n] (size : Nat) (number : Literal → D) (call : Call) : Prop where
  own : call.calibration.Own number
  block : n * lineSize ≤ size
  fills : ∀ buf, (bufInit n call.draws buf size).isSome
  times : ∃ (before t : Timing D) (k a b : Nat),
    calibrate number call.calibration call.tvbase before k = some t ∧ t.Credible ∧
      Nonempty (Clock call.read a b) ∧ 0 < a ∧ t.clkofsec.toNat + 1 + b ≤ 2 ^ 64 ∧
      (t.clkofsec.toNat + 1) * readNum < 2 ^ 64

variable {n : Nat} [NeZero n] {size : Nat} {number : Literal → D}

/-- A measurement whose call leaves early. -/
theorem getNumaLatency_of_early {call : Call} (early : call.Early) (average : D) :
    getNumaLatency (measurementOf call average) call.fromNode call.toNode = Double.ofInt (-1) := by
  unfold getNumaLatency
  rcases early with noNode | noCpu | failed
  · exact if_pos noNode
  · simp [noCpu]
  · simp [measurementOf, failed]

/-- A measurement whose call does not leave early. -/
theorem getNumaLatency_of_late {call : Call} (late : ¬ call.Early) (average : D) :
    getNumaLatency (measurementOf call average) call.fromNode call.toNode =
      if !(measurementOf call average).buffer then Double.ofInt (-1)
      else dependentRead (measurementOf call average) := by
  obtain ⟨node, cpu, handlers⟩ : call.fromNode ≠ -1 ∧ call.toNode ≠ -1 ∧ call.handlers = true := by
    simpa [Call.Early] using late
  unfold getNumaLatency
  rw [if_neg node, if_neg cpu, if_neg]
  simp [measurementOf, handlers]

/-- The first laps that come to a second make an average of the call. -/
theorem averageOf_laps {call : Call} (own : call.calibration.Own number) {t before : Timing D}
    {k : Nat} (calibrated : calibrate number call.calibration call.tvbase before k = some t)
    (credible : t.Credible) {a b last : Nat} (clock : Clock call.read a b) (pos : 0 < a)
    (laps : Laps clock (runCyc t measTimeDefault).toNat last) :
    AverageOf number call (lapsAverage t clock last) ∧
      0 < Rounded.val (lapsAverage t clock last) := by
  have consistent := calibrate_consistent own calibrated credible
  obtain ⟨most, least⟩ := consistent.runCyc_near credible
  refine ⟨⟨t, a, b, _, last, clock, ⟨before, k, calibrated⟩, most, least, laps, rfl⟩, ?_⟩
  have low := (laps.average_between consistent.nsofclk_pos.le).1
  have someReads : (0 : ℚ) < readNum := Nat.cast_pos.mpr (by decide)
  have someCycles : (0 : ℚ) < a := Nat.cast_pos.mpr pos
  have exact := lt_of_lt_of_le
    (div_pos (mul_pos someCycles consistent.nsofclk_pos) someReads) low
  exact (laps.apart_average consistent.nsofclk_pos.le).pos (by norm_num) exact

/-- A call that does not read returns -1, whatever its reads would have come to. -/
theorem getNumaLatency_unread {call : Call} (works : Works n size number call)
    (unread : call.Early ∨ call.allocated = none ∨ call.read.bound = false) (average : D) :
    ∃ k, ∀ fuel, k ≤ fuel → ∀ s, ∃ s',
      Mgen.getNumaLatency n size number fuel s call = some (.ok
        (getNumaLatency (measurementOf call average) call.fromNode call.toNode, s')) := by
  obtain ⟨before, t, k, _, _, calibrated, _⟩ := works.times
  by_cases early : call.Early
  · refine ⟨0, fun fuel _ s => ⟨s.release, ?_⟩⟩
    rw [getNumaLatency_early early, getNumaLatency_of_early early]
  cases allocated : call.allocated with
  | none =>
      refine ⟨k, fun fuel enough s => ⟨{ s with timing := t, sBuf := none }.release, ?_⟩⟩
      rw [getNumaLatency_late early, calibrate_again enough works.own calibrated s.timing,
        getNumaLatency_of_late early, measurementOf, allocated]
      rfl
  | some buf =>
      obtain ⟨⟨mem, rest⟩, made⟩ := Option.isSome_iff_exists.mp (works.fills buf)
      have bound : call.read.bound = false := by simpa [early, allocated] using unread
      have reads : ∀ (latest : D) fuel, 0 ≤ fuel →
          Mgen.dependentRead t call.read mem buf measTimeDefault latest fuel =
            some (.ok (Double.ofInt (-1), latest)) := by
        intro latest fuel _
        simp only [Mgen.dependentRead, bound, Bool.false_eq_true, if_false]
      have value : getNumaLatency (measurementOf call average) call.fromNode call.toNode =
          Double.ofInt (-1) := by
        rw [getNumaLatency_of_late early, measurementOf, allocated, bound]
        rfl
      refine ⟨max k 0, fun fuel enough s => ?_⟩
      rw [value]
      exact ⟨_, getNumaLatency_reads early allocated made calibrated works.own reads enough⟩

/-- A call that comes to an end is a measurement of its own. -/
theorem getNumaLatency_settles {call : Call} (works : Works n size number call) :
    ∃ average : D, AverageOf number call average ∧ 0 < Rounded.val average ∧
      ∃ k, ∀ fuel, k ≤ fuel → ∀ s, ∃ s',
        Mgen.getNumaLatency n size number fuel s call = some (.ok
          (getNumaLatency (measurementOf call average) call.fromNode call.toNode, s')) := by
  obtain ⟨before, t, k, a, b, calibrated, credible, ⟨clock⟩, pos, room, few⟩ := works.times
  have consistent := calibrate_consistent works.own calibrated credible
  have some' : 0 < runCyc t measTimeDefault := consistent.runCyc_pos credible
  by_cases unread : call.Early ∨ call.allocated = none ∨ call.read.bound = false
  · obtain ⟨last, _, laps⟩ := clock.exists_laps pos (UInt64.lt_iff_toNat_lt.mp some')
    obtain ⟨isAverage, positive⟩ :=
      averageOf_laps works.own calibrated credible clock pos laps
    exact ⟨_, isAverage, positive, getNumaLatency_unread works unread _⟩
  · obtain ⟨late, allocated, bound⟩ :
        ¬ call.Early ∧ call.allocated ≠ none ∧ call.read.bound = true := by
      simpa using unread
    obtain ⟨buf, allocated⟩ := Option.ne_none_iff_exists'.mp allocated
    obtain ⟨⟨mem, rest⟩, made⟩ := Option.isSome_iff_exists.mp (works.fills buf)
    have most : (runCyc t measTimeDefault).toNat ≤ t.clkofsec.toNat + 1 :=
      (consistent.runCyc_near credible).1
    obtain ⟨last, laps, reads⟩ := dependentRead_laps (bufRead_bufInit made works.block) t
      call.read measTimeDefault clock pos some' (by omega)
      (lt_of_le_of_lt (Nat.mul_le_mul_right _ most) few) bound
    obtain ⟨isAverage, positive⟩ :=
      averageOf_laps works.own calibrated credible clock pos laps
    have value : getNumaLatency (measurementOf call (lapsAverage t clock last)) call.fromNode
        call.toNode = lapsAverage t clock last := by
      rw [getNumaLatency_of_late late, measurementOf, allocated, bound]
      rfl
    refine ⟨_, isAverage, positive, max k last, fun fuel enough s => ?_⟩
    rw [value]
    exact ⟨_, getNumaLatency_reads late allocated made calibrated works.own reads enough⟩

/-- The matrix that is measured call by call, in whatever state the first one finds the static
variables, is the one of measurements that know nothing of each other: the average of a call
depends on what that call is answered, and on nothing else. -/
theorem cal_numa_lat_measures (n : Nat) [NeZero n] (size : Nat) (number : Literal → D) :
    ∃ average : Call → D,
      (∀ call, Works n size number call →
        AverageOf number call (average call) ∧ 0 < Rounded.val (average call)) ∧
      ∀ (text : DoubleText D) (numaNumber : Nat) (nodeCpus : Nat → Option (List Nat))
        (answers : Nat → Nat → Call) (env : LatencyEnv D),
        (∀ i < numaNumber, ∀ j < numaNumber, Works n size number (cellCall nodeCpus answers i j)) →
        ∃ k, ∀ fuel, k ≤ fuel → ∀ s, ∃ matrix s',
          calNumaLat n size number fuel numaNumber nodeCpus answers s = some (.ok (matrix, s')) ∧
            matrix.map (fun row => row.map some) =
              (calAndCreateNumaLat text numaNumber nodeCpus { env with
                measurement := fun i j =>
                  measurementOf (answers i j) (average (cellCall nodeCpus answers i j)) }).1 := by
  have settles : ∀ call, ∃ average : D, Works n size number call →
      (AverageOf number call average ∧ 0 < Rounded.val average) ∧
        ∃ k, ∀ fuel, k ≤ fuel → ∀ s, ∃ s',
          Mgen.getNumaLatency n size number fuel s call = some (.ok
            (getNumaLatency (measurementOf call average) call.fromNode call.toNode, s')) := by
    intro call
    by_cases works : Works n size number call
    · obtain ⟨average, isAverage, positive, settled⟩ := getNumaLatency_settles works
      exact ⟨average, fun _ => ⟨⟨isAverage, positive⟩, settled⟩⟩
    · exact ⟨Double.ofInt 0, fun does => absurd does works⟩
  choose average settles using settles
  refine ⟨average, fun call works => (settles call works).1, ?_⟩
  intro text numaNumber nodeCpus answers env works
  obtain ⟨k, ends⟩ := exists_enough fun i (row : i ∈ List.range numaNumber) =>
    exists_enough fun j (column : j ∈ List.range numaNumber) =>
      (settles _ (works i (List.mem_range.mp row) j (List.mem_range.mp column))).2
  refine ⟨k, fun fuel enough s => ?_⟩
  obtain ⟨s', done⟩ := Yields.mapM (fun i row => Yields.mapM (ends fuel enough i row)) s
  exact ⟨_, s', done, rfl⟩

end Rounded

/-- The calls of the machine with a CPU of 2.2 GHz. -/
theorem xeonCall_works (nodeCpus : Nat → Option (List Nat)) (i j : Nat) :
    Works 4 520 (strtod : Literal → Binary64)
      (cellCall nodeCpus (fun _ _ => xeonCall 0 wrapping) i j) where
  own := .inr (.inr rfl)
  block := by decide
  fills buf := by
    rw [bufInit, Option.isSome_map]
    show (randArrayInit 4 [2, 4, 6, 3, 1, 5]).isSome = true
    decide +kernel
  times := by
    have calibrated := calibrate_xeon (D := Binary64) ⟨1000, 0⟩ uncalibrated 0
    rw [xeon_hz.2] at calibrated
    exact ⟨uncalibrated, _, 0, 30000000, 30000000, calibrated, xeon_credible, ⟨wrapping_clock⟩,
      by decide, by decide, by decide⟩

/-- No latency file. -/
def unmeasured : LatencyEnv Binary64 where
  file := none
  creates := true
  measurement _ _ := ⟨true, true, true, .ofRat 1⟩
  unset _ _ := .ofRat 0

/-- The calls for two nodes with one CPU each. -/
def twoNodeCalls : Nat → Nat → Call :=
  cellCall (fun node => some [node]) fun _ _ => xeonCall 0 wrapping

theorem cal_numa_lat_measures_xeon : ∃ average : Call → Binary64,
    (∀ i j, AverageOf strtod (twoNodeCalls i j) (average (twoNodeCalls i j))) ∧
    ∃ k, ∀ fuel, k ≤ fuel → ∀ s, ∃ matrix s',
      calNumaLat 4 520 strtod fuel 2 (fun node => some [node]) (fun _ _ => xeonCall 0 wrapping) s =
        some (.ok (matrix, s')) ∧
      matrix.map (fun row => row.map some) =
        (calAndCreateNumaLat ⟨strtod, fun v => fixed 6 v.val⟩ 2 (fun node => some [node])
          { unmeasured with
            measurement := fun i j =>
              measurementOf (xeonCall 0 wrapping) (average (twoNodeCalls i j)) }).1 := by
  obtain ⟨average, each, measures⟩ := cal_numa_lat_measures (D := Binary64) 4 520 strtod
  exact ⟨average, fun i j => (each _ (xeonCall_works _ i j)).1,
    measures ⟨strtod, fun v => fixed 6 v.val⟩ 2 (fun node => some [node])
      (fun _ _ => xeonCall 0 wrapping) unmeasured fun i _ j _ => xeonCall_works _ i j⟩

end VNams.Nuiod
