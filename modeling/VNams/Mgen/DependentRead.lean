import Mathlib.Data.Rat.Floor
import Mathlib.Tactic.Ring
import VNams.Lib.Loop
import VNams.Lib.Wrapping
import VNams.Mgen.Buffer
import VNams.Rounded

/-!
The latency that `dependent_read` measures.

The loop reads the buffer `READ_NUM` times a lap until `run_cyc` cycles have passed, and
divides the time by the number of reads. It also reports the latency of every second; a
report takes a time stamp of its own and starts new counters, but the result does not depend
on it (`Reader.After`). The average is over whole laps, so it lies between the averages of
the fastest and of the slowest lap, also when the time stamp counter wraps
(`dependent_read_measures`).
-/

namespace VNams.Mgen

open Lib

/-- The conversion of a `double` to `uint64_t`. -/
class Truncates (D : Type) where
  toUInt64 : D → UInt64

instance : Truncates ℚ := ⟨fun x => UInt64.ofNat ⌊x⌋.toNat⟩

/-- Numbers whose conversion drops what is behind the point. -/
class Truncating (D : Type) extends Rounded D, Truncates D where
  toNat_toUInt64 : ∀ x : D, 0 ≤ val x → val x < 2 ^ 64 → (toUInt64 x).toNat = ⌊val x⌋₊

theorem toNat_ofNat_floor {q : ℚ} (nonneg : 0 ≤ q) (fits : q < 2 ^ 64) :
    (UInt64.ofNat ⌊q⌋₊).toNat = ⌊q⌋₊ := by
  apply UInt64.toNat_ofNat_of_lt'
  rw [Nat.floor_lt nonneg]
  exact_mod_cast fits

instance : Truncating ℚ where
  toNat_toUInt64 _ := toNat_ofNat_floor

instance : Truncating Binary64 where
  toUInt64 x := UInt64.ofNat ⌊x.val⌋₊
  toNat_toUInt64 _ := toNat_ofNat_floor

/-- `NS_SEC` -/
def nsSec : Int := 1000000000

/-- What `calibrate` finds: `s_nsofclk`, `s_clkofns` and `s_clkofsec`. -/
structure Timing (D : Type) where
  nsofclk : D
  clkofns : D
  clkofsec : UInt64

/-- What the machine answers to `dependent_read`. -/
structure ReadEnv where
  /-- whether `processor_bind` succeeds -/
  bound : Bool
  /-- the first time stamp -/
  start : UInt64
  /-- the time stamps after the calls of `buf_read` -/
  lap : Nat → UInt64
  /-- the time stamp of a report, by the laps made before it -/
  report : Nat → UInt64

/-- The locals of `dependent_read`, the laps made so far, and `s_latest_avglat`. -/
structure Reader (D : Type) where
  totalCount : UInt64
  durCount : UInt64
  endTsc : UInt64
  prevTsc : UInt64
  laps : Nat
  latestAvglat : D

section Double

variable {D : Type} [Double D]

/-- `((double)cyc * s_nsofclk) / (double)count` -/
def averageLatency (t : Timing D) (cyc count : UInt64) : D :=
  Double.ofInt cyc.toNat * t.nsofclk / Double.ofInt count.toNat

/-- `run_cyc` -/
def runCyc [Truncates D] (t : Timing D) (measSec : Int) : UInt64 :=
  UInt64.ofInt measSec * Truncates.toUInt64 (Double.ofInt nsSec * t.clkofns)

/-- The first part of the loop body: once a second has passed it is reported, and another
one begins. -/
def Reader.report (t : Timing D) (env : ReadEnv) (s : Reader D) : Reader D :=
  if t.clkofsec ≤ s.endTsc - s.prevTsc then
    { s with prevTsc := env.report s.laps, durCount := 0 }
  else s

/-- The part after the exit of the loop body. -/
def Reader.lap (t : Timing D) (env : ReadEnv) (mem : IntMap) (buf : Int) (s : Reader D) :
    Except Fault (Reader D) := do
  let latest := if 0 < s.totalCount then averageLatency t (s.endTsc - env.start) s.totalCount
    else s.latestAvglat
  let _ ← bufRead mem buf readNum
  .ok { s with
    latestAvglat := latest
    durCount := s.durCount + UInt64.ofNat readNum
    totalCount := s.totalCount + UInt64.ofNat readNum
    endTsc := env.lap s.laps
    laps := s.laps + 1 }

/-- From one exit test of the loop to the next. -/
def Reader.turn (t : Timing D) (env : ReadEnv) (mem : IntMap) (buf : Int) (s : Reader D) :
    Except Fault (Reader D) := do
  let s ← s.lap t env mem buf
  .ok (s.report t env)

/-- The loop goes on. -/
def Reader.running [Truncates D] (t : Timing D) (env : ReadEnv) (measSec : Int) (s : Reader D) :
    Bool :=
  s.endTsc - env.start < runCyc t measSec

/-- What is returned, and `s_latest_avglat` as it is left. -/
def Reader.result (t : Timing D) (env : ReadEnv) (s : Reader D) : D × D :=
  (if 0 < s.totalCount then averageLatency t (s.endTsc - env.start) s.totalCount
    else Double.ofInt 0, s.latestAvglat)

/-- `dependent_read` on a buffer, for so many turns at most. -/
def dependentRead [Truncates D] (t : Timing D) (env : ReadEnv) (mem : IntMap) (buf : Int)
    (measSec : Int) (latestAvglat : D) (fuel : Nat) : Option (Except Fault (D × D)) :=
  if env.bound then
    let s : Reader D := ⟨0, 0, env.start, env.start, 0, latestAvglat⟩
    (whileFuel (Reader.running t env measSec) (Reader.turn t env mem buf) fuel
      (s.report t env)).map fun r => r.map (Reader.result t env)
  else some (.ok (Double.ofInt (-1), latestAvglat))

/-! ### Laps -/

/-- The time stamp after so many laps. -/
def stamp (env : ReadEnv) : Nat → UInt64
  | 0 => env.start
  | k + 1 => env.lap k

/-- The cycles of so many laps. -/
def elapsed (env : ReadEnv) (k : Nat) : UInt64 := stamp env k - env.start

/-- The average over so many laps, if any read was counted. -/
def averageOver? (t : Timing D) (env : ReadEnv) (k : Nat) : Option D :=
  if 0 < UInt64.ofNat (k * readNum) then
    some (averageLatency t (elapsed env k) (UInt64.ofNat (k * readNum)))
  else none

/-- `s_latest_avglat` after so many laps: it does not know the last of them. -/
def latestAfter (t : Timing D) (env : ReadEnv) (latestAvglat : D) : Nat → D
  | 0 => latestAvglat
  | k + 1 => (averageOver? t env k).getD (latestAfter t env latestAvglat k)

variable {t : Timing D} {env : ReadEnv} {mem : IntMap} {buf measSec : Int} {k : Nat}
  {s s' : Reader D} {latestAvglat : D}

/-- The reader after so many laps. What the reports work on is left open. -/
structure Reader.After (t : Timing D) (env : ReadEnv) (latestAvglat : D) (k : Nat)
    (s : Reader D) : Prop where
  totalCount : s.totalCount = UInt64.ofNat (k * readNum)
  endTsc : s.endTsc = stamp env k
  laps : s.laps = k
  latestAvglat : s.latestAvglat = latestAfter t env latestAvglat k

/-- A report changes nothing else. -/
theorem Reader.After.report (after : s.After t env latestAvglat k) :
    (s.report t env).After t env latestAvglat k := by
  unfold Reader.report
  split
  · exact ⟨after.totalCount, after.endTsc, after.laps, after.latestAvglat⟩
  · exact after

theorem Reader.After.lap (after : s.After t env latestAvglat k)
    (reads : ∃ p, bufRead mem buf readNum = .ok p) :
    ∃ s', s.lap t env mem buf = .ok s' ∧ s'.After t env latestAvglat (k + 1) := by
  obtain ⟨p, read⟩ := reads
  simp only [Reader.lap, read, bind, Except.bind]
  refine ⟨_, rfl, ?_, ?_, ?_, ?_⟩
  · rw [after.totalCount, Nat.succ_mul, UInt64.ofNat_add]
  · rw [after.laps]
    rfl
  · rw [after.laps]
  · rw [after.totalCount, after.endTsc, after.latestAvglat, latestAfter, averageOver?]
    split
    · rfl
    · rfl

theorem Reader.After.turn (after : s.After t env latestAvglat k)
    (reads : ∃ p, bufRead mem buf readNum = .ok p) :
    ∃ s', s.turn t env mem buf = .ok s' ∧ s'.After t env latestAvglat (k + 1) := by
  obtain ⟨s', read, after'⟩ := after.lap reads
  refine ⟨_, ?_, after'.report⟩
  simp only [Reader.turn, read, bind, Except.bind]

theorem Reader.After.running_iff [Truncates D] (after : s.After t env latestAvglat k) :
    s.running t env measSec = true ↔ elapsed env k < runCyc t measSec := by
  rw [Reader.running, decide_eq_true_eq, after.endTsc]
  rfl

/-- The loop makes the laps that it takes to reach `run_cyc`. -/
theorem Reader.After.loop [Truncates D] (reads : ∃ p, bufRead mem buf readNum = .ok p)
    {last : Nat} (reached : ¬ elapsed env last < runCyc t measSec) :
    ∀ {k fuel : Nat} {s : Reader D}, s.After t env latestAvglat k → k ≤ last → last ≤ k + fuel →
      (∀ i, k ≤ i → i < last → elapsed env i < runCyc t measSec) →
      ∃ s', whileFuel (Reader.running t env measSec) (Reader.turn t env mem buf) fuel s
        = some (.ok s') ∧ s'.After t env latestAvglat last := by
  intro k fuel
  induction fuel generalizing k with
  | zero =>
      intro s after le bound _
      obtain rfl : k = last := Nat.le_antisymm le bound
      exact ⟨s, whileFuel_exit (Bool.eq_false_iff.mpr fun enter =>
        reached (after.running_iff.mp enter)) 0, after⟩
  | succ fuel ih =>
      intro s after le bound below
      rcases Nat.eq_or_lt_of_le le with rfl | lt
      · exact ⟨s, whileFuel_exit (Bool.eq_false_iff.mpr fun enter =>
          reached (after.running_iff.mp enter)) _, after⟩
      · obtain ⟨s', stepped, after'⟩ := after.turn reads
        obtain ⟨final, looped, end_⟩ := ih after' lt (by omega)
          fun i le' lt' => below i (Nat.le_of_succ_le le') lt'
        refine ⟨final, ?_, end_⟩
        rw [whileFuel_step (after.running_iff.mpr (below k (Nat.le_refl k) lt)) stepped]
        exact looped

/-- The result is the average over the laps that it takes to reach `run_cyc`, whatever the
reports read. -/
theorem dependentRead_eq [Truncates D] (reads : ∃ p, bufRead mem buf readNum = .ok p)
    (bound : env.bound = true) {last fuel : Nat} (enough : last ≤ fuel)
    (reached : ¬ elapsed env last < runCyc t measSec)
    (below : ∀ i < last, elapsed env i < runCyc t measSec) (latestAvglat : D) :
    dependentRead t env mem buf measSec latestAvglat fuel =
      some (.ok ((averageOver? t env last).getD (Double.ofInt 0),
        latestAfter t env latestAvglat last)) := by
  have start : Reader.After t env latestAvglat 0
      (⟨0, 0, env.start, env.start, 0, latestAvglat⟩ : Reader D) :=
    ⟨by rw [Nat.zero_mul]; rfl, rfl, rfl, rfl⟩
  obtain ⟨s', looped, after⟩ := start.report.loop reads reached (Nat.zero_le last)
    (show last ≤ 0 + fuel by omega) fun i _ lt => below i lt
  simp only [dependentRead, bound, if_true, looped, Option.map_some, Except.map, Reader.result,
    after.totalCount, after.endTsc, after.latestAvglat, averageOver?]
  split
  · rfl
  · rfl

end Double

/-! ### The latency -/

/-- A clock that the time stamps show modulo 2⁶⁴, and that advances by `a` to `b` cycles a
lap. -/
structure Clock (env : ReadEnv) (a b : Nat) where
  cycles : Nat → Nat
  stamps : ∀ k, Represents (stamp env k) (cycles k)
  slow : ∀ k, cycles k + a ≤ cycles (k + 1)
  fast : ∀ k, cycles (k + 1) ≤ cycles k + b

namespace Clock

variable {env : ReadEnv} {a b : Nat}

theorem le_add (clock : Clock env a b) (k : Nat) :
    clock.cycles 0 + k * a ≤ clock.cycles k ∧ clock.cycles k ≤ clock.cycles 0 + k * b := by
  induction k with
  | zero => simp
  | succ k ih =>
      have slow := clock.slow k
      have fast := clock.fast k
      rw [Nat.succ_mul, Nat.succ_mul]
      omega

/-- The difference of two time stamps is the time between them, a wrap included. -/
theorem toNat_elapsed (clock : Clock env a b) {k : Nat}
    (window : clock.cycles k < clock.cycles 0 + 2 ^ 64) :
    (elapsed env k).toNat = clock.cycles k - clock.cycles 0 := by
  have order := (clock.le_add k).1
  have shown := ((clock.stamps k).sub (clock.stamps 0)).toNat_eq
  rw [Int.emod_eq_of_lt (by omega) (by omega)] at shown
  have isElapsed : elapsed env k = stamp env k - stamp env 0 := rfl
  rw [isElapsed]
  omega

/-- The first lap after which so many cycles have passed. -/
theorem exists_last (clock : Clock env a b) (pos : 0 < a) (run : Nat) :
    ∃ last ≤ run, run ≤ clock.cycles last - clock.cycles 0 ∧
      (∀ i < last, clock.cycles i - clock.cycles 0 < run) ∧
      (last ≠ 0 → clock.cycles last - clock.cycles 0 < run + b) := by
  have passes : ∃ k, run ≤ clock.cycles k - clock.cycles 0 := by
    have bound := (clock.le_add run).1
    have many := Nat.le_mul_of_pos_right run pos
    exact ⟨run, by omega⟩
  have first := Nat.find_spec passes
  have below : ∀ i < Nat.find passes, clock.cycles i - clock.cycles 0 < run :=
    fun i lt => Nat.lt_of_not_le (Nat.find_min passes lt)
  refine ⟨Nat.find passes, ?_, first, below, fun some' => ?_⟩
  · refine Nat.find_min' passes ?_
    have bound := (clock.le_add run).1
    have many := Nat.le_mul_of_pos_right run pos
    omega
  · obtain ⟨k, isNext⟩ := Nat.exists_eq_succ_of_ne_zero some'
    have before := below k (by omega)
    have fast := clock.fast k
    rw [isNext]
    show clock.cycles (k + 1) - _ < _
    omega

end Clock

/-- An average over laps that take from `lo` to `hi` each. -/
theorem average_between {d ns reads laps lo hi : ℚ} (nonneg : 0 ≤ ns) (someReads : 0 < reads)
    (someLaps : 0 < laps) (slow : laps * lo ≤ d) (fast : d ≤ laps * hi) :
    lo * ns / reads ≤ d * ns / (laps * reads) ∧ d * ns / (laps * reads) ≤ hi * ns / reads := by
  have scale : 0 ≤ ns / reads := div_nonneg nonneg someReads.le
  have split : d * ns / (laps * reads) = d / laps * (ns / reads) := by
    rw [mul_div_mul_comm]
  rw [split, mul_div_assoc, mul_div_assoc]
  constructor
  · refine mul_le_mul_of_nonneg_right ?_ scale
    rwa [le_div_iff₀' someLaps]
  · refine mul_le_mul_of_nonneg_right ?_ scale
    rwa [div_le_iff₀' someLaps]

/-- The laps that a measurement makes: the first ones that reach `run` cycles. -/
structure Laps {env : ReadEnv} {a b : Nat} (clock : Clock env a b) (run last : Nat) : Prop where
  some : last ≠ 0
  reached : run ≤ clock.cycles last - clock.cycles 0
  below : ∀ i < last, clock.cycles i - clock.cycles 0 < run
  near : clock.cycles last - clock.cycles 0 < run + b

/-- A counter that goes on comes to every number of cycles. -/
theorem Clock.exists_laps {env : ReadEnv} {a b : Nat} (clock : Clock env a b) (pos : 0 < a)
    {run : Nat} (some : 0 < run) : ∃ last ≤ run, Laps clock run last := by
  obtain ⟨last, few, reached, below, short⟩ := clock.exists_last pos run
  have someLaps : last ≠ 0 := by
    rintro rfl
    omega
  exact ⟨last, few, someLaps, reached, below, short someLaps⟩

/-- The measurement on a buffer that can be read: the cycles of the laps that reach `run_cyc`,
in nanoseconds, by their reads. -/
theorem dependentRead_laps {D : Type} [Double D] [Truncates D] {mem : IntMap} {buf : Int}
    (reads : ∃ p, bufRead mem buf readNum = .ok p) (t : Timing D) (env : ReadEnv) (measSec : Int)
    {a b : Nat} (clock : Clock env a b) (pos : 0 < a) (run : 0 < runCyc t measSec)
    (room : (runCyc t measSec).toNat + b ≤ 2 ^ 64)
    (count : (runCyc t measSec).toNat * readNum < 2 ^ 64) (bound : env.bound = true) :
    ∃ last, Laps clock (runCyc t measSec).toNat last ∧
      ∀ latestAvglat fuel, last ≤ fuel → dependentRead t env mem buf measSec latestAvglat fuel =
        some (.ok (Double.ofInt (clock.cycles last - clock.cycles 0 : Nat) * t.nsofclk
          / Double.ofInt (last * readNum : Nat), latestAfter t env latestAvglat last)) := by
  obtain ⟨last, few, laps⟩ := clock.exists_laps pos (UInt64.lt_iff_toNat_lt.mp run)
  have near := laps.near
  have shown : (elapsed env last).toNat = clock.cycles last - clock.cycles 0 :=
    clock.toNat_elapsed (by omega)
  have counted : (UInt64.ofNat (last * readNum)).toNat = last * readNum := by
    refine UInt64.toNat_ofNat_of_lt' (lt_of_le_of_lt ?_ count)
    exact Nat.mul_le_mul_right _ few
  have average : averageOver? t env last = some
      (Double.ofInt (clock.cycles last - clock.cycles 0 : Nat) * t.nsofclk
        / Double.ofInt (last * readNum : Nat)) := by
    have laps : 0 < last * readNum := Nat.mul_pos (Nat.pos_of_ne_zero laps.some) (by decide)
    have someReads : 0 < UInt64.ofNat (last * readNum) := by
      rw [UInt64.lt_iff_toNat_lt, counted]
      exact laps
    rw [averageOver?, if_pos someReads, averageLatency, shown, counted]
  refine ⟨last, laps, fun latestAvglat fuel enough => ?_⟩
  rw [dependentRead_eq reads bound enough ?_ ?_, average, Option.getD_some]
  · rw [UInt64.lt_iff_toNat_lt, shown]
    exact not_lt.mpr laps.reached
  · intro i lt
    have soon := laps.below i lt
    rw [UInt64.lt_iff_toNat_lt, clock.toNat_elapsed (by omega)]
    exact soon

/-- The exact average lies between those of the fastest and of the slowest lap. -/
theorem Laps.average_between {env : ReadEnv} {a b run last : Nat} {clock : Clock env a b}
    (laps : Laps clock run last) {ns : ℚ} (nonneg : 0 ≤ ns) :
    a * ns / readNum ≤ (clock.cycles last - clock.cycles 0 : ℚ) * ns / (last * readNum) ∧
      (clock.cycles last - clock.cycles 0 : ℚ) * ns / (last * readNum) ≤ b * ns / readNum := by
  have order := clock.le_add last
  refine Mgen.average_between nonneg ?_ ?_ ?_ ?_
  · exact Nat.cast_pos.mpr (by decide)
  · exact Nat.cast_pos.mpr (Nat.pos_of_ne_zero laps.some)
  · rw [le_sub_iff_add_le']
    exact_mod_cast order.1
  · rw [sub_le_iff_le_add']
    exact_mod_cast order.2

/-- What is returned is the exact average, up to the roundings of its two products, of the cycles
and of the reads. -/
theorem Laps.apart_average {D : Type} [Rounded D] {env : ReadEnv} {a b run last : Nat}
    {clock : Clock env a b} (laps : Laps clock run last) {t : Timing D}
    (nonneg : 0 ≤ Rounded.val t.nsofclk) :
    Apart 53 4 ((clock.cycles last - clock.cycles 0 : ℚ) * Rounded.val t.nsofclk
      / (last * readNum))
      (Rounded.val (Double.ofInt (clock.cycles last - clock.cycles 0 : Nat) * t.nsofclk
        / Double.ofInt (last * readNum : Nat))) := by
  have order := (clock.le_add last).1
  have some' : 0 < last * readNum := Nat.mul_pos (Nat.pos_of_ne_zero laps.some) (by decide)
  have exact : (clock.cycles last - clock.cycles 0 : ℚ) = (clock.cycles last - clock.cycles 0 : Nat) :=
    (Nat.cast_sub (Nat.le_of_add_right_le order)).symm
  obtain ⟨time, whole⟩ := Rounded.apart_mul (Rounded.val_ofNat_nonneg _) nonneg
    (Rounded.apart_ofNat (D := D) (clock.cycles last - clock.cycles 0))
  rw [exact, ← Nat.cast_mul]
  exact Rounded.apart_div (mul_nonneg (Nat.cast_nonneg _) nonneg) whole (Nat.cast_pos.mpr some')
    (Rounded.val_ofNat_pos some') time (Rounded.apart_ofNat _)

/-- A buffer that `buf_init` made can be read. -/
theorem bufRead_bufInit {n : Nat} [NeZero n] {draws rest : List Nat} {buf : Int} {size : Nat}
    {mem : IntMap} (made : bufInit n draws buf size = some (mem, rest))
    (block : n * lineSize ≤ size) : ∃ p, bufRead mem buf readNum = .ok p := by
  obtain ⟨stops, circuit, _⟩ := bufInit_circuit made block
  obtain ⟨p, _, read⟩ := bufRead_of_circuit circuit (show 0 < readNum by decide)
  exact ⟨p, read⟩

/-- On a bound thread the latency is the time of the first laps that reach `run_cyc`, divided
by their reads. It is between the latencies of the fastest and of the slowest lap. -/
theorem dependent_read_measures {n : Nat} [NeZero n] {draws rest : List Nat} {buf : Int}
    {size : Nat} {mem : IntMap} (made : bufInit n draws buf size = some (mem, rest))
    (block : n * lineSize ≤ size) (t : Timing ℚ) (env : ReadEnv) (measSec : Int)
    (latestAvglat : ℚ) {a b : Nat} (clock : Clock env a b) (pos : 0 < a)
    (nonneg : 0 ≤ t.nsofclk) (run : 0 < runCyc t measSec)
    (room : (runCyc t measSec).toNat + b ≤ 2 ^ 64)
    (count : (runCyc t measSec).toNat * readNum < 2 ^ 64) (bound : env.bound = true) :
    ∃ (last : Nat) (v : ℚ),
      (∀ fuel, last ≤ fuel → dependentRead t env mem buf measSec latestAvglat fuel
        = some (.ok (v, latestAfter t env latestAvglat last))) ∧
      (runCyc t measSec).toNat ≤ clock.cycles last - clock.cycles 0 ∧
      (∀ i < last, clock.cycles i - clock.cycles 0 < (runCyc t measSec).toNat) ∧
      v = (clock.cycles last - clock.cycles 0 : ℚ) * t.nsofclk / (last * readNum) ∧
      a * t.nsofclk / readNum ≤ v ∧ v ≤ b * t.nsofclk / readNum := by
  obtain ⟨last, laps, measures⟩ := dependentRead_laps (bufRead_bufInit made block) t env measSec
    clock pos run room count bound
  have order := (clock.le_add last).1
  have ofNat : ∀ m : ℕ, (Double.ofInt (m : ℤ) : ℚ) = (m : ℚ) := fun m => Int.cast_natCast m
  have average : (Double.ofInt (clock.cycles last - clock.cycles 0 : Nat) * t.nsofclk
      / Double.ofInt (last * readNum : Nat) : ℚ) =
        (clock.cycles last - clock.cycles 0 : ℚ) * t.nsofclk / (last * readNum) := by
    rw [ofNat, ofNat, Nat.cast_sub (Nat.le_of_add_right_le order), Nat.cast_mul]
  rw [average] at measures
  exact ⟨last, _, measures latestAvglat, laps.reached, laps.below, rfl,
    laps.average_between nonneg⟩

/-- A time stamp counter that wraps in the first lap, at 2 GHz and 30 million cycles a lap. -/
def wrapping : ReadEnv where
  bound := true
  start := UInt64.ofNat (2 ^ 64 - 1)
  lap k := UInt64.ofNat (2 ^ 64 - 1 + (k + 1) * 30000000)
  report _ := 0

def wrapping_clock : Clock wrapping 30000000 30000000 where
  cycles k := 2 ^ 64 - 1 + k * 30000000
  stamps k := by
    have shown : stamp wrapping k = UInt64.ofNat (2 ^ 64 - 1 + k * 30000000) := by
      cases k with
      | zero => rfl
      | succ k => rfl
    rw [shown, Represents, UInt64.toNat_ofNat']
    exact_mod_cast Nat.mod_modEq _ _
  slow k := by
    rw [Nat.succ_mul, Nat.add_assoc]
  fast k := by
    rw [Nat.succ_mul, Nat.add_assoc]

/-- One second of it. -/
theorem dependent_read_measures_wrapping : ∃ (mem : IntMap) (last : Nat) (v : ℚ),
    (∀ fuel, last ≤ fuel → dependentRead ⟨1 / 2, 2, 2000000000⟩ wrapping mem 4096 1 0 fuel
      = some (.ok (v, latestAfter ⟨1 / 2, 2, 2000000000⟩ wrapping 0 last))) ∧
    (30000000 : ℚ) * (1 / 2) / readNum ≤ v ∧ v ≤ (30000000 : ℚ) * (1 / 2) / readNum := by
  have some' : (bufInit 4 [2, 4, 6, 3, 1, 5] 4096 520).isSome = true := by decide +kernel
  obtain ⟨⟨mem, rest⟩, made⟩ := Option.isSome_iff_exists.mp some'
  have isRun : runCyc (⟨1 / 2, 2, 2000000000⟩ : Timing ℚ) 1 = 2000000000 := by decide +kernel
  obtain ⟨last, v, run, _, _, _, low, high⟩ := dependent_read_measures made (by decide)
    ⟨1 / 2, 2, 2000000000⟩ wrapping 1 0 wrapping_clock (by decide) (by decide +kernel)
    (by rw [isRun]; decide) (by rw [isRun]; decide) (by rw [isRun]; decide) rfl
  exact ⟨mem, last, v, run, by exact_mod_cast low, by exact_mod_cast high⟩

end VNams.Mgen
