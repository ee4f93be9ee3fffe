import Mathlib.Tactic.FieldSimp
import Mathlib.Tactic.Linarith
import VNams.Lib.Loop
import VNams.Mgen.DependentRead

/-!
How many cycles of the time stamp counter are in a second.

`calibrate_by_tsc` waits for the clock to come to a new millisecond, then for a hundred
milliseconds more, and counts the cycles between. The clock is only read to a millisecond,
but both readings are the first of theirs, so what is lost is not a millisecond but the time
between two readings (`TscClock.near_tick`). The latency of a cycle is found to that accuracy
(`calibrate_by_tsc_accurate`).
-/

namespace VNams.Mgen

open Lib

/-- `struct timeval`. -/
structure Timeval where
  sec : Int
  usec : Int

/-- `MAX_VALUE` -/
def maxValue : Int := 4294967295

/-- `MS_SEC` -/
def msSec : Int := 1000

/-- `MICROSEC` -/
def microsec : Int := 1000000

/-- `NS_MS` -/
def nsMs : UInt64 := 1000000

/-- Get the interval in milliseconds between 2 timestamps. -/
def msdiff (tva tvb : Timeval) : UInt32 :=
  let sdiff := tva.sec - tvb.sec
  let udiff := tva.usec - tvb.usec
  if sdiff < 0 then 0
  else
    let (sdiff, udiff) := if udiff < 0 then (sdiff - 1, udiff + microsec) else (sdiff, udiff)
    if sdiff < 0 then 0
    else if maxValue / msSec ≤ sdiff then UInt32.ofInt maxValue
    else UInt32.ofInt (sdiff * msSec + udiff.tdiv msSec)

/-- Get the current timestamp and convert it to milliseconds. -/
def currentMs (tvbase tvnow : Timeval) : UInt64 := (msdiff tvnow tvbase).toUInt64

/-- What the machine answers to `calibrate_by_tsc`. -/
structure TscEnv where
  /-- whether `processor_bind` succeeds -/
  bound : Bool
  /-- the time of day at each call of `current_ms` -/
  now : Nat → Timeval
  /-- the time stamp behind each of these calls -/
  tsc : Nat → UInt64

/-- The readings of `current_ms`. -/
def TscEnv.ms (env : TscEnv) (tvbase : Timeval) (i : Nat) : UInt64 := currentMs tvbase (env.now i)

/-- Measure how many TSC cycles in a second and how many nanoseconds in a TSC cycle, for so
many readings in each loop at most. -/
def calibrateByTsc {D : Type} [Double D] [Truncates D] (env : TscEnv) (tvbase : Timeval)
    (t : Timing D) (fuel : Nat) : Option (Timing D) :=
  if env.bound then do
    let start ← countWhile (fun i => env.ms tvbase i = env.ms tvbase 0) fuel 1
    let startMs := env.ms tvbase start
    let final ← countWhile (fun i => env.ms tvbase i < startMs + 100) fuel (start + 1)
    let diffMs := env.ms tvbase final - startMs
    let nsofclk := Double.ofInt (diffMs * nsMs).toNat /
      Double.ofInt (env.tsc final - env.tsc start).toNat
    some ⟨nsofclk, Double.ofInt 1 / nsofclk, Truncates.toUInt64 (Double.ofInt nsSec / nsofclk)⟩
  else some t

/-- More readings than enough change nothing. -/
theorem calibrateByTsc_mono {D : Type} [Double D] [Truncates D] {env : TscEnv} {tvbase : Timeval}
    {t t' : Timing D} {fuel fuel' : Nat} (le : fuel ≤ fuel')
    (ends : calibrateByTsc env tvbase t fuel = some t') :
    calibrateByTsc env tvbase t fuel' = some t' := by
  unfold calibrateByTsc at ends ⊢
  split at ends
  · rename_i bound
    simp only [Option.bind_eq_bind, Option.bind_eq_some_iff] at ends
    obtain ⟨start, first, final, second, made⟩ := ends
    simp only [bound, if_true, countWhile_mono le first, countWhile_mono le second,
      Option.bind_eq_bind, Option.bind_some]
    exact made
  · rename_i failed
    exact (if_neg failed).trans ends

/-! ### The milliseconds -/

/-- A time of day in microseconds. -/
def Timeval.micros (t : Timeval) : Int := t.sec * microsec + t.usec

/-- The microseconds are less than a second. -/
def Timeval.Normal (t : Timeval) : Prop := 0 ≤ t.usec ∧ t.usec < microsec

/-- The interval is rounded down, as long as the milliseconds fit. -/
theorem msdiff_eq {tva tvb : Timeval} (normal : tva.Normal) (normal' : tvb.Normal)
    (later : tvb.micros ≤ tva.micros) (soon : tva.micros - tvb.micros < 4294967 * microsec) :
    ((msdiff tva tvb).toNat : Int) = (tva.micros - tvb.micros) / 1000 := by
  obtain ⟨low, high⟩ := normal
  obtain ⟨low', high'⟩ := normal'
  have cast : ∀ v : Int, 0 ≤ v → v < 2 ^ 32 → ((UInt32.ofInt v).toNat : Int) = v := by
    intro v nonneg small
    rw [UInt32.ofInt, UInt32.toNat_ofNat', Int.emod_eq_of_lt nonneg small]
    omega
  simp only [Timeval.micros, microsec] at low high low' high' later soon ⊢
  have whole : maxValue / msSec = 4294967 := rfl
  have apart : ¬ tva.sec - tvb.sec < 0 := by omega
  simp only [msdiff, if_neg apart]
  by_cases borrow : tva.usec - tvb.usec < 0
  · have apart' : ¬ tva.sec - tvb.sec - 1 < 0 := by omega
    have few : ¬ maxValue / msSec ≤ tva.sec - tvb.sec - 1 := by
      rw [whole]
      omega
    simp only [if_pos borrow, if_neg apart', if_neg few]
    simp only [msSec, microsec]
    rw [Int.tdiv_eq_ediv_of_nonneg (by omega), cast _ (by omega) (by omega)]
    omega
  · have few : ¬ maxValue / msSec ≤ tva.sec - tvb.sec := by
      rw [whole]
      omega
    simp only [if_neg borrow, if_neg apart, if_neg few]
    simp only [msSec]
    rw [Int.tdiv_eq_ediv_of_nonneg (by omega), cast _ (by omega) (by omega)]
    omega

/-! ### A clock that is read again and again -/

/-- A clock that the busy loops read every `γ` microseconds at least, and a counter of `f`
cycles a microsecond that is read at most `δ` microseconds after it. -/
structure TscClock (env : TscEnv) (tvbase : Timeval) (γ : Int) (f δ : ℚ) where
  normal : tvbase.Normal
  normals : ∀ i, (env.now i).Normal
  started : tvbase.micros ≤ (env.now 0).micros
  forward : ∀ i, (env.now i).micros ≤ (env.now (i + 1)).micros
  often : ∀ i, (env.now (i + 1)).micros ≤ (env.now i).micros + γ
  advances : ∀ T : Int, ∃ i, T ≤ (env.now i).micros
  /-- the milliseconds do not run out on the way -/
  soon : (env.now 0).micros - tvbase.micros + 101000 + 2 * γ < 4294967 * microsec
  /-- when the counter is read -/
  time : Nat → ℚ
  behind : ∀ i, ((env.now i).micros : ℚ) ≤ time i ∧ time i ≤ (env.now i).micros + δ
  cycles : Nat → Int
  stamps : ∀ i, Represents (env.tsc i) (cycles i)
  rate : ∀ i j, (cycles j - cycles i : ℚ) = f * (time j - time i)

namespace TscClock

variable {env : TscEnv} {tvbase : Timeval} {γ : Int} {f δ : ℚ}

/-- The microseconds since `tvbase` at a reading. -/
def micros (_ : TscClock env tvbase γ f δ) (i : Nat) : Int := (env.now i).micros - tvbase.micros

variable (clock : TscClock env tvbase γ f δ)

theorem micros_mono {i j : Nat} (le : i ≤ j) : clock.micros i ≤ clock.micros j :=
  Int.sub_le_sub_right (monotone_nat_of_le_succ clock.forward le) _

theorem micros_nonneg (i : Nat) : 0 ≤ clock.micros i := by
  have mono := clock.micros_mono (Nat.zero_le i)
  have started := clock.started
  simp only [micros] at mono ⊢
  omega

/-- What is read before the milliseconds run out. -/
theorem ms_eq {i : Nat} (soon : clock.micros i < 4294967 * microsec) :
    ((env.ms tvbase i).toNat : Int) = clock.micros i / 1000 := by
  have nonneg := clock.micros_nonneg i
  simp only [micros] at nonneg soon
  rw [TscEnv.ms, currentMs, UInt32.toNat_toUInt64,
    msdiff_eq (clock.normals i) clock.normal (by omega) soon]
  rfl

/-- The first reading at or after a millisecond comes soon after the one it shows. -/
theorem near_tick {i : Nat} {m : Int} (before : clock.micros i < 1000 * m)
    (reached : m ≤ clock.micros (i + 1) / 1000) :
    clock.micros (i + 1) - 1000 * (clock.micros (i + 1) / 1000) < min γ 1000 := by
  have often := clock.often i
  simp only [micros] at before reached ⊢
  omega

/-- The first loop ends, at a new millisecond. -/
theorem exists_start : ∃ start, 1 ≤ start ∧
    clock.micros 0 / 1000 < clock.micros start / 1000 ∧
    (∀ i, 1 ≤ i → i < start → clock.micros i / 1000 = clock.micros 0 / 1000) ∧
    clock.micros start - 1000 * (clock.micros start / 1000) < min γ 1000 ∧
    clock.micros start < clock.micros 0 + 1000 + γ := by
  obtain ⟨far, reached⟩ := clock.advances (tvbase.micros + clock.micros 0 + 1000)
  have beyond : clock.micros 0 / 1000 < clock.micros far / 1000 := by
    simp only [micros] at reached ⊢
    omega
  obtain ⟨start, first, new, before⟩ :=
    exists_first (p := fun i => clock.micros 0 / 1000 < clock.micros i / 1000)
      ⟨far, Nat.one_le_iff_ne_zero.mpr (by rintro rfl; exact lt_irrefl _ beyond), beyond⟩
  have same : ∀ i, i < start → clock.micros i / 1000 = clock.micros 0 / 1000 := by
    intro i lt
    rcases Nat.eq_zero_or_pos i with rfl | pos
    · rfl
    · have notNew := before i pos lt
      have mono := clock.micros_mono (Nat.zero_le i)
      omega
  obtain ⟨last, rfl⟩ := Nat.exists_eq_succ_of_ne_zero (Nat.one_le_iff_ne_zero.mp first)
  have shown := same last (Nat.lt_succ_self last)
  have often := clock.often last
  refine ⟨last + 1, first, new, fun i _ lt => same i lt, clock.near_tick ?_ new, ?_⟩
  · show clock.micros last < 1000 * (clock.micros 0 / 1000 + 1)
    omega
  · simp only [micros] at shown ⊢
    omega

/-- The second loop ends, a hundred milliseconds later. -/
theorem exists_final (start : Nat) : ∃ final, start + 1 ≤ final ∧
    clock.micros start / 1000 + 100 ≤ clock.micros final / 1000 ∧
    (∀ i, start + 1 ≤ i → i < final → clock.micros i / 1000 < clock.micros start / 1000 + 100) ∧
    clock.micros final - 1000 * (clock.micros final / 1000) < min γ 1000 ∧
    clock.micros final < 1000 * (clock.micros start / 1000 + 100) + γ := by
  obtain ⟨far, reached⟩ := clock.advances (tvbase.micros + clock.micros start + 101000)
  have beyond : clock.micros start / 1000 + 100 ≤ clock.micros far / 1000 := by
    simp only [micros] at reached ⊢
    omega
  have later : start + 1 ≤ far := by
    by_contra early
    have mono := clock.micros_mono (show far ≤ start by omega)
    omega
  obtain ⟨final, after, reached', before⟩ :=
    exists_first (p := fun i => clock.micros start / 1000 + 100 ≤ clock.micros i / 1000)
      ⟨far, later, beyond⟩
  obtain ⟨last, rfl⟩ := Nat.exists_eq_add_of_le' (Nat.le_trans (Nat.le_add_left 1 start) after)
  have below : clock.micros last / 1000 < clock.micros start / 1000 + 100 := by
    rcases Nat.eq_or_lt_of_le (Nat.le_of_succ_le_succ after) with rfl | lt
    · omega
    · exact not_le.mp (before last lt (Nat.lt_succ_self last))
  have often := clock.often last
  have near : clock.micros last < 1000 * (clock.micros start / 1000 + 100) := by omega
  refine ⟨last + 1, after, reached', fun i le lt => not_le.mp (before i le lt),
    clock.near_tick near reached', ?_⟩
  simp only [micros] at near ⊢
  omega

/-- What the loops of `calibrate_by_tsc` count: the milliseconds between the readings at which
they end, and the time between the time stamps there. -/
theorem exists_count : ∃ start final ms : Nat, 1 ≤ start ∧ start < final ∧ 100 ≤ ms ∧
    (∀ fuel, final ≤ fuel →
      countWhile (fun i => env.ms tvbase i = env.ms tvbase 0) fuel 1 = some start ∧
      countWhile (fun i => env.ms tvbase i < env.ms tvbase start + 100) fuel (start + 1)
        = some final) ∧
    (env.ms tvbase final - env.ms tvbase start).toNat = ms ∧ ms < 4294967000 ∧
    |(clock.time final - clock.time start) - 1000 * ms| < min γ 1000 + δ ∧
    clock.time final - clock.time start < 100000 + γ + δ := by
  obtain ⟨start, first, new, same, near, early⟩ := clock.exists_start
  obtain ⟨final, after, reached, before, near', early'⟩ := clock.exists_final start
  have soon := clock.soon
  have window : clock.micros final < 4294967 * microsec := by
    simp only [micros] at early early' ⊢
    omega
  have exact : ∀ i, i ≤ final → ((env.ms tvbase i).toNat : Int) = clock.micros i / 1000 :=
    fun i le => clock.ms_eq (lt_of_le_of_lt (clock.micros_mono le) window)
  have shown := exact start (by omega)
  have shown' := exact final (le_refl final)
  have nonneg := clock.micros_nonneg start
  simp only [microsec] at window
  have sum : (env.ms tvbase start + 100).toNat = (env.ms tvbase start).toNat + 100 := by
    rw [UInt64.toNat_add, Nat.mod_eq_of_lt]
    · rfl
    · show _ + 100 < _
      omega
  have difference : (env.ms tvbase final - env.ms tvbase start).toNat =
      (env.ms tvbase final).toNat - (env.ms tvbase start).toNat :=
    UInt64.toNat_sub_of_le _ _ (UInt64.le_iff_toNat_le.mpr (by omega))
  refine ⟨start, final, _, first, after, ?_, fun fuel enough => ⟨?_, ?_⟩, rfl, ?_, ?_, ?_⟩
  · omega
  · apply countWhile_eq ?_ first (by omega)
    · intro i le lt
      rw [decide_eq_true_eq, ← UInt64.toNat_inj]
      have old := same i le lt
      have shownI := exact i (by omega)
      have shown0 := exact 0 (Nat.zero_le final)
      omega
    · rw [decide_eq_false_iff_not, ← UInt64.toNat_inj]
      have shown0 := exact 0 (Nat.zero_le final)
      omega
  · apply countWhile_eq ?_ after (by omega)
    · intro i le lt
      rw [decide_eq_true_eq, UInt64.lt_iff_toNat_lt, sum]
      have old := before i le lt
      have shownI := exact i lt.le
      omega
    · rw [decide_eq_false_iff_not, UInt64.lt_iff_toNat_lt, sum]
      omega
  · omega
  · obtain ⟨low, high⟩ := clock.behind start
    obtain ⟨low', high'⟩ := clock.behind final
    have apart : |clock.micros final - clock.micros start -
        1000 * ((env.ms tvbase final - env.ms tvbase start).toNat : Int)| < min γ 1000 := by
      rw [abs_lt]
      omega
    have rounded : |((clock.micros final - clock.micros start : Int) : ℚ) -
        1000 * ((env.ms tvbase final - env.ms tvbase start).toNat : ℚ)| < (min γ 1000 : Int) := by
      exact_mod_cast apart
    rw [abs_lt] at rounded ⊢
    simp only [micros, sub_sub_sub_cancel_right, Int.cast_sub] at rounded
    constructor
    · linarith [rounded.1]
    · linarith [rounded.2]
  · obtain ⟨low, _⟩ := clock.behind start
    obtain ⟨_, high⟩ := clock.behind final
    have apart : (env.now final).micros - (env.now start).micros < 100000 + γ := by
      simp only [micros] at early'
      omega
    have soon : ((env.now final).micros - (env.now start).micros : ℚ) < 100000 + γ := by
      exact_mod_cast apart
    linarith

end TscClock

/-- Bound to a CPU, `calibrate_by_tsc` ends, and finds how long a cycle is up to the time
between two readings of the clock in a tenth of a second. -/
theorem calibrate_by_tsc_accurate (env : TscEnv) (tvbase : Timeval) {γ : Int} {f δ : ℚ}
    (clock : TscClock env tvbase γ f δ) (pos : 0 < f) (late : δ < 99000)
    (room : f * (100000 + γ + δ) < 2 ^ 64) (bound : env.bound = true) (t : Timing ℚ) :
    ∃ (last : Nat) (t' : Timing ℚ),
      (∀ fuel, last ≤ fuel → calibrateByTsc env tvbase t fuel = some t') ∧
      0 < t'.nsofclk ∧ |1000 / f / t'.nsofclk - 1| < (min γ 1000 + δ) / 100000 ∧
      t'.clkofns = 1 / t'.nsofclk ∧
      t'.clkofsec = Truncates.toUInt64 (Double.ofInt nsSec / t'.nsofclk) := by
  obtain ⟨start, final, ms, _, _, many, ends, counted, few, near, short⟩ := clock.exists_count
  generalize span : clock.time final - clock.time start = Δ at near short
  have granularity : ((min γ 1000 : Int) : ℚ) ≤ 1000 := by
    exact_mod_cast min_le_right γ 1000
  have enough : (100 : ℚ) ≤ ms := by exact_mod_cast many
  have long : 0 < Δ := by
    rw [abs_lt] at near
    linarith
  have cycles : ((env.tsc final - env.tsc start).toNat : ℚ) = f * Δ := by
    have rate := clock.rate start final
    rw [span] at rate
    have low : 0 < clock.cycles final - clock.cycles start := by
      have positive : (0 : ℚ) < clock.cycles final - clock.cycles start := by
        rw [rate]
        positivity
      exact_mod_cast positive
    have high : clock.cycles final - clock.cycles start < 2 ^ 64 := by
      have small : (clock.cycles final - clock.cycles start : ℚ) < 2 ^ 64 := by
        rw [rate]
        exact lt_trans ((mul_lt_mul_iff_right₀ pos).mpr short) room
      exact_mod_cast small
    have shown := ((clock.stamps final).sub (clock.stamps start)).toNat_eq
    rw [Int.emod_eq_of_lt low.le high] at shown
    rw [← rate]
    exact_mod_cast shown
  have millis : ((env.ms tvbase final - env.ms tvbase start) * nsMs).toNat = ms * 1000000 := by
    rw [UInt64.toNat_mul, counted, Nat.mod_eq_of_lt]
    · rfl
    · show ms * 1000000 < _
      omega
  obtain ⟨ns, isNs⟩ : ∃ ns : ℚ, ns = ms * 1000000 / (f * Δ) := ⟨_, rfl⟩
  have positive : 0 < ns := by
    rw [isNs]
    positivity
  refine ⟨final, ⟨ns, 1 / ns, Truncates.toUInt64 (Double.ofInt nsSec / ns)⟩, fun fuel more => ?_,
    positive, ?_, rfl, rfl⟩
  · obtain ⟨first, second⟩ := ends fuel more
    have quotient : (Double.ofInt (ms * 1000000 : Nat) : ℚ) /
        Double.ofInt (env.tsc final - env.tsc start).toNat = ns := by
      rw [isNs, ← cycles]
      push_cast [Double.ofInt]
      rfl
    have one : (Double.ofInt 1 : ℚ) = 1 := Int.cast_one
    simp only [calibrateByTsc, bound, if_true, first, second, millis, Option.bind_eq_bind,
      Option.bind_some, quotient, one]
  · have ratio : 1000 / f / ns - 1 = (Δ - 1000 * ms) / (1000 * ms) := by
      rw [isNs]
      field_simp
      ring
    have counts : (0 : ℚ) < 1000 * ms := by positivity
    rw [ratio, abs_div, abs_of_pos counts]
    have nonneg : (0 : ℚ) ≤ (min γ 1000 : Int) + δ := (abs_nonneg _).trans near.le
    calc |Δ - 1000 * ms| / (1000 * ms) < ((min γ 1000 : Int) + δ) / (1000 * ms) :=
          div_lt_div_of_pos_right near counts
      _ ≤ ((min γ 1000 : Int) + δ) / 100000 :=
          div_le_div_of_nonneg_left nonneg (by norm_num) (by linarith)

/-- A clock that is read twice a millisecond, and a counter at 2 GHz that wraps at once. -/
def twiceAMs : TscEnv where
  bound := true
  now i := ⟨1000 + i / 2000, i % 2000 * 500⟩
  tsc i := UInt64.ofNat (2 ^ 64 - 1 + i * 1000000)

theorem twiceAMs_micros (i : Nat) : (twiceAMs.now i).micros = 1000000000 + i * 500 := by
  show (1000 + (i : Int) / 2000) * 1000000 + i % 2000 * 500 = _
  omega

def twiceAMs_clock : TscClock twiceAMs ⟨1000, 0⟩ 500 2000 0 where
  normal := by
    constructor
    · exact le_refl 0
    · exact Int.zero_lt_one.trans (by decide)
  normals i := by
    constructor
    · show 0 ≤ (i : Int) % 2000 * 500
      omega
    · show (i : Int) % 2000 * 500 < 1000000
      omega
  started := by
    rw [twiceAMs_micros]
    exact le_refl _
  forward i := by
    rw [twiceAMs_micros, twiceAMs_micros]
    omega
  often i := by
    rw [twiceAMs_micros, twiceAMs_micros]
    omega
  advances T := by
    refine ⟨T.toNat, ?_⟩
    rw [twiceAMs_micros]
    omega
  soon := by
    rw [twiceAMs_micros]
    show (1000000000 + (0 : Nat) * 500 : Int) - (1000 * 1000000 + 0) + 101000 + 2 * 500
      < 4294967 * 1000000
    omega
  time i := 1000000000 + i * 500
  behind i := by
    rw [twiceAMs_micros]
    push_cast
    constructor
    · exact le_refl _
    · rw [add_zero]
  cycles i := (18446744073709551615 + i * 1000000 : Nat)
  stamps i := by
    show Represents (UInt64.ofNat (2 ^ 64 - 1 + i * 1000000)) _
    rw [Represents, UInt64.toNat_ofNat']
    exact Int.natCast_modEq_iff.mpr (Nat.mod_modEq _ _)
  rate i j := by
    push_cast
    ring

theorem calibrate_by_tsc_accurate_twiceAMs : ∃ (last : Nat) (t' : Timing ℚ),
    (∀ fuel, last ≤ fuel → calibrateByTsc twiceAMs ⟨1000, 0⟩ ⟨0, 0, 0⟩ fuel = some t') ∧
    |1000 / 2000 / t'.nsofclk - 1| < 1 / 200 := by
  obtain ⟨last, t', ends, _, near, _⟩ := calibrate_by_tsc_accurate twiceAMs ⟨1000, 0⟩
    twiceAMs_clock (by norm_num) (by norm_num) (by norm_num) rfl ⟨0, 0, 0⟩
  refine ⟨last, t', ends, lt_of_lt_of_eq near ?_⟩
  norm_num

end VNams.Mgen
