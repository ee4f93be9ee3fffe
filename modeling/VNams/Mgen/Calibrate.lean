import VNams.Lib.Decimal
import VNams.Lib.Lines
import VNams.Mgen.Tsc

/-!
Where `calibrate` takes the frequency of the time stamp counter from.

The name of an Intel CPU in `/proc/cpuinfo` ends with it, and it is read back as it was
printed, or a Hz below (`calibrate_reads_cpuinfo`); otherwise the maximal frequency of CPU 0 is
taken, and last the counter is measured. Whichever it is, the three numbers that are stored fit
each other (`Consistent`), so that `dependent_read` runs for the cycles of a second, up to one
(`runCyc_near`).
-/

namespace VNams.Mgen

open Lib CText

/-- `GHZ` -/
def ghz : Int := 1000000000

/-- `MHZ` -/
def mhz : Int := 1000000

/-- `KHZ` -/
def khz : UInt64 := 1000

/-- What the machine answers to `calibrate`. -/
structure CalibrateEnv where
  /-- `/proc/cpuinfo` -/
  cpuinfo : Option Text
  /-- what the buffer of `getline` has behind the terminator of each line -/
  behind : Nat → Text
  /-- `cpuinfo_max_freq` of CPU 0 -/
  maxFreq : Option Text
  tsc : TscEnv

section Double

variable {D : Type} [Double D] [Truncates D]

/-- `line + strcspn(line, "@") + 1`: without an `@` it is behind the terminator. -/
def afterAt (line behind : Text) : Text :=
  match line.dropWhile (· != '@') with
  | [] => behind
  | _ :: rest => rest

/-- The conversion `%10s`. -/
def scanUnit (s : Text) : Option Text :=
  match (s.dropWhile isSpace).takeWhile fun c => !isSpace c with
  | [] => none
  | token => some (token.take 10)

/-- A frequency in its unit: `strcasecmp` with `GHz` and `Mhz`. -/
def inUnit (freq : D) (unit : Text) : D :=
  if unit.map Char.toLower = "ghz".toList then freq * Double.ofInt ghz
  else if unit.map Char.toLower = "mhz".toList then freq * Double.ofInt mhz
  else freq

/-- The loop of `calibrate_cpuinfo` over the lines from the `k`-th on. A number without a unit
is kept, and the loop goes on. -/
def cpuinfoFreq (strtod : Literal → D) (behind : Nat → Text) : Nat → List Text → D → D
  | _, [], freq => freq
  | k, line :: rest, freq =>
      if "model name".toList.isPrefixOf line then
        match scanDouble (afterAt line (behind k)) with
        | (some literal, s) =>
            match scanUnit s with
            | some unit => inUnit (strtod literal) unit
            | none => cpuinfoFreq strtod behind (k + 1) rest (strtod literal)
        | (none, _) => cpuinfoFreq strtod behind (k + 1) rest freq
      else cpuinfoFreq strtod behind (k + 1) rest freq

/-- What is stored for a frequency. -/
def Timing.ofFreq (clkofsec : UInt64) : Timing D :=
  let nsofclk := Double.ofInt nsSec / Double.ofInt clkofsec.toNat
  ⟨nsofclk, Double.ofInt 1 / nsofclk, clkofsec⟩

/-- Check the cpu name in proc info: `none` is the return of -1. -/
def calibrateCpuinfo (strtod : Literal → D) (env : CalibrateEnv) : Option (Timing D) :=
  match env.cpuinfo with
  | none => none
  | some file =>
      let freq := cpuinfoFreq strtod env.behind 0 (lines file) (Double.ofInt 0)
      if freq ≤ Double.ofInt 0 ∧ Double.ofInt 0 ≤ freq then none
      else some (.ofFreq (Truncates.toUInt64 freq))

/-- Get the highest p-state from sysfs: `none` is the return of -1. -/
def calibrateCpufreq (env : CalibrateEnv) : Option (Timing D) :=
  match env.maxFreq with
  | none => none
  | some file =>
      let buf := file.take 31
      if buf.isEmpty then none
      else
        let freq := UInt64.ofInt (strtol 10 buf).1
        if freq = 0 then none else some (.ofFreq (freq * khz))

/-- `calibrate`, for so many readings of the clock in each loop at most. -/
def calibrate (strtod : Literal → D) (env : CalibrateEnv) (tvbase : Timeval) (t : Timing D)
    (fuel : Nat) : Option (Timing D) :=
  match calibrateCpuinfo strtod env with
  | some t' => some t'
  | none =>
      match calibrateCpufreq env with
      | some t' => some t'
      | none => calibrateByTsc env.tsc tvbase t fuel

/-- The frequency is found without what was stored before: the CPU is named with it, or sysfs
has it, or the thread can be bound to CPU 0 to count the cycles. -/
def CalibrateEnv.Own (number : Literal → D) (env : CalibrateEnv) : Prop :=
  (calibrateCpuinfo number env).isSome ∨ (calibrateCpufreq env : Option (Timing D)).isSome ∨
    env.tsc.bound = true

/-- Otherwise what was stored before is kept. -/
theorem calibrate_kept {number : Literal → D} {env : CalibrateEnv} (other : ¬ env.Own number)
    (tvbase : Timeval) (t : Timing D) (fuel : Nat) : calibrate number env tvbase t fuel = some t := by
  rw [CalibrateEnv.Own, not_or, not_or, Option.not_isSome_iff_eq_none,
    Option.not_isSome_iff_eq_none] at other
  obtain ⟨cpuinfo, cpufreq, unbound⟩ := other
  rw [calibrate, cpuinfo, cpufreq]
  exact if_neg unbound

/-- A frequency of its own does not depend on what was found before, and more readings than
enough change nothing. -/
theorem calibrate_again {number : Literal → D} {env : CalibrateEnv} {tvbase : Timeval}
    {t t' : Timing D} {fuel fuel' : Nat} (le : fuel ≤ fuel') (own : env.Own number)
    (stored : calibrate number env tvbase t fuel = some t') (before : Timing D) :
    calibrate number env tvbase before fuel' = some t' := by
  unfold calibrate at stored ⊢
  cases cpuinfo : calibrateCpuinfo number env with
  | some found =>
      rw [cpuinfo] at stored
      exact stored
  | none =>
      rw [cpuinfo] at stored
      cases cpufreq : (calibrateCpufreq env : Option (Timing D)) with
      | some found =>
          rw [cpufreq] at stored
          exact stored
      | none =>
          rw [cpufreq] at stored
          have bound : env.tsc.bound = true := by
            simpa [CalibrateEnv.Own, cpuinfo, cpufreq] using own
          have same : calibrateByTsc env.tsc tvbase before fuel' =
              calibrateByTsc env.tsc tvbase t fuel' := by
            simp only [calibrateByTsc, bound, if_true]
          exact same.trans (calibrateByTsc_mono le stored)

/-! ### The CPU name -/

theorem afterAt_eq {pre : Text} (absent : '@' ∉ pre) (s behind : Text) :
    afterAt (pre ++ '@' :: s) behind = s := by
  have passes : ∀ c ∈ pre, (c != '@') = true := by
    rintro c mem
    rw [bne_iff_ne]
    rintro rfl
    exact absent mem
  rw [afterAt, List.dropWhile_append_of_pos passes]
  rfl

omit [Truncates D] in
/-- The lines in front of the one that names the model. -/
theorem cpuinfoFreq_append (strtod : Literal → D) (behind : Nat → Text) {before : List Text}
    (others : ∀ line ∈ before, ¬ "model name".toList.isPrefixOf line) (rest : List Text) (k : Nat)
    (freq : D) :
    cpuinfoFreq strtod behind k (before ++ rest) freq =
      cpuinfoFreq strtod behind (k + before.length) rest freq := by
  induction before generalizing k with
  | nil => rfl
  | cons line before ih =>
      rw [List.forall_mem_cons] at others
      rw [List.cons_append, cpuinfoFreq, if_neg others.1, ih others.2, List.length_cons,
        Nat.add_right_comm, Nat.add_assoc]

end Double

/-- A line that names the CPU, and behind an `@` a frequency as it is printed. -/
structure NamesFrequency (line : Text) (places : Nat) (q : ℚ) (scale : Int) : Prop where
  text : ∃ pre blanks unit, '@' ∉ pre ∧ (∀ c ∈ blanks, isSpace c = true) ∧
    (unit = "GHz".toList ∧ scale = ghz ∨ unit = "MHz".toList ∧ scale = mhz) ∧
    line = "model name".toList ++ pre ++ '@' :: (blanks ++ (fixed places q ++ (unit ++ ['\n'])))
  /-- the last place is a number of Hz -/
  whole : (10 : Int) ^ places ∣ scale
  some : 1 < roundTo places q * scale
  fits : roundTo places q * scale < 2 ^ 51

section Rounded

variable {D : Type} [Truncating D]

open Rounded

/-- The value of a number, as it is stored. -/
def strtod (literal : Literal) : D := ofRat (literal.value?.getD 0)

/-- The frequency of such a line is the product of its number and its unit. -/
theorem cpuinfoFreq_names {line : Text} {places : Nat} {q : ℚ} {scale : Int}
    (names : NamesFrequency line places q scale) (behind : Nat → Text) (k : Nat)
    (rest : List Text) (freq : D) :
    cpuinfoFreq strtod behind k (line :: rest) freq =
      ofRat (roundTo places q) * Double.ofInt scale := by
  obtain ⟨pre, blanks, unit, noAt, blank, known, rfl⟩ := names.text
  have isName : "model name".toList.isPrefixOf ("model name".toList ++ pre ++
      '@' :: (blanks ++ (fixed places q ++ (unit ++ ['\n'])))) := by
    rw [List.append_assoc]
    exact List.isPrefixOf_iff_prefix.mpr (List.prefix_append _ _)
  have noAt' : '@' ∉ "model name".toList ++ pre := by
    rw [List.mem_append, not_or]
    exact ⟨by decide, noAt⟩
  have ends : EndsNumber (unit ++ ['\n']) := by
    rcases known with ⟨rfl, _⟩ | ⟨rfl, _⟩
    · rintro c ⟨⟩
      decide
    · rintro c ⟨⟩
      decide
  have number : scanDouble (blanks ++ (fixed places q ++ (unit ++ ['\n']))) =
      (some (.number (decide (q < 0)) false (roundHalfEven (|q| * 10 ^ places)) places 0),
        unit ++ ['\n']) := by
    rw [← scanDouble_dropWhile, List.dropWhile_append_of_pos blank, scanDouble_dropWhile,
      scanDouble_fixed places q ends]
  have value : (strtod (.number (decide (q < 0)) false (roundHalfEven (|q| * 10 ^ places)) places 0)
      : D) = ofRat (roundTo places q) := by
    rw [strtod, value_written, Option.getD_some]
  have scanned : scanUnit (unit ++ ['\n']) = some unit := by
    rcases known with ⟨rfl, _⟩ | ⟨rfl, _⟩
    · rfl
    · rfl
  rw [cpuinfoFreq, if_pos isName, afterAt_eq noAt', number]
  simp only [scanned, value]
  rcases known with ⟨rfl, rfl⟩ | ⟨rfl, rfl⟩
  · exact if_pos (by decide)
  · exact (if_neg (by decide)).trans (if_pos (by decide))

/-- The unit is a number of Hz. -/
theorem NamesFrequency.exists_scale {line : Text} {places : Nat} {q : ℚ} {scale : Int}
    (names : NamesFrequency line places q scale) :
    ∃ n : Nat, scale = n ∧ 0 < n ∧ n ≤ 2 ^ 53 := by
  obtain ⟨_, _, _, _, _, ⟨_, rfl⟩ | ⟨_, rfl⟩, _⟩ := names.text
  · exact ⟨1000000000, rfl, by norm_num, by norm_num⟩
  · exact ⟨1000000, rfl, by norm_num, by norm_num⟩

/-- The frequency is a number of Hz. -/
theorem NamesFrequency.exists_hz {line : Text} {places : Nat} {q : ℚ} {scale : Int}
    (names : NamesFrequency line places q scale) :
    ∃ hz : Nat, (hz : ℚ) = roundTo places q * scale ∧ 1 < hz ∧ hz < 2 ^ 51 ∧
      0 < roundTo places q := by
  obtain ⟨n, rfl, scale_pos, _⟩ := names.exists_scale
  have some' := names.some
  have positive : 0 < roundTo places q :=
    (pos_iff_pos_of_mul_pos (lt_trans one_pos some')).mpr (by exact_mod_cast scale_pos)
  obtain ⟨units, split⟩ := names.whole
  obtain ⟨digits, rounded⟩ : ∃ digits : Nat, roundTo places q = digits / 10 ^ places := by
    refine ⟨roundHalfEven (|q| * 10 ^ places), ?_⟩
    simp only [roundTo] at positive ⊢
    split at positive
    · have nonneg : (0 : ℚ) ≤ roundHalfEven (|q| * 10 ^ places) / 10 ^ places := by positivity
      linarith
    · rename_i notNegative
      exact if_neg notNegative
  have isHz : roundTo places q * (n : Int) = ((digits * units : Int) : ℚ) := by
    rw [rounded, split]
    push_cast
    field_simp
  have fits := names.fits
  rw [isHz] at some' fits
  obtain ⟨hz, same⟩ := Int.eq_ofNat_of_zero_le (a := digits * units) (by
    have le : (0 : ℚ) ≤ ((digits * units : Int) : ℚ) := le_trans zero_le_one some'.le
    exact_mod_cast le)
  rw [same] at some' fits
  refine ⟨hz, ?_, ?_, ?_, positive⟩
  · rw [isHz, same]
    rfl
  · exact_mod_cast some'
  · exact_mod_cast fits

/-- What is computed from it is less than a Hz off. -/
theorem NamesFrequency.near {line : Text} {places : Nat} {q : ℚ} {scale : Int}
    (names : NamesFrequency line places q scale) {hz : Nat}
    (isHz : (hz : ℚ) = roundTo places q * scale) :
    val (ofRat (roundTo places q) * Double.ofInt scale : D) =
        stored D (stored D (roundTo places q) * scale) ∧
      (hz : ℚ) - 1 < stored D (stored D (roundTo places q) * scale) ∧
      stored D (stored D (roundTo places q) * scale) < hz + 1 := by
  obtain ⟨n, rfl, scale_pos, small⟩ := names.exists_scale
  obtain ⟨hz', isHz', some', fits, positive⟩ := names.exists_hz
  obtain rfl : hz = hz' := by
    have same := isHz.trans isHz'.symm
    exact_mod_cast same
  have unit : (0 : ℚ) ≤ n := Nat.cast_nonneg n
  have product : Apart 53 2 hz (stored D (stored D (roundTo places q) * (n : Int))) := by
    rw [isHz, Int.cast_natCast]
    have number := (apart_stored (D := D) positive.le).mul_right unit
    exact number.trans (apart_stored (mul_nonneg (stored_nonneg positive.le) unit))
  have bound : (hz : ℚ) < 2 ^ 51 := by exact_mod_cast fits
  refine ⟨?_, product.sub_lt_one (Nat.cast_nonneg hz) ?_⟩
  · rw [val_mul, val_ofRat, val_ofNat_of_le small, Int.cast_natCast]
    rfl
  · rw [Nat.cast_ofNat]
    linarith

/-! ### The numbers that are stored -/

/-- The numbers describe the same counter: the cycles of a second are those of a nanosecond, up to
a rounding and without what is behind the point. -/
structure Timing.Consistent (t : Timing D) : Prop where
  nsofclk_pos : 0 < val t.nsofclk
  clkofns_eq : t.clkofns = Double.ofInt 1 / t.nsofclk
  clkofsec_eq : ∃ q, Apart 53 1 (1000000000 / val t.nsofclk) q ∧ t.clkofsec.toNat = ⌊q⌋₊

/-- A counter that makes at least two cycles in a second, and fewer than 2⁵⁰. -/
structure Timing.Credible (t : Timing D) : Prop where
  counts : 1 < t.clkofsec
  nsofclk_pos : 0 < val t.nsofclk
  slow : 1000000000 / val t.nsofclk < 2 ^ 50

theorem val_nsSec : val (Double.ofInt nsSec : D) = 1000000000 :=
  val_ofNat_of_le (n := 1000000000) (by norm_num)

theorem val_one : val (Double.ofInt 1 : D) = 1 := by
  have one := val_ofNat_of_le (D := D) (n := 1) (by norm_num)
  rwa [Nat.cast_one] at one

/-- What is stored for a frequency of 53 digits is consistent. -/
theorem Timing.ofFreq_consistent {clkofsec : UInt64} (some' : clkofsec ≠ 0)
    (small : clkofsec.toNat ≤ 2 ^ 53) :
    val (Timing.ofFreq clkofsec : Timing D).nsofclk = stored D (1000000000 / clkofsec.toNat) ∧
      (Timing.ofFreq clkofsec : Timing D).Consistent := by
  have positive : 0 < clkofsec.toNat :=
    Nat.pos_of_ne_zero fun zero => some' (UInt64.toNat_inj.mp zero)
  have counts : (0 : ℚ) < clkofsec.toNat := Nat.cast_pos.mpr positive
  have ns : val (Timing.ofFreq clkofsec : Timing D).nsofclk =
      stored D (1000000000 / clkofsec.toNat) := by
    have whole := val_ofNat_of_le (D := D) small
    simp only [ofFreq]
    rw [val_div _ _ (by rw [whole]; exact counts.ne'), whole, val_nsSec]
    rfl
  have quotient : (0 : ℚ) < 1000000000 / clkofsec.toNat := by positivity
  have ns_pos : 0 < val (Timing.ofFreq clkofsec : Timing D).nsofclk := by
    rw [ns]
    exact stored_pos quotient
  refine ⟨ns, ns_pos, rfl, clkofsec.toNat, ?_, (Nat.floor_natCast _).symm⟩
  have inverse := (apart_stored (D := D) quotient.le).symm.div_left
    (show (0 : ℚ) ≤ 1000000000 by norm_num) (stored_pos quotient) quotient
  rw [ns]
  rwa [div_div_cancel₀ (by norm_num)] at inverse

/-- `dependent_read` then runs for the cycles of a second, one more or one less. -/
theorem Timing.Consistent.runCyc_near {t : Timing D} (consistent : t.Consistent)
    (credible : t.Credible) :
    (runCyc t 1).toNat ≤ t.clkofsec.toNat + 1 ∧ t.clkofsec.toNat ≤ (runCyc t 1).toNat + 1 := by
  have ns_pos := consistent.nsofclk_pos
  have slow := credible.slow
  obtain ⟨q, apart, isFloor⟩ := consistent.clkofsec_eq
  have second : 0 ≤ 1000000000 / val t.nsofclk := div_nonneg (by norm_num) ns_pos.le
  have inverse : val t.clkofns = stored D (1 / val t.nsofclk) := by
    rw [consistent.clkofns_eq, val_div _ _ ns_pos.ne', val_one]
    rfl
  have inverse_nonneg : 0 ≤ 1 / val t.nsofclk := div_nonneg zero_le_one ns_pos.le
  have cycles : Apart 53 2 (1000000000 / val t.nsofclk) (val (Double.ofInt nsSec * t.clkofns)) := by
    rw [val_mul, val_nsSec, inverse, ← mul_one_div]
    have scaled := (apart_stored (D := D) inverse_nonneg).mul_left
      (show (0 : ℚ) ≤ 1000000000 by norm_num)
    exact scaled.trans (apart_stored (mul_nonneg (by norm_num) (stored_nonneg inverse_nonneg)))
  have near := apart.sub_lt_one second (by rw [Nat.cast_one]; linarith)
  have near' := cycles.sub_lt_one second (by rw [Nat.cast_ofNat]; linarith)
  have run : (runCyc t 1).toNat = ⌊val (Double.ofInt nsSec * t.clkofns)⌋₊ := by
    rw [runCyc, ← Truncating.toNat_toUInt64 _ (cycles.nonneg second) (by linarith)]
    exact congrArg UInt64.toNat (UInt64.one_mul _)
  rw [run, isFloor]
  exact (apart.symm.trans cycles).floor_le (apart.nonneg second) (by push_cast; linarith)

/-- So the measurement takes some time. -/
theorem Timing.Consistent.runCyc_pos {t : Timing D} (consistent : t.Consistent)
    (credible : t.Credible) : 0 < runCyc t 1 := by
  have least := (consistent.runCyc_near credible).2
  have counts := UInt64.lt_iff_toNat_lt.mp credible.counts
  rw [UInt64.toNat_one] at counts
  rw [UInt64.lt_iff_toNat_lt, UInt64.toNat_zero]
  omega

/-- A frequency is back from the nanoseconds of a cycle after two roundings. -/
theorem Timing.ofFreq_apart {clkofsec : UInt64} (some' : clkofsec ≠ 0)
    (positive : 0 < val (Timing.ofFreq clkofsec : Timing D).nsofclk) :
    Apart 53 2 (1000000000 / val (Timing.ofFreq clkofsec : Timing D).nsofclk) clkofsec.toNat := by
  have counts : 0 < clkofsec.toNat :=
    Nat.pos_of_ne_zero fun zero => some' (UInt64.toNat_inj.mp zero)
  have cycles : (0 : ℚ) < clkofsec.toNat := Nat.cast_pos.mpr counts
  have second : Apart 53 0 1000000000 (val (Double.ofInt nsSec : D)) := by
    rw [val_nsSec]
    exact .refl 53 _
  have billion : (0 : ℚ) ≤ 1000000000 := by norm_num
  have quotient := apart_div billion (second.nonneg billion) cycles (val_ofNat_pos counts) second
    (apart_ofNat clkofsec.toNat)
  have inverse := quotient.symm.div_left billion positive (by positivity)
  rwa [div_div_cancel₀ (by norm_num)] at inverse

theorem Timing.ofFreq_consistent_of_credible {clkofsec : UInt64}
    (credible : (Timing.ofFreq clkofsec : Timing D).Credible) :
    (Timing.ofFreq clkofsec : Timing D).Consistent := by
  obtain ⟨counts, positive, slow⟩ := credible
  have some' : clkofsec ≠ 0 := by
    rintro rfl
    exact absurd counts (show ¬ (1 : UInt64) < 0 by decide)
  refine (Timing.ofFreq_consistent some' ?_).2
  have near := ((Timing.ofFreq_apart some' positive).sub_lt_one
    (div_nonneg (by norm_num) positive.le) (by push_cast; linarith)).2
  have small : (clkofsec.toNat : ℚ) ≤ (2 ^ 53 : Nat) := by
    push_cast
    linarith
  exact_mod_cast small

/-- `/proc/cpuinfo` gives a frequency. -/
theorem calibrateCpuinfo_ofFreq {number : Literal → D} {env : CalibrateEnv} {t : Timing D}
    (found : calibrateCpuinfo number env = some t) : ∃ hz, t = .ofFreq hz := by
  simp only [calibrateCpuinfo] at found
  split at found
  · cases found
  · split at found
    · cases found
    · exact ⟨_, (Option.some.inj found).symm⟩

/-- So does the sysfs file. -/
theorem calibrateCpufreq_ofFreq {env : CalibrateEnv} {t : Timing D}
    (found : calibrateCpufreq env = some t) : ∃ hz, t = .ofFreq hz := by
  simp only [calibrateCpufreq] at found
  split at found
  · cases found
  · split at found
    · cases found
    · split at found
      · cases found
      · exact ⟨_, (Option.some.inj found).symm⟩

/-- The counter gives the nanoseconds of a cycle. -/
theorem calibrateByTsc_consistent {env : TscEnv} {tvbase : Timeval} {t t' : Timing D} {fuel : Nat}
    (bound : env.bound = true) (stored : calibrateByTsc env tvbase t fuel = some t')
    (credible : t'.Credible) : t'.Consistent := by
  obtain ⟨_, positive, slow⟩ := credible
  simp only [calibrateByTsc, bound, if_true, Option.bind_eq_bind, Option.bind_eq_some_iff]
    at stored
  obtain ⟨start, _, final, _, made⟩ := stored
  cases made
  have second : 0 ≤ 1000000000 / val _ := div_nonneg (by norm_num) positive.le
  have rounded := apart_stored (D := D) second
  have near := rounded.sub_lt_one second (by push_cast; linarith)
  refine ⟨positive, rfl, _, rounded, ?_⟩
  have cycles := val_div (Double.ofInt nsSec : D) _ positive.ne'
  rw [val_nsSec] at cycles
  rw [Truncating.toNat_toUInt64, cycles]
  · rfl
  · rw [cycles]
    exact stored_nonneg second
  · rw [cycles]
    exact lt_trans near.2 (by linarith)

/-- Wherever the numbers come from, they are consistent, unless they are those of an earlier
calibration or no frequency at all. -/
theorem calibrate_consistent {number : Literal → D} {env : CalibrateEnv} {tvbase : Timeval}
    {t t' : Timing D} {fuel : Nat} (own : env.Own number)
    (stored : calibrate number env tvbase t fuel = some t') (credible : t'.Credible) :
    t'.Consistent := by
  unfold calibrate at stored
  cases cpuinfo : calibrateCpuinfo number env with
  | some found =>
      simp only [cpuinfo, Option.some.injEq] at stored
      subst stored
      obtain ⟨hz, rfl⟩ := calibrateCpuinfo_ofFreq cpuinfo
      exact Timing.ofFreq_consistent_of_credible credible
  | none =>
      simp only [cpuinfo] at stored
      cases cpufreq : (calibrateCpufreq env : Option (Timing D)) with
      | some found =>
          simp only [cpufreq, Option.some.injEq] at stored
          subst stored
          obtain ⟨hz, rfl⟩ := calibrateCpufreq_ofFreq cpufreq
          exact Timing.ofFreq_consistent_of_credible credible
      | none =>
          have bound : env.tsc.bound = true := by
            simpa [CalibrateEnv.Own, cpuinfo, cpufreq] using own
          simp only [cpufreq] at stored
          exact calibrateByTsc_consistent bound stored credible

/-- The frequency is taken from the first line that names the CPU. -/
theorem calibrateCpuinfo_names (env : CalibrateEnv) {file : Text} {before after : List Text}
    {line : Text} {places : Nat} {q : ℚ} {scale : Int} (opened : env.cpuinfo = some file)
    (listed : lines file = before ++ line :: after)
    (others : ∀ line ∈ before, ¬ "model name".toList.isPrefixOf line)
    (names : NamesFrequency line places q scale) :
    calibrateCpuinfo (strtod : Literal → D) env =
      some (.ofFreq (Truncates.toUInt64 (ofRat (roundTo places q) * Double.ofInt scale : D))) := by
  have freq : cpuinfoFreq strtod env.behind 0 (lines file) (Double.ofInt 0 : D) =
      ofRat (roundTo places q) * Double.ofInt scale := by
    rw [listed, cpuinfoFreq_append strtod env.behind others, cpuinfoFreq_names names]
  have zero : val (Double.ofInt 0 : D) = 0 := by
    have kept := val_ofNat_of_le (D := D) (n := 0) (Nat.zero_le _)
    rwa [Nat.cast_zero] at kept
  obtain ⟨hz, isHz, some', _⟩ := names.exists_hz
  obtain ⟨value, low, _⟩ := names.near (D := D) isHz
  have counts : (1 : ℚ) < hz := by exact_mod_cast some'
  simp only [calibrateCpuinfo, opened, freq]
  rw [if_neg]
  rintro ⟨le, _⟩
  rw [le_iff, zero, value] at le
  linarith

/-- The frequency that an Intel CPU is named with is what is stored, or a Hz less where its
product in binary digits falls short, whatever is in front of the line and behind it. -/
theorem calibrate_reads_cpuinfo (env : CalibrateEnv) (tvbase : Timeval) (t : Timing D) (fuel : Nat)
    {file : Text} {before after : List Text} {line : Text} {places : Nat} {q : ℚ} {scale : Int}
    (opened : env.cpuinfo = some file) (listed : lines file = before ++ line :: after)
    (others : ∀ line ∈ before, ¬ "model name".toList.isPrefixOf line)
    (names : NamesFrequency line places q scale) :
    ∃ (hz : Nat) (t' : Timing D), (hz : ℚ) = roundTo places q * scale ∧
      calibrate strtod env tvbase t fuel = some t' ∧
      t'.clkofsec.toNat = ⌊stored D (stored D (roundTo places q) * scale)⌋₊ ∧
      (t'.clkofsec.toNat = hz ∨ t'.clkofsec.toNat + 1 = hz) ∧
      val t'.nsofclk = stored D (1000000000 / t'.clkofsec.toNat) ∧ t'.Consistent := by
  obtain ⟨hz, isHz, some', fits, _⟩ := names.exists_hz
  obtain ⟨value, low, high⟩ := names.near (D := D) isHz
  have counts : (1 : ℚ) < hz := by exact_mod_cast some'
  have bound : (hz : ℚ) < 2 ^ 51 := by exact_mod_cast fits
  have stored_eq := Truncating.toNat_toUInt64 (ofRat (roundTo places q) * Double.ofInt scale : D)
  rw [value] at stored_eq
  have isFloor := stored_eq (by linarith) (by linarith)
  have least : hz - 1 ≤ ⌊stored D (stored D (roundTo places q) * scale)⌋₊ := by
    apply Nat.le_floor
    rw [Nat.cast_sub some'.le, Nat.cast_one]
    exact low.le
  have most : ⌊stored D (stored D (roundTo places q) * scale)⌋₊ < hz + 1 := by
    rw [Nat.floor_lt (by linarith)]
    push_cast
    exact high
  have nonzero : (Truncates.toUInt64 (ofRat (roundTo places q) * Double.ofInt scale : D)) ≠ 0 := by
    intro same
    have none := congrArg UInt64.toNat same
    rw [isFloor, UInt64.toNat_zero] at none
    omega
  obtain ⟨ns, consistent⟩ := Timing.ofFreq_consistent (D := D) nonzero (by omega)
  refine ⟨hz, _, isHz, ?_, isFloor, ?_, ns, consistent⟩
  · rw [calibrate, calibrateCpuinfo_names env opened listed others names]
  · show (Truncates.toUInt64 (ofRat (roundTo places q) * Double.ofInt scale : D)).toNat = hz ∨ _
    rw [isFloor]
    show _ ∨ (Truncates.toUInt64 (ofRat (roundTo places q) * Double.ofInt scale : D)).toNat + 1 = hz
    rw [isFloor]
    omega

end Rounded

/-- The name of a CPU at 2.2 GHz. -/
def xeon : Text := "model name\t: Intel(R) Xeon(R) CPU E5-2660 0 @ 2.20GHz\n".toList

/-- A machine with such a CPU. -/
def xeonMachine : CalibrateEnv where
  cpuinfo := some ("processor\t: 0\n".toList ++ xeon)
  behind _ := []
  maxFreq := none
  tsc := twiceAMs

theorem xeon_names : NamesFrequency xeon 2 (22 / 10) ghz where
  text := ⟨"\t: Intel(R) Xeon(R) CPU E5-2660 0 ".toList, [' '], "GHz".toList, by decide +kernel,
    by simp [isSpace], .inl ⟨rfl, rfl⟩, by decide +kernel⟩
  whole := ⟨10000000, by rfl⟩
  some := by decide +kernel
  fits := by decide +kernel

theorem xeon_lines :
    lines ("processor\t: 0\n".toList ++ xeon) = ["processor\t: 0\n".toList] ++ [xeon] := by
  decide +kernel

theorem xeon_others : ∀ line ∈ ["processor\t: 0\n".toList],
    ¬ "model name".toList.isPrefixOf line := by
  decide

/-- What is stored on that machine. -/
theorem calibrate_xeon {D : Type} [Truncating D] (tvbase : Timeval) (t : Timing D) (fuel : Nat) :
    calibrate strtod xeonMachine tvbase t fuel = some (.ofFreq
      (Truncates.toUInt64 (Rounded.ofRat (roundTo 2 (22 / 10)) * Double.ofInt ghz : D))) := by
  rw [calibrate, calibrateCpuinfo_names xeonMachine rfl xeon_lines xeon_others xeon_names]

/-- Its product comes out even. -/
theorem xeon_hz :
    Truncates.toUInt64 (Rounded.ofRat (roundTo 2 (22 / 10)) * Double.ofInt ghz : ℚ) = 2200000000 ∧
      Truncates.toUInt64 (Rounded.ofRat (roundTo 2 (22 / 10)) * Double.ofInt ghz : Binary64) =
        2200000000 := by
  decide +kernel

/-- The name of a CPU at 2.11 GHz, where the product falls short. -/
def shortfall : Text := "model name\t: CPU @ 2.11GHz\n".toList

theorem shortfall_names : NamesFrequency shortfall 2 (211 / 100) ghz where
  text := ⟨"\t: CPU ".toList, [' '], "GHz".toList, by decide +kernel, by simp [isSpace],
    .inl ⟨rfl, rfl⟩, by decide +kernel⟩
  whole := ⟨10000000, by rfl⟩
  some := by decide +kernel
  fits := by decide +kernel

/-- The static variables before the first calibration. -/
def uncalibrated : Timing Binary64 := ⟨.ofRat 0, .ofRat 0, 0⟩

theorem calibrate_reads_cpuinfo_shortfall : ∃ (hz : Nat) (t' : Timing Binary64),
    hz = 2110000000 ∧
      calibrate strtod { xeonMachine with cpuinfo := some shortfall } ⟨1000, 0⟩
        uncalibrated 0 = some t' ∧
      t'.clkofsec.toNat = 2109999999 ∧ t'.Consistent := by
  obtain ⟨hz, t', isHz, stored, isFloor, _, _, consistent⟩ := calibrate_reads_cpuinfo
    { xeonMachine with cpuinfo := some shortfall } ⟨1000, 0⟩
    uncalibrated 0 rfl (show lines shortfall = [] ++ shortfall :: [] by decide +kernel)
    (List.forall_mem_nil _) shortfall_names
  have product : roundTo 2 (211 / 100) * ghz = (2110000000 : Nat) := by decide +kernel
  have short : ⌊Rounded.stored Binary64
      (Rounded.stored Binary64 (roundTo 2 (211 / 100)) * ghz)⌋₊ = 2109999999 := by
    decide +kernel
  rw [product] at isHz
  exact ⟨hz, t', by exact_mod_cast isHz, stored, isFloor.trans short, consistent⟩

end VNams.Mgen
