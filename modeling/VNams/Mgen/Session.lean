import VNams.Mgen.Calibrate

/-!
Calls of `get_numa_latency`, one after the other.

What a call measures does not depend on the calls before it, if it gets as far as the
calibration and finds a frequency of its own there (`get_numa_latency_measures`). What does go
from call to call is `s_buf`: the buffer is released at the end of a call, but the pointer
stays. So a call that leaves early releases the buffer of an earlier call once more, and so does
the handler of a signal that comes between two calls (`releases_of_calls`).
-/

namespace VNams.Mgen

open Lib CText

/-- The static variables that last from call to call, and what is allocated. -/
structure Session (D : Type) where
  timing : Timing D
  latestAvglat : D
  sBuf : Option Int
  /-- the buffers that are allocated -/
  live : List Int
  /-- how often something else was released -/
  stray : Nat

/-- A call of `get_numa_latency`, and what the machine answers to it. -/
structure Call where
  fromNode : Int
  toNode : Int
  /-- whether the signal handlers are installed -/
  handlers : Bool
  tvbase : Timeval
  calibration : CalibrateEnv
  /-- what `numa_alloc_onnode` returns -/
  allocated : Option Int
  /-- what `rand` returns -/
  draws : List Nat
  read : ReadEnv

/-- `MEAS_TIME_DEFAULT` -/
def measTimeDefault : Int := 1

/-- `buf_release(s_buf)`, where `s_buf` is not `NULL`. -/
def Session.release {D : Type} (s : Session D) : Session D :=
  match s.sBuf with
  | none => s
  | some buf =>
      if buf ∈ s.live then { s with live := s.live.erase buf } else { s with stray := s.stray + 1 }

section Double

variable {D : Type} [Double D] [Truncates D]

/-- `get_numa_latency`: what is returned, and the session that is left. `n` and `size` are
`RAND_ARRAY_SIZE` and `BUF_SIZE` (`randArraySize`, `bufSize`), and each loop turns at most `fuel`
times. -/
def getNumaLatency (n : Nat) [NeZero n] (size : Nat) (number : Literal → D) (fuel : Nat)
    (s : Session D) (call : Call) : Option (Except Fault (D × Session D)) :=
  if call.fromNode = -1 then some (.ok (Double.ofInt (-1), s.release))
  else if call.toNode = -1 then some (.ok (Double.ofInt (-1), s.release))
  else if !call.handlers then some (.ok (Double.ofInt (-1), s.release))
  else do
    let t ← calibrate number call.calibration call.tvbase s.timing fuel
    let s := { s with timing := t, sBuf := call.allocated }
    match call.allocated with
    | none => some (.ok (Double.ofInt (-1), s.release))
    | some buf =>
        let (mem, _) ← bufInit n call.draws buf size
        let s := { s with live := buf :: s.live }
        let r ← dependentRead t call.read mem buf measTimeDefault s.latestAvglat fuel
        some (r.map fun r => (r.1, { s with latestAvglat := r.2 }.release))

/-- `sigint_handler`, up to `exit`. -/
def sigintHandler (s : Session D) : Session D := s.release

/-- The call leaves before it measures. -/
def Call.Early (call : Call) : Prop :=
  call.fromNode = -1 ∨ call.toNode = -1 ∨ call.handlers = false

instance (call : Call) : Decidable call.Early :=
  inferInstanceAs (Decidable (_ ∨ _ ∨ _))

/-- Calls that return, one after the other, with what they return. -/
inductive Calls (n : Nat) [NeZero n] (size : Nat) (number : Literal → D) :
    Session D → List (Call × D) → Session D → Prop where
  | nil (s : Session D) : Calls n size number s [] s
  | cons {fuel : Nat} {s mid s' : Session D} {call : Call} {v : D} {calls : List (Call × D)}
      (returned : getNumaLatency n size number fuel s call = some (.ok (v, mid)))
      (later : Calls n size number mid calls s') : Calls n size number s ((call, v) :: calls) s'

/-! ### A call -/

variable {n : Nat} [NeZero n] {size fuel : Nat} {number : Literal → D} {s s' : Session D}
  {call : Call} {v : D}

theorem getNumaLatency_early (early : call.Early) :
    getNumaLatency n size number fuel s call = some (.ok (Double.ofInt (-1), s.release)) := by
  unfold getNumaLatency
  rcases early with noNode | noCpu | failed
  · exact if_pos noNode
  · by_cases noNode : call.fromNode = -1
    · exact if_pos noNode
    · rw [if_neg noNode]
      exact if_pos noCpu
  · by_cases noNode : call.fromNode = -1
    · exact if_pos noNode
    · rw [if_neg noNode]
      by_cases noCpu : call.toNode = -1
      · exact if_pos noCpu
      · rw [if_neg noCpu, failed]
        rfl

/-- A call that does not leave early. -/
theorem getNumaLatency_late (late : ¬ call.Early) :
    getNumaLatency n size number fuel s call =
      (calibrate number call.calibration call.tvbase s.timing fuel).bind fun t =>
        match call.allocated with
        | none => some (.ok (Double.ofInt (-1), { s with timing := t, sBuf := none }.release))
        | some buf =>
            (bufInit n call.draws buf size).bind fun made =>
              (dependentRead t call.read made.1 buf measTimeDefault s.latestAvglat fuel).bind fun r =>
                some (r.map fun r => (r.1, { s with
                  timing := t
                  latestAvglat := r.2
                  sBuf := some buf
                  live := buf :: s.live }.release)) := by
  obtain ⟨node, cpu, handlers⟩ : call.fromNode ≠ -1 ∧ call.toNode ≠ -1 ∧ call.handlers = true := by
    simpa [Call.Early] using late
  unfold getNumaLatency
  rw [if_neg node, if_neg cpu, handlers]
  cases calibrate number call.calibration call.tvbase s.timing fuel with
  | none => rfl
  | some t =>
      cases call.allocated with
      | none => rfl
      | some buf => rfl

/-- A call whose reads end, whatever average was the latest. -/
theorem getNumaLatency_reads (late : ¬ call.Early) {buf : Int} (allocated : call.allocated = some buf)
    {mem : IntMap} {rest : List Nat} (made : bufInit n call.draws buf size = some (mem, rest))
    {t before : Timing D} {k : Nat}
    (calibrated : calibrate number call.calibration call.tvbase before k = some t)
    (own : call.calibration.Own number) {last : Nat} {latestOf : D → D}
    (reads : ∀ latest fuel, last ≤ fuel →
      dependentRead t call.read mem buf measTimeDefault latest fuel = some (.ok (v, latestOf latest)))
    (enough : max k last ≤ fuel) :
    getNumaLatency n size number fuel s call = some (.ok (v, { s with
      timing := t
      latestAvglat := latestOf s.latestAvglat
      sBuf := some buf })) := by
  rw [getNumaLatency_late late,
    calibrate_again (le_trans (le_max_left k last) enough) own calibrated s.timing, allocated]
  simp only [Option.bind_some, made, reads s.latestAvglat fuel
    (le_trans (le_max_right k last) enough), Except.map]
  simp [Session.release]

/-- What a call leaves when it returns: it has released the buffer that it allocated, and the
pointer is still there. -/
theorem getNumaLatency_leaves
    (returned : getNumaLatency n size number fuel s call = some (.ok (v, s')))
    (idle : s.live = []) :
    s'.live = [] ∧ s'.sBuf = (if call.Early then s.sBuf else call.allocated) ∧
      s'.stray = s.stray + if call.Early ∧ s.sBuf ≠ none then 1 else 0 := by
  by_cases early : call.Early
  · rw [getNumaLatency_early early] at returned
    cases returned
    simp only [early, true_and, if_true]
    cases held : s.sBuf with
    | none => simp [Session.release, held, idle]
    | some buf => simp [Session.release, held, idle]
  · rw [getNumaLatency_late early] at returned
    simp only [early, false_and, if_false]
    obtain ⟨t, _, returned⟩ := Option.bind_eq_some_iff.mp returned
    cases allocated : call.allocated with
    | none =>
        rw [allocated] at returned
        cases returned
        exact ⟨idle, rfl, rfl⟩
    | some buf =>
        rw [allocated] at returned
        obtain ⟨made, _, returned⟩ := Option.bind_eq_some_iff.mp returned
        obtain ⟨r, _, returned⟩ := Option.bind_eq_some_iff.mp returned
        cases r with
        | error e => cases returned
        | ok r =>
            cases returned
            simp [Session.release, idle]

/-! ### Runs of calls -/

/-- The buffer that `s_buf` points to after some calls: that of the last one that came to
allocate a buffer. -/
def held (before : Option Int) (calls : List (Call × D)) : Option Int :=
  calls.foldl (fun buf call => if call.1.Early then buf else call.1.allocated) before

/-- No call leaves early while `s_buf` points to the buffer of an earlier one. -/
def NoneEarly (before : Option Int) (calls : List (Call × D)) : Prop :=
  ∀ front call back, calls = front ++ call :: back → call.1.Early → held before front = none

omit [Double D] [Truncates D] in
theorem noneEarly_cons {before : Option Int} {call : Call × D} {calls : List (Call × D)} :
    NoneEarly before (call :: calls) ↔ (call.1.Early → before = none) ∧
      NoneEarly (if call.1.Early then before else call.1.allocated) calls := by
  constructor
  · intro all
    refine ⟨fun early => all [] call calls rfl early, fun front call' back split early => ?_⟩
    exact all (call :: front) call' back (congrArg (call :: ·) split) early
  · rintro ⟨first, others⟩ front call' back split early
    cases front with
    | nil =>
        cases split
        exact first early
    | cons call'' front =>
        cases split
        exact others front call' back rfl early

/-- What the calls of a run leave. -/
theorem Calls.leaves {calls : List (Call × D)} (run : Calls n size number s calls s')
    (idle : s.live = []) :
    s'.live = [] ∧ s'.sBuf = held s.sBuf calls ∧ s.stray ≤ s'.stray ∧
      (s'.stray = s.stray ↔ NoneEarly s.sBuf calls) := by
  induction run with
  | nil s =>
      refine ⟨idle, rfl, le_refl _, iff_of_true rfl fun front call back split => ?_⟩
      cases front <;> cases split
  | @cons _ s mid s' call v calls returned _ ih =>
      obtain ⟨released, pointer, stray⟩ := getNumaLatency_leaves returned idle
      obtain ⟨released', pointer', more, same⟩ := ih released
      rw [pointer] at pointer' same
      refine ⟨released', pointer', by omega, ?_⟩
      rw [noneEarly_cons, ← same]
      by_cases again : call.Early ∧ s.sBuf ≠ none
      · rw [if_pos again] at stray
        apply iff_of_false
        · omega
        · rintro ⟨none, _⟩
          exact again.2 (none again.1)
      · rw [if_neg again, add_zero] at stray
        rw [stray]
        refine ⟨fun kept => ⟨fun early => ?_, kept⟩, fun kept => kept.2⟩
        exact not_not.mp fun held => again ⟨early, held⟩

/-- A signal while the buffer is read. -/
def Session.reading (s : Session D) (buf : Int) : Session D :=
  { s with live := buf :: s.live, sBuf := some buf }

/-- A signal after the buffer was allocated, with the address not yet stored. -/
def Session.created (s : Session D) (buf : Int) : Session D := { s with live := buf :: s.live }

/-- Every call of a run releases the buffer that it allocates. A buffer is released once more
by each call that leaves early after it, and by the handler of a signal that comes between
two calls; one that comes while the buffer is read releases it in time, and one that comes
before its address is stored does not release it. -/
theorem releases_of_calls {calls : List (Call × D)} (run : Calls n size number s calls s')
    (idle : s.live = []) (fresh : s.sBuf = none) (clean : s.stray = 0) :
    s'.live = [] ∧ (s'.stray = 0 ↔ NoneEarly none calls) ∧
      ((sigintHandler s').stray = s'.stray ↔ held none calls = none) ∧
      ∀ buf,
        ((sigintHandler (s'.reading buf)).live = [] ∧
          (sigintHandler (s'.reading buf)).stray = s'.stray) ∧
        (held none calls ≠ some buf → (sigintHandler (s'.created buf)).live = [buf] ∧
          ((sigintHandler (s'.created buf)).stray = s'.stray ↔ held none calls = none)) := by
  obtain ⟨released, pointer, _, same⟩ := run.leaves idle
  rw [fresh, clean] at same
  rw [fresh] at pointer
  rw [← pointer]
  refine ⟨released, same, ?_, fun buf => ⟨?_, fun other => ?_⟩⟩
  · cases isHeld : s'.sBuf with
    | none => simp [sigintHandler, Session.release, isHeld]
    | some buf => simp [sigintHandler, Session.release, isHeld, released]
  · simp [sigintHandler, Session.release, Session.reading, released]
  · cases isHeld : s'.sBuf with
    | none => simp [sigintHandler, Session.release, Session.created, isHeld, released]
    | some buf' =>
        rw [isHeld] at other
        have differs : buf' ≠ buf := fun same => other (congrArg some same)
        simp [sigintHandler, Session.release, Session.created, isHeld, released, differs]

end Double

/-- A machine whose CPU has 2.2 GHz, with two CPUs. -/
def xeonCall (fromNode : Int) (read : ReadEnv) : Call where
  fromNode := fromNode
  toNode := 1
  handlers := true
  tvbase := ⟨1000, 0⟩
  calibration := xeonMachine
  allocated := some 4096
  draws := [2, 4, 6, 3, 1, 5]
  read := read

/-- A buffer is allocated, but the thread cannot be bound; then an argument is missing. -/
theorem releases_of_calls_twice : ∃ s' : Session ℚ,
    Calls 4 520 strtod ⟨⟨0, 0, 0⟩, 0, none, [], 0⟩
      [(xeonCall 0 { wrapping with bound := false }, -1), (xeonCall (-1) wrapping, -1)] s' ∧
    s'.live = [] ∧ s'.stray ≠ 0 ∧ (sigintHandler s').stray ≠ s'.stray := by
  have some' : (bufInit 4 [2, 4, 6, 3, 1, 5] 4096 520).isSome = true := by decide +kernel
  obtain ⟨made, isMade⟩ := Option.isSome_iff_exists.mp some'
  have late : ¬ (xeonCall 0 { wrapping with bound := false }).Early := by decide
  have early : (xeonCall (-1) wrapping).Early := .inl rfl
  have first : getNumaLatency 4 520 (strtod : Literal → ℚ) 0 ⟨⟨0, 0, 0⟩, 0, none, [], 0⟩
      (xeonCall 0 { wrapping with bound := false }) =
      some (.ok (-1, ⟨.ofFreq 2200000000, 0, some 4096, [], 0⟩)) := by
    rw [getNumaLatency_late late]
    show (calibrate (strtod : Literal → ℚ) xeonMachine _ _ 0).bind _ = _
    rw [calibrate_xeon, xeon_hz.1, Option.bind_some]
    show (bufInit 4 [2, 4, 6, 3, 1, 5] 4096 520).bind _ = _
    rw [isMade]
    rfl
  have second := @getNumaLatency_early ℚ _ _ 4 _ 520 0 strtod
    ⟨.ofFreq 2200000000, 0, some 4096, [], 0⟩ _ early
  have run := Calls.cons first (.cons second (.nil _))
  obtain ⟨released, stray, handler, _⟩ := releases_of_calls run rfl rfl rfl
  refine ⟨_, run, released, ?_, ?_⟩
  · intro none
    have leaves := stray.mp none [_] _ [] rfl early
    cases leaves
  · intro same
    cases handler.mp same

/-! ### A measurement -/

section Rounded

variable {n : Nat} [NeZero n] {size : Nat} {D : Type} [Truncating D]

/-- The average of so many laps, as it is computed from their cycles. -/
def lapsAverage {env : ReadEnv} {a b : Nat} (t : Timing D) (clock : Clock env a b) (last : Nat) :
    D :=
  Double.ofInt (clock.cycles last - clock.cycles 0 : Nat) * t.nsofclk
    / Double.ofInt (last * readNum : Nat)

/-- A call that gets its buffer, binds its thread and finds a frequency of its own measures the
same whatever calls there were before: the average latency of the reads of a second of the counter,
up to a cycle and up to the end of the last lap. -/
theorem get_numa_latency_measures {number : Literal → D} {call : Call} (late : ¬ call.Early)
    {buf : Int} (allocated : call.allocated = some buf) {mem : IntMap} {rest : List Nat}
    (made : bufInit n call.draws buf size = some (mem, rest)) (block : n * lineSize ≤ size)
    {t before : Timing D} {k : Nat}
    (calibrated : calibrate number call.calibration call.tvbase before k = some t)
    (own : call.calibration.Own number) (credible : t.Credible) {a b : Nat}
    (clock : Clock call.read a b) (pos : 0 < a) (room : t.clkofsec.toNat + 1 + b ≤ 2 ^ 64)
    (few : (t.clkofsec.toNat + 1) * readNum < 2 ^ 64) (bound : call.read.bound = true) :
    ∃ run last : Nat, run ≤ t.clkofsec.toNat + 1 ∧ t.clkofsec.toNat ≤ run + 1 ∧
      Laps clock run last ∧
      (∀ (s : Session D) (fuel : Nat), max k last ≤ fuel → ∃ latest,
        getNumaLatency n size number fuel s call = some (.ok (lapsAverage t clock last, { s with
          timing := t
          latestAvglat := latest
          sBuf := some buf }))) ∧
      Apart 53 4 ((clock.cycles last - clock.cycles 0 : ℚ) * Rounded.val t.nsofclk
        / (last * readNum)) (Rounded.val (lapsAverage t clock last)) ∧
      a * Rounded.val t.nsofclk / readNum ≤
        (clock.cycles last - clock.cycles 0 : ℚ) * Rounded.val t.nsofclk / (last * readNum) ∧
      (clock.cycles last - clock.cycles 0 : ℚ) * Rounded.val t.nsofclk / (last * readNum) ≤
        b * Rounded.val t.nsofclk / readNum := by
  have consistent := calibrate_consistent own calibrated credible
  obtain ⟨most, least⟩ := consistent.runCyc_near credible
  have some' : 0 < runCyc t measTimeDefault := consistent.runCyc_pos credible
  have most' : (runCyc t measTimeDefault).toNat ≤ t.clkofsec.toNat + 1 := most
  obtain ⟨last, laps, measures⟩ := dependentRead_laps (bufRead_bufInit made block) t call.read
    measTimeDefault clock pos some' (by omega)
    (lt_of_le_of_lt (Nat.mul_le_mul_right _ most') few) bound
  refine ⟨_, last, most, least, laps, fun s fuel enough => ?_,
    laps.apart_average consistent.nsofclk_pos.le,
    laps.average_between consistent.nsofclk_pos.le⟩
  exact ⟨_, getNumaLatency_reads late allocated made calibrated own measures enough⟩

theorem xeon_credible : (Timing.ofFreq 2200000000 : Timing Binary64).Credible where
  counts := by decide
  nsofclk_pos := by decide +kernel
  slow := by decide +kernel

theorem get_numa_latency_measures_xeon : ∃ (last : Nat) (v : Binary64),
    (∀ (s : Session Binary64) (fuel : Nat), max 0 last ≤ fuel → ∃ latest,
      getNumaLatency 4 520 strtod fuel s (xeonCall 0 wrapping) = some (.ok (v, { s with
        timing := .ofFreq 2200000000
        latestAvglat := latest
        sBuf := some 4096 }))) ∧
    Apart 53 4 ((30000000 : ℚ) * (Timing.ofFreq 2200000000 : Timing Binary64).nsofclk.val / readNum)
      v.val := by
  have some' : (bufInit 4 [2, 4, 6, 3, 1, 5] 4096 520).isSome = true := by decide +kernel
  obtain ⟨⟨mem, rest⟩, made⟩ := Option.isSome_iff_exists.mp some'
  have late : ¬ (xeonCall 0 wrapping).Early := by decide
  have calibrated := calibrate_xeon (D := Binary64) ⟨1000, 0⟩ uncalibrated 0
  rw [xeon_hz.2] at calibrated
  obtain ⟨_, last, _, _, _, measures, apart, low, high⟩ := get_numa_latency_measures late rfl made
    (by decide) calibrated (.inr (.inr rfl)) xeon_credible wrapping_clock (by decide) (by decide)
    (by decide) rfl
  rw [le_antisymm high low] at apart
  exact ⟨last, _, measures, by exact_mod_cast apart⟩

end Rounded

end VNams.Mgen
