import VNams.Nuiod.Bounds
import VNams.Strategy.Reads
import VNams.Strategy.Threshold

/-!
The configuration, and how far it reaches.

`parse_conf` reads `io_threshold` into a member of the daemon. The strategy has its own: `main`
constructs it with 100000 before the file is read, and nothing passes the member on. So the
decisions of a round are those for the configured threshold only where that is 100000.
-/

namespace VNams

open Lib CText Monitor Strategy

namespace Nuiod

/-- The members that `parse_conf` writes. -/
structure Conf where
  netdev : Text
  netdevPciBusStr : Text
  netdevPciSlotStr : Text
  netdevPciFunctStr : Text
  netdevPciBusVal : UInt32
  netdevPciSlotVal : UInt32
  netdevPciFunctVal : UInt32
  /-- monitor interval(unit:second) -/
  monitorInterval : UInt32
  /-- I/O intensive threshold -/
  ioThreshold : UInt64
  deriving DecidableEq

/-- `NETDEV_LEN`. -/
def netdevLen : Nat := 32

/-- `PCI_STR_LEN`. -/
def pciStrLen : Nat := 8

/-- `MAXLINE`. -/
def maxLine : Nat := 128

/-- `sscanf(line, "key=%s", buf)`, with `=` part of the key: what `buf` holds afterwards. -/
def scanSetting (key : Text) (size : Nat) (line buf : Text) : Except Fault Text :=
  match (afterLiteral key line).bind scanString with
  | none => .ok buf
  | some token => if token.length < size then .ok token else .error .bufferOverflow

/-- The value of a hexadecimal setting as an `unsigned int`. -/
def hexValue (str : Text) : UInt32 := UInt32.ofInt (strtol 16 str).1

/-- One line of the file. -/
def parseLine (conf : Conf) (line : Text) : Except Fault Conf :=
  if line.head? = some '#' then .ok conf
  else if (strstr "netdev".toList line).isSome then do
    let netdev ← scanSetting "netdev=".toList netdevLen line conf.netdev
    .ok { conf with netdev := netdev }
  else if (strstr "pci_bus".toList line).isSome then do
    let str ← scanSetting "pci_bus=".toList pciStrLen line conf.netdevPciBusStr
    .ok { conf with netdevPciBusStr := str, netdevPciBusVal := hexValue str }
  else if (strstr "pci_slot".toList line).isSome then do
    let str ← scanSetting "pci_slot=".toList pciStrLen line conf.netdevPciSlotStr
    .ok { conf with netdevPciSlotStr := str, netdevPciSlotVal := hexValue str }
  else if (strstr "pci_function".toList line).isSome then do
    let str ← scanSetting "pci_function=".toList pciStrLen line conf.netdevPciFunctStr
    .ok { conf with netdevPciFunctStr := str, netdevPciFunctVal := hexValue str }
  else if (strstr "monitor_interval".toList line).isSome then
    let read := (afterLiteral "monitor_interval=".toList line).bind scanUnsigned
    .ok { conf with monitorInterval := read.getD conf.monitorInterval }
  else if (strstr "io_threshold".toList line).isSome then
    let read := (afterLiteral "io_threshold=".toList line).bind scanUnsigned64
    .ok { conf with ioThreshold := read.getD conf.ioThreshold }
  else .ok conf

/-- Parsing /etc/nuiod.conf; -1 when it cannot be opened. -/
def parseConf (conf : Conf) (file : Option Text) : Except Fault (Int × Conf) :=
  match file with
  | none => .ok (-1, conf)
  | some text => do
      let conf ← (fgets maxLine text).foldlM parseLine conf
      .ok (0, conf)

/-- `main` up to the loop: the strategy is constructed, then the daemon (`rest` is what its
members contain, but for `io_threshold`), and `init` parses the file and looks at the machine.
What it finds there depends on the NIC. -/
def launch {D : Type} [Double D] (numaNumber cpuNumber : Nat) (rest : Conf)
    (file : Option Text) (machine : Text → Machine D) : Except Fault (Int × Conf × Nuiod D) := do
  let strategy : SimpleStrategy := {}
  let parsed ← parseConf { rest with ioThreshold := 0 } file
  let conf := parsed.2
  let nuiod := Nuiod.new ⟨numaNumber, conf.netdevPciBusStr, conf.netdevPciSlotVal⟩ cpuNumber
    strategy
  if parsed.1 = -1 then .ok (-1, conf, nuiod)
  else do
    let r ← nuiod.init (machine conf.netdev)
    .ok (r.1, conf, r.2)

/-! ### A line that sets the threshold -/

/-- The line `io_threshold=T`. -/
def thresholdLine (threshold : UInt64) : Text :=
  "io_threshold=".toList ++ Nat.toDigits 10 threshold.toNat

theorem thresholdKey_eq : "io_threshold=".toList
    = ['i', 'o', '_', 't', 'h', 'r', 'e', 's', 'h', 'o', 'l', 'd', '='] := by
  decide +kernel

theorem thresholdLine_eq (threshold : UInt64) :
    thresholdLine threshold = ['i', 'o', '_', 't', 'h', 'r', 'e', 's', 'h', 'o', 'l', 'd', '=']
      ++ Nat.toDigits 10 threshold.toNat := by
  unfold thresholdLine
  rw [thresholdKey_eq]

/-- None of the other settings occurs in it. -/
theorem strstr_thresholdLine {needle : Text} {c : Char} (threshold : UInt64) (wanted : c ∈ needle)
    (notDigit : c.isDigit = false)
    (other : c ∉ ['i', 'o', '_', 't', 'h', 'r', 'e', 's', 'h', 'o', 'l', 'd', '=', '\n']) :
    strstr needle (thresholdLine threshold ++ ['\n']) = none := by
  refine strstr_eq_none wanted fun mem => ?_
  rw [thresholdLine_eq, List.append_assoc, List.mem_append, List.mem_append] at mem
  rcases mem with key | digit | newline
  · exact other (List.mem_append_left ['\n'] key)
  · rw [isDigit_of_mem c digit] at notDigit
    cases notDigit
  · obtain rfl := List.mem_singleton.mp newline
    exact other (by decide)

/-- It does, for every threshold. -/
theorem parseLine_thresholdLine (threshold : UInt64) (conf : Conf) :
    parseLine conf (thresholdLine threshold ++ ['\n'])
      = .ok { conf with ioThreshold := threshold } := by
  have noNetdev : strstr "netdev".toList (thresholdLine threshold ++ ['\n']) = none :=
    strstr_thresholdLine (c := 'v') threshold (by decide +kernel) (by decide) (by decide)
  have noBus : strstr "pci_bus".toList (thresholdLine threshold ++ ['\n']) = none :=
    strstr_thresholdLine (c := 'p') threshold (by decide +kernel) (by decide) (by decide)
  have noSlot : strstr "pci_slot".toList (thresholdLine threshold ++ ['\n']) = none :=
    strstr_thresholdLine (c := 'p') threshold (by decide +kernel) (by decide) (by decide)
  have noFunct : strstr "pci_function".toList (thresholdLine threshold ++ ['\n']) = none :=
    strstr_thresholdLine (c := 'p') threshold (by decide +kernel) (by decide) (by decide)
  have noInterval : strstr "monitor_interval".toList (thresholdLine threshold ++ ['\n']) = none :=
    strstr_thresholdLine (c := 'm') threshold (by decide +kernel) (by decide) (by decide)
  have number := scanUnsigned64_toDigits threshold.toNat_lt []
  have key : "io_threshold".toList = ['i', 'o', '_', 't', 'h', 'r', 'e', 's', 'h', 'o', 'l', 'd'] := by
    decide +kernel
  have here : (strstr "io_threshold".toList (thresholdLine threshold ++ ['\n'])).isSome = true := by
    rw [key, thresholdLine_eq]
    simp [strstr, List.isPrefixOf]
  have behind : afterLiteral "io_threshold=".toList (thresholdLine threshold ++ ['\n'])
      = some (Nat.toDigits 10 threshold.toNat ++ ['\n']) := by
    rw [thresholdKey_eq, thresholdLine_eq]
    simp [afterLiteral, List.isPrefixOf]
  have notComment : (thresholdLine threshold ++ ['\n']).head? ≠ some '#' := by
    rw [thresholdLine_eq]
    simp
  unfold parseLine
  simp only [noNetdev, noBus, noSlot, noFunct, noInterval, here, behind, notComment,
    Option.isSome_none, Bool.false_eq_true, if_false, if_true, Option.bind_some, number]
  simp

theorem newline_notMem_thresholdLine (threshold : UInt64) : '\n' ∉ thresholdLine threshold := by
  rw [thresholdLine_eq, List.mem_append, not_or]
  refine ⟨by decide, fun mem => ?_⟩
  have digit := isDigit_of_mem '\n' mem
  revert digit
  decide

/-- It fits the line buffer. -/
theorem thresholdLine_length (threshold : UInt64) :
    (thresholdLine threshold).length + 1 < maxLine := by
  have bound : threshold.toNat < 10 ^ 20 := by
    have small := threshold.toNat_lt
    omega
  have digits := (Nat.length_toDigits_le_iff (b := 10) (k := 20) (by decide) (by decide)).mpr bound
  rw [thresholdLine_eq, List.length_append]
  simp only [List.length_cons, List.length_nil, maxLine]
  omega

def busLine : Text := "pci_bus=0x07".toList

/-- A configuration that sets the PCI bus and the threshold. -/
def thresholdFile (threshold : UInt64) : Text :=
  busLine ++ '\n' :: (thresholdLine threshold ++ '\n' :: [])

/-- Members before the file is read. -/
def blankConf : Conf := ⟨[], [], [], [], 0, 0, 0, 0, 0⟩

/-- Those members when its first line is read. -/
def busConf : Conf := { blankConf with netdevPciBusStr := "0x07".toList, netdevPciBusVal := 7 }

theorem parseConf_thresholdFile (threshold : UInt64) :
    parseConf blankConf (some (thresholdFile threshold))
      = .ok (0, { busConf with ioThreshold := threshold }) := by
  have first : parseLine blankConf (busLine ++ ['\n']) = .ok busConf := by decide +kernel
  have newline : '\n' ∉ busLine := by decide +kernel
  have fits : busLine.length + 1 < maxLine := by decide +kernel
  have chunks : fgets maxLine (thresholdFile threshold)
      = [busLine ++ ['\n'], thresholdLine threshold ++ ['\n']] := by
    rw [thresholdFile, fgets_line newline fits,
      fgets_line (newline_notMem_thresholdLine threshold) (thresholdLine_length threshold)]
    rfl
  have read : (fgets maxLine (thresholdFile threshold)).foldlM parseLine blankConf
      = .ok { busConf with ioThreshold := threshold } := by
    rw [chunks, List.foldlM_cons]
    apply bind_eq_ok.mpr
    exists busConf, first
    rw [List.foldlM_cons]
    apply bind_eq_ok.mpr
    exact ⟨_, parseLine_thresholdLine threshold busConf, rfl⟩
  exact bind_eq_ok.mpr ⟨_, read, rfl⟩

/-! ### The strategy of the daemon -/

section Strategy

variable {D : Type} [Double D]

theorem move_strategy {nuiod nuiod' : Nuiod D} {m : Move D} (done : nuiod.move m = .ok nuiod') :
    nuiod'.strategy = nuiod.strategy := by
  cases m with
  | event e rest =>
      obtain ⟨⟨ret, mid⟩, handled, stored⟩ := bind_eq_ok.mp done
      cases stored
      cases virVMEventCallBack_spec handled with
      | started _ _ => rfl
      | removed _ _ _ => rfl
      | recorded _ _ _ => rfl
      | ignored _ _ => rfl
  | refresh report key =>
      rcases refreshVm_spec done with ⟨_, _, _, rfl⟩ | ⟨_, rfl⟩
      · rfl
      · rfl
  | monitor env =>
      rw [(monitor_spec done).rest]
  | act lists pins entry =>
      rcases performAct_spec done with ⟨_, _, _, rfl⟩ | ⟨_, rfl⟩
      · rfl
      · rfl

theorem run_strategy {nuiod nuiod' : Nuiod D} {ops : List (Op D)}
    (run : Run step Anything nuiod ops nuiod') : nuiod'.strategy = nuiod.strategy := by
  obtain ⟨moves, run⟩ := run_moves run
  have keeps : ∀ (mid : Nuiod D) m mid', mid.strategy = nuiod.strategy → Anything mid m →
      mid.move m = .ok mid' → mid'.strategy = nuiod.strategy :=
    fun _ _ _ same _ done => (move_strategy done).trans same
  exact run.invariant keeps rfl

/-- What `init` was given is kept. -/
theorem init_strategy {nuiod nuiod' : Nuiod D} {machine : Machine D} {ret : Int}
    (booted : nuiod.init machine = .ok (ret, nuiod')) : nuiod'.strategy = nuiod.strategy := by
  have added : ∀ {flag added}, nuiod.initVminfo machine.listing = .ok (flag, added) →
      added.strategy = nuiod.strategy := by
    intro flag added listed
    obtain ⟨_, _, same⟩ := initVminfo_invariant (fun _ mid => mid.strategy = nuiod.strategy)
      (fun _ mid domId flag mid' _ same adds => by
        obtain ⟨vm, _, rfl⟩ := addVm_spec adds
        exact same)
      rfl listed
    exact same
  cases init_spec booted with
  | failed listed => exact added listed
  | ready listed _ _ _ =>
      have same := added listed
      exact same

/-- A daemon that runs was initialised with what the file says, and the strategy of `main`. -/
theorem launch_spec {numaNumber cpuNumber : Nat} {rest conf : Conf} {file : Option Text}
    {machine : Text → Machine D} {nuiod₀ : Nuiod D}
    (launched : launch numaNumber cpuNumber rest file machine = .ok (0, conf, nuiod₀)) :
    (Nuiod.new ⟨numaNumber, conf.netdevPciBusStr, conf.netdevPciSlotVal⟩ cpuNumber {}).init
      (machine conf.netdev) = .ok (0, nuiod₀) := by
  obtain ⟨parsed, _, launched⟩ := bind_eq_ok.mp launched
  split at launched
  · cases launched
  · obtain ⟨⟨ret, started⟩, booted, stored⟩ := bind_eq_ok.mp launched
    cases stored
    exact booted

theorem launch_of_init {numaNumber cpuNumber : Nat} {rest conf : Conf} {file : Option Text}
    {machine : Text → Machine D} {nuiod₀ : Nuiod D}
    (parsed : parseConf { rest with ioThreshold := 0 } file = .ok (0, conf))
    (booted : (Nuiod.new ⟨numaNumber, conf.netdevPciBusStr, conf.netdevPciSlotVal⟩ cpuNumber
      {}).init (machine conf.netdev) = .ok (0, nuiod₀)) :
    launch numaNumber cpuNumber rest file machine = .ok (0, conf, nuiod₀) := by
  apply bind_eq_ok.mpr
  exists (0, conf), parsed
  exact bind_eq_ok.mpr ⟨(0, nuiod₀), booted, rfl⟩

end Strategy

/-! ### The threshold and the decisions -/

/-- What the daemon is run with, but for the file: the rounds it completes, and the one in
which the strategy is called. -/
structure Setting where
  numaNumber : Nat
  cpuNumber : Nat
  rest : Conf
  machine : Text → Machine ℚ
  rounds : List (Round ℚ)
  round : Round ℚ

namespace Setting

/-- The operations before the call. -/
def ops (setting : Setting) : List (Op ℚ) :=
  setting.rounds.flatMap Round.ops ++ setting.round.measuring

/-- With this file, the daemon reads `conf` and calls the strategy in the state `nuiod`. -/
def Calls (setting : Setting) (file : Text) (conf : Conf) (nuiod : Nuiod ℚ) : Prop :=
  ∃ nuiod₀, launch setting.numaNumber setting.cpuNumber setting.rest (some file) setting.machine
      = .ok (0, conf, nuiod₀) ∧
    Run step Anything nuiod₀ setting.ops nuiod

/-- What the loop of the call classifies against. -/
def classes (setting : Setting) (nuiod : Nuiod ℚ) : Except Fault Classified :=
  classify nuiod.strategy nuiod.scheduleArgs setting.round.strategy.vmStateSlot

/-- The VMs that the call lists. -/
def active (setting : Setting) (nuiod : Nuiod ℚ) : List (VmInfo ℚ) :=
  scheduled nuiod.scheduleArgs setting.round.strategy.vmStateSlot

variable {setting : Setting} {file₁ file₂ : Text} {conf₁ conf₂ : Conf} {nuiod₁ nuiod₂ : Nuiod ℚ}

/-- The call decides with the strategy that `main` constructed. -/
theorem Calls.strategy (calls : setting.Calls file₁ conf₁ nuiod₁) : nuiod₁.strategy = {} := by
  obtain ⟨nuiod₀, launched, run⟩ := calls
  exact (run_strategy run).trans (init_strategy (launch_spec launched))

/-- The state of the call does not depend on the threshold in the file. -/
theorem Calls.same_state (calls₁ : setting.Calls file₁ conf₁ nuiod₁)
    (calls₂ : setting.Calls file₂ conf₂ nuiod₂)
    (same : conf₂ = { conf₁ with ioThreshold := conf₂.ioThreshold }) : nuiod₂ = nuiod₁ := by
  obtain ⟨start₁, launched₁, run₁⟩ := calls₁
  obtain ⟨start₂, launched₂, run₂⟩ := calls₂
  have booted₁ := launch_spec launched₁
  have booted₂ := launch_spec launched₂
  rw [same] at booted₂
  have sameStart : start₁ = start₂ := (Prod.mk.inj (Except.ok.inj (booted₁.symm.trans booted₂))).2
  rw [← sameStart] at run₂
  exact Except.ok.inj ((Run.foldlM_iff.mpr run₂).symm.trans (Run.foldlM_iff.mpr run₁))

end Setting

/-- The configured threshold decides: with every file that sets it to `threshold`, all
decisions are those of the algorithm that classifies against `threshold`. -/
def Governs (threshold : UInt64) : Prop :=
  ∀ (setting : Setting) (file : Text) (conf : Conf) (nuiod : Nuiod ℚ),
    setting.Calls file conf nuiod → conf.ioThreshold = threshold →
    nuiod.scheduleActs setting.round.strategy
      = schedule ⟨threshold.toNat⟩ nuiod.scheduleArgs setting.round.strategy.vmStateSlot
          setting.round.strategy.ties

/-- The smoothed rate of the VM lies above the first threshold and not above the second. -/
def InBand (low high : UInt64) (vm : VmInfo ℚ) : Prop :=
  (low.toNat : ℚ) < smoothedRate vm ∧ smoothedRate vm ≤ high.toNat

instance inBandDecidable (low high : UInt64) (vm : VmInfo ℚ) : Decidable (InBand low high vm) :=
  inferInstanceAs (Decidable (_ ∧ _))

/-- The states that two calls read differ for exactly the VMs in the band. -/
def DiffersInBand (low high : UInt64) (states₁ states₂ : VmStateMap) (vms : List (VmInfo ℚ)) :
    Prop :=
  ∀ vm ∈ vms, (states₁.read vm.domId ≠ states₂.read vm.domId ↔ InBand low high vm)

/-- A VM whose smoothed rate is not the threshold has the class of every threshold on the same
side of the rate. -/
theorem analyzeIOState_congr {vm : VmInfo ℚ} {t t' : Int}
    (sides : ((t : ℚ) < smoothedRate vm ∧ (t' : ℚ) < smoothedRate vm) ∨
      (smoothedRate vm < t ∧ smoothedRate vm < t')) :
    analyzeIOState ⟨t⟩ vm = analyzeIOState ⟨t'⟩ vm := by
  have cast : ∀ n : Int, (Double.ofInt n : ℚ) = n := fun _ => rfl
  funext states
  simp only [analyzeIOState, smoothedPps_eq, cast]
  rcases sides with ⟨above, above'⟩ | ⟨below, below'⟩
  · rw [if_pos above, if_pos above']
  · rw [if_neg below.not_gt, if_pos below, if_neg below'.not_gt, if_pos below']

/-! ### One VM between the thresholds -/

/-- One domain with its pages on node 1, away from the NIC. -/
def farMachine : Machine ℚ :=
  let far : DomainEnv := { guest (some 2) with numaMaps := fun _ => some "N1=5".toList }
  { smallMachine [(1, 2)] with listing := { (smallMachine [(1, 2)]).listing with domain := fun _ => far } }

/-- A round without events in which the domain has received `packets` packets in all. -/
def trafficRound (packets timestampUsec : UInt64) (jiffies : UInt64) : Round ℚ where
  events := []
  report _ := none
  monitor := { statOnly (evenStat jiffies) with
    io := fun _ => ⟨some (some packets), some (some 0), some (some 0), some (some 0), timestampUsec⟩ }
  strategy := plainStrategy

/-- Two seconds with `packets` packets, twice. -/
def traffic (packets : UInt64) : Setting where
  numaNumber := 2
  cpuNumber := 4
  rest := blankConf
  machine _ := farMachine
  rounds := [trafficRound packets 2000000 200]
  round := trafficRound (2 * packets) 4000000 300

/-- What a call decides, what it would decide against `near`, and the rate of its VMs. -/
structure Decides (near : Int) (rate : ℚ) (acts against : List Decision) (nuiod : Nuiod ℚ) :
    Prop where
  acts : nuiod.scheduleActs plainStrategy = .ok acts
  against : schedule ⟨near⟩ nuiod.scheduleArgs plainStrategy.vmStateSlot plainStrategy.ties
    = .ok against
  rate : ∀ vm ∈ nuiod.vmInfosMap.values, smoothedRate vm = rate

/-- The same, computed. -/
def decides (near : Int) (rate : ℚ) (acts against : List Decision) (nuiod : Nuiod ℚ) : Bool :=
  returns (fun found => found == acts) (nuiod.scheduleActs plainStrategy) &&
    (returns (fun found => found == against)
      (schedule ⟨near⟩ nuiod.scheduleArgs plainStrategy.vmStateSlot plainStrategy.ties) &&
    nuiod.vmInfosMap.values.all fun vm => smoothedRate vm == rate)

theorem decides_iff {near : Int} {rate : ℚ} {acts against : List Decision} {nuiod : Nuiod ℚ} :
    decides near rate acts against nuiod = true ↔ Decides near rate acts against nuiod := by
  simp only [decides, Bool.and_eq_true, returns_iff, List.all_eq_true, beq_iff_eq]
  constructor
  · rintro ⟨⟨_, scheduled, rfl⟩, ⟨_, scheduled', rfl⟩, rate⟩
    exact ⟨scheduled, scheduled', rate⟩
  · rintro ⟨scheduled, scheduled', rate⟩
    exact ⟨⟨_, scheduled, rfl⟩, ⟨_, scheduled', rfl⟩, rate⟩

/-- That run is one for every threshold in the file. -/
theorem traffic_calls {packets : UInt64} {nuiod₀ nuiod : Nuiod ℚ}
    (booted : smallNuiod.init farMachine = .ok (0, nuiod₀))
    (run : Run step Anything nuiod₀ (traffic packets).ops nuiod) (threshold : UInt64) :
    (traffic packets).Calls (thresholdFile threshold) { busConf with ioThreshold := threshold }
      nuiod :=
  ⟨nuiod₀, launch_of_init (parseConf_thresholdFile threshold) booted, run⟩

/-- A call of that run, found by computing it. -/
theorem exists_call {packets : UInt64} {near : Int} {rate : ℚ} {acts against : List Decision}
    (computed : returns (fun r => r.1 == 0 && returns (decides near rate acts against)
      ((traffic packets).ops.foldlM step r.2)) (smallNuiod.init farMachine) = true) :
    ∃ nuiod, Decides near rate acts against nuiod ∧ ∀ threshold,
      (traffic packets).Calls (thresholdFile threshold) { busConf with ioThreshold := threshold }
        nuiod := by
  obtain ⟨nuiod₀, nuiod, booted, run, passed⟩ := exists_run step (traffic packets).ops
    (smallNuiod.init farMachine) (decides near rate acts against) computed
  exact ⟨nuiod, decides_iff.mp passed, traffic_calls booted run⟩

/-- The VM receives IO intensively, though not against `near`. -/
theorem busy_call : ∃ nuiod, Decides 200000 (200001 / 2) [⟨1, 0, 0⟩] [⟨1, 1, 1⟩] nuiod ∧
    ∀ threshold, (traffic 200001).Calls (thresholdFile threshold)
      { busConf with ioThreshold := threshold } nuiod :=
  exists_call (by decide +kernel)

/-- The VM does not, though it does against `near`. -/
theorem quiet_call : ∃ nuiod, Decides 0 (199999 / 2) [⟨1, 1, 1⟩] [⟨1, 0, 0⟩] nuiod ∧
    ∀ threshold, (traffic 199999).Calls (thresholdFile threshold)
      { busConf with ioThreshold := threshold } nuiod :=
  exists_call (by decide +kernel)

/-- A call that decides otherwise than against `near`, where `near` and the threshold lie on
the same side of the rate. -/
theorem not_governs_of_call {setting : Setting} {threshold : UInt64} {near : Int} {rate : ℚ}
    {acts against : List Decision} {nuiod : Nuiod ℚ}
    (decided : Decides near rate acts against nuiod) (differ : acts ≠ against)
    (plain : setting.round.strategy = plainStrategy)
    (calls : setting.Calls (thresholdFile threshold) { busConf with ioThreshold := threshold }
      nuiod)
    (sides : (((threshold.toNat : Int) : ℚ) < rate ∧ (near : ℚ) < rate) ∨
      (rate < ((threshold.toNat : Int) : ℚ) ∧ rate < near)) : ¬ Governs threshold := by
  intro governs
  have governed := governs setting _ _ nuiod calls rfl
  rw [plain, decided.acts] at governed
  have same : schedule ⟨threshold.toNat⟩ nuiod.scheduleArgs plainStrategy.vmStateSlot
      plainStrategy.ties = .ok against := by
    rw [← decided.against]
    refine schedule_strategy (fun vm mem => analyzeIOState_congr ?_) plainStrategy.ties
    rw [decided.rate vm mem]
    exact sides
  rw [same] at governed
  exact differ (Except.ok.inj governed)

/-- Every other threshold than that of `main` is ignored in some run. -/
theorem not_governs {threshold : UInt64} (other : threshold ≠ 100000) : ¬ Governs threshold := by
  have apart : threshold.toNat ≠ 100000 := fun same => other (UInt64.toNat_inj.mp same)
  rcases Nat.lt_or_gt_of_ne apart with below | above
  · obtain ⟨nuiod, decided, calls⟩ := quiet_call
    apply not_governs_of_call decided (by decide) rfl (calls threshold)
    left
    have cast : ((threshold.toNat : Int) : ℚ) ≤ 99999 := by exact_mod_cast Nat.le_pred_of_lt below
    constructor
    · linarith
    · norm_num
  · obtain ⟨nuiod, decided, calls⟩ := busy_call
    apply not_governs_of_call decided (by decide) rfl (calls threshold)
    right
    have cast : (100001 : ℚ) ≤ ((threshold.toNat : Int) : ℚ) := by exact_mod_cast above
    constructor
    · linarith
    · norm_num

/-- The configured threshold decides only where it is the one that `main` constructs the
strategy with. Two runs whose files differ in the threshold alone read the same states: they
differ for exactly the VMs in the band only when no listed VM is in it. -/
theorem governs_iff (threshold : UInt64) :
    (Governs threshold ↔ threshold = 100000) ∧
      ∀ (setting : Setting) (file₁ file₂ : Text) (conf₁ conf₂ : Conf) (nuiod₁ nuiod₂ : Nuiod ℚ),
        setting.Calls file₁ conf₁ nuiod₁ → setting.Calls file₂ conf₂ nuiod₂ →
        conf₁.ioThreshold = threshold → conf₂ = { conf₁ with ioThreshold := conf₂.ioThreshold } →
        ∀ c₁ c₂, setting.classes nuiod₁ = .ok c₁ → setting.classes nuiod₂ = .ok c₂ →
          (DiffersInBand threshold conf₂.ioThreshold c₁.vmStateMap c₂.vmStateMap
              (setting.active nuiod₁) ↔
            ∀ vm ∈ setting.active nuiod₁, ¬ InBand threshold conf₂.ioThreshold vm) := by
  constructor
  · constructor
    · exact fun governs => by_contra fun other => not_governs other governs
    · rintro rfl setting file conf nuiod calls -
      unfold scheduleActs
      rw [calls.strategy]
      rfl
  · intro setting file₁ file₂ conf₁ conf₂ nuiod₁ nuiod₂ calls₁ calls₂ _ same c₁ c₂ classes₁ classes₂
    obtain rfl := calls₁.same_state calls₂ same
    obtain rfl := Except.ok.inj (classes₁.symm.trans classes₂)
    constructor
    · exact fun differs vm listed inBand => (differs vm listed).mpr inBand rfl
    · exact fun outside vm listed =>
        ⟨fun differ => absurd rfl differ, fun inBand => absurd inBand (outside vm listed)⟩

/-- Files with 100000 and 200000, and a VM that receives 100000.5 packets per second: both runs
read the same state of it. -/
theorem governs_iff_busy : ∃ nuiod c,
    (traffic 200001).Calls (thresholdFile 100000) { busConf with ioThreshold := 100000 } nuiod ∧
    (traffic 200001).Calls (thresholdFile 200000) { busConf with ioThreshold := 200000 } nuiod ∧
    (traffic 200001).classes nuiod = .ok c ∧
    ¬ DiffersInBand 100000 200000 c.vmStateMap c.vmStateMap ((traffic 200001).active nuiod) := by
  obtain ⟨nuiod₀, nuiod, booted, run, passed⟩ := exists_run step (traffic 200001).ops
    (smallNuiod.init farMachine)
    (fun nuiod => returns (fun _ => true) ((traffic 200001).classes nuiod) &&
      ((traffic 200001).active nuiod).any fun vm => InBand 100000 200000 vm)
    (by decide +kernel)
  rw [Bool.and_eq_true, returns_iff, List.any_eq_true] at passed
  obtain ⟨⟨c, classes, _⟩, vm, listed, inBand⟩ := passed
  have calls := traffic_calls booted run
  refine ⟨nuiod, c, calls 100000, calls 200000, classes, fun differs => ?_⟩
  have outside := (governs_iff 100000).2 _ _ _ _ _ _ _ (calls 100000) (calls 200000) rfl rfl c c
    classes classes
  exact outside.mp differs vm listed (of_decide_eq_true inBand)

/-- With 200000 in the file, a VM that receives 100000.5 packets per second is still moved to the
NIC. -/
theorem ignored_threshold : ¬ Governs 200000 := not_governs (by decide)

end Nuiod

end VNams
