import VNams.Lib.Lines
import VNams.Lib.Search
import VNams.Nuiod.Conf

/-!
The lines of the configuration, and what `parse_conf` makes of them.

A line that begins with `<key>=` and a value sets the key (`setting`), and the last such line
counts. The code reads pieces of at most 127 characters and picks the key of a piece by the
words that occur anywhere in it (`taken`), in a fixed order. Where the two come to the same is a
matter of single lines: a line is read for what it is exactly when it is plain, and so is a file
of plain lines (`readsLines_iff`). A line that fits the buffer is plain when no word of another
key is tried before its own (`plainLine_iff_of_short`).
-/

namespace VNams.Nuiod

open Lib CText

/-- The settings of the file. -/
inductive Key where
  | netdev
  | pciBus
  | pciSlot
  | pciFunction
  | monitorInterval
  | ioThreshold
  deriving DecidableEq, Repr

/-- The value of a setting; that of a PCI number is kept as a string and as a number. -/
inductive Value where
  | text (str : Text)
  | pci (str : Text) (val : UInt32)
  | interval (seconds : UInt32)
  | threshold (packets : UInt64)
  deriving DecidableEq, Repr

namespace Value

/-- The strings fit their arrays. -/
def Fits : Value → Prop
  | .text str => str.length < netdevLen
  | .pci str _ => str.length < pciStrLen
  | .interval _ => True
  | .threshold _ => True

/-- The value of a PCI setting with the string. -/
def ofPci (str : Text) : Value := .pci str (hexValue str)

/-- The number of a PCI setting is computed again from its string. -/
def refresh : Value → Value
  | .pci str _ => ofPci str
  | value => value

@[simp] theorem refresh_refresh (value : Value) : value.refresh.refresh = value.refresh := by
  cases value <;> rfl

end Value

namespace Key

/-- What the lines of a key begin with. -/
def word : Key → Text
  | .netdev => "netdev".toList
  | .pciBus => "pci_bus".toList
  | .pciSlot => "pci_slot".toList
  | .pciFunction => "pci_function".toList
  | .monitorInterval => "monitor_interval".toList
  | .ioThreshold => "io_threshold".toList

/-- The keys in the order in which a line is searched for them. -/
def all : List Key :=
  [.netdev, .pciBus, .pciSlot, .pciFunction, .monitorInterval, .ioThreshold]

/-- The value of the key. -/
def get (conf : Conf) : Key → Value
  | .netdev => .text conf.netdev
  | .pciBus => .pci conf.netdevPciBusStr conf.netdevPciBusVal
  | .pciSlot => .pci conf.netdevPciSlotStr conf.netdevPciSlotVal
  | .pciFunction => .pci conf.netdevPciFunctStr conf.netdevPciFunctVal
  | .monitorInterval => .interval conf.monitorInterval
  | .ioThreshold => .threshold conf.ioThreshold

/-- The value written in a text behind the `=`. -/
def scan (s : Text) : Key → Option Value
  | .netdev => (scanString s).map .text
  | .pciBus => (scanString s).map .ofPci
  | .pciSlot => (scanString s).map .ofPci
  | .pciFunction => (scanString s).map .ofPci
  | .monitorInterval => (scanUnsigned s).map .interval
  | .ioThreshold => (scanUnsigned64 s).map .threshold

/-- The key is one of the PCI numbers. -/
def isPci : Key → Bool
  | .pciBus => true
  | .pciSlot => true
  | .pciFunction => true
  | _ => false

end Key

/-- The value that a line sets for a key: the line begins with `<key>=<value>`. -/
def setting (k : Key) (line : Text) : Option Value :=
  (afterLiteral (k.word ++ ['=']) line).bind fun s => k.scan s

/-- The key that a piece of text is read for: the first whose word occurs in it, unless it is
a comment. -/
def taken (piece : Text) : Option Key :=
  if piece.head? = some '#' then none
  else Key.all.find? fun k => (strstr k.word piece).isSome

/-- The value of the last text that has one. -/
def lastValue (value : Text → Option Value) (texts : List Text) : Option Value :=
  (texts.filterMap value).getLast?

/-- A piece as a change of one setting. -/
def change (k : Key) (piece : Text) (value : Value) : Value :=
  if taken piece = some k then (setting k piece).getD value.refresh else value

/-- What is set by a piece that is taken for a key fits its array. -/
def PieceFits (piece : Text) : Prop :=
  ∀ k value, taken piece = some k → setting k piece = some value → value.Fits

/-! ### One piece -/

theorem setting_refresh {k : Key} {line : Text} {value : Value}
    (sets : setting k line = some value) : value.refresh = value := by
  obtain ⟨s, _, scanned⟩ := Option.bind_eq_some_iff.mp sets
  cases k <;>
    · obtain ⟨_, _, rfl⟩ := Option.map_eq_some_iff.mp scanned
      rfl

/-- The branch that a piece is read in. -/
def branch (conf : Conf) (piece : Text) : Key → Except Fault Conf
  | .netdev => do
      let netdev ← scanSetting "netdev=".toList netdevLen piece conf.netdev
      .ok { conf with netdev := netdev }
  | .pciBus => do
      let str ← scanSetting "pci_bus=".toList pciStrLen piece conf.netdevPciBusStr
      .ok { conf with netdevPciBusStr := str, netdevPciBusVal := hexValue str }
  | .pciSlot => do
      let str ← scanSetting "pci_slot=".toList pciStrLen piece conf.netdevPciSlotStr
      .ok { conf with netdevPciSlotStr := str, netdevPciSlotVal := hexValue str }
  | .pciFunction => do
      let str ← scanSetting "pci_function=".toList pciStrLen piece conf.netdevPciFunctStr
      .ok { conf with netdevPciFunctStr := str, netdevPciFunctVal := hexValue str }
  | .monitorInterval =>
      let read := (afterLiteral "monitor_interval=".toList piece).bind scanUnsigned
      .ok { conf with monitorInterval := read.getD conf.monitorInterval }
  | .ioThreshold =>
      let read := (afterLiteral "io_threshold=".toList piece).bind scanUnsigned64
      .ok { conf with ioThreshold := read.getD conf.ioThreshold }

/-- A chain of tests is the first key that passes its test. -/
theorem find_all {α : Type} (comment : Prop) [Decidable comment] (found : Key → Bool) (other : α)
    (read : Key → α) :
    (if comment then other
      else if found .netdev then read .netdev
      else if found .pciBus then read .pciBus
      else if found .pciSlot then read .pciSlot
      else if found .pciFunction then read .pciFunction
      else if found .monitorInterval then read .monitorInterval
      else if found .ioThreshold then read .ioThreshold
      else other) = (if comment then none else Key.all.find? found).elim other read := by
  simp only [Key.all, List.find?_cons, List.find?_nil]
  by_cases isComment : comment
  case pos => simp only [isComment, if_true, Option.elim_none]
  simp only [isComment, if_false]
  cases found .netdev
  case true => rfl
  cases found .pciBus
  case true => rfl
  cases found .pciSlot
  case true => rfl
  cases found .pciFunction
  case true => rfl
  cases found .monitorInterval
  case true => rfl
  cases found .ioThreshold <;> rfl

/-- A line is read in the branch of the key that it is taken for. -/
theorem parseLine_eq (conf : Conf) (piece : Text) : parseLine conf piece =
    (taken piece).elim (.ok conf) (branch conf piece) := by
  have chain := find_all (piece.head? = some '#') (fun k => (strstr k.word piece).isSome)
    (.ok conf) (branch conf piece)
  unfold parseLine taken
  exact chain

/-- The value of a key, by the conversion behind its `=`. -/
theorem setting_eq {α : Type} {k : Key} {key : Text} {convert : Text → Option α}
    {make : α → Value} (isKey : k.word ++ ['='] = key)
    (isScan : ∀ s, k.scan s = (convert s).map make) (piece : Text) :
    setting k piece = ((afterLiteral key piece).bind convert).map make := by
  unfold setting
  rw [isKey]
  cases afterLiteral key piece with
  | none => rfl
  | some s => exact isScan s

theorem setting_netdev (piece : Text) : setting .netdev piece =
    ((afterLiteral "netdev=".toList piece).bind scanString).map .text :=
  setting_eq (by decide +kernel) (fun _ => rfl) piece

theorem setting_pciBus (piece : Text) : setting .pciBus piece =
    ((afterLiteral "pci_bus=".toList piece).bind scanString).map .ofPci :=
  setting_eq (by decide +kernel) (fun _ => rfl) piece

theorem setting_pciSlot (piece : Text) : setting .pciSlot piece =
    ((afterLiteral "pci_slot=".toList piece).bind scanString).map .ofPci :=
  setting_eq (by decide +kernel) (fun _ => rfl) piece

theorem setting_pciFunction (piece : Text) : setting .pciFunction piece =
    ((afterLiteral "pci_function=".toList piece).bind scanString).map .ofPci :=
  setting_eq (by decide +kernel) (fun _ => rfl) piece

theorem setting_monitorInterval (piece : Text) : setting .monitorInterval piece =
    ((afterLiteral "monitor_interval=".toList piece).bind scanUnsigned).map .interval :=
  setting_eq (by decide +kernel) (fun _ => rfl) piece

theorem setting_ioThreshold (piece : Text) : setting .ioThreshold piece =
    ((afterLiteral "io_threshold=".toList piece).bind scanUnsigned64).map .threshold :=
  setting_eq (by decide +kernel) (fun _ => rfl) piece

/-- A string that fits its array is stored, or the array keeps what it had. -/
theorem scanSetting_fits {key piece buf : Text} {size : Nat}
    (fits : ∀ token, (afterLiteral key piece).bind scanString = some token → token.length < size) :
    scanSetting key size piece buf =
      .ok (((afterLiteral key piece).bind scanString).getD buf) := by
  unfold scanSetting
  cases read : (afterLiteral key piece).bind scanString with
  | none => rfl
  | some token =>
      simp only [if_pos (fits token read)]
      rfl

theorem scanSetting_overflow {key piece buf token : Text} {size : Nat}
    (read : (afterLiteral key piece).bind scanString = some token) (long : ¬ token.length < size) :
    scanSetting key size piece buf = .error .bufferOverflow := by
  unfold scanSetting
  simp only [read, if_neg long]

/-- A string that is read fits its array, when the value made of it does. -/
theorem fits_of_map {read : Option Text} {make : Text → Value} {size : Nat}
    (isFit : ∀ str, (make str).Fits → str.length < size)
    (fits : ∀ value, read.map make = some value → value.Fits) :
    ∀ token, read = some token → token.length < size := by
  intro token isRead
  apply isFit
  apply fits
  rw [isRead]
  rfl

/-- A branch that stores a string sets its key, if the string fits, and makes the value of what
it had again otherwise. -/
theorem stored_spec {k : Key} {key piece buf : Text} {size : Nat} {make : Text → Value}
    {store : Text → Conf} {conf : Conf}
    (reads : setting k piece = ((afterLiteral key piece).bind scanString).map make)
    (isFit : ∀ str, (make str).Fits → str.length < size)
    (fits : ∀ value, setting k piece = some value → value.Fits)
    (own : ∀ str, k.get (store str) = make str) (had : (k.get conf).refresh = make buf)
    (others : ∀ str k', k' ≠ k → k'.get (store str) = k'.get conf) :
    ∃ conf', (do let str ← scanSetting key size piece buf; .ok (store str)) = Except.ok conf' ∧
      ∀ k' : Key, k'.get conf' =
        if k' = k then (setting k piece).getD (k.get conf).refresh else k'.get conf := by
  rw [reads] at fits ⊢
  have short := fits_of_map isFit fits
  refine ⟨_, bind_eq_ok.mpr ⟨_, scanSetting_fits short, rfl⟩, ?_⟩
  intro k'
  by_cases same : k' = k
  · subst same
    rw [if_pos rfl, own, had, Option.getD_map]
  · rw [if_neg same, others _ k' same]

/-- A branch sets its key, if what it sets fits, and computes the number of a PCI key again. -/
theorem branch_spec {k : Key} {piece : Text}
    (fits : ∀ value, setting k piece = some value → value.Fits) (conf : Conf) :
    ∃ conf', branch conf piece k = .ok conf' ∧ ∀ k' : Key, k'.get conf' =
      if k' = k then (setting k piece).getD (k.get conf).refresh else k'.get conf := by
  cases k with
  | netdev =>
      apply stored_spec (setting_netdev piece) (fun _ fit => fit) fits (fun _ => rfl) rfl
      intro str k' other
      cases k' <;> first | rfl | exact absurd rfl other
  | pciBus =>
      apply stored_spec (setting_pciBus piece) (fun _ fit => fit) fits (fun _ => rfl) rfl
      intro str k' other
      cases k' <;> first | rfl | exact absurd rfl other
  | pciSlot =>
      apply stored_spec (setting_pciSlot piece) (fun _ fit => fit) fits (fun _ => rfl) rfl
      intro str k' other
      cases k' <;> first | rfl | exact absurd rfl other
  | pciFunction =>
      apply stored_spec (setting_pciFunction piece) (fun _ fit => fit) fits (fun _ => rfl) rfl
      intro str k' other
      cases k' <;> first | rfl | exact absurd rfl other
  | monitorInterval =>
      rw [setting_monitorInterval]
      refine ⟨_, rfl, ?_⟩
      intro k'
      cases k' <;> first | rfl | exact (Option.getD_map _ _ _).symm
  | ioThreshold =>
      rw [setting_ioThreshold]
      refine ⟨_, rfl, ?_⟩
      intro k'
      cases k' <;> first | rfl | exact (Option.getD_map _ _ _).symm

/-- A branch that stored a string had room for it. -/
theorem stored_fits {key piece buf : Text} {size : Nat} {make : Text → Value}
    {store : Text → Conf} {conf' : Conf} {value : Value}
    (done : (do let str ← scanSetting key size piece buf; .ok (store str)) = Except.ok conf')
    (sets : ((afterLiteral key piece).bind scanString).map make = some value)
    (isFit : ∀ str, str.length < size → (make str).Fits) : value.Fits := by
  obtain ⟨token, read, rfl⟩ := Option.map_eq_some_iff.mp sets
  apply isFit
  by_contra long
  rw [scanSetting_overflow read long] at done
  cases done

/-- What does not fit overflows. -/
theorem branch_fits {k : Key} {piece : Text} {conf conf' : Conf}
    (done : branch conf piece k = .ok conf') {value : Value} (sets : setting k piece = some value) :
    value.Fits := by
  cases k with
  | netdev =>
      rw [setting_netdev] at sets
      exact stored_fits done sets fun _ fit => fit
  | pciBus =>
      rw [setting_pciBus] at sets
      exact stored_fits done sets fun _ fit => fit
  | pciSlot =>
      rw [setting_pciSlot] at sets
      exact stored_fits done sets fun _ fit => fit
  | pciFunction =>
      rw [setting_pciFunction] at sets
      exact stored_fits done sets fun _ fit => fit
  | monitorInterval =>
      rw [setting_monitorInterval] at sets
      obtain ⟨_, _, rfl⟩ := Option.map_eq_some_iff.mp sets
      exact trivial
  | ioThreshold =>
      rw [setting_ioThreshold] at sets
      obtain ⟨_, _, rfl⟩ := Option.map_eq_some_iff.mp sets
      exact trivial

/-- A piece that fits changes the settings as `change` says. -/
theorem parseLine_change {piece : Text} (fits : PieceFits piece) (conf : Conf) :
    ∃ conf', parseLine conf piece = .ok conf' ∧ ∀ k : Key, k.get conf' =
      change k piece (k.get conf) := by
  rw [parseLine_eq]
  unfold change
  cases isTaken : taken piece with
  | none => exact ⟨conf, rfl, fun k => rfl⟩
  | some k =>
      obtain ⟨conf', done, gets⟩ := branch_spec (fun value => fits k value isTaken) conf
      refine ⟨conf', done, ?_⟩
      intro k'
      rw [gets]
      by_cases same : k' = k
      · subst same
        rw [if_pos rfl, if_pos rfl]
      · rw [if_neg same, if_neg fun equal => same (Option.some.inj equal).symm]

theorem pieceFits_of_parseLine {piece : Text} {conf conf' : Conf}
    (done : parseLine conf piece = .ok conf') : PieceFits piece := by
  intro k value isTaken sets
  rw [parseLine_eq, isTaken] at done
  exact branch_fits done sets

/-! ### A file -/

theorem lastValue_cons (value : Text → Option Value) (text : Text) (texts : List Text) :
    lastValue value (text :: texts) = (lastValue value texts).or (value text) := by
  unfold lastValue
  rw [List.filterMap_cons]
  cases value text with
  | none => simp
  | some v =>
      rw [List.getLast?_cons]
      cases (texts.filterMap value).getLast? <;> rfl

theorem lastValue_append (value : Text → Option Value) (texts later : List Text) :
    lastValue value (texts ++ later) = (lastValue value later).or (lastValue value texts) := by
  unfold lastValue
  rw [List.filterMap_append, List.getLast?_append]

/-- Texts that come in groups: the last value of the last group that has one. -/
theorem lastValue_flatMap (value : Text → Option Value) (split : Text → List Text)
    (texts : List Text) : lastValue value (texts.flatMap split) =
      lastValue (fun text => lastValue value (split text)) texts := by
  induction texts with
  | nil => rfl
  | cons text texts ih => rw [List.flatMap_cons, lastValue_append, lastValue_cons, ih]

theorem lastValue_congr {value value' : Text → Option Value} {texts : List Text}
    (same : ∀ text ∈ texts, value text = value' text) :
    lastValue value texts = lastValue value' texts := by
  unfold lastValue
  rw [List.filterMap_congr same]

theorem lastValue_eq_none {value : Text → Option Value} {texts : List Text} :
    lastValue value texts = none ↔ ∀ text ∈ texts, value text = none := by
  unfold lastValue
  rw [List.getLast?_eq_none_iff, List.filterMap_eq_nil_iff]

/-- The last value is that of a text with none behind it. -/
theorem lastValue_eq_some {value : Text → Option Value} {texts : List Text} {v : Value} :
    lastValue value texts = some v ↔ ∃ before text after, texts = before ++ text :: after ∧
      value text = some v ∧ ∀ other ∈ after, value other = none := by
  constructor
  · intro last
    induction texts with
    | nil => cases last
    | cons text texts ih =>
        rw [lastValue_cons] at last
        cases later : lastValue value texts with
        | none =>
            rw [later, Option.none_or] at last
            exact ⟨[], text, texts, rfl, last, lastValue_eq_none.mp later⟩
        | some w =>
            rw [later, Option.some_or] at last
            obtain ⟨before, text', after, rfl, sets, none⟩ := ih (later.trans last)
            exact ⟨text :: before, text', after, rfl, sets, none⟩
  · rintro ⟨before, text, after, rfl, sets, none⟩
    rw [lastValue_append, lastValue_cons, lastValue_eq_none.mpr none, sets, Option.none_or,
      Option.some_or]

/-- What a piece sets for the key that it is taken for. -/
def pieceValue (k : Key) (piece : Text) : Option Value :=
  if taken piece = some k then setting k piece else none

/-- The pieces of a file come to the last value that is set; one that is only taken for a PCI
key computes the number again. -/
theorem foldl_change (k : Key) (pieces : List Text) (value : Value) :
    pieces.foldl (fun value piece => change k piece value) value =
      (lastValue (pieceValue k) pieces).getD
        (if ∃ piece ∈ pieces, taken piece = some k then value.refresh else value) := by
  induction pieces generalizing value with
  | nil => simp [lastValue]
  | cons piece pieces ih =>
      rw [List.foldl_cons, ih, lastValue_cons]
      by_cases isTaken : taken piece = some k
      · simp only [change, pieceValue, isTaken, if_true, List.mem_cons, exists_eq_or_imp, true_or]
        cases sets : setting k piece with
        | some v =>
            rw [Option.getD_some, setting_refresh sets]
            cases lastValue (pieceValue k) pieces <;> simp
        | none => simp
      · simp only [change, pieceValue, isTaken, if_false, List.mem_cons, exists_eq_or_imp, false_or,
          Option.or_none]

theorem foldlM_parseLine {pieces : List Text} (fits : ∀ piece ∈ pieces, PieceFits piece)
    (conf : Conf) :
    ∃ conf', pieces.foldlM parseLine conf = .ok conf' ∧ ∀ k : Key, k.get conf' =
      pieces.foldl (fun value piece => change k piece value) (k.get conf) := by
  induction pieces generalizing conf with
  | nil => exact ⟨conf, rfl, fun k => rfl⟩
  | cons piece pieces ih =>
      rw [List.forall_mem_cons] at fits
      obtain ⟨mid, first, changed⟩ := parseLine_change fits.1 conf
      obtain ⟨conf', done, gets⟩ := ih fits.2 mid
      refine ⟨conf', ?_, ?_⟩
      · rw [List.foldlM_cons]
        exact bind_eq_ok.mpr ⟨mid, first, done⟩
      · intro k
        rw [gets, changed, List.foldl_cons]

theorem fits_of_foldlM {pieces : List Text} {conf conf' : Conf}
    (done : pieces.foldlM parseLine conf = .ok conf') : ∀ piece ∈ pieces, PieceFits piece := by
  induction pieces generalizing conf with
  | nil => simp
  | cons piece pieces ih =>
      rw [List.foldlM_cons] at done
      obtain ⟨mid, first, later⟩ := bind_eq_ok.mp done
      exact List.forall_mem_cons.mpr ⟨pieceFits_of_parseLine first, ih later⟩

/-- What is asked of `parse_conf` for a file: whatever the settings were, each is what the last
line that begins with its key and a value says, or is kept. -/
def ReadsLines (file : Text) : Prop :=
  ∀ conf : Conf, ∃ conf', parseConf conf (some file) = .ok (0, conf') ∧
    ∀ k : Key, k.get conf' = (lastValue (setting k) (lines file)).getD (k.get conf)

/-- When it is so: of the pieces that the lines are read in, the last that is taken for a key
and sets it has the value of the last line of the key; a PCI key that no line sets has no
piece taken for it; and what the pieces set fits. -/
structure KeepsLines (file : Text) : Prop where
  last : ∀ k, lastValue (pieceValue k) (fgets maxLine file) = lastValue (setting k) (lines file)
  pci : ∀ k : Key, k.isPci = true → lastValue (setting k) (lines file) = none →
    ∀ piece ∈ fgets maxLine file, taken piece ≠ some k
  fits : ∀ piece ∈ fgets maxLine file, PieceFits piece

theorem parseConf_eq_ok {conf conf' : Conf} {file : Text} :
    parseConf conf (some file) = .ok (0, conf') ↔
      (fgets maxLine file).foldlM parseLine conf = .ok conf' := by
  constructor
  · intro done
    obtain ⟨conf'', read, stored⟩ := bind_eq_ok.mp done
    cases stored
    exact read
  · intro read
    exact bind_eq_ok.mpr ⟨conf', read, rfl⟩

/-- Settings whose numbers are not those of their strings. -/
def oddConf : Conf := ⟨[], [], [], [], 1, 1, 1, 0, 0⟩

/-- Other settings whose numbers are not those of their strings. -/
def otherConf : Conf := ⟨['1'], ['1'], ['1'], ['1'], 0, 0, 0, 1, 1⟩

theorem odd_other (k : Key) : k.get oddConf ≠ k.get otherConf ∧
    (k.get oddConf).refresh ≠ (k.get otherConf).refresh ∧
      (k.isPci = true → (k.get oddConf).refresh ≠ k.get oddConf) := by
  cases k <;> decide +kernel

/-- A setting that comes from two starts that differ to what the lines say was set by a piece
just when it was by a line. -/
theorem same_of_two {a b : Value} {piece line : Option Value} {isTaken : Prop} [Decidable isTaken]
    (differ : a ≠ b) (refreshed : a.refresh ≠ b.refresh)
    (fromA : piece.getD (if isTaken then a.refresh else a) = line.getD a)
    (fromB : piece.getD (if isTaken then b.refresh else b) = line.getD b) :
    piece = line ∧ (line = none → isTaken → a.refresh = a) := by
  cases piece with
  | some v =>
      cases line with
      | some w => exact ⟨congrArg some fromA, by simp⟩
      | none => exact absurd (fromA.symm.trans fromB) differ
  | none =>
      cases line with
      | some w =>
          have same := fromA.trans fromB.symm
          simp only [Option.getD_none] at same
          split at same
          · exact absurd same refreshed
          · exact absurd same differ
      | none =>
          refine ⟨rfl, fun _ taken => ?_⟩
          rwa [if_pos taken] at fromA

/-- What is asked needs pieces that keep to the lines. -/
theorem ReadsLines.keeps {file : Text} (reads : ReadsLines file) : KeepsLines file := by
  have fits : ∀ piece ∈ fgets maxLine file, PieceFits piece := by
    obtain ⟨conf', done, _⟩ := reads oddConf
    exact fits_of_foldlM (parseConf_eq_ok.mp done)
  have comes : ∀ (conf : Conf) (k : Key),
      (lastValue (pieceValue k) (fgets maxLine file)).getD
        (if ∃ piece ∈ fgets maxLine file, taken piece = some k then (k.get conf).refresh
          else k.get conf) = (lastValue (setting k) (lines file)).getD (k.get conf) := by
    intro conf k
    obtain ⟨conf', done, asked⟩ := reads conf
    obtain ⟨conf'', read, gets⟩ := foldlM_parseLine fits conf
    rw [parseConf_eq_ok, read] at done
    cases done
    rw [← asked, gets, foldl_change]
  have same := fun k => same_of_two (odd_other k).1 (odd_other k).2.1 (comes oddConf k)
    (comes otherConf k)
  refine ⟨fun k => (same k).1, ?_, fits⟩
  intro k isPci unset piece mem isTaken
  exact (odd_other k).2.2 isPci ((same k).2 unset ⟨piece, mem, isTaken⟩)

/-- Pieces that keep to the lines are enough. -/
theorem KeepsLines.reads {file : Text} (keeps : KeepsLines file) : ReadsLines file := by
  intro conf
  obtain ⟨conf', read, gets⟩ := foldlM_parseLine keeps.fits conf
  refine ⟨conf', parseConf_eq_ok.mpr read, ?_⟩
  intro k
  rw [gets, foldl_change, keeps.last]
  cases set : lastValue (setting k) (lines file) with
  | some value => rfl
  | none =>
      rw [Option.getD_none, Option.getD_none]
      split
      · rename_i some
        obtain ⟨piece, mem, isTaken⟩ := some
        cases isPci : k.isPci with
        | true => exact absurd isTaken (keeps.pci k isPci set piece mem)
        | false => cases k <;> first | rfl | cases isPci
      · rfl

/-! ### Plain lines -/

/-- The words that are tried before a key's do not occur. -/
def FirstWord (k : Key) (piece : Text) : Prop :=
  ∀ before after, Key.all = before ++ k :: after → ∀ k' ∈ before, strstr k'.word piece = none

/-- A piece sets a key: it begins with `<key>=<value>`, and no word that is tried before the
key's occurs anywhere in it. -/
def Sets (k : Key) (piece : Text) (value : Value) : Prop :=
  setting k piece = some value ∧ FirstWord k piece

/-- A line that is read for what it is. The pieces are those of at most 127 characters that it
is read in; a line that fits the buffer is its only piece. -/
structure PlainLine (line : Text) : Prop where
  /-- of the pieces of a line that sets a key, the last that sets the key has the line's value -/
  own : ∀ k value, setting k line = some value → ∃ before piece after,
    fgets maxLine line = before ++ piece :: after ∧ Sets k piece value ∧
      ∀ other ∈ after, ∀ value', ¬ Sets k other value'
  /-- of a line that does not set a key, no piece sets it, or is taken for it if that loses the
  number of a PCI key -/
  others : ∀ k, setting k line = none → ∀ piece ∈ fgets maxLine line,
    (∀ value, ¬ Sets k piece value) ∧ (k.isPci = true → taken piece ≠ some k)
  /-- what the pieces set fits -/
  fits : ∀ piece ∈ fgets maxLine line, ∀ k value, Sets k piece value → value.Fits

/-- A line that sets a key begins with its word. -/
theorem word_of_setting {k : Key} {line : Text} {value : Value}
    (sets : setting k line = some value) : ∃ rest, line = k.word ++ rest := by
  obtain ⟨s, behind, _⟩ := Option.bind_eq_some_iff.mp sets
  unfold afterLiteral at behind
  split at behind
  · rename_i here
    obtain ⟨rest, rfl⟩ := List.isPrefixOf_iff_prefix.mp here
    exact ⟨['='] ++ rest, by rw [List.append_assoc]⟩
  · cases behind

/-- A line that sets a key is taken for it when no word that is tried before occurs in it. -/
theorem taken_of_setting {k : Key} {line : Text} {value : Value}
    (sets : setting k line = some value) (first : FirstWord k line) : taken line = some k := by
  obtain ⟨rest, rfl⟩ := word_of_setting sets
  have noComment : (k.word ++ rest).head? ≠ some '#' := by
    cases k <;> exact fun same => absurd (Option.some.inj same) (by decide)
  have listed : k ∈ Key.all := by
    cases k <;> decide
  obtain ⟨before, after, whole⟩ := List.append_of_mem listed
  unfold taken
  rw [if_neg noComment, List.find?_eq_some_iff_append]
  refine ⟨?_, before, after, whole, ?_⟩
  · rw [strstr_here (List.prefix_append _ _)]
    rfl
  · intro k' mem
    rw [first before after whole k' mem]
    rfl

/-- The keys are tried one after another, each once. -/
theorem all_split {k : Key} {before before' after after' : List Key}
    (whole : Key.all = before ++ k :: after) (whole' : Key.all = before' ++ k :: after') :
    before = before' := by
  have distinct : Key.all.Nodup := by decide
  rw [whole, List.nodup_middle, List.nodup_cons, List.mem_append, not_or] at distinct
  rw [whole] at whole'
  exact ((List.append_cons_inj_of_notMem distinct.1.1 distinct.1.2).mp whole').1

theorem firstWord_of_taken {k : Key} {piece : Text} (isTaken : taken piece = some k) :
    FirstWord k piece := by
  intro before after whole k' mem
  unfold taken at isTaken
  split at isTaken
  · cases isTaken
  obtain ⟨_, before', after', whole', earlier⟩ := List.find?_eq_some_iff_append.mp isTaken
  rw [all_split whole whole'] at mem
  have unfound := earlier k' mem
  rwa [Bool.not_eq_true', Option.isSome_eq_false_iff, Option.isNone_iff_eq_none] at unfound

/-- What a piece sets for the key that it is taken for is what it sets. -/
theorem pieceValue_eq_some {k : Key} {piece : Text} {value : Value} :
    pieceValue k piece = some value ↔ Sets k piece value := by
  unfold pieceValue Sets
  constructor
  · intro sets
    split at sets
    · rename_i isTaken
      exact ⟨sets, firstWord_of_taken isTaken⟩
    · cases sets
  · rintro ⟨sets, first⟩
    rw [if_pos (taken_of_setting sets first), sets]

theorem pieceValue_eq_none {k : Key} {piece : Text} :
    pieceValue k piece = none ↔ ∀ value, ¬ Sets k piece value := by
  rw [Option.eq_none_iff_forall_ne_some]
  simp only [ne_eq, pieceValue_eq_some]

/-- What is taken for a key fits when what is set does. -/
theorem pieceFits_iff {piece : Text} :
    PieceFits piece ↔ ∀ k value, Sets k piece value → value.Fits := by
  constructor
  · rintro fits k value ⟨sets, first⟩
    exact fits k value (taken_of_setting sets first) sets
  · intro fits k value isTaken sets
    exact fits k value ⟨sets, firstWord_of_taken isTaken⟩

/-- The pieces of a plain line come to what the line sets. -/
theorem PlainLine.lastValue {line : Text} (plain : PlainLine line) (k : Key) :
    lastValue (pieceValue k) (fgets maxLine line) = setting k line := by
  cases sets : setting k line with
  | none =>
      rw [lastValue_eq_none]
      intro piece mem
      exact pieceValue_eq_none.mpr (plain.others k sets piece mem).1
  | some value =>
      obtain ⟨before, piece, after, whole, own, none⟩ := plain.own k value sets
      rw [lastValue_eq_some]
      refine ⟨before, piece, after, whole, pieceValue_eq_some.mpr own, ?_⟩
      intro other mem
      exact pieceValue_eq_none.mpr (none other mem)

/-- The pieces of plain lines keep to the lines. -/
theorem keepsLines_of_plain {file : Text} (plain : ∀ line ∈ lines file, PlainLine line) :
    KeepsLines file := by
  have pieces := fgets_eq_flatMap maxLine file
  refine ⟨?_, ?_, ?_⟩
  · intro k
    rw [pieces, lastValue_flatMap]
    exact lastValue_congr fun line mem => (plain line mem).lastValue k
  · intro k isPci unset piece mem
    rw [pieces, List.mem_flatMap] at mem
    obtain ⟨line, listed, mem⟩ := mem
    exact ((plain line listed).others k (lastValue_eq_none.mp unset line listed) piece mem).2 isPci
  · intro piece mem
    rw [pieces, List.mem_flatMap] at mem
    obtain ⟨line, listed, mem⟩ := mem
    exact pieceFits_iff.mpr ((plain line listed).fits piece mem)

/-- A line whose pieces keep to it is plain. -/
theorem KeepsLines.plain {line : Text} (alone : lines line = [line]) (keeps : KeepsLines line) :
    PlainLine line := by
  have last : ∀ k, lastValue (setting k) (lines line) = setting k line := by
    intro k
    rw [alone, lastValue_cons]
    rfl
  refine ⟨?_, ?_, ?_⟩
  · intro k value sets
    have comes := (keeps.last k).trans ((last k).trans sets)
    obtain ⟨before, piece, after, whole, own, none⟩ := lastValue_eq_some.mp comes
    refine ⟨before, piece, after, whole, pieceValue_eq_some.mp own, ?_⟩
    intro other mem
    exact pieceValue_eq_none.mp (none other mem)
  · intro k unset piece mem
    have comes := (keeps.last k).trans ((last k).trans unset)
    refine ⟨pieceValue_eq_none.mp (lastValue_eq_none.mp comes piece mem), ?_⟩
    intro isPci
    exact keeps.pci k isPci ((last k).trans unset) piece mem
  · intro piece mem
    exact pieceFits_iff.mp (keeps.fits piece mem)

/-- A line that fits the buffer is plain when, if it sets a key, no word that is tried before
occurs in it and the value fits, and when it is not taken for a PCI key that it does not set. -/
theorem plainLine_iff_of_short {line : Text} (alone : lines line = [line])
    (short : line.length < maxLine) :
    PlainLine line ↔ (∀ k value, setting k line = some value → FirstWord k line ∧ value.Fits) ∧
      ∀ k : Key, k.isPci = true → taken line = some k → setting k line ≠ none := by
  have listed : line ∈ lines line := by
    rw [alone]
    exact List.mem_singleton_self line
  have whole : fgets maxLine line = [line] := fgets_of_fits listed short
  have piece : line ∈ fgets maxLine line := by
    rw [whole]
    exact List.mem_singleton_self line
  constructor
  · intro plain
    refine ⟨?_, ?_⟩
    · intro k value sets
      obtain ⟨before, p, after, split, own, _⟩ := plain.own k value sets
      obtain rfl : p = line := by
        apply List.mem_singleton.mp
        rw [← whole, split]
        exact List.mem_append_right _ (List.mem_cons_self ..)
      exact ⟨own.2, plain.fits p piece k value own⟩
    · intro k isPci isTaken unset
      exact (plain.others k unset line piece).2 isPci isTaken
  · rintro ⟨own, pci⟩
    refine ⟨?_, ?_, ?_⟩
    · intro k value sets
      exact ⟨[], line, [], whole, ⟨sets, (own k value sets).1⟩, by simp⟩
    · intro k unset p mem
      rw [whole, List.mem_singleton] at mem
      subst mem
      refine ⟨fun value sets => ?_, fun isPci isTaken => pci k isPci isTaken unset⟩
      cases unset.symm.trans sets.1
    · intro p mem k value sets
      rw [whole, List.mem_singleton] at mem
      subst mem
      exact (own k value sets.1).2

/-- A line is read for what it is, alone in a file, exactly when it is plain; and a file of plain
lines is read line by line. -/
theorem readsLines_iff (file : Text) :
    (∀ line ∈ lines file, (ReadsLines line ↔ PlainLine line)) ∧
      ((∀ line ∈ lines file, PlainLine line) → ReadsLines file) := by
  constructor
  · intro line mem
    have alone := lines_of_mem mem
    constructor
    · intro reads
      exact reads.keeps.plain alone
    · intro plain
      apply (keepsLines_of_plain _).reads
      rw [alone]
      exact List.forall_mem_singleton.mpr plain
  · intro plain
    exact (keepsLines_of_plain plain).reads

/-- A comment of 127 characters that goes on with a setting. -/
def longComment : Text := '#' :: (List.replicate 126 'x' ++ "netdev=eth9\n".toList)

/-- A threshold is lost because the line mentions the NIC behind it, and a long comment sets the
NIC. -/
theorem misread_lines :
    ¬ ReadsLines "io_threshold=5 # netdev\n".toList ∧ ¬ ReadsLines longComment := by
  constructor
  · intro reads
    have last := reads.keeps.last .ioThreshold
    exact absurd last (by decide +kernel)
  · intro reads
    have last := reads.keeps.last .netdev
    exact absurd last (by decide +kernel)

end VNams.Nuiod
