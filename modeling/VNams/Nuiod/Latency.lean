import Mathlib.Data.List.Forall2
import VNams.Lib.Decimal
import VNams.Lib.Outcome
import VNams.Nuiod.Boot

/-!
Where the latencies between the nodes come from.

`init_numa_latency` takes them from `/etc/nuiod.latency` if the file is there for this number
of nodes, and otherwise measures them and writes the file. A measurement that fails comes to
-1, a number that cannot be read leaves its cell as it was, one that is cut off or foreign is
taken as it is, and `init_numa_info` looks at none of this. So it succeeds with latencies that
were measured, by this run or by an earlier one that wrote the file, in exactly the cases in
which no step on the way failed (`latencies_real_iff`).
-/

namespace VNams.Nuiod

open Lib CText

/-- What one call of `get_numa_latency` meets. -/
structure Measurement (D : Type) where
  /-- whether the signal handlers are installed -/
  handlers : Bool
  /-- whether `buf_create` returns a buffer -/
  buffer : Bool
  /-- whether `processor_bind` succeeds -/
  bound : Bool
  /-- the average that `dependent_read` then measures -/
  average : D

/-- The measurement is carried out. -/
def Measurement.Succeeds {D : Type} (m : Measurement D) : Prop :=
  m.handlers = true ∧ m.buffer = true ∧ m.bound = true

/-- How values of `double` are read from a file and written to it. -/
structure DoubleText (D : Type) where
  /-- the value that `strtod` gives a number -/
  ofLiteral : Literal → D
  /-- `printf("%f", v)` -/
  printf : D → Text

/-- What `init_numa_latency` finds. -/
structure LatencyEnv (D : Type) where
  /-- `/etc/nuiod.latency` -/
  file : Option Text
  /-- whether the file can be opened for writing -/
  creates : Bool
  measurement : Nat → Nat → Measurement D
  /-- what a cell of the matrix holds before it is written -/
  unset : Nat → Nat → D

section File

variable {D : Type}

/-! ### The file -/

/-- A row of the latency file. -/
def latencyRow (text : DoubleText D) (row : List D) : Text :=
  (row.flatMap fun latency => text.printf latency ++ [' ']) ++ ['\n']

/-- The latency file: the number of numa node, then the `numa_latency`. -/
def latencyFile (text : DoubleText D) (numaNumber : Nat) (numaLatency : List (List D)) : Text :=
  Nat.toDigits 10 numaNumber ++ '\n' :: numaLatency.flatMap (latencyRow text)

/-- `fscanf(file, "%lf ", &numa_latency[i][j])`: `none` is a cell that is not written. -/
def readCell (text : DoubleText D) (s : Text) : Option D × Text :=
  match scanDouble s with
  | (some literal, rest) => (some (text.ofLiteral literal), rest.dropWhile isSpace)
  | (none, rest) => (none, rest)

/-- The next cells of a row. -/
def readCells (text : DoubleText D) : Nat → Text → List (Option D) × Text
  | 0, s => ([], s)
  | n + 1, s =>
      let (cell, s) := readCell text s
      let (cells, s) := readCells text n s
      (cell :: cells, s)

/-- The next rows of the matrix. -/
def readRows (text : DoubleText D) (numaNumber : Nat) : Nat → Text → List (List (Option D))
  | 0, _ => []
  | n + 1, s =>
      let (row, s) := readCells text numaNumber s
      row :: readRows text numaNumber n s

/-- A cell of the matrix; `none` if nothing has written it. -/
def cellAt (numaLatency : List (List (Option D))) (i j : Nat) : Option D :=
  (numaLatency[i]?.bind fun row => row[j]?).join

/-- What is behind the number of nodes in a latency file for so many nodes. -/
def latencyBody (numaNumber : Nat) (file : Option Text) : Option Text :=
  file.bind fun file =>
    if (scanInt file).getD 0 = numaNumber then some (strtol 10 file).2 else none

theorem readCells_length (text : DoubleText D) (n : Nat) (s : Text) :
    (readCells text n s).1.length = n := by
  induction n generalizing s with
  | zero => rfl
  | succ n ih => simp [readCells, ih]

theorem readRows_square (text : DoubleText D) (numaNumber n : Nat) (s : Text) :
    (readRows text numaNumber n s).length = n ∧
      ∀ row ∈ readRows text numaNumber n s, row.length = numaNumber := by
  induction n generalizing s with
  | zero => exact ⟨rfl, by simp [readRows]⟩
  | succ n ih =>
      obtain ⟨length, rows⟩ := ih (readCells text numaNumber s).2
      exact ⟨by simp [readRows, length], by simpa [readRows, readCells_length] using rows⟩

end File

/-! ### Measuring -/

section Double

variable {D : Type} [Double D]

/-- `dependent_read`. -/
def dependentRead (m : Measurement D) : D := if m.bound then m.average else Double.ofInt (-1)

/-- Measure the latency between a node and a cpu: -1 if failed. -/
def getNumaLatency (m : Measurement D) (fromNode toNode : Int) : D :=
  if fromNode = -1 then Double.ofInt (-1)
  else if toNode = -1 then Double.ofInt (-1)
  else if !m.handlers then Double.ofInt (-1)
  else if !m.buffer then Double.ofInt (-1)
  else dependentRead m

/-- get the first cpu number of node -/
def getNodeFirstCpu (cpus : Option (List Nat)) : Nat :=
  match cpus with
  | some (cpu :: _) => cpu
  | _ => 0

/-- The latency that is measured for a cell. -/
def measuredLatency (nodeCpus : Nat → Option (List Nat)) (env : LatencyEnv D) (i j : Nat) : D :=
  getNumaLatency (env.measurement i j) i (getNodeFirstCpu (nodeCpus j))

/-- Calculate the matrix, and create the latency file. -/
def calAndCreateNumaLat (text : DoubleText D) (numaNumber : Nat)
    (nodeCpus : Nat → Option (List Nat)) (env : LatencyEnv D) :
    List (List (Option D)) × Option Text :=
  let numaLatency := (List.range numaNumber).map fun i =>
    (List.range numaNumber).map fun j => measuredLatency nodeCpus env i j
  (numaLatency.map fun row => row.map some,
    if env.creates then some (latencyFile text numaNumber numaLatency) else env.file)

/-- initialize the numa_latency matrix: its cells, and the latency file as it is left -/
def initNumaLatency (text : DoubleText D) (numaNumber : Nat)
    (nodeCpus : Nat → Option (List Nat)) (env : LatencyEnv D) :
    List (List (Option D)) × Option Text :=
  match env.file with
  | none => calAndCreateNumaLat text numaNumber nodeCpus env
  | some file =>
      let numaNum := (scanInt file).getD 0
      if numaNum ≠ numaNumber then calAndCreateNumaLat text numaNumber nodeCpus env
      else (readRows text numaNumber numaNumber (strtol 10 file).2, some file)

/-- `init_numa_info` on what `init_numa_latency` leaves: `none` is the return of -1. -/
def loadNumaInfo (text : DoubleText D) (numaNumber : Nat) (machine : Machine D)
    (env : LatencyEnv D) : Option (List (NumaNode D)) :=
  let numaLatency := (initNumaLatency text numaNumber machine.nodeCpus env).1
  initNumaInfo numaNumber
    { machine with numaLatency := fun i j => (cellAt numaLatency i j).getD (env.unset i j) }

/-! ### Real latencies -/

/-- A latency as it is read back from the file that it was written to. -/
def Rereads (text : DoubleText D) (latency v : D) : Prop :=
  (readCell text (text.printf latency ++ [' '])).1 = some v

/-- An earlier run measured this for the pair of nodes, and the file has kept it. -/
def FromEarlier (text : DoubleText D) (earlier : List (LatencyEnv D)) (i j : Nat) (v : D) : Prop :=
  v ≠ Double.ofInt (-1) ∧ ∃ run ∈ earlier, (run.measurement i j).Succeeds ∧
    Rereads text (run.measurement i j).average v

/-- This run measures, and measured this for the pair of nodes. -/
def FromThisRun (numaNumber : Nat) (env : LatencyEnv D) (i j : Nat) (v : D) : Prop :=
  v ≠ Double.ofInt (-1) ∧ latencyBody numaNumber env.file = none ∧
    (env.measurement i j).Succeeds ∧ v = (env.measurement i j).average

/-- A cell that holds a latency, and neither the error value nor what was there before. -/
def IsLatency (text : DoubleText D) (earlier : List (LatencyEnv D)) (numaNumber : Nat)
    (env : LatencyEnv D) (i j : Nat) (cell : Option D) : Prop :=
  ∃ v, cell = some v ∧ (FromThisRun numaNumber env i j v ∨ FromEarlier text earlier i j v)

/-- Every cell of the matrix has the property. -/
def AllCells (numaNumber : Nat) (good : Nat → Nat → Option D → Prop)
    (numaLatency : List (List (Option D))) : Prop :=
  ∀ i < numaNumber, ∀ j < numaNumber, good i j (cellAt numaLatency i j)

/-- `init_numa_info` returns 0 and every cell holds a latency that was measured for its pair of
nodes, or it returns -1. -/
def LatenciesOrFailure (text : DoubleText D) (earlier : List (LatencyEnv D)) (numaNumber : Nat)
    (machine : Machine D) (env : LatencyEnv D) : Prop :=
  loadNumaInfo text numaNumber machine env ≠ none →
    AllCells numaNumber (IsLatency text earlier numaNumber env)
      (initNumaLatency text numaNumber machine.nodeCpus env).1

/-- The text goes on with a number for each of the cells, and the number has the property. -/
def ListsNumbers (text : DoubleText D) (good : Nat → Nat → D → Prop) :
    List (Nat × Nat) → Text → Prop
  | [], _ => True
  | (i, j) :: cells, s => ∃ literal rest, scanDouble s = (some literal, rest) ∧
      good i j (text.ofLiteral literal) ∧ ListsNumbers text good cells (rest.dropWhile isSpace)

/-- The cells of the matrix in the order of the file. -/
def cellPairs (rows columns : List Nat) : List (Nat × Nat) :=
  rows.flatMap fun i => columns.map fun j => (i, j)

/-- No step fails: either the CPUs of a node are not found in the first place, or the file for
this number of nodes lists what earlier runs measured, or there is no such file and every
measurement is carried out. -/
def NothingFails (text : DoubleText D) (earlier : List (LatencyEnv D)) (numaNumber : Nat)
    (machine : Machine D) (env : LatencyEnv D) : Prop :=
  (∃ i < numaNumber, machine.nodeCpus i = none) ∨
    match latencyBody numaNumber env.file with
    | some body => ListsNumbers text (FromEarlier text earlier)
        (cellPairs (List.range numaNumber) (List.range numaNumber)) body
    | none => ∀ i < numaNumber, ∀ j < numaNumber, (env.measurement i j).Succeeds

omit [Double D] in
/-- In a square matrix the cells are what the rows have. -/
theorem allCells_iff {numaNumber : Nat} {good : Nat → Nat → Option D → Prop}
    {numaLatency : List (List (Option D))} (rows : numaLatency.length = numaNumber)
    (columns : ∀ row ∈ numaLatency, row.length = numaNumber) :
    AllCells numaNumber good numaLatency ↔
      List.Forall₂ (fun i row => List.Forall₂ (good i) (List.range numaNumber) row)
        (List.range numaNumber) numaLatency := by
  rw [List.forall₂_iff_get]
  constructor
  · intro all
    refine ⟨by simp [rows], fun i inRange inRows => ?_⟩
    rw [List.forall₂_iff_get]
    have width := columns _ (List.get_mem numaLatency ⟨i, inRows⟩)
    refine ⟨by rw [List.length_range, width], fun j inRange' inRow => ?_⟩
    have cell := all i (by omega) j (by omega)
    simp only [List.get_eq_getElem, List.getElem_range] at inRow ⊢
    rwa [cellAt, List.getElem?_eq_getElem inRows, Option.bind_some,
      List.getElem?_eq_getElem inRow, Option.join_some] at cell
  · rintro ⟨_, each⟩ i inRows j inColumns
    have inRows' : i < numaLatency.length := by omega
    have row := List.forall₂_iff_get.mp (each i (by simpa using inRows) inRows')
    have width := columns _ (List.get_mem numaLatency ⟨i, inRows'⟩)
    have inRow : j < (numaLatency.get ⟨i, inRows'⟩).length := by omega
    have cell := row.2 j (by simpa using inColumns) inRow
    simp only [List.get_eq_getElem, List.getElem_range] at inRow cell
    rwa [cellAt, List.getElem?_eq_getElem inRows', Option.bind_some,
      List.getElem?_eq_getElem inRow, Option.join_some]

/-- A cell that is written, with a number that has the property. -/
def Written (good : Nat → Nat → D → Prop) (i j : Nat) (cell : Option D) : Prop :=
  ∃ v, cell = some v ∧ good i j v

omit [Double D] in
/-- One conversion: its cell is written if a number was there. -/
theorem written_readCell (text : DoubleText D) (good : Nat → Nat → D → Prop) (i j : Nat) (s : Text)
    (p : Text → Prop) :
    (∃ literal rest, scanDouble s = (some literal, rest) ∧
      good i j (text.ofLiteral literal) ∧ p (rest.dropWhile isSpace)) ↔
        Written good i j (readCell text s).1 ∧ p (readCell text s).2 := by
  unfold readCell
  split
  · rename_i literal rest scanned
    constructor
    · rintro ⟨literal', rest', same, isGood, behind⟩
      cases scanned.symm.trans same
      exact ⟨⟨_, rfl, isGood⟩, behind⟩
    · rintro ⟨⟨_, stored, isGood⟩, behind⟩
      cases stored
      exact ⟨literal, rest, scanned, isGood, behind⟩
  · rename_i rest failed
    constructor
    · rintro ⟨literal', rest', same, _⟩
      cases failed.symm.trans same
    · rintro ⟨⟨_, unset, _⟩, _⟩
      cases unset

omit [Double D] in
theorem listsNumbers_append (text : DoubleText D) (good : Nat → Nat → D → Prop) (i : Nat)
    (columns : List Nat) (cells : List (Nat × Nat)) (s : Text) :
    ListsNumbers text good ((columns.map fun j => (i, j)) ++ cells) s ↔
      List.Forall₂ (Written good i) columns (readCells text columns.length s).1 ∧
        ListsNumbers text good cells (readCells text columns.length s).2 := by
  induction columns generalizing s with
  | nil => simp [readCells]
  | cons j columns ih =>
      have step := written_readCell text good i j s
        (ListsNumbers text good ((columns.map fun j => (i, j)) ++ cells))
      rw [List.map_cons, List.cons_append, ListsNumbers, step, ih, List.length_cons, readCells]
      simp only [List.forall₂_cons, and_assoc]

omit [Double D] in
/-- The matrix is read number by number. -/
theorem listsNumbers_rows (text : DoubleText D) (good : Nat → Nat → D → Prop) (rows columns : List Nat)
    (s : Text) :
    ListsNumbers text good (cellPairs rows columns) s ↔
      List.Forall₂ (fun i row => List.Forall₂ (Written good i) columns row) rows
        (readRows text columns.length rows.length s) := by
  induction rows generalizing s with
  | nil => simp [cellPairs, readRows, ListsNumbers]
  | cons i rows ih =>
      rw [cellPairs, List.flatMap_cons, listsNumbers_append, List.length_cons, readRows,
        List.forall₂_cons, ← ih]
      rfl

/-- The latency measured for a cell is the average, or -1 if the measurement failed. -/
theorem measuredLatency_eq (nodeCpus : Nat → Option (List Nat)) (env : LatencyEnv D)
    (i j : Nat) :
    ((env.measurement i j).Succeeds ∧
        measuredLatency nodeCpus env i j = (env.measurement i j).average) ∨
      (¬ (env.measurement i j).Succeeds ∧
        measuredLatency nodeCpus env i j = Double.ofInt (-1)) := by
  have node : (i : Int) ≠ -1 := by omega
  have cpu : (getNodeFirstCpu (nodeCpus j) : Int) ≠ -1 := by omega
  simp only [measuredLatency, getNumaLatency, if_neg node, if_neg cpu, dependentRead,
    Measurement.Succeeds]
  cases (env.measurement i j).handlers <;> cases (env.measurement i j).buffer <;>
    cases (env.measurement i j).bound <;> simp

/-- The cells of a measured matrix. -/
theorem cellAt_measured (text : DoubleText D) (numaNumber : Nat)
    (nodeCpus : Nat → Option (List Nat)) (env : LatencyEnv D) {i j : Nat} (inRows : i < numaNumber)
    (inColumns : j < numaNumber) :
    cellAt (calAndCreateNumaLat text numaNumber nodeCpus env).1 i j =
      some (measuredLatency nodeCpus env i j) := by
  simp [cellAt, calAndCreateNumaLat, inRows, inColumns]

/-- A measured matrix holds latencies if every measurement is carried out. -/
theorem allLatencies_measured (negative : ¬ (Double.ofInt 0 : D) < Double.ofInt (-1))
    (text : DoubleText D) (earlier : List (LatencyEnv D)) {numaNumber : Nat}
    (nodeCpus : Nat → Option (List Nat)) {env : LatencyEnv D}
    (positive : ∀ i j, (env.measurement i j).Succeeds →
      Double.ofInt 0 < (env.measurement i j).average)
    (measures : latencyBody numaNumber env.file = none) :
    AllCells numaNumber (IsLatency text earlier numaNumber env)
        (calAndCreateNumaLat text numaNumber nodeCpus env).1 ↔
      ∀ i < numaNumber, ∀ j < numaNumber, (env.measurement i j).Succeeds := by
  have measured : ∀ i j, IsLatency text earlier numaNumber env i j
      (some (measuredLatency nodeCpus env i j)) ↔ (env.measurement i j).Succeeds := by
    intro i j
    obtain ⟨succeeds, value⟩ | ⟨fails, value⟩ := measuredLatency_eq nodeCpus env i j
    · refine iff_of_true ⟨_, rfl, .inl ⟨fun error => ?_, measures, succeeds, value⟩⟩ succeeds
      have isPositive := positive i j succeeds
      rw [← value, error] at isPositive
      exact negative isPositive
    · refine iff_of_false ?_ fails
      rintro ⟨v, stored, ⟨noError, _⟩ | ⟨noError, _⟩⟩
      · exact noError ((Option.some.inj stored).symm.trans value)
      · exact noError ((Option.some.inj stored).symm.trans value)
  constructor
  · intro all i inRows j inColumns
    have cell := all i inRows j inColumns
    rw [cellAt_measured text numaNumber nodeCpus env inRows inColumns] at cell
    exact (measured i j).mp cell
  · intro all i inRows j inColumns
    rw [cellAt_measured text numaNumber nodeCpus env inRows inColumns]
    exact (measured i j).mpr (all i inRows j inColumns)

/-- A matrix that is read holds latencies if the file lists what earlier runs measured. -/
theorem allLatencies_read (text : DoubleText D) (earlier : List (LatencyEnv D)) {numaNumber : Nat}
    {env : LatencyEnv D} {body : Text} (listed : latencyBody numaNumber env.file = some body) :
    AllCells numaNumber (IsLatency text earlier numaNumber env)
        (readRows text numaNumber numaNumber body) ↔
      ListsNumbers text (FromEarlier text earlier)
        (cellPairs (List.range numaNumber) (List.range numaNumber)) body := by
  obtain ⟨rows, columns⟩ := readRows_square text numaNumber numaNumber body
  have cell : IsLatency text earlier numaNumber env = Written (FromEarlier text earlier) := by
    funext i j cell
    refine propext (exists_congr fun v => and_congr_right fun _ => or_iff_right ?_)
    rintro ⟨_, measures, _⟩
    cases listed.symm.trans measures
  rw [allCells_iff rows columns, cell, listsNumbers_rows, List.length_range]

/-- `init_numa_info` fails only if the CPUs of a node are not found. -/
theorem loadNumaInfo_eq_none {text : DoubleText D} {numaNumber : Nat} {machine : Machine D}
    {env : LatencyEnv D} :
    loadNumaInfo text numaNumber machine env = none ↔
      ∃ i < numaNumber, machine.nodeCpus i = none := by
  rw [loadNumaInfo, initNumaInfo, mapM_eq_none]
  simp only [List.mem_range]
  apply exists_congr
  intro i
  cases found : machine.nodeCpus i <;> simp

/-- Whenever `init_numa_info` returns 0 every cell holds a latency that was measured for its pair
of nodes, by this run or by an earlier one, if and only if nothing fails on the way. -/
theorem latencies_real_iff (text : DoubleText D)
    (negative : ¬ (Double.ofInt 0 : D) < Double.ofInt (-1)) (earlier : List (LatencyEnv D))
    (numaNumber : Nat) (machine : Machine D) {env : LatencyEnv D}
    (positive : ∀ i j, (env.measurement i j).Succeeds →
      Double.ofInt 0 < (env.measurement i j).average) :
    LatenciesOrFailure text earlier numaNumber machine env ↔
      NothingFails text earlier numaNumber machine env := by
  have matrix : AllCells numaNumber (IsLatency text earlier numaNumber env)
        (initNumaLatency text numaNumber machine.nodeCpus env).1 ↔
      match latencyBody numaNumber env.file with
      | some body => ListsNumbers text (FromEarlier text earlier)
          (cellPairs (List.range numaNumber) (List.range numaNumber)) body
      | none => ∀ i < numaNumber, ∀ j < numaNumber, (env.measurement i j).Succeeds := by
    cases body : latencyBody numaNumber env.file with
    | none =>
        have measures : initNumaLatency text numaNumber machine.nodeCpus env =
            calAndCreateNumaLat text numaNumber machine.nodeCpus env := by
          unfold initNumaLatency
          cases file : env.file with
          | none => rfl
          | some file =>
              rw [latencyBody, file, Option.bind_some, ite_eq_right_iff] at body
              exact if_pos fun count => nomatch body count
        rw [measures]
        exact allLatencies_measured negative text earlier machine.nodeCpus positive body
    | some body' =>
        obtain ⟨file, found, here⟩ := Option.bind_eq_some_iff.mp body
        obtain ⟨count, same⟩ := Option.ite_none_right_eq_some.mp here
        cases same
        have read : initNumaLatency text numaNumber machine.nodeCpus env =
            (readRows text numaNumber numaNumber (strtol 10 file).2, some file) := by
          simp only [initNumaLatency, found, count, ne_eq, not_true_eq_false, if_false]
        rw [read]
        exact allLatencies_read text earlier body
  rw [LatenciesOrFailure, NothingFails, matrix, ne_eq, loadNumaInfo_eq_none, ← or_iff_not_imp_left]

end Double

/-- Text that stands for the exact value, as far as there is one. -/
structure DoubleText.Exact (text : DoubleText ℚ) : Prop where
  ofLiteral : ∀ literal v, literal.value? = some v → text.ofLiteral literal = v
  printf : ∀ v, text.printf v = fixed 6 v

/-- Exact values; an infinity and a NaN, which no rational is, are read as 0. -/
def exactText : DoubleText ℚ where
  ofLiteral literal := literal.value?.getD 0
  printf := fixed 6

theorem exactText_exact : exactText.Exact where
  ofLiteral literal v value := by
    change literal.value?.getD 0 = v
    rw [value, Option.getD_some]
  printf _ := rfl

/-- A machine without a latency file, on which `processor_bind` fails for the CPUs of the
nodes listed. -/
def freshEnv (unreachable : List Nat) : LatencyEnv ℚ where
  file := none
  creates := true
  measurement i j := ⟨true, true, !unreachable.contains j, if i = j then 10 else 20⟩
  unset _ _ := 0

theorem freshEnv_positive (unreachable : List Nat) (i j : Nat) :
    Double.ofInt 0 < ((freshEnv unreachable).measurement i j).average := by
  by_cases same : i = j
  · simp only [freshEnv, same, if_true]
    decide
  · simp only [freshEnv, same, if_false]
    decide

theorem latencies_real_iff_reachable :
    LatenciesOrFailure exactText [] 2 (smallMachine []) (freshEnv []) :=
  (latencies_real_iff exactText (by decide) [] 2 (smallMachine [])
    fun i j _ => freshEnv_positive [] i j).mpr (.inr fun _ _ _ _ => ⟨rfl, rfl, rfl⟩)

/-- A node that cannot be measured is the nearest to every node, and to itself. -/
theorem unreachable_sorted_first :
    ((loadNumaInfo exactText 2 (smallMachine []) (freshEnv [1])).map fun nodes =>
      nodes.map NumaNode.sortedLatNodeList) = some [[(1, -1), (0, 10)], [(1, -1), (0, 20)]] ∧
      ¬ LatenciesOrFailure exactText [] 2 (smallMachine []) (freshEnv [1]) := by
  have loaded : ((loadNumaInfo exactText 2 (smallMachine []) (freshEnv [1])).map fun nodes =>
      nodes.map NumaNode.sortedLatNodeList) =
        some [[(1, -1), (0, 10)], [(1, -1), (0, 20)]] := by
    decide +kernel
  refine ⟨loaded, fun real => ?_⟩
  have succeeded : loadNumaInfo exactText 2 (smallMachine []) (freshEnv [1]) ≠ none := by
    intro failed
    rw [failed] at loaded
    cases loaded
  obtain ⟨v, stored, measured⟩ := real succeeded 0 (by decide) 1 (by decide)
  have error : cellAt (initNumaLatency exactText 2 (smallMachine []).nodeCpus (freshEnv [1])).1
      0 1 = some (-1) := by
    decide +kernel
  cases error.symm.trans stored
  rcases measured with ⟨noError, _⟩ | ⟨noError, _⟩
  · exact noError rfl
  · exact noError rfl

end VNams.Nuiod
