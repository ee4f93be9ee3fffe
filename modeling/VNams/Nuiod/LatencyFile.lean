import Mathlib.Tactic.Linarith
import VNams.Nuiod.Latency

/-!
The latency file across starts.

What `cal_and_create_numa_lat` writes, a later `init_numa_latency` reads back cell by cell,
with each latency rounded to six decimals; a start with another number of nodes measures anew
(`latency_file_read_back`). So the order of the nodes is that of the first start up to a
millionth, and an error value that was written stays one (`failure_persists`).
-/

namespace VNams.Nuiod

open Lib CText

variable {text : DoubleText ℚ}

/-! ### Cells and rows -/

theorem readCell_dropWhile (s : Text) : readCell text (s.dropWhile isSpace) = readCell text s := by
  simp only [readCell, scanDouble_dropWhile]

/-- A cell that was written is read back rounded, with the blank behind it. -/
theorem readCell_written (exact : text.Exact) (v : ℚ) {s : Text} (tail : Text)
    (here : s.dropWhile isSpace = (text.printf v ++ ' ' :: tail).dropWhile isSpace) :
    readCell text s = (some (roundTo 6 v), tail.dropWhile isSpace) := by
  have blank : EndsNumber (' ' :: tail) := by simp [EndsNumber]
  rw [← readCell_dropWhile, here, readCell_dropWhile, readCell, exact.printf,
    scanDouble_fixed 6 v blank]
  simp only [exact.ofLiteral _ _ (value_written 6 v)]
  rfl

/-- A row, up to white space in front of it and behind it. -/
theorem readCells_written (exact : text.Exact) (row : List ℚ) {s : Text} (tail : Text)
    (here : s.dropWhile isSpace =
      ((row.flatMap fun v => text.printf v ++ [' ']) ++ tail).dropWhile isSpace) :
    (readCells text row.length s).1 = row.map (fun v => some (roundTo 6 v)) ∧
      (readCells text row.length s).2.dropWhile isSpace = tail.dropWhile isSpace := by
  induction row generalizing s with
  | nil => exact ⟨rfl, here⟩
  | cons v row ih =>
      have first := readCell_written exact v
        ((row.flatMap fun v => text.printf v ++ [' ']) ++ tail) (by simpa using here)
      obtain ⟨cells, behind⟩ := ih (s := (readCell text s).2)
        (by rw [first, List.dropWhile_idempotent])
      rw [first] at cells behind
      simp only [List.length_cons, readCells, first, cells, behind, List.map_cons, and_self]

/-- The rows of the matrix. -/
theorem readRows_written (exact : text.Exact) {numaNumber : Nat} (rows : List (List ℚ))
    (columns : ∀ row ∈ rows, row.length = numaNumber) {s : Text}
    (here : s.dropWhile isSpace = (rows.flatMap (latencyRow text)).dropWhile isSpace) :
    readRows text numaNumber rows.length s =
      rows.map fun row => row.map fun v => some (roundTo 6 v) := by
  induction rows generalizing s with
  | nil => rfl
  | cons row rows ih =>
      rw [List.forall_mem_cons] at columns
      obtain ⟨cells, behind⟩ := readCells_written exact row
        ('\n' :: rows.flatMap (latencyRow text)) (by simpa [latencyRow] using here)
      rw [columns.1] at cells behind
      simp only [List.length_cons, readRows, cells, List.map_cons]
      rw [ih columns.2 (by rw [behind]; rfl)]

/-! ### A later start -/

section Later

variable {numaNumber : Nat} {nodeCpus nodeCpus' : Nat → Option (List Nat)}
  {env later : LatencyEnv ℚ}

/-- The file that a start leaves for later ones: it could be written, and nothing has changed
it since. -/
structure Cached (text : DoubleText ℚ) (numaNumber : Nat) (nodeCpus : Nat → Option (List Nat))
    (env later : LatencyEnv ℚ) : Prop where
  creates : env.creates = true
  file : later.file = (calAndCreateNumaLat text numaNumber nodeCpus env).2

/-- The matrix that the first start measured. -/
def measuredRows (numaNumber : Nat) (nodeCpus : Nat → Option (List Nat)) (env : LatencyEnv ℚ) :
    List (List ℚ) :=
  (List.range numaNumber).map fun i =>
    (List.range numaNumber).map fun j => measuredLatency nodeCpus env i j

theorem Cached.text_eq (cached : Cached text numaNumber nodeCpus env later) :
    later.file = some (Nat.toDigits 10 numaNumber ++
      '\n' :: (measuredRows numaNumber nodeCpus env).flatMap (latencyRow text)) := by
  rw [cached.file, calAndCreateNumaLat, cached.creates]
  rfl

/-- A start with the same number of nodes takes the matrix from the file. -/
theorem initNumaLatency_cached (exact : text.Exact) (isInt : numaNumber < 2 ^ 31)
    (cached : Cached text numaNumber nodeCpus env later) :
    initNumaLatency text numaNumber nodeCpus' later =
      ((measuredRows numaNumber nodeCpus env).map fun row =>
        row.map fun v => some (roundTo 6 v), later.file) := by
  have rows : (measuredRows numaNumber nodeCpus env).length = numaNumber := by
    simp [measuredRows]
  have columns : ∀ row ∈ measuredRows numaNumber nodeCpus env, row.length = numaNumber := by
    simp [measuredRows]
  have read := readRows_written exact _ columns
    (s := '\n' :: (measuredRows numaNumber nodeCpus env).flatMap (latencyRow text)) rfl
  obtain ⟨count, body⟩ := scanInt_toDigits isInt
    ('\n' :: (measuredRows numaNumber nodeCpus env).flatMap (latencyRow text)) (by simp)
  rw [rows] at read
  simp only [initNumaLatency, cached.text_eq, count, body, read, Option.getD_some, ne_eq,
    not_true_eq_false, if_false]

theorem cellAt_cached (exact : text.Exact) (isInt : numaNumber < 2 ^ 31)
    (cached : Cached text numaNumber nodeCpus env later) {i j : Nat} (row : i < numaNumber)
    (column : j < numaNumber) :
    cellAt (initNumaLatency text numaNumber nodeCpus' later).1 i j =
      some (roundTo 6 (measuredLatency nodeCpus env i j)) := by
  rw [initNumaLatency_cached exact isInt cached]
  simp [cellAt, measuredRows, row, column]

/-- A start with another number of nodes measures anew. -/
theorem initNumaLatency_other (isInt : numaNumber < 2 ^ 31)
    (cached : Cached text numaNumber nodeCpus env later) {other : Nat}
    (differs : other ≠ numaNumber) :
    initNumaLatency text other nodeCpus' later =
      calAndCreateNumaLat text other nodeCpus' later := by
  obtain ⟨count, _⟩ := scanInt_toDigits isInt
    ('\n' :: (measuredRows numaNumber nodeCpus env).flatMap (latencyRow text)) (by simp)
  have otherCount : (numaNumber : Int) ≠ other := by omega
  simp only [initNumaLatency, cached.text_eq, count, Option.getD_some, if_pos otherCount]

/-- The order of the nodes is that of the measured latencies, up to a millionth. -/
theorem sortedLatNodeList_cached (exact : text.Exact) (isInt : numaNumber < 2 ^ 31)
    (cached : Cached text numaNumber nodeCpus env later) {machine : Machine ℚ}
    {nodes : List (NumaNode ℚ)} (loaded : loadNumaInfo text numaNumber machine later = some nodes) :
    ∀ node ∈ nodes, node.sortedLatNodeList.Pairwise fun a b =>
      ¬ measuredLatency nodeCpus env node.nodeId.toNat b.1 + 1 / 10 ^ 6 <
        measuredLatency nodeCpus env node.nodeId.toNat a.1 := by
  obtain ⟨_, sources⟩ := mapM_eq_some loaded
  intro node mem
  obtain ⟨i, row, found⟩ := sources node mem
  obtain ⟨cpus, _, stored⟩ := Option.bind_eq_some_iff.mp found
  cases stored
  apply (UnstableSort.pairwise_le machine.latencySort i _).imp_of_mem
  intro a b aMem bMem ordered
  obtain ⟨j, column, rfl⟩ := List.mem_map.mp (UnstableSort.mem_order.mp aMem)
  obtain ⟨k, column', rfl⟩ := List.mem_map.mp (UnstableSort.mem_order.mp bMem)
  rw [List.mem_range] at row column column'
  simp only [cellAt_cached exact isInt cached row column,
    cellAt_cached exact isInt cached row column', Option.getD_some] at ordered
  have near := abs_le.mp (roundTo_near 6 (measuredLatency nodeCpus env i j))
  have near' := abs_le.mp (roundTo_near 6 (measuredLatency nodeCpus env i k))
  simp only [Int.toNat_natCast]
  linarith [near.1, near'.2]

end Later

/-- The matrix of a start comes back at a later one rounded to six decimals, and with it the
order of the nodes up to a millionth; a start with another number of nodes measures anew. -/
theorem latency_file_read_back {text : DoubleText ℚ} (exact : text.Exact) {numaNumber : Nat}
    (isInt : numaNumber < 2 ^ 31) {nodeCpus nodeCpus' : Nat → Option (List Nat)}
    {env later : LatencyEnv ℚ} (cached : Cached text numaNumber nodeCpus env later) :
    (initNumaLatency text numaNumber nodeCpus' later).2 = later.file ∧
      (∀ i < numaNumber, ∀ j < numaNumber,
        cellAt (initNumaLatency text numaNumber nodeCpus' later).1 i j =
          some (roundTo 6 (measuredLatency nodeCpus env i j))) ∧
      (∀ machine nodes, loadNumaInfo text numaNumber machine later = some nodes →
        ∀ node ∈ nodes, node.sortedLatNodeList.Pairwise fun a b =>
          ¬ measuredLatency nodeCpus env node.nodeId.toNat b.1 + 1 / 10 ^ 6 <
            measuredLatency nodeCpus env node.nodeId.toNat a.1) ∧
      ∀ other ≠ numaNumber, initNumaLatency text other nodeCpus' later =
        calAndCreateNumaLat text other nodeCpus' later := by
  refine ⟨?_, ?_, ?_, ?_⟩
  · rw [initNumaLatency_cached exact isInt cached]
  · intro i row j column
    exact cellAt_cached exact isInt cached row column
  · intro machine nodes loaded
    exact sortedLatNodeList_cached exact isInt cached loaded
  · intro other differs
    exact initNumaLatency_other isInt cached differs

/-- The start behind `freshEnv`: the file is what that start wrote, and nothing can be
measured. -/
def laterEnv : LatencyEnv ℚ where
  file := (calAndCreateNumaLat exactText 2 (smallMachine []).nodeCpus (freshEnv [])).2
  creates := false
  measurement _ _ := ⟨false, false, false, 0⟩
  unset _ _ := 0

theorem latency_file_read_back_later :
    cellAt (initNumaLatency exactText 2 (smallMachine []).nodeCpus laterEnv).1 0 1 =
      some (roundTo 6 (measuredLatency (smallMachine []).nodeCpus (freshEnv []) 0 1)) :=
  (latency_file_read_back exactText_exact (by decide) ⟨rfl, rfl⟩).2.1 0 (by decide) 1 (by decide)

/-- What an earlier start measured completely, and wrote, a later one may take for latencies. -/
theorem latencies_real_of_cached {text : DoubleText ℚ} (exact : text.Exact) {numaNumber : Nat}
    (isInt : numaNumber < 2 ^ 31) {nodeCpus : Nat → Option (List Nat)} {machine : Machine ℚ}
    {env later : LatencyEnv ℚ} (cached : Cached text numaNumber nodeCpus env later)
    (succeeds : ∀ i < numaNumber, ∀ j < numaNumber, (env.measurement i j).Succeeds ∧
      Double.ofInt 0 < (env.measurement i j).average) :
    LatenciesOrFailure text [env] numaNumber machine later := by
  intro _ i row j column
  obtain ⟨succeeded, positive⟩ := succeeds i row j column
  have value : measuredLatency nodeCpus env i j = (env.measurement i j).average := by
    obtain ⟨_, value⟩ | ⟨failed, _⟩ := measuredLatency_eq nodeCpus env i j
    · exact value
    · exact absurd succeeded failed
  refine ⟨_, cellAt_cached exact isInt cached row column, .inr ⟨fun error => ?_, env,
    List.mem_singleton_self env, succeeded, ?_⟩⟩
  · have near := abs_le.mp (roundTo_near 6 (measuredLatency nodeCpus env i j))
    rw [error, value] at near
    have isPositive : (0 : ℚ) < (env.measurement i j).average := by simpa [Double.ofInt] using positive
    have minus : (Double.ofInt (-1) : ℚ) = -1 := by decide +kernel
    rw [minus] at near
    linarith [near.1]
  · rw [value, Rereads, readCell_written exact _ [] rfl]

/-- The same file cut off inside its last number. -/
def cutOffEnv : LatencyEnv ℚ :=
  { laterEnv with file := some "2\n10.000000 20.000000 \n20.000000 1".toList }

/-- Nobody measured what is left of the number. -/
example : ¬ LatenciesOrFailure exactText [freshEnv []] 2 (smallMachine []) cutOffEnv := by
  intro real
  have succeeded : loadNumaInfo exactText 2 (smallMachine []) cutOffEnv ≠ none := by
    rw [ne_eq, loadNumaInfo_eq_none]
    rintro ⟨i, _, missing⟩
    cases missing
  obtain ⟨v, stored, measured⟩ := real succeeded 1 (by decide) 1 (by decide)
  have one : cellAt (initNumaLatency exactText 2 (smallMachine []).nodeCpus cutOffEnv).1 1 1 =
      some 1 := by
    decide +kernel
  cases one.symm.trans stored
  rcases measured with ⟨_, measures, _⟩ | ⟨_, run, mem, _, reread⟩
  · exact absurd measures (by decide +kernel)
  · obtain rfl := List.mem_singleton.mp mem
    exact absurd reread (by unfold Rereads; decide +kernel)

/-- A failed measurement is in the file, and every later start takes it for a latency. -/
theorem failure_persists {text : DoubleText ℚ} (exact : text.Exact) {numaNumber : Nat}
    (isInt : numaNumber < 2 ^ 31) {nodeCpus nodeCpus' : Nat → Option (List Nat)}
    {env later : LatencyEnv ℚ} (cached : Cached text numaNumber nodeCpus env later) {i j : Nat}
    (row : i < numaNumber) (column : j < numaNumber)
    (failed : ¬ (env.measurement i j).Succeeds) :
    cellAt (initNumaLatency text numaNumber nodeCpus' later).1 i j = some (-1) := by
  have error : roundTo 6 (Double.ofInt (-1)) = -1 := by decide +kernel
  obtain ⟨succeeds, _⟩ | ⟨_, value⟩ := measuredLatency_eq nodeCpus env i j
  · exact absurd succeeds failed
  · rw [cellAt_cached exact isInt cached row column, value, error]

end VNams.Nuiod
