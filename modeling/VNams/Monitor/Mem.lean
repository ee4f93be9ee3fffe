import VNams.Types

/-!
`Mem_monitor::get_proc_mem_numa_distribution`: the pages a process has on each node,
summed over the `N<node>=<pages>` tokens of `/proc/<pid>/numa_maps`.
-/

namespace VNams.Monitor

open Lib.CText

/-- `Mem_monitor::BUF_SIZE`. -/
def memBufSize : Nat := 256

/-- The delimiters of the tokens: blank, tab, carriage return and newline. -/
def isTokenDelimiter (c : Char) : Bool := c == ' ' || c == '\t' || c == '\r' || c == '\n'

/-- One token. `none` is the early return of -1; a negative node is not caught by the
test and indexes outside the vector. -/
def addToken (numaNumber : Nat) (nodePages : List UInt32) (token : Text) :
    Except Fault (Option (List UInt32)) :=
  match token with
  | 'N' :: p =>
      let (value, p) := strtol 10 p
      let node := toInt32 value
      if (numaNumber : Int) ≤ node then .ok none
      else
        match p with
        | '=' :: p => do
            let pages := UInt32.ofInt (strtol 10 p).1
            let old ← vecAtInt nodePages node
            .ok (some (nodePages.set node.toNat (old + pages)))
        | _ => .ok none
  | _ => .ok (some nodePages)

/-- The tokens of the file in order, up to an early return. -/
def addTokens (numaNumber : Nat) :
    List Text → List UInt32 → Except Fault (Int × List UInt32)
  | [], nodePages => .ok (0, nodePages)
  | token :: rest, nodePages => do
      match ← addToken numaNumber nodePages token with
      | none => .ok (-1, nodePages)
      | some nodePages => addTokens numaNumber rest nodePages

/-- Get the memory page distribution of a process; `file` is its `numa_maps`, or `none`
when it cannot be opened, and then the vector is left as it was. -/
def getProcMemNumaDistribution (numaNumber : Nat) (file : Option Text)
    (nodePages : List UInt32) : Except Fault (Int × List UInt32) :=
  match file with
  | none => .ok (-1, nodePages)
  | some text =>
      addTokens numaNumber ((fgets memBufSize text).flatMap (tokens isTokenDelimiter))
        (List.replicate numaNumber 0)

/-- What a token does to the counts: `none` is the early return. -/
inductive TokenRead (numaNumber : Nat) (nodePages : List UInt32) :
    Text → Option (List UInt32) → Prop where
  | other {token : Text} (noNode : token.head? ≠ some 'N') :
      TokenRead numaNumber nodePages token (some nodePages)
  | tooLarge {p : Text} (large : (numaNumber : Int) ≤ toInt32 (strtol 10 p).1) :
      TokenRead numaNumber nodePages ('N' :: p) none
  | noEquals {p : Text} (inRange : toInt32 (strtol 10 p).1 < numaNumber)
      (missing : (strtol 10 p).2.head? ≠ some '=') :
      TokenRead numaNumber nodePages ('N' :: p) none
  | added {p p' : Text} {old : UInt32} (nonneg : 0 ≤ toInt32 (strtol 10 p).1)
      (inRange : toInt32 (strtol 10 p).1 < numaNumber) (equals : (strtol 10 p).2 = '=' :: p')
      (found : nodePages[(toInt32 (strtol 10 p).1).toNat]? = some old) :
      TokenRead numaNumber nodePages ('N' :: p) (some (nodePages.set
        (toInt32 (strtol 10 p).1).toNat (old + UInt32.ofInt (strtol 10 p').1)))

theorem addToken_spec {numaNumber : Nat} {nodePages : List UInt32} {token : Text}
    {next : Option (List UInt32)} (added : addToken numaNumber nodePages token = .ok next) :
    TokenRead numaNumber nodePages token next := by
  unfold addToken at added
  split at added
  · rename_i p
    simp only at added
    split at added
    · rename_i large
      cases added
      exact .tooLarge large
    · rename_i inRange
      split at added
      · rename_i p' equals
        obtain ⟨old, found, stored⟩ := Lib.bind_eq_ok.mp added
        obtain ⟨nonneg, counted⟩ := vecAtInt_eq_ok.mp found
        cases stored
        exact .added nonneg (Int.not_le.mp inRange) equals counted
      · rename_i missing
        cases added
        apply TokenRead.noEquals (Int.not_le.mp inRange)
        intro equals
        obtain ⟨p', same⟩ := List.head?_eq_some_iff.mp equals
        exact missing p' same
  · rename_i noNode
    cases added
    apply TokenRead.other
    intro head
    obtain ⟨p, rfl⟩ := List.head?_eq_some_iff.mp head
    exact noNode p rfl

/-- Adding a token keeps one count for each node. -/
theorem addToken_length {numaNumber : Nat} {nodePages nodePages' : List UInt32} {token : Text}
    (added : addToken numaNumber nodePages token = .ok (some nodePages')) :
    nodePages'.length = nodePages.length := by
  cases addToken_spec added with
  | other => rfl
  | added => exact List.length_set ..

/-- A distribution that is read to the end has one count for each node. -/
theorem addTokens_length {numaNumber : Nat} {toks : List Text} {nodePages nodePages' : List UInt32}
    {ret : Int} (added : addTokens numaNumber toks nodePages = .ok (ret, nodePages')) :
    nodePages'.length = nodePages.length := by
  induction toks generalizing nodePages with
  | nil =>
      cases added
      rfl
  | cons token rest ih =>
      simp only [addTokens] at added
      obtain ⟨next, first, later⟩ := Lib.bind_eq_ok.mp added
      cases next with
      | none =>
          cases later
          rfl
      | some mid => rw [ih later, addToken_length first]

/-- What a readable `numa_maps` leaves: one count for each node. -/
theorem getProcMemNumaDistribution_length {numaNumber : Nat} {text : Text}
    {nodePages nodePages' : List UInt32} {ret : Int}
    (read : getProcMemNumaDistribution numaNumber (some text) nodePages = .ok (ret, nodePages')) :
    nodePages'.length = numaNumber := by
  have same := addTokens_length read
  rwa [List.length_replicate] at same

end VNams.Monitor
