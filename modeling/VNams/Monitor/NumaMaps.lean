import Mathlib.Algebra.Order.BigOperators.Group.List
import Mathlib.Data.Int.ModEq
import VNams.Lib.Chunks
import VNams.Monitor.Mem

/-!
When the pages on each node are counted exactly.

`get_proc_mem_numa_distribution` splits `numa_maps` into tokens buffer by buffer, so a token
that reaches over the end of a buffer is read as several. On a file in the format of
`numa_maps` the counts are exact if and only if the cut tokens are harmless, every part of
one being readable and the parts adding up to what the tokens say (`pages_exact_iff`). A
file path that ends near the end of the buffer is enough for a node to lose pages without an
error (`longPath_loses_pages`).
-/

namespace VNams.Monitor

open Lib CText

/-! ### The format -/

/-- A token `N<node>=<pages>` of a node that exists. -/
structure IsNodeToken (numaNumber : Nat) (token node pages : Text) : Prop where
  written : token = 'N' :: (node ++ '=' :: pages)
  node_ne_nil : node ≠ []
  node_digits : ∀ c ∈ node, c.isDigit = true
  node_exists : Nat.ofDigitChars 10 node 0 < numaNumber
  pages_ne_nil : pages ≠ []
  pages_digits : ∀ c ∈ pages, c.isDigit = true

/-- The pages that a token says are on node `n`. -/
def pagesOn (n : Nat) : Text → Nat
  | 'N' :: p =>
      if Nat.ofDigitChars 10 (p.takeWhile Char.isDigit) 0 = n then
        Nat.ofDigitChars 10 (p.dropWhile Char.isDigit).tail 0
      else 0
  | _ => 0

/-- The pages that a file says are on node `n`. -/
def totalOn (n : Nat) (file : Text) : Nat :=
  ((tokens isTokenDelimiter file).map (pagesOn n)).sum

/-- A `numa_maps` whose tokens at `N` are node tokens, with totals of 32 bits. -/
structure IsNumaMaps (numaNumber : Nat) (file : Text) : Prop where
  written : ∀ token ∈ tokens isTokenDelimiter file,
    (∃ node pages, IsNodeToken numaNumber token node pages) ∨ token.head? ≠ some 'N'
  fits : ∀ n < numaNumber, totalOn n file < 2 ^ 32

/-- The distribution is read without an error and has the total of each node. -/
def PagesExact (numaNumber : Nat) (file : Text) (nodePages : List UInt32) : Prop :=
  ∃ counts, getProcMemNumaDistribution numaNumber (some file) nodePages = .ok (0, counts) ∧
    ∀ n < numaNumber, counts[n]?.map UInt32.toNat = some (totalOn n file)

/-! ### What one token adds -/

/-- A token that neither ends the reading nor writes outside the vector. -/
def Readable (numaNumber : Nat) : Text → Prop
  | 'N' :: p =>
      0 ≤ toInt32 (strtol 10 p).1 ∧ toInt32 (strtol 10 p).1 < numaNumber ∧
        (strtol 10 p).2.head? = some '='
  | _ => True

/-- The pages that a token or a part of one is read as for node `n`. -/
def pagesRead (n : Nat) : Text → Nat
  | 'N' :: p =>
      if toInt32 (strtol 10 p).1 = n then
        (UInt32.ofInt (strtol 10 (strtol 10 p).2.tail).1).toNat
      else 0
  | _ => 0

/-- The counts of a function from nodes, in 32 bits. -/
def tally (numaNumber : Nat) (f : Nat → Nat) : List UInt32 :=
  (List.range numaNumber).map fun n => UInt32.ofNat (f n)

theorem getElem?_tally {numaNumber : Nat} (f : Nat → Nat) (n : Nat) :
    (tally numaNumber f)[n]? = if n < numaNumber then some (UInt32.ofNat (f n)) else none := by
  split
  · rename_i inRange
    simp [tally, inRange]
  · rename_i beyond
    simp [tally, Nat.le_of_not_lt beyond]

/-- Adding to one count. -/
theorem set_tally {numaNumber node : Nat} (f : Nat → Nat) (pages : UInt32) :
    (tally numaNumber f).set node (UInt32.ofNat (f node) + pages) =
      tally numaNumber fun n => f n + if (node : Int) = n then pages.toNat else 0 := by
  apply List.ext_getElem?
  intro n
  rw [List.getElem?_set, getElem?_tally, getElem?_tally]
  by_cases here : node = n
  · subst here
    by_cases inRange : node < numaNumber
    · simp [tally, inRange]
    · simp [tally, inRange]
  · simp [here]

theorem addToken_tally {numaNumber : Nat} {token : Text} (f : Nat → Nat)
    (readable : Readable numaNumber token) :
    addToken numaNumber (tally numaNumber f) token =
      .ok (some (tally numaNumber fun n => f n + pagesRead n token)) := by
  unfold Readable at readable
  split at readable
  · rename_i p
    obtain ⟨nonneg, inRange, equals⟩ := readable
    simp only [addToken, pagesRead]
    generalize strtol 10 p = number at nonneg inRange equals ⊢
    obtain ⟨value, rest⟩ := number
    obtain ⟨node, isNode⟩ := Int.eq_ofNat_of_zero_le nonneg
    obtain ⟨p', rfl⟩ := List.head?_eq_some_iff.mp equals
    simp only [isNode] at inRange
    have found : vecAtInt (tally numaNumber f) node = .ok (UInt32.ofNat (f node)) := by
      rw [vecAtInt_natCast, vecAt_eq_ok, getElem?_tally, if_pos (by omega)]
    simp only [isNode, if_neg (not_le.mpr inRange), found, Int.toNat_natCast, List.tail_cons,
      ← set_tally]
    rfl
  · rename_i noNode
    have nothing : ∀ n, pagesRead n token = 0 := by
      intro n
      unfold pagesRead
      split
      · exact absurd rfl (noNode _)
      · rfl
    unfold addToken
    split
    · exact absurd rfl (noNode _)
    · simp [nothing]

theorem readable_of_head {numaNumber : Nat} {token : Text} (other : token.head? ≠ some 'N') :
    Readable numaNumber token := by
  unfold Readable
  split
  · exact absurd rfl other
  · trivial

theorem addToken_readable {numaNumber : Nat} {nodePages nodePages' : List UInt32}
    {token : Text} (added : addToken numaNumber nodePages token = .ok (some nodePages')) :
    Readable numaNumber token := by
  cases addToken_spec added with
  | other noNode => exact readable_of_head noNode
  | added nonneg inRange equals found => exact ⟨nonneg, inRange, by rw [equals]; rfl⟩

/-- Reading to the end: every token is readable, and each node has what they add. -/
theorem addTokens_tally {numaNumber : Nat} {toks : List Text} {counts : List UInt32}
    (f : Nat → Nat) :
    addTokens numaNumber toks (tally numaNumber f) = .ok (0, counts) ↔
      (∀ token ∈ toks, Readable numaNumber token) ∧
        counts = tally numaNumber fun n => f n + (toks.map (pagesRead n)).sum := by
  induction toks generalizing f with
  | nil => simp [addTokens, eq_comm]
  | cons token rest ih =>
      rw [addTokens, bind_eq_ok, List.forall_mem_cons]
      constructor
      · rintro ⟨next, added, later⟩
        cases next with
        | none => cases later
        | some mid =>
            have readable := addToken_readable added
            rw [addToken_tally f readable] at added
            cases added
            obtain ⟨others, total⟩ := (ih _).mp later
            refine ⟨⟨readable, others⟩, ?_⟩
            simp only [total, List.map_cons, List.sum_cons, Nat.add_assoc]
      · rintro ⟨⟨readable, others⟩, total⟩
        refine ⟨_, addToken_tally f readable, (ih _).mpr ⟨others, ?_⟩⟩
        simp only [total, List.map_cons, List.sum_cons, Nat.add_assoc]

/-! ### Whole tokens -/

theorem toNat_ofInt_natCast (n : Nat) : (UInt32.ofInt n).toNat = n % 2 ^ 32 := by
  have lowBits : ((n : Int) % 2 ^ 32).toNat = n % 2 ^ 32 := by omega
  rw [UInt32.ofInt, lowBits]
  simp

section NodeToken

variable {numaNumber : Nat} {token node pages : Text}

theorem IsNodeToken.strtol_node (format : IsNodeToken numaNumber token node pages)
    (isInt : numaNumber < 2 ^ 31) :
    strtol 10 (node ++ '=' :: pages) = ((Nat.ofDigitChars 10 node 0 : Int), '=' :: pages) ∧
      toInt32 (Nat.ofDigitChars 10 node 0) = Nat.ofDigitChars 10 node 0 := by
  have small := format.node_exists
  constructor
  · rw [strtol_digits format.node_ne_nil format.node_digits _ (by simp),
      min_eq_left (by omega)]
  · exact Int.bmod_eq_of_le (by omega) (by omega)

theorem IsNodeToken.readable (format : IsNodeToken numaNumber token node pages)
    (isInt : numaNumber < 2 ^ 31) : Readable numaNumber token := by
  obtain ⟨number, small⟩ := format.strtol_node isInt
  rw [format.written]
  simp only [Readable, number, small]
  exact ⟨Int.natCast_nonneg _, Int.ofNat_lt.mpr format.node_exists, rfl⟩

theorem IsNodeToken.pagesOn_eq (format : IsNodeToken numaNumber token node pages) (n : Nat) :
    pagesOn n token =
      if Nat.ofDigitChars 10 node 0 = n then Nat.ofDigitChars 10 pages 0 else 0 := by
  have digits := format.node_digits
  rw [format.written, pagesOn, List.takeWhile_append_of_pos digits,
    List.dropWhile_append_of_pos digits]
  simp

theorem IsNodeToken.pagesRead_eq (format : IsNodeToken numaNumber token node pages)
    (isInt : numaNumber < 2 ^ 31) {n : Nat} (fits : pagesOn n token < 2 ^ 32) :
    pagesRead n token = pagesOn n token := by
  obtain ⟨number, small⟩ := format.strtol_node isInt
  rw [format.pagesOn_eq] at fits ⊢
  rw [format.written]
  simp only [pagesRead, number, small, Int.natCast_inj, List.tail_cons]
  split
  · rename_i here
    rw [if_pos here] at fits
    have value := strtol_digits format.pages_ne_nil format.pages_digits [] (by simp)
    rw [List.append_nil, min_eq_left (by omega)] at value
    rw [value, toNat_ofInt_natCast, Nat.mod_eq_of_lt fits]
  · rfl

end NodeToken

theorem pages_of_head {token : Text} (other : token.head? ≠ some 'N') (n : Nat) :
    pagesRead n token = 0 ∧ pagesOn n token = 0 := by
  unfold pagesRead pagesOn
  split
  · exact absurd rfl other
  · exact ⟨rfl, rfl⟩

theorem IsNumaMaps.readable {numaNumber : Nat} {file : Text}
    (format : IsNumaMaps numaNumber file) (isInt : numaNumber < 2 ^ 31) :
    ∀ token ∈ tokens isTokenDelimiter file, Readable numaNumber token := by
  intro token mem
  obtain ⟨_, _, isNode⟩ | other := format.written token mem
  · exact isNode.readable isInt
  · exact readable_of_head other

/-- A token that is read whole is read as what it says. -/
theorem IsNumaMaps.pagesRead_eq {numaNumber : Nat} {file : Text}
    (format : IsNumaMaps numaNumber file) (isInt : numaNumber < 2 ^ 31) {n : Nat}
    (inRange : n < numaNumber) :
    ∀ token ∈ tokens isTokenDelimiter file, pagesRead n token = pagesOn n token := by
  intro token mem
  obtain ⟨_, _, isNode⟩ | other := format.written token mem
  · apply isNode.pagesRead_eq isInt
    exact (List.le_sum_of_mem (List.mem_map_of_mem mem)).trans_lt (format.fits n inRange)
  · rw [(pages_of_head other n).1, (pages_of_head other n).2]

/-! ### Exactness -/

/-- The tokens that a read of the buffer cuts. -/
abbrev cutInBuffer (file : Text) : List (List Text) :=
  cutTokens memBufSize isTokenDelimiter file

/-- The cuts do no harm: every part of a cut token is readable, and on each node the parts
add up to what the cut tokens say. -/
structure HarmlesslyCut (numaNumber : Nat) (file : Text) : Prop where
  readable : ∀ parts ∈ cutInBuffer file, ∀ part ∈ parts, Readable numaNumber part
  balanced : ∀ n < numaNumber,
    ((cutInBuffer file).flatten.map (pagesRead n)).sum ≡
      ((cutInBuffer file).map fun parts => pagesOn n parts.flatten).sum [MOD 2 ^ 32]

/-- What a reading to the end comes to. -/
theorem getProcMemNumaDistribution_eq_ok {numaNumber : Nat} {file : Text}
    {nodePages counts : List UInt32} :
    getProcMemNumaDistribution numaNumber (some file) nodePages = .ok (0, counts) ↔
      (∀ part ∈ (pieces memBufSize isTokenDelimiter file).flatten, Readable numaNumber part) ∧
        counts = tally numaNumber fun n =>
          ((pieces memBufSize isTokenDelimiter file).flatten.map (pagesRead n)).sum := by
  have zeros : List.replicate numaNumber (0 : UInt32) = tally numaNumber fun _ => 0 := by
    simp [tally, List.map_const']
  rw [getProcMemNumaDistribution, flatMap_tokens_fgets, zeros, addTokens_tally]
  simp only [Nat.zero_add]

/-- The cut tokens account for the difference between the parts and the tokens. -/
theorem total_parts_modEq_iff {numaNumber : Nat} {file : Text}
    (format : IsNumaMaps numaNumber file) (isInt : numaNumber < 2 ^ 31) {n : Nat}
    (inRange : n < numaNumber) :
    ((pieces memBufSize isTokenDelimiter file).flatten.map (pagesRead n)).sum ≡ totalOn n file
        [MOD 2 ^ 32] ↔
      ((cutInBuffer file).flatten.map (pagesRead n)).sum ≡
        ((cutInBuffer file).map fun parts => pagesOn n parts.flatten).sum [MOD 2 ^ 32] := by
  have whole := format.pagesRead_eq isInt inRange
  have balance := sum_parts (pagesRead n) isTokenDelimiter memBufSize file
  have total : ((tokens isTokenDelimiter file).map (pagesRead n)).sum = totalOn n file := by
    rw [totalOn, List.map_congr_left whole]
  have ofCut : ((cutInBuffer file).map fun parts => pagesRead n parts.flatten) =
      (cutInBuffer file).map fun parts => pagesOn n parts.flatten := by
    apply List.map_congr_left
    intro parts mem
    apply whole
    rw [← map_flatten_pieces memBufSize file]
    exact List.mem_map_of_mem (List.mem_filter.mp mem).1
  unfold cutInBuffer at ofCut ⊢
  rw [total, ofCut] at balance
  unfold Nat.ModEq
  omega

/-- The pages on each node are counted exactly if and only if no read of the buffer cuts a
token harmfully. -/
theorem pages_exact_iff {numaNumber : Nat} {file : Text}
    (format : IsNumaMaps numaNumber file) (isInt : numaNumber < 2 ^ 31)
    (nodePages : List UInt32) :
    PagesExact numaNumber file nodePages ↔ HarmlesslyCut numaNumber file := by
  have readable := forall_parts memBufSize (format.readable isInt)
  have balanced := fun n inRange => total_parts_modEq_iff format isInt (n := n) inRange
  have counted : ∀ n < numaNumber,
      ((tally numaNumber fun n =>
        ((pieces memBufSize isTokenDelimiter file).flatten.map (pagesRead n)).sum)[n]?.map
          UInt32.toNat = some (totalOn n file)) ↔
        ((pieces memBufSize isTokenDelimiter file).flatten.map (pagesRead n)).sum ≡
          totalOn n file [MOD 2 ^ 32] := by
    intro n inRange
    rw [getElem?_tally, if_pos inRange, Nat.ModEq, Nat.mod_eq_of_lt (format.fits n inRange)]
    simp
  constructor
  · rintro ⟨counts, read, totals⟩
    obtain ⟨parts, rfl⟩ := getProcMemNumaDistribution_eq_ok.mp read
    exact ⟨readable.mp parts, fun n inRange =>
      (balanced n inRange).mp ((counted n inRange).mp (totals n inRange))⟩
  · intro harmless
    refine ⟨_, getProcMemNumaDistribution_eq_ok.mpr ⟨readable.mpr harmless.readable, rfl⟩, ?_⟩
    exact fun n inRange => (counted n inRange).mpr
      ((balanced n inRange).mpr (harmless.balanced n inRange))

/-- The pages of a file whose lines, the newline included, are shorter than the buffer. -/
theorem pagesExact_of_lines {numaNumber : Nat} {lines : List Text}
    (format : IsNumaMaps numaNumber (lines.flatMap fun line => line ++ ['\n']))
    (isInt : numaNumber < 2 ^ 31) (newline : ∀ line ∈ lines, '\n' ∉ line)
    (fits : ∀ line ∈ lines, line.length + 1 < memBufSize) (nodePages : List UInt32) :
    PagesExact numaNumber (lines.flatMap fun line => line ++ ['\n']) nodePages := by
  have isNewline : isTokenDelimiter '\n' = true := rfl
  have notCut := cutTokens_lines isNewline newline fits
  apply (pages_exact_iff format isInt nodePages).mpr
  exact ⟨by simp [cutInBuffer, notCut], fun n _ => by simp [cutInBuffer, notCut, Nat.ModEq]⟩

/-- A line with a path of `length` characters, and 345 pages on node 0. -/
def pathLine (length : Nat) : Text :=
  "7f5c8a000000 default file=/".toList ++ List.replicate length 'a' ++ " N0=345\n".toList

theorem isNumaMaps_pathLine {length : Nat}
    (split : tokens isTokenDelimiter (pathLine length) =
      ["7f5c8a000000".toList, "default".toList,
        "file=/".toList ++ List.replicate length 'a', "N0=345".toList]) :
    IsNumaMaps 1 (pathLine length) := by
  constructor
  · intro token mem
    simp only [split, List.mem_cons, List.not_mem_nil, or_false] at mem
    obtain rfl | rfl | rfl | rfl := mem
    · exact .inr (by decide +kernel)
    · exact .inr (by decide +kernel)
    · exact .inr (by simp)
    · have written : "N0=345".toList = 'N' :: (['0'] ++ '=' :: ['3', '4', '5']) := by
        decide +kernel
      exact .inl ⟨_, _, written, by simp, by simp, Nat.zero_lt_one, by simp, by simp⟩
  · intro n small
    have zero : n = 0 := by omega
    subst zero
    simp [totalOn, split, pagesOn, Nat.ofDigitChars_cons]

/-- A path that is cut, and no part of it looks like a node. -/
theorem pages_exact_iff_cutPath : PagesExact 1 (pathLine 240) [] := by
  have cut : cutInBuffer (pathLine 240) =
      [["file=/".toList ++ List.replicate 228 'a', List.replicate 12 'a']] := by
    decide +kernel
  have others : ∀ parts ∈ cutInBuffer (pathLine 240), ∀ part ∈ parts,
      part.head? ≠ some 'N' := by
    rw [cut]
    decide +kernel
  apply (pages_exact_iff (isNumaMaps_pathLine (by decide +kernel)) (by decide) []).mpr
  constructor
  · exact fun parts mem part here => readable_of_head (others parts mem part here)
  · intro n _
    rw [cut]
    rfl

/-- The path ends where the buffer reaches into the count behind it: 342 pages are lost, and
the distribution is reported as read. -/
theorem longPath_loses_pages :
    IsNumaMaps 1 (pathLine 223) ∧ totalOn 0 (pathLine 223) = 345 ∧
      getProcMemNumaDistribution 1 (some (pathLine 223)) [] = .ok (0, [3]) ∧
      ¬ PagesExact 1 (pathLine 223) [] := by
  have total : totalOn 0 (pathLine 223) = 345 := by decide +kernel
  have read : getProcMemNumaDistribution 1 (some (pathLine 223)) [] = .ok (0, [3]) := by
    decide +kernel
  refine ⟨isNumaMaps_pathLine (by decide +kernel), total, read, ?_⟩
  rintro ⟨counts, same, totals⟩
  cases read.symm.trans same
  have node0 := totals 0 (by decide)
  rw [total] at node0
  cases node0

end VNams.Monitor
