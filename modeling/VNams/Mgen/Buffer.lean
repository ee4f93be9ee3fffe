import Mathlib.Logic.Function.Iterate
import Mathlib.Tactic.Ring
import VNams.Mgen.RandArray
import VNams.Types

/-!
The buffer that the latency is measured on.

Each line of the buffer holds the address of the line that is read after it. The lines of a
block follow each other in the random order, the last one of a block leads to the next block
and the last one of all back to the start (`bufInit_circuit`). So reading never leaves the
buffer, and every line of it is read before one is read again (`buf_read_cycles`).
-/

namespace VNams.Mgen

open Lib

variable {n : Nat}

/-- `LINE_SIZE` -/
def lineSize : Nat := 64

/-- `BUF_SIZE` -/
def bufSize : Nat := 256 * 1024 * 1024

/-- `READ_NUM` -/
def readNum : Nat := 10240000

/-- What the loops of `rand_buf_init` work on. -/
structure Filling where
  /-- the addresses that are stored in the buffer, by the address they are stored at -/
  mem : IntMap
  p : Int
  /-- `end` -/
  endP : Option Int

/-- The inner loop body of `rand_buf_init`. -/
def fillLine (n : Nat) (blkStart : Int) (s : Filling) (elem : Int) : Filling where
  endP := if elem = n then some s.p else s.endP
  mem := s.mem.insert s.p (blkStart + elem * lineSize)
  p := s.p + lineSize

/-- The outer loop body of `rand_buf_init`. -/
def fillBlock (randArr : RandArr n) (s : Filling) : Filling :=
  randArr.toList.foldl (fillLine n s.p) s

/-- `rand_buf_init` -/
def randBufInit (randArr : RandArr n) (buf : Int) (size : Nat) : IntMap :=
  let nblk := size / (n * lineSize)
  let s := (fillBlock randArr)^[nblk] ⟨∅, buf, none⟩
  match s.endP with
  | some last => s.mem.insert last buf
  | none => s.mem

/-- `buf_init` on the draws of `rand`: the buffer, and the draws that are left. -/
def bufInit (n : Nat) [NeZero n] (draws : List Nat) (buf : Int) (size : Nat) :
    Option (IntMap × List Nat) :=
  (randArrayInit n draws).map fun r => (randBufInit r.1 buf size, r.2)

/-- What is stored at an address of the buffer. -/
def storedAt (mem : IntMap) (a : Int) : Option Int := mem[a]?

/-- `mov (%1),%1` -/
def load (mem : IntMap) (p : Int) : Except Fault Int :=
  match storedAt mem p with
  | some q => .ok q
  | none => .error .nullPointer

/-- The loop of `buf_read` with so many reads left after the present one. -/
def readLoop (mem : IntMap) : Nat → Int → Except Fault Int
  | 0, p => load mem p
  | left + 1, p => do
      let p ← load mem p
      readLoop mem left p

/-- `buf_read`: the address that is read last. The loop tests its counter after a read. -/
def bufRead (mem : IntMap) (buf : Int) (readNum : Nat) : Except Fault Int :=
  readLoop mem (readNum - 1) buf

/-! ### One block -/

/-- The address of a line of the block that begins there. -/
def lineAt (blkStart : Int) (slot : Nat) : Int := blkStart + (slot : Int) * lineSize

theorem lineAt_inj {blkStart : Int} {slot slot' : Nat} (same : lineAt blkStart slot = lineAt blkStart slot') :
    slot = slot' := by
  unfold lineAt lineSize at same
  omega

/-- The inner loop stores the links of the elements, one line after the other, and nothing
else. -/
theorem foldl_fillLine (blkStart : Int) (elems : List Int) (s : Filling) :
    (elems.foldl (fillLine n blkStart) s).p = lineAt s.p elems.length ∧
    (∀ slot elem, elems[slot]? = some elem →
      (elems.foldl (fillLine n blkStart) s).mem[lineAt s.p slot]?
        = some (blkStart + elem * lineSize)) ∧
    ∀ a, (∀ slot < elems.length, a ≠ lineAt s.p slot) →
      (elems.foldl (fillLine n blkStart) s).mem[a]? = s.mem[a]? := by
  induction elems generalizing s with
  | nil => simp [lineAt]
  | cons elem elems ih =>
      have next : ∀ slot, lineAt (fillLine n blkStart s elem).p slot = lineAt s.p (slot + 1) := by
        intro slot
        simp only [fillLine, lineAt, lineSize]
        omega
      obtain ⟨p, cells, frame⟩ := ih (fillLine n blkStart s elem)
      simp only [next] at p cells frame
      rw [List.foldl_cons]
      refine ⟨p, ?_, ?_⟩
      · intro slot elem' found
        cases slot with
        | zero =>
            obtain rfl : elem = elem' := Option.some.inj found
            have first : (fillLine n blkStart s elem).mem[lineAt s.p 0]?
                = some (blkStart + elem * lineSize) := by
              have isP : lineAt s.p 0 = s.p := by simp [lineAt]
              rw [isP]
              exact Std.TreeMap.getElem?_insert_self
            rw [frame, first]
            intro slot _ same
            have equal := lineAt_inj same
            omega
        | succ slot => exact cells slot elem' found
      · intro a apart
        rw [frame a fun slot lt => apart (slot + 1) (Nat.succ_lt_succ lt)]
        have other := apart 0 (Nat.succ_pos _)
        have isP : lineAt s.p 0 = s.p := by simp [lineAt]
        rw [isP] at other
        exact (Std.TreeMap.getElem?_insert).trans
          (if_neg fun equal => other (compare_eq_iff_eq.mp equal).symm)

/-- `end` stays when no element is the last one. -/
theorem endP_of_notMem (blkStart : Int) {elems : List Int} (s : Filling) (none : (n : Int) ∉ elems) :
    (elems.foldl (fillLine n blkStart) s).endP = s.endP := by
  induction elems generalizing s with
  | nil => rfl
  | cons elem elems ih =>
      rw [List.mem_cons, not_or] at none
      rw [List.foldl_cons, ih _ none.2]
      exact if_neg (Ne.symm none.1)

/-- `end` is the address of the last element of the order. -/
theorem endP_eq (blkStart : Int) {before after : List Int} (s : Filling) (last : (n : Int) ∉ after) :
    ((before ++ (n : Int) :: after).foldl (fillLine n blkStart) s).endP
      = some (lineAt s.p before.length) := by
  rw [List.foldl_append, List.foldl_cons, endP_of_notMem _ _ last]
  show (if (n : Int) = n then some _ else _) = _
  rw [if_pos rfl, (foldl_fillLine blkStart before s).1]

/-! ### All blocks -/

/-- The outer loop after so many blocks. -/
theorem iterate_fillBlock (randArr : RandArr n) (buf : Int) (nblk : Nat) :
    ((fillBlock randArr)^[nblk] ⟨∅, buf, none⟩).p = lineAt buf (nblk * n) ∧
    ∀ b < nblk, ∀ slot elem, randArr[slot]? = some elem →
      ((fillBlock randArr)^[nblk] ⟨∅, buf, none⟩).mem[lineAt buf (b * n + slot)]?
        = some (lineAt buf (b * n) + elem * lineSize) := by
  induction nblk with
  | zero => simp [lineAt]
  | succ nblk ih =>
      rw [Function.iterate_succ_apply']
      generalize (fillBlock randArr)^[nblk] ⟨∅, buf, none⟩ = s at ih
      obtain ⟨start, cells⟩ := ih
      obtain ⟨p, own, frame⟩ := foldl_fillLine (n := n) s.p randArr.toList s
      have within : ∀ slot, lineAt s.p slot = lineAt buf (nblk * n + slot) := by
        intro slot
        rw [start]
        simp only [lineAt]
        push_cast
        ring
      simp only [within, Vector.length_toList] at p own frame
      constructor
      · rw [Nat.succ_mul]
        exact p
      · intro b before slot elem found
        rcases Nat.lt_succ_iff_lt_or_eq.mp before with earlier | rfl
        · refine (frame _ ?_).trans (cells b earlier slot elem found)
          intro slot' inRange same
          have equal := lineAt_inj same
          have inRange' := (Vector.getElem?_eq_some_iff.mp found).1
          have below : (b + 1) * n ≤ nblk * n := Nat.mul_le_mul_right n earlier
          rw [Nat.succ_mul] at below
          omega
        · have found' : randArr.toList[slot]? = some elem := by
            rw [Vector.getElem?_toList]
            exact found
          rw [← start]
          exact own slot elem found'

/-- The lines in the order in which they are read. -/
def stopsOf (buf : Int) (n : Nat) (order : List Nat) (nblk : Nat) : List Int :=
  (List.range nblk).flatMap fun b => order.map fun slot => lineAt buf (b * n + slot)

theorem stopsOf_succ (buf : Int) (order : List Nat) (nblk : Nat) :
    stopsOf buf n order (nblk + 1) =
      stopsOf buf n order nblk ++ order.map fun slot => lineAt buf (nblk * n + slot) := by
  simp [stopsOf, List.range_succ]

theorem stopsOf_head (buf : Int) {order : List Nat} (head : order.head? = some 0) (nblk : Nat) :
    (stopsOf buf n order (nblk + 1)).head? = some buf := by
  cases order with
  | nil => cases head
  | cons first others =>
      obtain rfl : first = 0 := Option.some.inj head
      simp [stopsOf, List.range_succ_eq_map, lineAt]

/-- They are all lines of the blocks. -/
theorem stopsOf_perm (buf : Int) {order : List Nat} (perm : order.Perm (List.range n)) (nblk : Nat) :
    (stopsOf buf n order nblk).Perm ((List.range (nblk * n)).map (lineAt buf)) := by
  induction nblk with
  | zero => simp [stopsOf]
  | succ nblk ih =>
      rw [stopsOf_succ, Nat.succ_mul, List.range_add, List.map_append, List.map_map]
      exact ih.append (perm.map _)

/-- The links of the blocks, put together: a route through all lines. -/
theorem route_stopsOf {randArr : RandArr n} {buf : Int} {mem : IntMap} {order : List Nat}
    {nblk : Nat} (route : Route (link randArr) order n) (head : order.head? = some 0)
    (cells : ∀ b < nblk, ∀ slot elem, randArr[slot]? = some elem →
      mem[lineAt buf (b * n + slot)]? = some (lineAt buf (b * n) + elem * lineSize)) :
    Route (storedAt mem) (stopsOf buf n order nblk) (lineAt buf (nblk * n)) := by
  induction nblk with
  | zero => exact route_nil _
  | succ nblk ih =>
      have before := ih fun b lt => cells b (Nat.lt_succ_of_lt lt)
      have block : Route (storedAt mem) (order.map fun slot => lineAt buf (nblk * n + slot))
          (lineAt buf (nblk * n + n)) := by
        refine route.map (f := fun slot => lineAt buf (nblk * n + slot)) ?_
        intro slot _ next leads
        obtain ⟨elem, found, isNext⟩ := Option.bind_eq_some_iff.mp leads
        obtain rfl := Int.mem_toNat?.mp isNext
        show mem[lineAt buf (nblk * n + slot)]? = _
        rw [cells nblk (Nat.lt_succ_self _) slot _ found]
        simp only [lineAt]
        push_cast
        ring_nf
      rw [stopsOf_succ, Nat.succ_mul]
      cases order with
      | nil => cases head
      | cons first others =>
          obtain rfl : first = 0 := Option.some.inj head
          exact before.append block

/-- `end` is the last line of the last block. -/
theorem iterate_endP {randArr : RandArr n} (buf : Int) {path : List Nat} {last nblk : Nat}
    (route : Route (link randArr) (path ++ [last]) n) (perm : (path ++ [last]).Perm (List.range n)) :
    ((fillBlock randArr)^[nblk + 1] ⟨∅, buf, none⟩).endP = some (lineAt buf (nblk * n + last)) := by
  have slots : ∀ slot ∈ path ++ [last], slot < n := fun slot mem =>
    List.mem_range.mp (perm.mem_iff.mp mem)
  have lastLt : last < randArr.toList.length := by
    rw [Vector.length_toList]
    exact slots last (by simp)
  -- no other slot has the end as its link
  have only : ∀ slot, randArr.toList[slot]? = some (n : Int) → slot = last := by
    intro slot found
    rw [Vector.getElem?_toList] at found
    have leads : link randArr slot = some n := by
      rw [link, found]
      exact Int.mem_toNat?.mpr rfl
    have mem : slot ∈ path ++ [last] :=
      perm.mem_iff.mpr (List.mem_range.mpr (Vector.getElem?_eq_some_iff.mp found).1)
    rcases List.mem_append.mp mem with inPath | isLast
    · obtain ⟨next, isStop, leads'⟩ := route.dropLast.exists_next inPath
      rw [leads] at leads'
      have equal := Option.some.inj leads'
      have below := slots next isStop
      omega
    · exact List.mem_singleton.mp isLast
  have isEnd : randArr.toList[last] = (n : Int) := by
    obtain ⟨elem, found, isN⟩ := Option.bind_eq_some_iff.mp route.last_leads
    obtain rfl := Int.mem_toNat?.mp isN
    rw [← Vector.getElem?_toList, List.getElem?_eq_getElem lastLt] at found
    exact Option.some.inj found
  have split : randArr.toList =
      randArr.toList.take last ++ (n : Int) :: randArr.toList.drop (last + 1) := by
    rw [← isEnd, List.getElem_cons_drop, List.take_append_drop]
  have notLater : (n : Int) ∉ randArr.toList.drop (last + 1) := by
    intro mem
    obtain ⟨i, found⟩ := List.mem_iff_getElem?.mp mem
    rw [List.getElem?_drop] at found
    have equal := only _ found
    omega
  rw [Function.iterate_succ_apply']
  have start := (iterate_fillBlock randArr buf nblk).1
  generalize (fillBlock randArr)^[nblk] ⟨∅, buf, none⟩ = s at start
  unfold fillBlock
  rw [split, endP_eq s.p s notLater, start, List.length_take, Nat.min_eq_left (Nat.le_of_lt lastLt)]
  simp only [lineAt]
  push_cast
  ring_nf

/-- The buffer of a completed array is one circuit through all lines of its blocks. -/
theorem randBufInit_circuit {randArr : RandArr n} (buf : Int) {size : Nat} {order : List Nat}
    (route : Route (link randArr) order n) (perm : order.Perm (List.range n))
    (head : order.head? = some 0) (block : 0 < size / (n * lineSize)) :
    Circuit (storedAt (randBufInit randArr buf size))
      (stopsOf buf n order (size / (n * lineSize))) buf := by
  obtain ⟨path, last, rfl⟩ : ∃ path last, order = path ++ [last] := by
    cases order using List.reverseRecOn with
    | nil => cases head
    | append_singleton path last => exact ⟨path, last, rfl⟩
  unfold randBufInit
  generalize size / (n * lineSize) = nblk at block ⊢
  obtain ⟨blocks, rfl⟩ := Nat.exists_eq_add_of_lt block
  rw [Nat.zero_add] at block ⊢
  have lines := stopsOf_perm buf perm (blocks + 1)
  have nodup : (stopsOf buf n (path ++ [last]) (blocks + 1)).Nodup := by
    rw [lines.nodup_iff]
    exact List.nodup_range.map fun _ _ same => lineAt_inj same
  have isLast : stopsOf buf n (path ++ [last]) (blocks + 1) =
      stopsOf buf n (path ++ [last]) blocks ++
        path.map (fun slot => lineAt buf (blocks * n + slot)) ++ [lineAt buf (blocks * n + last)] := by
    rw [stopsOf_succ, List.map_append, List.append_assoc]
    rfl
  have filled := route_stopsOf route head (iterate_fillBlock randArr buf (blocks + 1)).2
  simp only [iterate_endP buf route perm]
  refine ⟨nodup, stopsOf_head buf head blocks, ?_⟩
  rw [isLast] at nodup filled ⊢
  refine filled.redirect ?_ Std.TreeMap.getElem?_insert_self
  intro a mem
  have apart : lineAt buf (blocks * n + last) ≠ a := by
    rintro rfl
    exact (List.nodup_append.mp nodup).2.2 _ mem _ (List.mem_singleton_self _) rfl
  exact Std.TreeMap.getElem?_insert.trans (if_neg fun equal => apart (compare_eq_iff_eq.mp equal))

/-- What `buf_init` leaves is a circuit through all lines of the buffer. -/
theorem bufInit_circuit [NeZero n] {draws rest : List Nat} {buf : Int} {size : Nat} {mem : IntMap}
    (done : bufInit n draws buf size = some (mem, rest)) (block : n * lineSize ≤ size) :
    ∃ stops, Circuit (storedAt mem) stops buf ∧
      stops.Perm ((List.range (size / (n * lineSize) * n)).map (lineAt buf)) := by
  obtain ⟨⟨randArr, rest'⟩, made, same⟩ := Option.map_eq_some_iff.mp done
  obtain ⟨used, _, perm, route⟩ := randArrayInit_route made
  have pos : 0 < n * lineSize := Nat.mul_pos (Nat.pos_of_neZero n) (by decide)
  have blocks := Nat.div_pos block pos
  have head : (drawOrder n used).head? = some 0 := by
    rw [drawOrder, List.eraseDups_cons]
    rfl
  cases same
  exact ⟨_, randBufInit_circuit buf route perm head blocks, stopsOf_perm buf perm _⟩

/-- The buffer of the source is a whole number of blocks, so none of its lines is left out. -/
theorem bufInit_circuit_bufSize {draws rest : List Nat} {buf : Int} {mem : IntMap}
    (done : bufInit randArraySize draws buf bufSize = some (mem, rest)) :
    ∃ stops, Circuit (storedAt mem) stops buf ∧
      stops.Perm ((List.range (bufSize / lineSize)).map (lineAt buf)) := by
  have whole : bufSize / (randArraySize * lineSize) * randArraySize = bufSize / lineSize := by
    decide +kernel
  rw [← whole]
  exact bufInit_circuit done (by decide +kernel)

/-! ### Reading -/

theorem load_eq_ok {mem : IntMap} {p q : Int} (found : storedAt mem p = some q) :
    load mem p = .ok q := by
  rw [load, found]

theorem readLoop_of_follow {mem : IntMap} {left : Nat} {p q : Int}
    (leads : follow (storedAt mem) (left + 1) p = some q) : readLoop mem left p = .ok q := by
  induction left generalizing p with
  | zero =>
      obtain ⟨next, found, same⟩ := Option.bind_eq_some_iff.mp leads
      cases same
      exact load_eq_ok found
  | succ left ih =>
      obtain ⟨next, found, later⟩ := Option.bind_eq_some_iff.mp leads
      exact bind_eq_ok.mpr ⟨next, load_eq_ok found, ih later⟩

/-- Reading a circuit ends at one of its lines. -/
theorem bufRead_of_circuit {mem : IntMap} {stops : List Int} {buf : Int} {reads : Nat}
    (circuit : Circuit (storedAt mem) stops buf) (pos : 0 < reads) :
    ∃ p, stops[reads % stops.length]? = some p ∧ bufRead mem buf reads = .ok p := by
  have inRange := Nat.mod_lt reads circuit.length_pos
  have leads := circuit.follow reads
  rw [List.getElem?_eq_getElem inRange] at leads
  refine ⟨_, List.getElem?_eq_getElem inRange, ?_⟩
  apply readLoop_of_follow
  rw [Nat.sub_add_cancel pos]
  exact leads

/-- How many of the first reads are of a line. -/
def timesRead (mem : IntMap) (buf : Int) (reads : Nat) (line : Int) : Nat :=
  Nat.count (fun k => follow (storedAt mem) k buf = some line) reads

/-- Reading the buffer goes round through all of its lines in one order: no read leaves it,
and no line is read more than once oftener than another. -/
theorem buf_read_cycles (n : Nat) [NeZero n] {draws rest : List Nat} (buf : Int) {size : Nat}
    {mem : IntMap} (done : bufInit n draws buf size = some (mem, rest))
    (block : n * lineSize ≤ size) :
    ∃ stops : List Int,
      stops.Perm ((List.range (size / (n * lineSize) * n)).map (lineAt buf)) ∧
      stops.head? = some buf ∧
      (∀ reads, 0 < reads → ∃ p, stops[reads % stops.length]? = some p ∧
        bufRead mem buf reads = .ok p) ∧
      ∀ reads, ∀ line ∈ stops, reads / stops.length ≤ timesRead mem buf reads line ∧
        timesRead mem buf reads line ≤ reads / stops.length + 1 := by
  obtain ⟨stops, circuit, perm⟩ := bufInit_circuit done block
  exact ⟨stops, perm, circuit.head, fun _ pos => bufRead_of_circuit circuit pos,
    fun reads line mem => circuit.visits mem reads⟩

/-- Two blocks of four lines, and something behind them. -/
theorem buf_read_cycles_two : ∃ mem : IntMap, ∃ stops : List Int,
    stops.Perm ((List.range 8).map (lineAt 4096)) ∧ stops.head? = some 4096 ∧
    (∀ reads, 0 < reads → ∃ p, stops[reads % stops.length]? = some p ∧
      bufRead mem 4096 reads = .ok p) ∧
    ∀ reads, ∀ line ∈ stops, reads / stops.length ≤ timesRead mem 4096 reads line ∧
      timesRead mem 4096 reads line ≤ reads / stops.length + 1 := by
  have some' : (bufInit 4 [2, 4, 6, 3, 1, 5] 4096 520).isSome = true := by decide +kernel
  obtain ⟨⟨mem, rest⟩, done⟩ := Option.isSome_iff_exists.mp some'
  exact ⟨mem, buf_read_cycles 4 4096 done (by decide)⟩

end VNams.Mgen
