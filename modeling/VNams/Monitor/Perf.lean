import VNams.Types

/-!
`PerfMonitor::monitorPerfEvent`: the six counters of `perf stat`, told apart by the
first letter of an output line and one letter at a fixed offset after it.

Neither look-up tests for the end of the line, so the model keeps the whole line
buffer: after `fgets` it holds the line, its terminator, and what was there before.
-/

namespace VNams.Monitor

open Lib.CText

variable {D : Type}

/-- The size of the line buffer. -/
def perfBufSize : Nat := 128

/-- The buffer after `fgets` stored a chunk in it. -/
def fill (buffer chunk : Text) : Text :=
  chunk ++ '\x00' :: buffer.drop (chunk.length + 1)

/-- A character of the buffer at an offset from `p`. -/
def peek (p : Text) (offset : Nat) : Except Fault Char :=
  match p[offset]? with
  | some c => .ok c
  | none => .error .overread

/-- One line of the output, at the front of the buffer. -/
def perfLine (buffer : Text) (vm : VmInfo D) : Except Fault (VmInfo D) :=
  let count := strtoul 10 (buffer.takeWhile fun c => c != '\x00')
  match scanTo Char.isAlpha buffer with
  | none => .error .overread
  | some p =>
      match p.head? with
      | some 'c' => .ok { vm with cycles := count }
      | some 'i' => .ok { vm with instructions := count }
      | some 'o' => do
          -- offcore_response_demand_data_rd_llc_hit_any_response, or ..._miss_...
          let c ← peek p 36
          if c = 'h' then .ok { vm with llcDataRdHit := count }
          else if c = 'm' then .ok { vm with llcDataRdMiss := count }
          else .ok vm
      | some 'l' => do
          -- longest_lat_cache_reference, or longest_lat_cache_miss
          let c ← peek p 18
          if c = 'r' then .ok { vm with llcAllReference := count }
          else if c = 'm' then .ok { vm with llcAllMiss := count }
          else .ok vm
      | _ => .ok vm

/-- The lines of the output in order. -/
def perfLines : List Text → Text → VmInfo D → Except Fault (VmInfo D)
  | [], _, vm => .ok vm
  | chunk :: rest, buffer, vm => do
      let vm ← perfLine (fill buffer chunk) vm
      perfLines rest (fill buffer chunk) vm

/-- Monitor the performance events of a VM; `output` is what the command prints, or
`none` when `popen` fails, which throws. `buffer` is the uninitialised line buffer. -/
def monitorPerfEvent (buffer : Text) (output : Option Text) (vm : VmInfo D) :
    Except Fault (Int × VmInfo D) :=
  match output with
  | none => .error .uncaught
  | some text => do
      let vm ← perfLines (fgets perfBufSize text) buffer vm
      .ok (0, vm)

end VNams.Monitor
