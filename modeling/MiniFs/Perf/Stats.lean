import MiniFs.Core.Types

/-! # The performance history (`perf.c`)

`perf_record` puts an operation into a ring of 64 records and adds to three running
totals; `perf_report` and `perf_last` print from both. What is printed is kept as its
arguments: a duration as the nanoseconds that are divided by 1000, the average latency
as the two totals it is computed from. The buffers given to `perf_last` hold 64 bytes,
more than any of its lines has.
-/

set_option autoImplicit false

namespace MiniFs.Perf
open MiniFs.Core Library Library.Exec

abbrev perfHistory : ℤ := 64

structure PerfRecord where
  opName : Vector UInt8 32
  /-- nanoseconds -/
  durationNs : UInt64
  /-- bytes involved -/
  bytesIo : UInt64

/-- The field `op_name` as `%s` prints it. -/
def PerfRecord.shownName (r : PerfRecord) : List UInt8 := r.opName.toList.takeWhile (· ≠ 0)

structure PerfStats where
  records : ℕ → PerfRecord
  count : ℤ
  /-- ring-buffer head -/
  head : ℤ
  totalOps : UInt64
  totalNs : UInt64
  totalBytes : UInt64

abbrev M := Prog PerfStats

/-- `memset(&g_perf, 0, sizeof(g_perf))` -/
def PerfStats.zero : PerfStats where
  records := fun _ => ⟨Vector.replicate 32 0, 0, 0⟩
  count := 0
  head := 0
  totalOps := 0
  totalNs := 0
  totalBytes := 0

def perfInit : M Unit := update fun _ => PerfStats.zero

/-- `struct timespec` as `clock_gettime(CLOCK_MONOTONIC)` fills it. -/
structure Timespec where
  tvSec : UInt64
  tvNsec : UInt64

def perfNowNs (ts : Timespec) : UInt64 := ts.tvSec * 1000000000 + ts.tvNsec

/-- The index `i` lies in `records`; elsewhere nothing is defined. -/
def inRecords (i : ℤ) : M Unit := require (0 ≤ i ∧ i < perfHistory)

def perfRecord (ts : Timespec) (op : CStr) (startNs bytes : UInt64) : M Unit := do
  let endNs := perfNowNs ts
  let dur := endNs - startNs
  let s ← ask id
  let slot := s.head.tmod perfHistory
  inRecords slot
  update fun s => { s with
    records := Function.update s.records slot.toNat
      { opName := Inode.strncpy (s.records slot.toNat).opName op
        durationNs := dur
        bytesIo := bytes }
    head := (s.head + 1).tmod perfHistory
    count := if s.count < perfHistory then s.count + 1 else s.count
    totalOps := s.totalOps + 1
    totalNs := s.totalNs + dur
    totalBytes := s.totalBytes + bytes }

inductive Line where
  /-- "=== Performance Report ===" -/
  | title
  /-- "  Total operations : %llu" -/
  | totalOperations (n : UInt64)
  /-- "  Total I/O bytes  : %llu" -/
  | totalIoBytes (n : UInt64)
  /-- "  Avg latency      : %.3f µs" -/
  | avgLatency (totalNs totalOps : UInt64)
  /-- "  Last %d operations:" -/
  | lastOperations (count : ℤ)
  /-- "  [%02d] %-16s  %8.3f µs  %6llu bytes" -/
  | operation (number : ℤ) (opName : List UInt8) (durationNs bytesIo : UInt64)
deriving DecidableEq

/-- `for (int i = 0; i < g_perf.count; i++)` -/
def operationLines (start : ℤ) : (passes : ℕ) → (i : ℤ) → M (List Line)
  | 0, _ => pure []
  | passes + 1, i => do
    let s ← ask id
    let slot := (start + i).tmod perfHistory
    inRecords slot
    let r := s.records slot.toNat
    -- `%s` reads on past a name without NUL
    require (0 ∈ r.opName.toList)
    let more ← operationLines start passes (i + 1)
    pure (.operation (i + 1) r.shownName r.durationNs r.bytesIo :: more)

def perfReport : M (List Line) := do
  let s ← ask id
  let avg := if 0 < s.totalOps then [.avgLatency s.totalNs s.totalOps] else []
  let start := (s.head - s.count + perfHistory).tmod perfHistory
  let lines ← operationLines start s.count.toNat 0
  pure (.title :: .totalOperations s.totalOps :: .totalIoBytes s.totalBytes :: avg ++
    .lastOperations s.count :: lines)

inductive Last where
  /-- "(no ops)" -/
  | noOps
  /-- "%s: %.3f µs" -/
  | operation (opName : List UInt8) (durationNs : UInt64)
deriving DecidableEq

def perfLast : M Last := do
  let s ← ask id
  if s.count = 0 then
    pure .noOps
  else
    let idx := (s.head - 1 + perfHistory).tmod perfHistory
    inRecords idx
    let r := s.records idx.toNat
    require (0 ∈ r.opName.toList)
    pure (.operation r.shownName r.durationNs)

end MiniFs.Perf
