import MiniFs.Image.Names
import MiniFs.Library.Ring
import MiniFs.Perf.Stats

/-! # What the performance history holds

The ring of 64 records is the list of the last 64 operations. The slots are reused in
place, so each record also carries that the last byte of its name is still 0.
-/

set_option autoImplicit false

namespace MiniFs.Perf
open MiniFs.Core Image Library Library.Exec

structure Call where
  ts : Timespec
  op : CStr
  startNs : UInt64
  bytes : UInt64

structure Row where
  opName : List UInt8
  durationNs : UInt64
  bytesIo : UInt64

def Call.row (c : Call) : Row := ⟨c.op.bytes, perfNowNs c.ts - c.startNs, c.bytes⟩

def PerfRecord.row (r : PerfRecord) : Row := ⟨r.shownName, r.durationNs, r.bytesIo⟩

/-- The record a call writes over `old`. -/
def Call.overwrite (c : Call) (old : PerfRecord) : PerfRecord where
  opName := Inode.strncpy old.opName c.op
  durationNs := perfNowNs c.ts - c.startNs
  bytesIo := c.bytes

theorem Call.overwrite_last (c : Call) {old : PerfRecord} (h : old.opName[31] = 0) :
    (c.overwrite old).opName[31] = 0 :=
  (strncpy_last old.opName c.op).trans h

theorem Call.overwrite_row {c : Call} (hc : c.op.strlen < 32) {old : PerfRecord}
    (h : old.opName[31] = 0) : (c.overwrite old).row = c.row := by
  rw [PerfRecord.row, Call.row, PerfRecord.shownName, overwrite, takeWhile_strncpy h hc]

theorem PerfRecord.terminated {r : PerfRecord} (h : r.opName[31] = 0) :
    0 ∈ r.opName.toList := by
  rw [← h, Vector.mem_toList_iff]
  exact Vector.getElem_mem (by decide)

/-! ## The ring -/

variable {s : PerfStats} {r : Ring PerfRecord 64} {calls : List Call}

/-- The history of the state is this ring; its oldest record stands `count` slots before `head`. -/
structure Holds (s : PerfStats) (r : Ring PerfRecord 64) : Prop where
  slots : s.records = r.slots
  head : s.head = r.head
  count : s.count = r.count

theorem tmod_perfHistory (i : ℕ) : (i : ℤ).tmod perfHistory = (i % 64 : ℕ) := by
  rw [Int.tmod_eq_emod_of_nonneg (by omega), perfHistory]
  omega

theorem inRecords_mod (i : ℕ) : inRecords ((i % 64 : ℕ) : ℤ) = pure () := by
  have hlt : i % 64 < 64 := Nat.mod_lt i (by decide)
  refine require_pos ⟨by omega, ?_⟩
  rw [perfHistory]
  omega

def PerfStats.recorded (s : PerfStats) (c : Call) : PerfStats :=
  { s with
    records := Function.update s.records s.head.toNat (c.overwrite (s.records s.head.toNat))
    head := (s.head + 1).tmod perfHistory
    count := if s.count < perfHistory then s.count + 1 else s.count
    totalOps := s.totalOps + 1
    totalNs := s.totalNs + (perfNowNs c.ts - c.startNs)
    totalBytes := s.totalBytes + c.bytes }

theorem Holds.perfRecord (h : Holds s r) (c : Call) :
    perfRecord c.ts c.op c.startNs c.bytes s = some ((), s.recorded c) := by
  have hslot : s.head.tmod perfHistory = s.head := by
    rw [h.head, tmod_perfHistory, Nat.mod_eq_of_lt r.head_lt]
  have hin : inRecords s.head = pure () := by
    rw [h.head, ← Nat.mod_eq_of_lt r.head_lt]
    exact inRecords_mod r.head
  rw [Perf.perfRecord, bind_apply, ask_apply, Option.bind_some]
  simp only [id_eq]
  rw [hslot, hin]
  rfl

theorem Holds.recorded (h : Holds s r) (c : Call) :
    Holds (s.recorded c) (r.push (c.overwrite (r.slots r.head))) := by
  have hle := r.count_le
  have hcount : (s.recorded c).count = if r.count < 64 then (r.count + 1 : ℕ) else (r.count : ℕ) := by
    change (if s.count < 64 then s.count + 1 else s.count) = _
    rw [h.count]
    split_ifs <;> omega
  have hhead : (s.recorded c).head = ((r.head + 1) % 64 : ℕ) := by
    change (s.head + 1).tmod perfHistory = _
    rw [h.head]
    exact tmod_perfHistory (r.head + 1)
  have hslots : (s.recorded c).records =
      Function.update r.slots r.head (c.overwrite (r.slots r.head)) := by
    change Function.update s.records s.head.toNat _ = _
    rw [h.slots, h.head, Int.toNat_natCast]
  rw [Ring.push]
  split_ifs with hroom
  · exact ⟨hslots, hhead, by rw [hcount, if_pos hroom]; rfl⟩
  · refine ⟨hslots, hhead, ?_⟩
    change (s.recorded c).count = (r.count - 1 + 1 : ℕ)
    rw [hcount, if_neg hroom, Nat.sub_add_cancel (r.count_pos hroom)]

/-! ## The history of a run -/

structure Keeps (s : PerfStats) (calls : List Call) : Prop where
  last : ∃ r : Ring PerfRecord 64, Holds s r ∧
    r.pending.map PerfRecord.row = (calls.map Call.row).rtake 64
  /-- the byte `strncpy` never writes -/
  nameEnd : ∀ i, (s.records i).opName[31] = 0
  ops : s.totalOps.toNat = calls.length % 2 ^ 64
  bytes : s.totalBytes.toNat = (calls.map fun c => c.bytes.toNat).sum % 2 ^ 64

theorem keeps_zero : Keeps PerfStats.zero [] where
  last := ⟨Ring.empty (by decide) PerfStats.zero.records, ⟨rfl, rfl, rfl⟩, rfl⟩
  nameEnd := fun _ => Vector.getElem_replicate (by decide)
  ops := rfl
  bytes := rfl

theorem map_rtake {α β : Type} (f : α → β) (n : ℕ) (l : List α) :
    (l.rtake n).map f = (l.map f).rtake n := by
  rw [List.rtake, List.rtake, List.map_drop, List.length_map]

theorem Keeps.recorded (h : Keeps s calls) {c : Call} (hc : c.op.strlen < 32) :
    Keeps (s.recorded c) (calls ++ [c]) := by
  obtain ⟨r, hold, hrows⟩ := h.last
  refine ⟨⟨_, hold.recorded c, ?_⟩, fun i => ?_, ?_, ?_⟩
  · have hend : (r.slots r.head).opName[31] = 0 := by
      rw [← hold.slots]
      exact h.nameEnd r.head
    rw [r.pending_push, map_rtake, List.map_append, List.map_singleton, c.overwrite_row hc hend,
      hrows, Ring.rtake_rtake_append, List.map_append, List.map_singleton]
  · change (Function.update s.records s.head.toNat _ i).opName[31] = 0
    rw [Function.update_apply]
    split_ifs
    · exact c.overwrite_last (h.nameEnd _)
    · exact h.nameEnd i
  · change (s.totalOps + 1).toNat = _
    rw [UInt64.toNat_add, h.ops, List.length_append, List.length_singleton, UInt64.toNat_one,
      Nat.mod_add_mod]
  · change (s.totalBytes + c.bytes).toNat = _
    rw [UInt64.toNat_add, h.bytes, List.map_append, List.sum_append, List.map_singleton,
      List.sum_singleton, Nat.mod_add_mod]

def record (c : Call) : M Unit := perfRecord c.ts c.op c.startNs c.bytes

theorem Keeps.run (h : Keeps s calls) {more : List Call} (hmore : ∀ c ∈ more, c.op.strlen < 32) :
    ∃ answers s', runList record more s = some (answers, s') ∧ Keeps s' (calls ++ more) := by
  induction more generalizing s calls with
  | nil => exact ⟨[], s, rfl, by rwa [List.append_nil]⟩
  | cons c more ih =>
    obtain ⟨r, hold, -⟩ := h.last
    have hstep := h.recorded (hmore c List.mem_cons_self)
    obtain ⟨answers, s', hrun, hkeeps⟩ := ih hstep fun d hd => hmore d (List.mem_cons_of_mem c hd)
    refine ⟨() :: answers, s', ?_, ?_⟩
    · rw [runList, bind_apply, record, hold.perfRecord, Option.bind_some, bind_apply, hrun]
      rfl
    · rwa [List.append_assoc, List.singleton_append] at hkeeps

/-! ## What is printed -/

def numbered (i : ℕ) (rows : List Row) : List Line :=
  rows.mapIdx fun k row => .operation ((i + k : ℕ) + 1) row.opName row.durationNs row.bytesIo

theorem numbered_cons (i : ℕ) (row : Row) (rows : List Row) :
    numbered i (row :: rows) =
      .operation (i + 1) row.opName row.durationNs row.bytesIo :: numbered (i + 1) rows := by
  rw [numbered, List.mapIdx_cons, Nat.add_zero, numbered]
  congr 2
  funext k row
  rw [Nat.add_right_comm, Nat.add_assoc]

/-- The loop prints the records from the one at `start + i` on. -/
theorem operationLines_run (h : Holds s r) (hend : ∀ i, (s.records i).opName[31] = 0)
    (passes i : ℕ) :
    operationLines r.tail passes i s = some (numbered i
      ((List.range' i passes).map fun k => (r.slots ((r.tail + k) % 64)).row), s) := by
  induction passes generalizing i with
  | zero => rfl
  | succ passes ih =>
    have hslot : ((r.tail : ℤ) + i).tmod perfHistory = ((r.tail + i) % 64 : ℕ) := by
      rw [← Int.natCast_add]
      exact tmod_perfHistory (r.tail + i)
    have hnext := ih (i + 1)
    rw [Int.natCast_add, Int.natCast_one] at hnext
    rw [operationLines, bind_apply, ask_apply, Option.bind_some]
    simp only [id_eq]
    rw [hslot, inRecords_mod, pure_bind, Int.toNat_natCast,
      require_pos (PerfRecord.terminated (hend _)), pure_bind, bind_apply, hnext, Option.bind_some,
      pure_apply, List.range'_succ, List.map_cons, numbered_cons, h.slots]
    rfl

end MiniFs.Perf
