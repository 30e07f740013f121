import MiniFs.Perf.History

/-! # The performance report

After any number of operations the report lists the last 64 of them, or all if there
were fewer, and `perf_last` shows the last one.
-/

set_option autoImplicit false

namespace MiniFs.Perf
open MiniFs.Core Library Library.Exec

variable {s : PerfStats} {r : Ring PerfRecord 64} {calls : List Call}

def reportOf (s : PerfStats) (calls : List Call) : List Line :=
  .title :: .totalOperations s.totalOps :: .totalIoBytes s.totalBytes ::
    (if 0 < s.totalOps then [.avgLatency s.totalNs s.totalOps] else []) ++
    .lastOperations (min calls.length 64 : ℕ) ::
    numbered 0 ((calls.drop (calls.length - 64)).map Call.row)

def lastOf (calls : List Call) : Last :=
  match calls.getLast? with
  | none => .noOps
  | some c => .operation c.row.opName c.row.durationNs

/-- The ring holds as many rows as there are operations, 64 at most. -/
theorem count_eq_min (hrows : r.pending.map PerfRecord.row = (calls.map Call.row).rtake 64) :
    r.count = min calls.length 64 := by
  have hlen := congrArg List.length hrows
  rw [List.length_map, r.length_pending, List.rtake, List.length_drop, List.length_map] at hlen
  omega

theorem Keeps.perfReport (h : Keeps s calls) : perfReport s = some (reportOf s calls, s) := by
  obtain ⟨r, hold, hrows⟩ := h.last
  have htail := r.tail_lt
  have hcount := r.count_le
  have hstart : (s.head - s.count + perfHistory).tmod perfHistory = r.tail := by
    have hhead := r.head_eq
    rw [hold.head, hold.count, perfHistory, Int.tmod_eq_emod_of_nonneg (by omega)]
    omega
  have hrange : (List.range' 0 r.count).map (fun k => (r.slots ((r.tail + k) % 64)).row) =
      (calls.drop (calls.length - 64)).map Call.row := by
    have hkept : (calls.drop (calls.length - 64)).map Call.row = (calls.map Call.row).rtake 64 :=
      map_rtake Call.row 64 calls
    rw [hkept, ← hrows, Ring.pending, List.map_map, List.range_eq_range']
    rfl
  have hlines := operationLines_run hold h.nameEnd r.count 0
  rw [hrange] at hlines
  rw [Perf.perfReport, bind_apply, ask_apply, Option.bind_some]
  simp only [id_eq]
  rw [hstart, hold.count, Int.toNat_natCast, bind_apply, ← Int.natCast_zero, hlines,
    Option.bind_some, pure_apply, reportOf, count_eq_min hrows]

theorem Keeps.perfLast (h : Keeps s calls) : perfLast s = some (lastOf calls, s) := by
  obtain ⟨r, hold, hrows⟩ := h.last
  have hcount := count_eq_min hrows
  rw [Perf.perfLast, bind_apply, ask_apply, Option.bind_some]
  simp only [id_eq]
  cases calls using List.reverseRecOn with
  | nil =>
    have hzero : s.count = 0 := by
      rw [hold.count, hcount]
      rfl
    rw [if_pos hzero]
    rfl
  | append_singleton calls c =>
    rw [List.length_append, List.length_singleton] at hcount
    have hpos : ¬s.count = 0 := by
      rw [hold.count]
      omega
    have hidx : (s.head - 1 + perfHistory).tmod perfHistory =
        ((r.tail + (r.count - 1)) % 64 : ℕ) := by
      have hhead := r.head_eq
      have hle := r.count_le
      rw [hold.head, perfHistory, Int.tmod_eq_emod_of_nonneg (by omega)]
      omega
    have hlast : (r.slots ((r.tail + (r.count - 1)) % 64)).row = c.row := by
      have hmap := congrArg List.getLast? hrows
      rw [List.map_append, List.map_singleton, List.rtake_concat_succ, List.getLast?_concat,
        Ring.pending, List.map_map, List.getLast?_map, List.getLast?_range,
        if_neg (by omega), Option.map_some] at hmap
      exact Option.some.inj hmap
    have hname := congrArg Row.opName hlast
    have hduration := congrArg Row.durationNs hlast
    rw [if_neg hpos]
    simp only [hidx]
    rw [inRecords_mod, pure_bind, Int.toNat_natCast,
      require_pos (PerfRecord.terminated (h.nameEnd _)), pure_bind, pure_apply, hold.slots, lastOf,
      List.getLast?_concat]
    change some (Last.operation (r.slots _).row.opName (r.slots _).row.durationNs, s) = _
    rw [hname, hduration]

/-- After `perf_init` and any operations with names that fit, the report shows the last 64 of them,
oldest first and each as it was given, and `perf_last` the last one; the totals are those of all
operations, modulo 2^64. -/
theorem perf_history (s : PerfStats) (calls : List Call) (hnames : ∀ c ∈ calls, c.op.strlen < 32) :
    ∃ answers s', (perfInit >>= fun _ => runList record calls) s = some (answers, s') ∧
      perfReport s' = some (reportOf s' calls, s') ∧
      perfLast s' = some (lastOf calls, s') ∧
      s'.totalOps.toNat = calls.length % 2 ^ 64 ∧
      s'.totalBytes.toNat = (calls.map fun c => c.bytes.toNat).sum % 2 ^ 64 := by
  obtain ⟨answers, s', hrun, hkeeps⟩ := keeps_zero.run hnames
  refine ⟨answers, s', ?_, hkeeps.perfReport, hkeeps.perfLast, hkeeps.ops, hkeeps.bytes⟩
  rw [bind_apply]
  exact hrun

/-- 65 calls: the longer name of the first one is overwritten. -/
theorem perf_history_wrapped :
    let calls : List Call :=
      ⟨⟨1, 0⟩, ⟨[0x74, 0x72, 0x75, 0x6E, 0x63, 0x61, 0x74, 0x65], by decide⟩, 0, 9⟩ ::
        List.replicate 64 ⟨⟨2, 5⟩, ⟨[0x6C, 0x73], by decide⟩, 2000000000, 7⟩
    (∀ c ∈ calls, c.op.strlen < 32) ∧
      ∃ answers s', (perfInit >>= fun _ => runList record calls) PerfStats.zero =
          some (answers, s') ∧
        perfReport s' = some (reportOf s' calls, s') ∧
        perfLast s' = some (lastOf calls, s') ∧
        s'.totalOps.toNat = calls.length % 2 ^ 64 ∧
        s'.totalBytes.toNat = (calls.map fun c => c.bytes.toNat).sum % 2 ^ 64 := by
  intro calls
  have hnames : ∀ c ∈ calls, c.op.strlen < 32 := by
    intro c hc
    rcases List.mem_cons.mp hc with rfl | hc
    · decide
    · rw [List.eq_of_mem_replicate hc]
      decide
  exact ⟨hnames, perf_history PerfStats.zero calls hnames⟩

end MiniFs.Perf
