import MiniFs.Library.Ring
import MiniFs.Logger.Log

/-! # What the logger delivers

The ring of the log queue, and the invariant of all interleavings: what was printed
and what is pending are together what was accepted, and the thread waits only while
there is nothing to do.
-/

set_option autoImplicit false

namespace MiniFs.Logger
open MiniFs.Core Library Library.Exec

/-! ## Messages -/

theorem msgBuf_noNul (time text : CStr) : 0 ∉ msgBuf time text := by
  have hmsg : (0 : UInt8) ∉ (0x5B :: time.bytes ++ [0x5D, 0x20] ++ text.bytes).take
      (logMsgLen - 1) := by
    intro h
    have hmem := List.mem_of_mem_take h
    simp only [List.mem_append, List.mem_cons, List.not_mem_nil, or_false] at hmem
    rcases hmem with ((h | h) | h | h) | h
    · exact absurd h (by decide)
    · exact time.noNul h
    · exact absurd h (by decide)
    · exact absurd h (by decide)
    · exact text.noNul h
  rw [msgBuf]
  split_ifs
  · rw [List.mem_append, List.mem_singleton]
    rintro (h | h)
    · exact hmsg h
    · exact absurd h (by decide)
  · exact hmsg

theorem length_msgBuf (time text : CStr) : (msgBuf time text).length < logMsgLen := by
  have hmax : logMsgLen = 256 := rfl
  have htake := List.length_take_le (logMsgLen - 1)
    (0x5B :: time.bytes ++ [0x5D, 0x20] ++ text.bytes)
  rw [msgBuf]
  split_ifs with h
  · have hlt := h.2
    rw [List.length_append, List.length_singleton]
    omega
  · omega

/-- A message is printed as it was given. -/
theorem shown_slotOf {msg : List UInt8} (hnul : 0 ∉ msg) (hlen : msg.length < logMsgLen) :
    shown (slotOf msg) = msg := by
  have hpos : ∀ b ∈ msg, decide (b ≠ 0) = true := by
    intro b hb
    rw [decide_eq_true_eq]
    rintro rfl
    exact hnul hb
  obtain ⟨k, hk⟩ : ∃ k, logMsgLen - msg.length = k + 1 := ⟨logMsgLen - msg.length - 1, by omega⟩
  rw [shown, slotOf, List.take_of_length_le hlen.le, List.rightpad, hk,
    List.takeWhile_append_of_pos hpos, List.replicate_succ,
    List.takeWhile_cons_of_neg (by decide), List.append_nil]

/-! ## Steps -/

variable {s s' : State} {a : Action} {time text : CStr}

/-- The state once a message is in the queue, before the signal. -/
def State.put (s : State) (msg : List UInt8) : State :=
  { s with
    logQueue := Function.update s.logQueue s.logHead.toNat (slotOf msg)
    logHead := (s.logHead + 1).tmod maxLogs
    logCount := s.logCount + 1 }

inductive Step (s : State) : Action → List (List UInt8) → State → Prop
  | accept {time text : CStr} (hroom : s.logCount < maxLogs) :
      Step s (.log time text) [msgBuf time text] (s.put (msgBuf time text)).woken
  | drop {time text : CStr} (hfull : maxLogs ≤ s.logCount) : Step s (.log time text) [] s
  | cleanup (h : s.cleanup = .notCalled) :
      Step s .cleanup [] { s with stopLogger := true, cleanup := .joining : State }.woken
  | join (h : s.thread = .finished) (hjoin : s.cleanup = .joining) :
      Step s .join [] { s with cleanup := .returned }
  | opened (h : s.thread = .starting) : Step s (.fopen true) [] { s with thread := .running }
  | openFailed (h : s.thread = .starting) : Step s (.fopen false) [] { s with thread := .finished }
  | wait (hcount : s.logCount = 0) (hstop : s.stopLogger = false) :
      Step s .thread [] { s with thread := .waiting }
  | exit (hcount : s.logCount = 0) (hstop : s.stopLogger = true) :
      Step s .thread [] { s with thread := .finished }
  | drain {s1 : State} (h : drainLoop s.logCount.toNat s = some ((), s1)) :
      Step s .thread [] { s1 with thread := .running }
  | spurious (h : s.thread = .waiting) : Step s .spurious [] { s with thread := .woken }

theorem perform_eq (s : State) (a : Action) :
    perform a s = if Enabled s a then act a s else none := by
  rw [perform, bind_apply, ask_apply, Option.bind_some]
  by_cases h : Enabled s a
  · rw [if_pos h]
    simp only [id_eq, require_pos h]
    rfl
  · rw [if_neg h]
    simp only [id_eq, require_neg h]
    rfl

theorem fsLog_eq (s : State) (time text : CStr) : fsLog time text s =
    if s.logCount < maxLogs then
      if 0 ≤ s.logHead ∧ s.logHead < maxLogs then
        some ([msgBuf time text], (s.put (msgBuf time text)).woken)
      else none
    else some ([], s) := by
  rw [fsLog, bind_apply, ask_apply, Option.bind_some]
  simp only [id_eq]
  split_ifs with hroom hhead
  · rw [inQueue, require_pos hhead]
    rfl
  · rw [inQueue, require_neg hhead]
    rfl
  · rfl

theorem loggerThread_eq (s : State) : loggerThread s =
    if s.logCount = 0 ∧ s.stopLogger = false then some ((), { s with thread := .waiting })
    else if s.stopLogger = true ∧ s.logCount = 0 then some ((), { s with thread := .finished })
    else (drainLoop s.logCount.toNat s).map fun p => ((), { p.2 with thread := .running }) := by
  rw [loggerThread, bind_apply, ask_apply, Option.bind_some]
  simp only [id_eq]
  split_ifs with hwait hexit
  · rfl
  · rfl
  · rw [bind_apply]
    cases drainLoop s.logCount.toNat s with
    | none => rfl
    | some p => rfl

theorem perform_step {msgs : List (List UInt8)} (h : perform a s = some (msgs, s')) :
    Step s a msgs s' := by
  rw [perform_eq] at h
  split_ifs at h with hen
  cases a with
  | log time text =>
    rw [act, fsLog_eq] at h
    split_ifs at h with hroom hhead
    · obtain ⟨rfl, rfl⟩ := returned_inj h
      exact .accept hroom
    · obtain ⟨rfl, rfl⟩ := returned_inj h
      exact .drop (not_lt.mp hroom)
  | cleanup =>
    obtain ⟨rfl, rfl⟩ := returned_inj h
    exact .cleanup hen
  | join =>
    obtain ⟨rfl, rfl⟩ := returned_inj h
    exact .join hen.2 hen.1
  | fopen opened =>
    obtain ⟨rfl, rfl⟩ := returned_inj h
    cases opened with
    | true => exact .opened hen
    | false => exact .openFailed hen
  | thread =>
    rw [act, bind_apply, loggerThread_eq] at h
    split_ifs at h with hwait hexit
    · obtain ⟨rfl, rfl⟩ := returned_inj h
      exact .wait hwait.1 hwait.2
    · obtain ⟨rfl, rfl⟩ := returned_inj h
      exact .exit hexit.2 hexit.1
    · cases hdrain : drainLoop s.logCount.toNat s with
      | none =>
        rw [hdrain] at h
        exact absurd h (by simp)
      | some p =>
        rw [hdrain] at h
        obtain ⟨rfl, rfl⟩ := returned_inj h
        exact .drain hdrain
  | spurious =>
    obtain ⟨rfl, rfl⟩ := returned_inj h
    exact .spurious hen

/-! ## The ring -/

structure Holds (s : State) (r : Ring (List UInt8) 1024) : Prop where
  slots : s.logQueue = r.slots
  head : s.logHead = r.head
  tail : s.logTail = r.tail
  count : s.logCount = r.count

variable {r : Ring (List UInt8) 1024} {accepted msgs : List (List UInt8)}

theorem Holds.head_mem (h : Holds s r) : 0 ≤ s.logHead ∧ s.logHead < 1024 := by
  have hlt := r.head_lt
  rw [h.head]
  omega

theorem Holds.tail_mem (h : Holds s r) : 0 ≤ s.logTail ∧ s.logTail < 1024 := by
  have hlt := r.tail_lt
  rw [h.tail]
  omega

theorem tmod_maxLogs (i : ℕ) : ((i : ℤ) + 1).tmod maxLogs = ((i + 1) % 1024 : ℕ) := by
  rw [Int.tmod_eq_emod_of_nonneg (by omega), maxLogs]
  omega

theorem Holds.put (h : Holds s r) (hroom : r.count < 1024) (msg : List UInt8) :
    Holds (s.put msg) (r.put (slotOf msg) hroom) where
  slots := by
    change Function.update s.logQueue s.logHead.toNat _ = Function.update r.slots r.head _
    rw [h.slots, h.head, Int.toNat_natCast]
  head := by
    change (s.logHead + 1).tmod maxLogs = ((r.head + 1) % 1024 : ℕ)
    rw [h.head, tmod_maxLogs]
  tail := h.tail
  count := by
    change s.logCount + 1 = (r.count + 1 : ℕ)
    rw [h.count, Int.natCast_add, Int.natCast_one]

def State.printed (s : State) : State :=
  { s with
    logFile := s.logFile ++ [shown (s.logQueue s.logTail.toNat)]
    logTail := (s.logTail + 1).tmod maxLogs
    logCount := s.logCount - 1 }

theorem Holds.printed (h : Holds s r) (hpos : 0 < r.count) : Holds s.printed (r.take hpos) where
  slots := h.slots
  head := h.head
  tail := by
    change (s.logTail + 1).tmod maxLogs = ((r.tail + 1) % 1024 : ℕ)
    rw [h.tail, tmod_maxLogs]
  count := by
    change s.logCount - 1 = (r.count - 1 : ℕ)
    rw [h.count]
    omega

theorem drainLoop_run {n : ℕ} (h : Holds s r) (hn : r.count = n) :
    ∃ s1 r1, drainLoop n s = some ((), s1) ∧ Holds s1 r1 ∧ r1.count = 0 ∧
      s1.logFile = s.logFile ++ r.pending.map shown ∧ s1.stopLogger = s.stopLogger ∧
      s1.cleanup = s.cleanup := by
  induction n generalizing s r with
  | zero =>
    refine ⟨s, r, rfl, h, hn, ?_, rfl, rfl⟩
    rw [r.pending_eq_nil hn, List.map_nil, List.append_nil]
  | succ n ih =>
    have hpos : 0 < r.count := by omega
    have hcount : (r.take hpos).count = n := by
      change r.count - 1 = n
      omega
    obtain ⟨s1, r1, hrun, hold, hzero, hfile, hstop, hclean⟩ := ih (h.printed hpos) hcount
    have hslot : s.logQueue s.logTail.toNat = r.slots r.tail := by
      rw [h.slots, h.tail, Int.toNat_natCast]
    refine ⟨s1, r1, ?_, hold, hzero, ?_, hstop, hclean⟩
    · rw [drainLoop, bind_apply, ask_apply, Option.bind_some, inQueue]
      simp only [id_eq, require_pos h.tail_mem]
      exact hrun
    · rw [hfile, r.pending_take hpos, List.map_cons, ← hslot, State.printed, List.append_assoc,
        List.singleton_append]

/-! ## The invariant -/

/-- What holds after any interleaving that put `accepted` into the queue. -/
structure Delivers (s : State) (accepted : List (List UInt8)) : Prop where
  /-- what is not printed yet is pending, in order -/
  fifo : ∃ r : Ring (List UInt8) 1024, Holds s r ∧
    s.logFile ++ r.pending.map shown = accepted
  /-- the thread waits only while there is nothing to do -/
  awake : s.thread = .waiting → s.logCount = 0 ∧ s.stopLogger = false
  called : s.cleanup = .notCalled ↔ s.stopLogger = false

theorem woken_thread (s : State) : s.woken.thread ≠ .waiting := by
  rw [State.woken]
  split_ifs with h
  · exact Thread.noConfusion
  · exact h

theorem woken_eq (s : State) : s.woken = { s with thread := s.woken.thread } := by
  rw [State.woken]
  split_ifs <;> rfl

theorem loggerInit_delivers (s : State) : Delivers (loggerInit s) [] where
  fifo := ⟨Ring.empty (by decide) s.logQueue, ⟨rfl, rfl, rfl, rfl⟩, rfl⟩
  awake := Thread.noConfusion
  called := ⟨fun _ => rfl, fun _ => rfl⟩

theorem Delivers.step (h : Delivers s accepted) (hstep : Step s a msgs s') :
    Delivers s' (accepted ++ msgs) := by
  obtain ⟨r, hold, hfifo⟩ := h.fifo
  cases hstep with
  | @accept time text hroom =>
    have hcount : r.count < 1024 := by
      rw [hold.count, maxLogs] at hroom
      omega
    rw [woken_eq]
    refine ⟨⟨r.put (slotOf (msgBuf time text)) hcount, ?_, ?_⟩, ?_, h.called⟩
    · exact { hold.put hcount (msgBuf time text) with }
    · rw [r.pending_put, List.map_append, List.map_singleton,
        shown_slotOf (msgBuf_noNul time text) (length_msgBuf time text), ← List.append_assoc]
      exact congrArg (· ++ [msgBuf time text]) hfifo
    · exact fun hwait => absurd hwait (woken_thread _)
  | drop => exact ⟨⟨r, hold, by rw [hfifo, List.append_nil]⟩, h.awake, h.called⟩
  | cleanup hnot =>
    rw [woken_eq, List.append_nil]
    exact ⟨⟨r, { hold with }, hfifo⟩, fun hwait => absurd hwait (woken_thread _),
      ⟨Cleanup.noConfusion, Bool.noConfusion⟩⟩
  | join hfin hjoin =>
    rw [List.append_nil]
    refine ⟨⟨r, { hold with }, hfifo⟩, h.awake, ⟨Cleanup.noConfusion, fun hstop => ?_⟩⟩
    have hnot := h.called.mpr hstop
    rw [hjoin] at hnot
    exact Cleanup.noConfusion hnot
  | opened => exact ⟨⟨r, { hold with }, by rw [List.append_nil]; exact hfifo⟩, Thread.noConfusion,
      h.called⟩
  | openFailed => exact ⟨⟨r, { hold with }, by rw [List.append_nil]; exact hfifo⟩,
      Thread.noConfusion, h.called⟩
  | wait hcount hstop => exact ⟨⟨r, { hold with }, by rw [List.append_nil]; exact hfifo⟩,
      fun _ => ⟨hcount, hstop⟩, h.called⟩
  | exit => exact ⟨⟨r, { hold with }, by rw [List.append_nil]; exact hfifo⟩, Thread.noConfusion,
      h.called⟩
  | @drain s1 hdrain =>
    rw [hold.count, Int.toNat_natCast] at hdrain
    obtain ⟨t, r1, hrun, hold1, hzero, hfile, hstop, hclean⟩ := drainLoop_run hold rfl
    obtain ⟨-, rfl⟩ := run_unique hrun hdrain
    refine ⟨⟨r1, { hold1 with }, ?_⟩, Thread.noConfusion, ?_⟩
    · rw [r1.pending_eq_nil hzero, List.map_nil, List.append_nil, List.append_nil, ← hfifo]
      exact hfile
    · change t.cleanup = .notCalled ↔ t.stopLogger = false
      rw [hclean, hstop]
      exact h.called
  | spurious => exact ⟨⟨r, { hold with }, by rw [List.append_nil]; exact hfifo⟩,
      Thread.noConfusion, h.called⟩

/-- An enabled action always has a defined outcome. -/
theorem Delivers.defined (h : Delivers s accepted) (hen : Enabled s a) :
    ∃ msgs s', perform a s = some (msgs, s') := by
  obtain ⟨r, hold, -⟩ := h.fifo
  rw [perform_eq, if_pos hen]
  cases a with
  | log time text =>
    rw [act, fsLog_eq]
    by_cases hroom : s.logCount < maxLogs
    · rw [if_pos hroom, if_pos hold.head_mem]
      exact ⟨_, _, rfl⟩
    · rw [if_neg hroom]
      exact ⟨_, _, rfl⟩
  | thread =>
    obtain ⟨t, r1, hrun, -⟩ := drainLoop_run hold rfl
    rw [act, bind_apply, loggerThread_eq, hold.count, Int.toNat_natCast, hrun]
    split_ifs
    · exact ⟨_, _, rfl⟩
    · exact ⟨_, _, rfl⟩
    · exact ⟨_, _, rfl⟩
  | cleanup => exact ⟨_, _, rfl⟩
  | join => exact ⟨_, _, rfl⟩
  | fopen opened => exact ⟨_, _, rfl⟩
  | spurious => exact ⟨_, _, rfl⟩

/-! ## Interleavings -/

variable {acts : List Action} {results : List (List (List UInt8))}

/-- What the steps keep, an interleaving keeps. -/
theorem runList_induction {p : State → List (List UInt8) → Prop} {ok : Action → Prop}
    (hstep : ∀ s a msgs s' accepted, ok a → p s accepted → Step s a msgs s' →
      p s' (accepted ++ msgs)) (hok : ∀ a ∈ acts, ok a) (hp : p s accepted)
    (h : runList perform acts s = some (results, s')) : p s' (accepted ++ results.flatten) := by
  induction acts generalizing s accepted results with
  | nil =>
    obtain ⟨rfl, rfl⟩ := returned_inj h
    rw [List.flatten_nil, List.append_nil]
    exact hp
  | cons a acts ih =>
    obtain ⟨msgs, more, s1, rfl, hfirst, hrest⟩ := runList_cons h
    have h1 := hstep s a msgs s1 accepted (hok a List.mem_cons_self) hp (perform_step hfirst)
    rw [List.flatten_cons, ← List.append_assoc]
    exact ih (fun b hb => hok b (List.mem_cons_of_mem _ hb)) h1 hrest

theorem Delivers.run (h : Delivers s accepted) (hrun : runList perform acts s = some (results, s')) :
    Delivers s' (accepted ++ results.flatten) := by
  have hok : ∀ a ∈ acts, (fun _ : Action => True) a := fun _ _ => trivial
  exact runList_induction (fun _ _ _ _ _ _ hd hs => hd.step hs) hok h hrun

end MiniFs.Logger
