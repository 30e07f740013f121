import MiniFs.Logger.Delivery

/-! # Delivery and shutdown of the logger

Every interleaving of callers, logger thread and `logger_cleanup` delivers the
accepted messages in order and once, and the thread is never asleep while there is
something for it to do.
-/

set_option autoImplicit false

namespace MiniFs.Logger
open MiniFs.Core Library Library.Exec

variable {s s' : State} {a : Action} {accepted early msgs : List (List UInt8)}
variable {acts : List Action} {results : List (List (List UInt8))}

/-- The log after the messages `accepted` entered the queue: the file holds the oldest of them,
the queue as many as are missing. -/
structure Fifo (s : State) (accepted : List (List UInt8)) : Prop where
  count_nonneg : 0 ≤ s.logCount
  count_le : s.logCount ≤ maxLogs
  head_eq : s.logHead = (s.logTail + s.logCount) % maxLogs
  printed : s.logFile <+: accepted
  pending : (accepted.length : ℤ) = s.logFile.length + s.logCount

theorem Delivers.toFifo (h : Delivers s accepted) : Fifo s accepted := by
  obtain ⟨r, hold, rfl⟩ := h.fifo
  have hle := r.count_le
  have hhead := r.head_eq
  constructor
  · rw [hold.count]
    omega
  · rw [hold.count, maxLogs]
    omega
  · rw [hold.head, hold.tail, hold.count, maxLogs]
    omega
  · exact List.prefix_append _ _
  · rw [List.length_append, List.length_map, r.length_pending, hold.count]
    omega

theorem Delivers.log (h : Delivers s accepted) (time text : CStr) :
    ∃ msgs s', perform (.log time text) s = some (msgs, s') ∧
      (msgs = [msgBuf time text] ∨ msgs = [] ∧ s' = s ∧ s.logCount = maxLogs) := by
  obtain ⟨msgs, s', hrun⟩ := h.defined (a := .log time text) trivial
  refine ⟨msgs, s', hrun, ?_⟩
  cases perform_step hrun with
  | accept => exact .inl rfl
  | drop hfull => exact .inr ⟨rfl, rfl, h.toFifo.count_le.antisymm hfull⟩

/-! ## The end of the thread -/

theorem woken_finished (s : State) : s.woken.thread = .finished ↔ s.thread = .finished := by
  rw [State.woken]
  split_ifs with h
  · rw [h]
    decide
  · exact Iff.rfl

/-- A thread that has returned had returned before, or leaves its loop in this step: it was told to
stop and nothing is left to print. -/
theorem finished_cases (hstep : Step s a msgs s') (ha : a ≠ .fopen false)
    (hfin : s'.thread = .finished) :
    s'.logFile = s.logFile ∧ (s.stopLogger = true → s'.stopLogger = true) ∧
      (s.thread = .finished ∨ s.logCount = 0 ∧ s.stopLogger = true) := by
  cases hstep with
  | accept =>
    rw [woken_finished] at hfin
    rw [woken_eq]
    exact ⟨rfl, id, .inl hfin⟩
  | drop => exact ⟨rfl, id, .inl hfin⟩
  | cleanup =>
    rw [woken_finished] at hfin
    rw [woken_eq]
    exact ⟨rfl, fun _ => rfl, .inl hfin⟩
  | join => exact ⟨rfl, id, .inl hfin⟩
  | opened => exact Thread.noConfusion hfin
  | openFailed => exact absurd rfl ha
  | wait => exact Thread.noConfusion hfin
  | exit hcount hstop => exact ⟨rfl, id, .inr ⟨hcount, hstop⟩⟩
  | drain => exact Thread.noConfusion hfin
  | spurious => exact Thread.noConfusion hfin

/-- A thread that opened its file returns only once it was told to stop. -/
theorem finished_stopped (hstep : Step s a msgs s') (ha : a ≠ .fopen false)
    (h : s.thread = .finished → s.stopLogger = true) :
    s'.thread = .finished → s'.stopLogger = true := by
  intro hfin
  obtain ⟨-, hkeeps, hbefore | ⟨-, hstop⟩⟩ := finished_cases hstep ha hfin
  · exact hkeeps (h hbefore)
  · exact hkeeps hstop

/-- When it returns, everything accepted before is in the file. -/
theorem finished_printed (hd : Delivers s accepted) (hstep : Step s a msgs s')
    (ha : a ≠ .fopen false) (hearly : early <+: accepted)
    (h : s.thread = .finished → early <+: s.logFile) :
    s'.thread = .finished → early <+: s'.logFile := by
  intro hfin
  obtain ⟨hfile, -, hbefore | ⟨hcount, -⟩⟩ := finished_cases hstep ha hfin
  · rw [hfile]
    exact h hbefore
  · have hfifo := hd.toFifo
    have hlen := hfifo.pending
    rw [hcount, Int.add_zero, Int.natCast_inj] at hlen
    have hall : s.logFile = accepted := hfifo.printed.eq_of_length hlen.symm
    rw [hfile, hall]
    exact hearly

/-- What was accepted before `logger_cleanup` is in the file once the thread has returned. -/
theorem finished_run {before after : List Action} {t : State}
    (h : runList perform (before ++ .cleanup :: after) (loggerInit t) = some (results, s))
    (hopen : .fopen false ∉ before ++ .cleanup :: after) (hfin : s.thread = .finished) :
    (results.take before.length).flatten <+: s.logFile := by
  obtain ⟨rs, es, s1, hlen, rfl, hbefore, hrest⟩ := runList_append h
  have hopen1 : ∀ a ∈ before, a ≠ .fopen false := by
    rintro a ha rfl
    exact hopen (List.mem_append_left _ ha)
  have hopen2 : ∀ a ∈ Action.cleanup :: after, a ≠ .fopen false := by
    rintro a ha rfl
    exact hopen (List.mem_append_right _ ha)
  have hd1 : Delivers s1 rs.flatten := (loggerInit_delivers t).run hbefore
  have hstopped : s1.thread = .finished → s1.stopLogger = true :=
    (runList_induction (p := fun s accepted => Delivers s accepted ∧
        (s.thread = .finished → s.stopLogger = true))
      (fun _ _ _ _ _ ha hp hs => ⟨hp.1.step hs, finished_stopped hs ha hp.2⟩) hopen1
      ⟨loggerInit_delivers t, Thread.noConfusion⟩ hbefore).2
  have hrunning : s1.thread ≠ .finished := by
    obtain ⟨_, _, _, -, hcleanup, -⟩ := runList_cons hrest
    cases perform_step hcleanup with
    | cleanup hnot =>
      intro hfin1
      rw [hd1.called.mp hnot] at hstopped
      exact Bool.noConfusion (hstopped hfin1)
  have hrun : Delivers s (rs.flatten ++ es.flatten) ∧ rs.flatten <+: rs.flatten ++ es.flatten ∧
      (s.thread = .finished → rs.flatten <+: s.logFile) :=
    runList_induction (p := fun s accepted => Delivers s accepted ∧ rs.flatten <+: accepted ∧
        (s.thread = .finished → rs.flatten <+: s.logFile))
      (fun _ _ _ _ _ ha hp hs => ⟨hp.1.step hs, hp.2.1.trans (List.prefix_append _ _),
        finished_printed hp.1 hs ha hp.2.1 hp.2.2⟩) hopen2
      ⟨hd1, List.prefix_rfl, fun hfin1 => absurd hfin1 hrunning⟩ hrest
  rw [List.take_left' hlen]
  exact hrun.2.2 hfin

end MiniFs.Logger

namespace MiniFs.Properties
open MiniFs.Core Logger Library Library.Exec

variable {s : State} {acts : List Action} {results : List (List (List UInt8))}

/-- First in, first out, and exactly once. -/
theorem log_fifo {t : State} (h : runList perform acts (loggerInit t) = some (results, s))
    (hopen : .fopen false ∉ acts) :
    Fifo s results.flatten ∧
    (∀ time text, ∃ msgs s', perform (.log time text) s = some (msgs, s') ∧
      (msgs = [msgBuf time text] ∨ msgs = [] ∧ s' = s ∧ s.logCount = maxLogs)) ∧
    ∀ before after, acts = before ++ .cleanup :: after → s.thread = .finished →
      (results.take before.length).flatten <+: s.logFile := by
  have hd : Delivers s results.flatten := (loggerInit_delivers t).run h
  refine ⟨hd.toFifo, hd.log, fun before after hacts hfin => ?_⟩
  subst hacts
  exact finished_run h hopen hfin

def usedGlobals : State := ⟨fun _ => [0x78, 0], 5, 5, 0, true, .finished, .returned, []⟩

/-- The thread falls asleep, two messages wake it, and it is stopped before it runs. -/
def wokenRun : List Action :=
  [.fopen true, .thread, .log ⟨[0x31], by decide⟩ ⟨[0x61], by decide⟩,
    .log ⟨[0x32], by decide⟩ ⟨[0x62, 0x0A], by decide⟩, .cleanup, .thread, .thread, .join]

/-- Both messages are in the file when the thread has returned. -/
theorem log_fifo_two : ∃ results s,
    runList perform wokenRun (loggerInit usedGlobals) = some (results, s) ∧
      Fifo s results.flatten ∧ s.logFile.length = 2 ∧ (results.take 4).flatten <+: s.logFile := by
  have hany : (runList perform wokenRun (loggerInit usedGlobals)).any
      (fun p => decide (p.2.thread = .finished ∧ p.2.logFile.length = 2)) = true := by
    decide +kernel
  obtain ⟨results, s, hrun, hend⟩ := exists_of_any hany
  obtain ⟨hfin, htwo⟩ := of_decide_eq_true hend
  have hopen : .fopen false ∉ wokenRun := by simp [wokenRun]
  have hall := log_fifo hrun hopen
  exact ⟨results, s, hrun, hall.1, htwo, hall.2.2 (wokenRun.take 4) (wokenRun.drop 5) rfl hfin⟩

/-- The thread is never asleep while a message is pending or it was told to stop, so
`logger_cleanup` does not wait for a sleeping thread. -/
theorem no_lost_wakeup {t : State}
    (h : runList perform acts (loggerInit t) = some (results, s)) :
    ¬(s.thread = .waiting ∧ (0 < s.logCount ∨ s.stopLogger = true)) ∧
      (s.cleanup = .joining → s.thread ≠ .waiting) := by
  have hd : Delivers s results.flatten := (loggerInit_delivers t).run h
  constructor
  · rintro ⟨hwait, hwork⟩
    obtain ⟨hcount, hstop⟩ := hd.awake hwait
    rcases hwork with hpos | hstopped
    · omega
    · rw [hstop] at hstopped
      exact Bool.noConfusion hstopped
  · intro hjoin hwait
    have hnot := hd.called.mpr (hd.awake hwait).2
    rw [hjoin] at hnot
    exact Cleanup.noConfusion hnot

/-- The same run up to the join: the sleeping thread was woken by the first message. -/
theorem no_lost_wakeup_two : ∃ results s,
    runList perform (wokenRun.take 5) (loggerInit usedGlobals) = some (results, s) ∧
      0 < s.logCount ∧ s.cleanup = .joining ∧ s.thread ≠ .waiting := by
  have hany : (runList perform (wokenRun.take 5) (loggerInit usedGlobals)).any
      (fun p => decide (0 < p.2.logCount ∧ p.2.cleanup = .joining)) = true := by
    decide +kernel
  obtain ⟨results, s, hrun, hend⟩ := exists_of_any hany
  obtain ⟨hcount, hjoin⟩ := of_decide_eq_true hend
  exact ⟨results, s, hrun, hcount, hjoin, (no_lost_wakeup hrun).2 hjoin⟩

end MiniFs.Properties
