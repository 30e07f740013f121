import MiniFs.Core.Types

/-! # The logger (`logger.c`)

Callers of `fs_log` put messages into a ring of 1024 slots; one thread writes them
to the log file until `logger_cleanup` stops it. Each critical section under
`log_mutex` is one step, and so is each wake-up of the thread. The logger thread is
the only one that waits on `log_cond`.
-/

set_option autoImplicit false

namespace MiniFs.Logger
open MiniFs.Core Library Library.Exec

abbrev maxLogs : ℤ := 1024
abbrev logMsgLen : ℕ := 256

/-! ## Messages -/

/-- `msg_buf` of `fs_log`: "[time] ", the text as far as it fits, and a line end if it is
missing and there is room for it. -/
def msgBuf (time text : CStr) : List UInt8 :=
  let msg := (0x5B :: time.bytes ++ [0x5D, 0x20] ++ text.bytes).take (logMsgLen - 1)
  if msg.getLast? ≠ some 0x0A ∧ msg.length < logMsgLen - 1 then msg ++ [0x0A] else msg

/-- `strncpy(slot, msg_buf, LOG_MSG_LEN)` -/
def slotOf (msg : List UInt8) : List UInt8 := (msg.take logMsgLen).rightpad logMsgLen 0

/-- What `fprintf` prints of a slot. -/
def shown (slot : List UInt8) : List UInt8 := slot.takeWhile (· ≠ 0)

/-! ## The state -/

inductive Thread where
  /-- before `fopen` -/
  | starting
  /-- about to lock `log_mutex` at the head of its loop -/
  | running
  /-- in `pthread_cond_wait`, and no wake-up has been delivered -/
  | waiting
  /-- in `pthread_cond_wait` with a wake-up delivered, about to lock `log_mutex` again -/
  | woken
  /-- returned -/
  | finished
deriving DecidableEq

inductive Cleanup where
  | notCalled
  /-- in `pthread_join` -/
  | joining
  | returned
deriving DecidableEq

structure State where
  logQueue : ℕ → List UInt8
  logHead : ℤ
  logTail : ℤ
  logCount : ℤ
  stopLogger : Bool
  thread : Thread
  cleanup : Cleanup
  /-- the messages printed to the log file since the thread started -/
  logFile : List (List UInt8)

/-- `logger_init`, when the thread is created: the queue keeps its old bytes. -/
def loggerInit (s : State) : State :=
  { s with
    stopLogger := false
    logHead := 0
    logTail := 0
    logCount := 0
    thread := .starting
    cleanup := .notCalled
    logFile := [] }

abbrev M := Prog State

def State.woken (s : State) : State :=
  if s.thread = .waiting then { s with thread := .woken } else s

/-- `pthread_cond_signal(&log_cond)`: without effect unless the thread waits. -/
def signal : M Unit := update State.woken

/-- The index `i` lies in `log_queue`; elsewhere nothing is defined. -/
def inQueue (i : ℤ) : M Unit := require (0 ≤ i ∧ i < maxLogs)

/-- `fs_log`; the message is accepted, or the queue is full and it is dropped. -/
def fsLog (time text : CStr) : M (List (List UInt8)) := do
  let msg := msgBuf time text
  let s ← ask id
  if s.logCount < maxLogs then
    inQueue s.logHead
    update fun s => { s with
      logQueue := Function.update s.logQueue s.logHead.toNat (slotOf msg)
      logHead := (s.logHead + 1).tmod maxLogs
      logCount := s.logCount + 1 }
    signal
    pure [msg]
  else
    -- "Log queue full, dropping log: %s"
    pure []

/-- `while (log_count > 0)`: one pass for each pending message. -/
def drainLoop : ℕ → M Unit
  | 0 => pure ()
  | count + 1 => do
    let s ← ask id
    inQueue s.logTail
    update fun s => { s with
      logFile := s.logFile ++ [shown (s.logQueue s.logTail.toNat)]
      logTail := (s.logTail + 1).tmod maxLogs
      logCount := s.logCount - 1 }
    drainLoop count

/-- The logger thread from locking `log_mutex` to giving it up, at the head of its loop or
after a wake-up: both go on with the test of the inner loop. -/
def loggerThread : M Unit := do
  let s ← ask id
  if s.logCount = 0 ∧ s.stopLogger = false then
    update fun s => { s with thread := .waiting }
  else if s.stopLogger = true ∧ s.logCount = 0 then
    update fun s => { s with thread := .finished }
  else
    drainLoop s.logCount.toNat
    update fun s => { s with thread := .running }

/-! ## Steps of the threads -/

inductive Action where
  /-- a call of `fs_log` in any thread -/
  | log (time text : CStr)
  /-- the critical section of `logger_cleanup` -/
  | cleanup
  /-- `pthread_join` returns -/
  | join
  /-- the thread opens the log file, or fails to and returns -/
  | fopen (opened : Bool)
  /-- a critical section of the thread -/
  | thread
  /-- a spurious wake-up -/
  | spurious

def Enabled (s : State) : Action → Prop
  | .log _ _ => True
  | .cleanup => s.cleanup = .notCalled
  | .join => s.cleanup = .joining ∧ s.thread = .finished
  | .fopen _ => s.thread = .starting
  | .thread => s.thread = .running ∨ s.thread = .woken
  | .spurious => s.thread = .waiting

instance (s : State) (a : Action) : Decidable (Enabled s a) := by
  cases a <;> unfold Enabled <;> infer_instance

/-- What an enabled action does; the messages it puts into the queue. -/
def act : Action → M (List (List UInt8))
  | .log time text => fsLog time text
  | .cleanup => do
    update fun s => { s with stopLogger := true, cleanup := .joining }
    signal
    pure []
  | .join => do
    update fun s => { s with cleanup := .returned }
    pure []
  | .fopen opened => do
    update fun s => { s with thread := if opened then .running else .finished }
    pure []
  | .thread => do
    loggerThread
    pure []
  | .spurious => do
    update fun s => { s with thread := .woken }
    pure []

def perform (a : Action) : M (List (List UInt8)) := do
  require (Enabled (← ask id) a)
  act a

end MiniFs.Logger
