import Vmm386.Tasks.Semaphore

/-!
# The system log

`syslogd/syslogd.c`: entries are copied to a buffer, from which the task `syslogd` appends them
to the log file.
-/

namespace Vmm386.Syslogd

open Tasks Runs

abbrev MESG_BUF_SIZE : ULong := 8192

abbrev MAX_LOG_HANDLES : ℤ := 64

/-- `struct session`. -/
structure Session where
  used : Bool
  level : ULong

/-- What decides if entries are logged: `do_logging`, `handles` and `log_level`. -/
structure LogConfig where
  doLogging : Bool
  handles : ℤ → Session
  logLevel : ULong

/-- `check_handle`. -/
def LogConfig.checkHandle (config : LogConfig) (handle : ℤ) : Bool :=
  if handle < 0 ∨ MAX_LOG_HANDLES ≤ handle then false
  else if (config.handles handle).used = false then false
  else if config.logLevel < (config.handles handle).level then false
  else true

/-- `syslog_cooked_entry` does not return at once. -/
def LogConfig.Logs (config : LogConfig) (handle : ℤ) : Prop :=
  config.doLogging = true ∧ config.checkHandle handle = true

instance (config : LogConfig) (handle : ℤ) : Decidable (config.Logs handle) :=
  inferInstanceAs (Decidable (_ ∧ _))

/-- A C string, without the byte that ends it. -/
abbrev Entry := List UChar

/-- Where `syslogd` is in `syslog_task`. -/
inductive SyslogPc where
  /-- Before the first message goes to the log file. -/
  | start
  /-- `wait`: before the exchange. -/
  | xchg
  /-- `wait`: before `add_task_list`. -/
  | addTaskList
  /-- Before `suspend_task` tests the flags. -/
  | suspendTask
  /-- Before `suspend_task` masks interrupts. -/
  | suspendSection
  /-- Before `schedule` returns. -/
  | schedule
  /-- Before the test of `buf_idx`. -/
  | test
  /-- Before `fs->open`. -/
  | open
  /-- Before `fs->seek`. -/
  | seek
  /-- In `fs->write` of `n` bytes, `k` of which have been written. -/
  | write (n k : ℕ)
  /-- Before `fs->close`. -/
  | close
  /-- Before `total_bytes` is updated. -/
  | total
  /-- The loop that counts the lines, with its pointer. -/
  | count (p : ℕ)
  /-- Before `buf_idx` is reset. -/
  | reset
  /-- `set_sem_blocked`: before the first store. -/
  | setBlocked
  /-- `set_sem_blocked`: before the second store. -/
  | setWaiting
deriving DecidableEq

/-- Where a task is in `signal`, which `syslog_cooked_entry` calls last. -/
inductive ProducerPc where
  | idle
  /-- Before the test for somebody waiting. -/
  | signal
  /-- Before the semaphore is set to FALSE. -/
  | clear
  /-- Before `wake_up_first_task`. -/
  | wakeUp
deriving DecidableEq

/-- The buffer, `syslogd`, and the tasks `P` that make entries. `holder` is the task that is
between `strcpy` and the update of `buf_idx`, with its entry. `accepted` and `written` record
the bytes that the buffer has taken, and those written from it to the log file; `overrun` tells
whether a byte has been stored outside of the buffer. -/
structure Syslog (P : Type*) where
  config : LogConfig
  mesgBuf : ℕ → UChar
  bufIdx : ULong
  newData : Semaphore Unit
  flags : Flags
  pc : SyslogPc
  producer : P → ProducerPc
  holder : Option (P × Entry)
  totalMesgs : ULong
  totalBytes : ULong
  accepted : List UChar
  written : List UChar
  overrun : Bool

/-- `strcpy`. -/
def strcpy (buf : ℕ → UChar) (dst : ULong) : Entry → ℕ → UChar
  | [] => Function.update buf dst.toNat 0
  | c :: src => strcpy (Function.update buf dst.toNat c) (dst + 1) src

/-- Some byte of a string copied to the offset `dst` is not in the buffer. -/
def overruns (dst : ULong) : Entry → Bool
  | [] => decide (MESG_BUF_SIZE ≤ dst)
  | _ :: src => decide (MESG_BUF_SIZE ≤ dst) || overruns (dst + 1) src

namespace Syslog

variable {P : Type*} (s : Syslog P)

/-- `(buf_idx + len + 1) < MESG_BUF_SIZE`. -/
def HasRoom (entry : Entry) : Prop :=
  s.bufIdx + BitVec.ofNat 32 entry.length + 1 < MESG_BUF_SIZE

instance (entry : Entry) : Decidable (s.HasRoom entry) := inferInstanceAs (Decidable (_ < _))

/-- `strcpy(mesg_buf + buf_idx, entry)`. -/
def copyEntry (entry : Entry) : Syslog P :=
  { s with
    mesgBuf := strcpy s.mesgBuf s.bufIdx entry
    overrun := s.overrun || overruns s.bufIdx entry }

/-- `buf_idx += len`. -/
def advance (entry : Entry) : Syslog P :=
  { s with
    bufIdx := s.bufIdx + BitVec.ofNat 32 entry.length
    accepted := s.accepted ++ entry }

/-- `signal`, the branch for nobody waiting. -/
def clear : Syslog P := { s with newData := { s.newData with blocked := false } }

/-- `wake_up_first_task`. -/
def wakeUpFirstTask : Syslog P :=
  match s.newData.waiting with
  | [] => s
  | () :: rest =>
    { s with newData := { s.newData with waiting := rest }, flags := s.flags.wake }

/-- `signal` in an interrupt handler. -/
def signal : Syslog P := if s.newData.waiting = [] then s.clear else s.wakeUpFirstTask

/-- `syslog_cooked_entry` in an interrupt handler. -/
def irqLog (entry : Entry) : Syslog P :=
  if s.HasRoom entry then ((s.copyEntry entry).advance entry).signal else s.signal

/-- `syslog_task`: one step. -/
def syslogTask : Option (Syslog P) :=
  if s.flags.running then
    match s.pc with
    | .start => some { s with pc := .xchg }
    | .xchg =>
      if s.newData.blocked then some { s with pc := .addTaskList }
      else some { s with newData := { s.newData with blocked := true }, pc := .test }
    | .addTaskList => some { s with newData := s.newData.addTaskList (), pc := .suspendTask }
    | .suspendTask => some { s with pc := .suspendSection }
    | .suspendSection => some { s with flags := s.flags.suspend, pc := .schedule }
    | .schedule => some { s with pc := .test }
    | .test =>
      if 0 < s.bufIdx then some { s with pc := .open } else some { s with pc := .setBlocked }
    | .open => some { s with pc := .seek }
    | .seek => some { s with pc := .write s.bufIdx.toNat 0 }
    | .write n k =>
      if k < n then
        some { s with written := s.written ++ [s.mesgBuf k], pc := .write n (k + 1) }
      else some { s with pc := .close }
    | .close => some { s with pc := .total }
    | .total => some { s with totalBytes := s.totalBytes + s.bufIdx, pc := .count 0 }
    | .count p =>
      -- `buf_idx--` gives the old value, and wraps round at last
      if s.bufIdx ≠ 0 then
        some { s with
          bufIdx := s.bufIdx - 1
          totalMesgs := if s.mesgBuf p = 10 then s.totalMesgs + 1 else s.totalMesgs
          pc := .count (p + 1) }
      else some { s with bufIdx := s.bufIdx - 1, pc := .reset }
    | .reset => some { s with bufIdx := 0, pc := .setBlocked }
    | .setBlocked =>
      some { s with newData := { s.newData with blocked := true }, pc := .setWaiting }
    | .setWaiting => some { s with newData := { s.newData with waiting := [] }, pc := .xchg }
  else none

variable [DecidableEq P]

def setProducer (p : P) (pc : ProducerPc) : Syslog P :=
  { s with producer := Function.update s.producer p pc }

/-- `syslog_cooked_entry` up to `strcpy`. -/
def cookedEntry (p : P) (handle : ℤ) (entry : Entry) : Syslog P :=
  if s.config.Logs handle then
    if s.HasRoom entry then { s.copyEntry entry with holder := some (p, entry) }
    else s.setProducer p .signal
  else s

/-- The rest of `syslog_cooked_entry`. Between `forbid` and `permit` no other task runs. -/
def goOn (p : P) : Option (Syslog P) :=
  match s.holder with
  | some (q, entry) =>
    if q = p then some ({ s.advance entry with holder := none }.setProducer p .signal) else none
  | none =>
    match s.producer p with
    | .idle => none
    | .signal =>
      if s.newData.waiting = [] then some (s.setProducer p .clear)
      else some (s.setProducer p .wakeUp)
    | .clear => some (s.clear.setProducer p .idle)
    | .wakeUp => some (s.wakeUpFirstTask.setProducer p .idle)

end Syslog

/-- What happens next. -/
inductive SyslogOp (P : Type*) where
  /-- Logging is started or stopped, a handle opened or closed, or the level set. -/
  | setConfig (config : LogConfig)
  /-- A task calls `syslog_cooked_entry`. -/
  | entry (p : P) (handle : ℤ) (entry : Entry)
  /-- A task goes on with it. -/
  | producer (p : P)
  /-- An interrupt handler calls `syslog_cooked_entry`. -/
  | irq (handle : ℤ) (entry : Entry)
  /-- A step of `syslogd`. -/
  | syslogd

/-- The strings are those that the memory can hold. -/
def syslogStep {P : Type*} [DecidableEq P] (s : Syslog P) : SyslogOp P → Option (Syslog P)
  | .setConfig config => some { s with config }
  | .entry p handle entry =>
    if s.holder = none ∧ s.producer p = .idle ∧ entry.length < 2 ^ 31 then
      some (s.cookedEntry p handle entry)
    else none
  | .producer p => s.goOn p
  | .irq handle entry =>
    if entry.length < 2 ^ 31 then
      some (if s.config.Logs handle then s.irqLog entry else s)
    else none
  | .syslogd => if s.holder = none then s.syslogTask else none

/-- The log after `syslog_init`. -/
def Syslog.init (P : Type*) (config : LogConfig) : Syslog P where
  config
  mesgBuf _ := 0
  bufIdx := 0
  newData := .init true
  flags := Flags.runnable
  pc := .start
  producer _ := .idle
  holder := none
  totalMesgs := 0
  totalBytes := 0
  accepted := []
  written := []
  overrun := false

end Vmm386.Syslogd
