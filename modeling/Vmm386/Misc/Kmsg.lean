import Vmm386.Lib.Runs
import Vmm386.Misc.PrintfFields
import Vmm386.Time.ExpandTime

/-!
# The kernel's log

`add_to_syslog` of `kernel/misc/printf.c`, with its buffers. `none` stands for an access outside
of a buffer.
-/

namespace Vmm386.Misc.Kmsg

open Printf Time Runs

abbrev KMSG_BUF_SIZE : ℕ := 4096

/-- A message, without its terminator. -/
structure Message where
  text : List UChar
  noZero : 0 ∉ text
  short : text.length < 1024
  deriving DecidableEq

/-- `log_entry` and `idx`, `kern_msgs` and `kern_msgs_idx`, whether `syslogd` is set, and what
`syslog_cooked_entry` has been given. -/
structure State where
  logEntry : List UChar := List.replicate 1024 0
  idx : ℕ := 0
  kernMsgs : List UChar := List.replicate KMSG_BUF_SIZE 0
  kernMsgsIdx : ℕ := 0
  syslogd : Bool := false
  handed : List (List UChar) := []
  deriving DecidableEq

/-- `strcpy(buf + off, str)`. -/
def strcpy (buf : List UChar) (off : ℕ) (str : List UChar) : Option (List UChar) :=
  if off + str.length + 1 ≤ buf.length then
    some (buf.take off ++ (str ++ [0]) ++ buf.drop (off + str.length + 1))
  else none

/-- The string in a buffer. -/
def stringIn (buf : List UChar) : Option (List UChar) :=
  if 0 ∈ buf then some (buf.takeWhile (· ≠ 0)) else none

/-- The format of the time stamp. -/
def stampFormat : List UChar := "%3s %-2d %2d:%02d:%02d: kernel: ".toList.map ch

/-- The arguments of the time stamp. The first one is the address of the name of the month. -/
def stampArgs (tm : TimeBits) : Args
  | 0 => 1
  | 1 => tm.day
  | 2 => tm.hour
  | 3 => tm.minute
  | 4 => tm.second
  | _ => 0

/-- What lies at the address of the name of the month. -/
def monthAt (tm : TimeBits) : ULong → List UChar := fun _ => tm.monthAbbrev.toList.map ch

/-- `timebuf`. -/
def timebuf (cal : ULong) : Option (List UChar) :=
  (expandTime cal).bind fun tm =>
    (kvsprintf (monthAt tm) (stampFormat ++ [0]) (stampArgs tm)).bind fun out =>
      strcpy (List.replicate 26 0) 0 out.text

/-- The part of `add_to_syslog` that puts a line into `kern_msgs`, if it has room for it. -/
def addLine (s : State) (timebuf : List UChar) : Option State :=
  let len := s.idx + 25
  if s.kernMsgsIdx + len + 1 < KMSG_BUF_SIZE then
    (stringIn timebuf).bind fun stamp =>
      (strcpy s.kernMsgs s.kernMsgsIdx stamp).bind fun kernMsgs =>
        (stringIn s.logEntry).bind fun line =>
          (strcpy kernMsgs (s.kernMsgsIdx + 25) line).map fun kernMsgs =>
            { s with kernMsgs := kernMsgs, kernMsgsIdx := s.kernMsgsIdx + len }
  else some s

/-- The part of `add_to_syslog` that hands `kern_msgs` to `syslogd`. -/
def handOver (s : State) : Option State :=
  if s.syslogd then
    (stringIn s.kernMsgs).map fun msgs =>
      { s with handed := s.handed ++ [msgs], kernMsgsIdx := 0 }
  else some s

/-- `add_to_syslog(entry, slen)`, at the time `cal`. The byte before `entry` is outside. -/
def addToSyslog (entry : List UChar) (slen : ℕ) (cal : ULong) (s : State) : Option State :=
  (strcpy s.logEntry s.idx entry).bind fun logEntry =>
    let s := { s with logEntry := logEntry, idx := s.idx + slen }
    if slen = 0 then none
    else
      (entry ++ [0])[slen - 1]?.bind fun last =>
        if last ≠ ch '\n' then some s
        else
          (timebuf cal).bind fun timebuf =>
            (addLine s timebuf).bind fun s => handOver { s with idx := 0 }

/-- A message, with the time it is logged at; or `syslogd = open_module(..)`, which may find the
module or not. -/
inductive Call
  | addToSyslog (m : Message) (cal : ULong)
  | openSyslogd (found : Bool)

def step (s : State) : Call → Option State
  | .addToSyslog m cal => addToSyslog m.text m.text.length cal s
  | .openSyslogd found => some { s with syslogd := found }

/-! ## What is to be logged -/

/-- `%3s`, and `%2d` with flags. -/
def stampPieces : List Piece :=
  let lit (c : Char) (h : ch c ≠ 0 ∧ ch c ≠ ch '%') : Piece := .literal (ch c) h
  let number (flags : List Flag) (h : flags.count .star = 0) : Piece :=
    .conversion ⟨flags, some (1, []), .absent, .plain, .d, by simp [h]⟩
  [.conversion ⟨[], some (2, []), .absent, .plain, .s, by decide⟩, lit ' ' (by decide),
    number [.minus] rfl, lit ' ' (by decide), number [] rfl, lit ':' (by decide),
    number [.zero] rfl, lit ':' (by decide), number [.zero] rfl, lit ':' (by decide),
    lit ' ' (by decide), lit 'k' (by decide), lit 'e' (by decide), lit 'r' (by decide),
    lit 'n' (by decide), lit 'e' (by decide), lit 'l' (by decide), lit ':' (by decide),
    lit ' ' (by decide)]

/-- The time stamp. -/
def stamp (cal : ULong) : List UChar :=
  match expandTime cal with
  | some tm => formatText (monthAt tm) (stampArgs tm) stampPieces
  | none => []

/-- The log: the beginning of a line, and the complete lines that have been accepted, of which
some have been handed over and some wait. -/
structure Log where
  part : List UChar
  accepted : List (List UChar)
  handed : List (List UChar)
  waiting : List (List UChar)
  available : Bool
  split : accepted = handed ++ waiting

/-- The empty log. -/
def Log.empty : Log := ⟨[], [], [], [], false, rfl⟩

/-- A complete line is accepted if there is room for it among the lines that wait. -/
def Log.accept (log : Log) (line : List UChar) : Log :=
  if log.waiting.flatten.length + line.length + 1 < KMSG_BUF_SIZE then
    { log with
      accepted := log.accepted ++ [line]
      waiting := log.waiting ++ [line]
      split := by rw [log.split, List.append_assoc] }
  else log

/-- The lines that wait are handed over, if `syslogd` is available. -/
def Log.handOver (log : Log) : Log :=
  if log.available then
    { log with
      handed := log.handed ++ log.waiting
      waiting := []
      split := by rw [log.split, List.append_nil] }
  else log

/-- What a call does to the log. A message that ends with a newline completes a line. -/
def Log.step (log : Log) : Call → Log
  | .addToSyslog m cal =>
    if m.text.getLast? = some (ch '\n') then
      { (log.accept (stamp cal ++ (log.part ++ m.text))).handOver with part := [] }
    else { log with part := log.part ++ m.text }
  | .openSyslogd found => { log with available := found }

/-- The log after some calls. -/
def Log.after (calls : List Call) : Log := calls.foldl Log.step Log.empty

end Vmm386.Misc.Kmsg
