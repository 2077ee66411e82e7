import Mathlib.Data.List.TakeWhile
import Vmm386.Misc.Kmsg
import Vmm386.Misc.PrintfRuns
import Vmm386.Time.ExpandTimeTheorems

/-!
# The kernel's log

What `add_to_syslog` makes of a sequence of messages.
-/

namespace Vmm386.Misc.Kmsg

open Printf Time Runs

/-! ## The time stamp -/

/-- The digits of the numbers of a time stamp. -/
theorem digitsField_lt {n : ℕ} (h : n < 60) :
    (digitsField lowerDigits 10 n).length ≤ 2 ∧ 0 ∉ digitsField lowerDigits 10 n := by
  have hall : ∀ n : Fin 60, (digitsField lowerDigits 10 n).length ≤ 2 ∧
      0 ∉ digitsField lowerDigits 10 n := by decide +kernel
  exact hall ⟨n, h⟩

/-- `%2d` of a small number, without a sign. -/
theorem number_good (sp : Spec) {arg : ULong}
    (hflags : sp.flags = { minus := sp.flags.minus, zero := sp.flags.zero }) (hwidth : sp.width = 2)
    (hprec : sp.precision = 0) (harg : arg.toNat < 60) (strAt : ULong → List UChar) :
    Conv.d.Good strAt sp none arg ∧ (Conv.d.field strAt sp none arg).length = 2 ∧
      0 ∉ Conv.d.field strAt sp none arg := by
  obtain ⟨flags, width, precision⟩ := sp
  dsimp only at hflags hwidth hprec
  subst hwidth hprec
  generalize flags.minus = minus, flags.zero = zero at hflags
  subst hflags
  have hvalue : argValue false true arg = (arg.toNat : ℤ) := by
    rw [argValue, if_neg Bool.false_ne_true, if_pos rfl, BitVec.toInt_eq_toNat_of_lt (by omega)]
  have hsign : ∀ flags : Flags, flags.plus = false → flags.spc = false →
      signField flags (arg.toNat : ℤ) = [] := by
    intro flags hplus hspc
    rw [signField, if_neg (by omega), hplus, hspc]
    rfl
  obtain ⟨hlen, hzero⟩ := digitsField_lt harg
  have hextra : ∀ n, extraZeros n 0 = 0 := fun n => if_neg fun hc => hc.1 rfl
  refine ⟨⟨fun hc => absurd hc.1 Bool.false_ne_true, ?_, ?_⟩, ?_, ?_⟩
  · rw [NumberStyle.digitsOf, hvalue, hextra, Int.natAbs_natCast, Nat.zero_add]
    exact hlen.trans (by decide)
  · refine ⟨.inr (ite_self _), .inl ?_, .inr (.inr (.inr ⟨ite_self _, .inl ?_⟩))⟩
    · rw [hextra, Option.getD_none, Nat.zero_sub]
    · rw [NumberStyle.sign, hvalue, if_pos rfl]
      exact hsign _ rfl rfl
  · unfold Conv.field
    dsimp only [Conv.style]
    rw [NumberStyle.field, hvalue, length_numberField, if_pos rfl, hsign _ rfl rfl,
      Int.natAbs_natCast, Option.getD_none]
    dsimp only
    rw [ite_self]
    exact max_eq_left (by simpa using hlen)
  · unfold Conv.field
    dsimp only [Conv.style]
    rw [NumberStyle.field, hvalue, if_pos rfl, hsign _ rfl rfl, Int.natAbs_natCast]
    dsimp only
    rw [ite_self]
    have hspace : 0#8 ≠ ch ' ' := by decide
    have hdigit : 0#8 ≠ ch '0' := by decide
    have hmem : 0#8 ∉ digitsField lowerDigits 10 arg.toNat := hzero
    unfold numberField
    split_ifs <;> simp [hspace, hdigit, hmem]

/-- What is put into a time stamp. -/
theorem expandTime_stamp (cal : ULong) :
    ∃ tm, expandTime cal = some tm ∧ (monthAt tm 1).length = 3 ∧ 0 ∉ monthAt tm 1 ∧
      tm.day.toNat < 60 ∧ tm.hour.toNat < 60 ∧ tm.minute.toNat < 60 ∧ tm.second.toNat < 60 := by
  obtain ⟨tm, heq, hmoment, -⟩ := expandTime_date cal
  have hv := momentAt_valid cal
  obtain ⟨hmonth, hmonth', -, hday, -, -⟩ := tableDate_days hv
  obtain ⟨hhour, hminute, hsecond⟩ := tableDate_time (momentAt cal)
  have hh := hv.hour
  have hm := hv.minute
  have hs := hv.second
  rw [← hmoment] at hmonth hmonth' hday hhour hminute hsecond
  unfold TimeBits.moment at hmonth hmonth' hday hhour hminute hsecond
  dsimp only at hmonth hmonth' hday hhour hminute hsecond
  have hnames : ∀ m : Fin 12, ((monthAbbrevs.getD m.val "").toList.map ch).length = 3 ∧
      0 ∉ (monthAbbrevs.getD m.val "").toList.map ch := by decide
  have hname : monthAt tm 1 = (monthAbbrevs.getD (tm.month - 1) "").toList.map ch := by
    rw [monthAt, expandTime_monthAbbrev heq]
  obtain ⟨hlen, hzero⟩ := hnames ⟨tm.month - 1, by omega⟩
  rw [← hname] at hlen hzero
  exact ⟨tm, heq, hlen, hzero, by omega, by omega, by omega, by omega⟩

/-- The pieces of the time stamp are put out as is meant. -/
theorem stampPieces_good (cal : ULong) :
    ∃ tm, expandTime cal = some tm ∧ AllGood (monthAt tm) (stampArgs tm) stampPieces ∧
      (formatText (monthAt tm) (stampArgs tm) stampPieces).length = 25 ∧
      0 ∉ formatText (monthAt tm) (stampArgs tm) stampPieces := by
  obtain ⟨tm, heq, hlen, hzero, hday, hhour, hminute, hsecond⟩ := expandTime_stamp cal
  have hnumber : ∀ (flags : Flags) (arg : ULong),
      flags = { minus := flags.minus, zero := flags.zero } → arg.toNat < 60 → _ :=
    fun flags arg hflags harg =>
      number_good { flags := flags, width := 2 } hflags rfl rfl harg (monthAt tm)
  obtain ⟨hd, hd', hd''⟩ := hnumber { minus := true } tm.day rfl hday
  obtain ⟨hh, hh', hh''⟩ := hnumber {} tm.hour rfl hhour
  obtain ⟨hm, hm', hm''⟩ := hnumber { zero := true } tm.minute rfl hminute
  obtain ⟨hs, hs', hs''⟩ := hnumber { zero := true } tm.second rfl hsecond
  have hmonth : textField {} 3 (monthAt tm 1) = monthAt tm 1 := by
    have hpad : (3 : ℤ).toNat - (monthAt tm 1).length = 0 := by rw [hlen]; rfl
    rw [textField, hpad]
    rfl
  have hgood : TextGood { flags := {}, width := 3 } none (monthAt tm 1) := by
    refine .inl ⟨rfl, .inr (.inl Bool.false_ne_true)⟩
  have htext : formatText (monthAt tm) (stampArgs tm) stampPieces =
      textField {} 3 (monthAt tm 1) ++ ([ch ' '] ++
        (Conv.d.field (monthAt tm) { flags := { minus := true }, width := 2 } none tm.day ++
          ([ch ' '] ++
            (Conv.d.field (monthAt tm) { width := 2 } none tm.hour ++ ([ch ':'] ++
              (Conv.d.field (monthAt tm) { flags := { zero := true }, width := 2 } none
                  tm.minute ++ ([ch ':'] ++
                (Conv.d.field (monthAt tm) { flags := { zero := true }, width := 2 } none
                    tm.second ++
                  ": kernel: ".toList.map ch)))))))) := rfl
  refine ⟨tm, heq, ?_, ?_, ?_⟩
  · exact ⟨hgood, trivial, hd, trivial, hh, trivial, hm, trivial, hs, trivial, trivial, trivial,
      trivial, trivial, trivial, trivial, trivial, trivial, trivial, trivial⟩
  · rw [htext, hmonth]
    simp only [List.length_append, hlen, hd', hh', hm', hs']
    rfl
  · rw [htext, hmonth]
    simp only [List.mem_append, not_or]
    exact ⟨hzero, by decide, hd'', by decide, hh'', by decide, hm'', by decide, hs'', by decide⟩

/-! ## Buffers -/

section

variable {buf text str : List UChar}

theorem strcpy_length {buf' : List UChar} {off : ℕ} (h : strcpy buf off str = some buf') :
    buf'.length = buf.length := by
  unfold strcpy at h
  split_ifs at h with hfit
  cases h
  simp only [List.length_append, List.length_take, List.length_drop, List.length_singleton]
  omega

/-- A string that is put behind a text. -/
theorem strcpy_some (str : List UChar) (h : text <+: buf) (hfit : text.length + str.length + 1 ≤ buf.length) :
    ∃ buf', strcpy buf text.length str = some buf' ∧ text ++ str ++ [0] <+: buf' ∧
      buf'.length = buf.length := by
  have heq : strcpy buf text.length str = some
      (buf.take text.length ++ (str ++ [0]) ++ buf.drop (text.length + str.length + 1)) :=
    if_pos hfit
  refine ⟨_, heq, ?_, strcpy_length heq⟩
  rw [← List.prefix_iff_eq_take.mp h, ← List.append_assoc text str]
  exact List.prefix_append _ _

/-- A text that has a terminator. -/
theorem stringIn_of_isPrefix (h : text ++ [0] <+: buf) (hzero : 0 ∉ text) :
    stringIn buf = some text := by
  obtain ⟨rest, rfl⟩ := h
  have hmem : (0 : UChar) ∈ text ++ [0] ++ rest := by simp
  have htext : text.takeWhile (· ≠ 0) = text := by
    rw [List.takeWhile_eq_self_iff]
    intro c hc
    exact decide_eq_true fun hz => hzero (hz ▸ hc)
  have hend : ([0] ++ rest : List UChar).takeWhile (· ≠ 0) = [] :=
    List.takeWhile_cons_of_neg (by decide)
  rw [stringIn, if_pos hmem, List.append_assoc, List.takeWhile_append, htext, if_pos rfl, hend,
    List.append_nil]

end

/-- The time stamp is 25 characters long. -/
theorem stamp_length (cal : ULong) : (stamp cal).length = 25 ∧ 0 ∉ stamp cal := by
  obtain ⟨tm, heq, -, hlen, hzero⟩ := stampPieces_good cal
  rw [stamp, heq]
  exact ⟨hlen, hzero⟩

/-- It fits into `timebuf`. -/
theorem timebuf_some (cal : ULong) :
    ∃ buf, timebuf cal = some buf ∧ stringIn buf = some (stamp cal) := by
  obtain ⟨hlen, hzero⟩ := stamp_length cal
  obtain ⟨tm, heq, hgood, -⟩ := stampPieces_good cal
  have hstamp : formatText (monthAt tm) (stampArgs tm) stampPieces = stamp cal := by
    rw [stamp, heq]
  have hformat : formatBytes stampPieces = stampFormat := by decide
  obtain ⟨buf, hcopy, hprefix, -⟩ :=
    strcpy_some (stamp cal) (List.nil_prefix : ([] : List UChar) <+: List.replicate 26 0)
      (by rw [hlen]; decide)
  refine ⟨buf, ?_, stringIn_of_isPrefix hprefix hzero⟩
  rw [timebuf, heq, Option.bind_some, ← hformat, kvsprintf_of_allGood hgood, Option.bind_some,
    hstamp]
  exact hcopy

/-! ## The log -/

/-- The lines that wait in `kern_msgs`. -/
structure Waits (s : State) (lines : List (List UChar)) : Prop where
  length : s.kernMsgs.length = KMSG_BUF_SIZE
  text : lines.flatten <+: s.kernMsgs
  idx : s.kernMsgsIdx = lines.flatten.length
  idx_lt : s.kernMsgsIdx + 1 < KMSG_BUF_SIZE
  terminated : 0 < s.kernMsgsIdx → lines.flatten ++ [0] <+: s.kernMsgs
  noZero : 0 ∉ lines.flatten

theorem Waits.congr {s s' : State} {lines : List (List UChar)} (h : Waits s lines)
    (hmsgs : s'.kernMsgs = s.kernMsgs) (hidx : s'.kernMsgsIdx = s.kernMsgsIdx) :
    Waits s' lines := by
  obtain ⟨length, text, idx, hlt, terminated, noZero⟩ := h
  rw [← hmsgs] at length text terminated
  rw [← hidx] at idx hlt terminated
  exact ⟨length, text, idx, hlt, terminated, noZero⟩

/-- The state of the kernel stands for the log. -/
structure Refines (s : State) (log : Log) : Prop where
  length : s.logEntry.length = 1024
  part : log.part <+: s.logEntry
  idx : s.idx = log.part.length
  idx_lt : s.idx < 1024
  noZero : 0 ∉ log.part
  waits : Waits s log.waiting
  handed : s.handed.flatten = log.handed.flatten
  syslogd : s.syslogd = log.available

theorem refines_empty : Refines {} Log.empty where
  length := List.length_replicate
  part := List.nil_prefix
  idx := rfl
  idx_lt := by decide
  noZero := List.not_mem_nil
  waits :=
    { length := List.length_replicate
      text := List.nil_prefix
      idx := rfl
      idx_lt := by decide
      terminated := fun h => absurd h (lt_irrefl 0)
      noZero := List.not_mem_nil }
  handed := rfl
  syslogd := rfl

/-- A message is not empty, and together with what is there of its line shorter than
`log_entry`. -/
def Ok (s : State) : Call → Prop
  | .addToSyslog m _ => 1 ≤ m.text.length ∧ s.idx + m.text.length < 1024
  | .openSyslogd _ => True

section

variable {s : State} {log : Log} {m : Message} {cal : ULong} {lines : List (List UChar)}
  {line buf : List UChar}

/-- `add_to_syslog`, up to the test for a newline. -/
theorem addToSyslog_eq (h : Refines s log) (hok : Ok s (.addToSyslog m cal)) :
    ∃ entry, log.part ++ m.text ++ [0] <+: entry ∧ entry.length = 1024 ∧
      addToSyslog m.text m.text.length cal s =
        let s' := { s with logEntry := entry, idx := s.idx + m.text.length }
        if m.text.getLast? = some (ch '\n') then
          (timebuf cal).bind fun timebuf =>
            (addLine s' timebuf).bind fun s' => handOver { s' with idx := 0 }
        else some s' := by
  obtain ⟨hpos, hlt⟩ := hok
  have hlen := h.length
  have hidx := h.idx
  obtain ⟨entry, hcopy, hprefix, hlen'⟩ := strcpy_some m.text h.part (by omega)
  have hne : m.text.length ≠ 0 := by omega
  have hlast : (m.text ++ [0])[m.text.length - 1]? = m.text.getLast? := by
    rw [List.getElem?_append_left (by omega), List.getLast?_eq_getElem?]
  have hlast' := List.getLast?_eq_some_getLast (List.length_pos_iff.mp hpos)
  refine ⟨entry, hprefix, hlen'.trans hlen, ?_⟩
  rw [addToSyslog, hidx, hcopy, Option.bind_some]
  dsimp only
  rw [if_neg hne, hlast, hlast', Option.bind_some, ← ite_not]
  refine if_congr ?_ rfl rfl
  rw [Option.some_inj, not_ne_iff]

/-- A line is put behind the ones that wait if there is room for it. In any case there is
something in `kern_msgs`. -/
theorem addLine_some (h : Waits s lines) (hbuf : stringIn buf = some (stamp cal))
    (hentry : line ++ [0] <+: s.logEntry) (hidx : s.idx = line.length) (hlt : s.idx < 1024)
    (hzero : 0 ∉ line) :
    ∃ msgs n, addLine s buf = some { s with kernMsgs := msgs, kernMsgsIdx := n } ∧ 0 < n ∧
      Waits { s with kernMsgs := msgs, kernMsgsIdx := n }
        (if lines.flatten.length + (stamp cal ++ line).length + 1 < KMSG_BUF_SIZE then
          lines ++ [stamp cal ++ line] else lines) := by
  obtain ⟨hstamp, hstamp'⟩ := stamp_length cal
  have hlen := h.length
  have hwait := h.idx
  unfold addLine
  dsimp only
  by_cases hroom : s.kernMsgsIdx + (s.idx + 25) + 1 < KMSG_BUF_SIZE
  · have hroom' : lines.flatten.length + (stamp cal ++ line).length + 1 < KMSG_BUF_SIZE := by
      rw [List.length_append]
      omega
    obtain ⟨msgs, hcopy, hprefix, hlen'⟩ :=
      strcpy_some (stamp cal) h.text (by omega)
    have hfront : lines.flatten ++ stamp cal <+: msgs :=
      (List.prefix_append _ _).trans hprefix
    have hfit : (lines.flatten ++ stamp cal).length + line.length + 1 ≤ msgs.length := by
      rw [List.length_append]
      omega
    obtain ⟨msgs', hcopy', hprefix', hlen''⟩ := strcpy_some line hfront hfit
    rw [List.length_append, hstamp] at hcopy'
    rw [if_pos hroom, if_pos hroom', hbuf, Option.bind_some, hwait, hcopy, Option.bind_some,
      stringIn_of_isPrefix hentry hzero, Option.bind_some, hcopy']
    have hflat : (lines ++ [stamp cal ++ line]).flatten = lines.flatten ++ stamp cal ++ line := by
      rw [List.flatten_append, List.flatten_singleton, List.append_assoc]
    refine ⟨msgs', lines.flatten.length + (s.idx + 25), rfl, by omega, ?_⟩
    constructor
    · exact (hlen''.trans hlen').trans hlen
    · rw [hflat]
      exact (List.prefix_append _ _).trans hprefix'
    · rw [hflat, List.length_append, List.length_append]
      dsimp only
      omega
    · dsimp only
      omega
    · intro _
      rw [hflat]
      exact hprefix'
    · rw [hflat]
      simp only [List.mem_append, not_or]
      exact ⟨⟨h.noZero, hstamp'⟩, hzero⟩
  · have hroom' : ¬lines.flatten.length + (stamp cal ++ line).length + 1 < KMSG_BUF_SIZE := by
      rw [List.length_append]
      omega
    have hsize : KMSG_BUF_SIZE = 4096 := rfl
    rw [if_neg hroom, if_neg hroom']
    exact ⟨s.kernMsgs, s.kernMsgsIdx, rfl, by omega, h⟩

/-- What waits is handed over if `syslogd` is there. -/
theorem handOver_some (h : Waits s lines) (hpos : 0 < s.kernMsgsIdx) :
    handOver s = some
      (if s.syslogd then { s with handed := s.handed ++ [lines.flatten], kernMsgsIdx := 0 }
        else s) := by
  unfold handOver
  split_ifs
  · rw [stringIn_of_isPrefix (h.terminated hpos) h.noZero]
    rfl
  · rfl

/-- Nothing waits at the index 0. -/
theorem Waits.reset (h : Waits s lines) : Waits { s with kernMsgsIdx := 0 } [] where
  length := h.length
  text := List.nil_prefix
  idx := rfl
  idx_lt := (by decide : 0 + 1 < KMSG_BUF_SIZE)
  terminated hpos := absurd hpos (lt_irrefl 0)
  noZero := List.not_mem_nil

/-- What waits once a line has come. -/
theorem Log.accept_waiting (log : Log) (line : List UChar) :
    (log.accept line).waiting =
      if log.waiting.flatten.length + line.length + 1 < KMSG_BUF_SIZE then
        log.waiting ++ [line] else log.waiting := by
  unfold Log.accept
  split_ifs <;> rfl

theorem Log.accept_handed (log : Log) (line : List UChar) :
    (log.accept line).handed = log.handed ∧ (log.accept line).available = log.available := by
  unfold Log.accept
  split_ifs <;> exact ⟨rfl, rfl⟩

/-- A message that completes a line. -/
theorem complete_refines (h : Refines s log) (hok : Ok s (.addToSyslog m cal))
    (hend : m.text.getLast? = some (ch '\n')) :
    ∃ s', step s (.addToSyslog m cal) = some s' ∧
      Refines s' (log.step (.addToSyslog m cal)) := by
  obtain ⟨entry, hentry, hlen, heq⟩ := addToSyslog_eq h hok
  obtain ⟨buf, htime, hstamp⟩ := timebuf_some cal
  have hzero : 0 ∉ log.part ++ m.text := by
    rw [List.mem_append, not_or]
    exact ⟨h.noZero, m.noZero⟩
  have hidx : s.idx + m.text.length = (log.part ++ m.text).length := by
    rw [List.length_append, h.idx]
  obtain ⟨msgs, n, hadd, hpos, hwaits⟩ := addLine_some
    (s := { s with logEntry := entry, idx := s.idx + m.text.length })
    (h.waits.congr rfl rfl) hstamp hentry hidx hok.2 hzero
  rw [← log.accept_waiting] at hwaits
  obtain ⟨hhanded, havail⟩ := log.accept_handed (stamp cal ++ (log.part ++ m.text))
  have hover := handOver_some
    (s := { s with logEntry := entry, idx := 0, kernMsgs := msgs, kernMsgsIdx := n })
    (hwaits.congr rfl rfl) hpos
  have hstep : log.step (.addToSyslog m cal) =
      { (log.accept (stamp cal ++ (log.part ++ m.text))).handOver with part := [] } :=
    if_pos hend
  rw [step, heq]
  dsimp only
  rw [if_pos hend, htime, Option.bind_some, hadd, Option.bind_some, hover, hstep]
  refine ⟨_, rfl, ?_⟩
  unfold Log.handOver
  generalize log.accept (stamp cal ++ (log.part ++ m.text)) = log' at *
  by_cases havailable : s.syslogd
  · have havailable' : log'.available := by rw [havail, ← h.syslogd, havailable]
    rw [if_pos havailable, if_pos havailable']
    constructor
    · exact hlen
    · exact List.nil_prefix
    · rfl
    · exact Nat.zero_lt_succ _
    · exact List.not_mem_nil
    · exact hwaits.reset.congr rfl rfl
    · dsimp only
      rw [List.flatten_append, List.flatten_append, List.flatten_singleton, h.handed, hhanded]
    · exact h.syslogd.trans havail.symm
  · have havailable' : ¬log'.available := by rwa [havail, ← h.syslogd]
    rw [if_neg havailable, if_neg havailable']
    constructor
    · exact hlen
    · exact List.nil_prefix
    · rfl
    · exact Nat.zero_lt_succ _
    · exact List.not_mem_nil
    · exact hwaits.congr rfl rfl
    · dsimp only
      rw [h.handed, hhanded]
    · exact h.syslogd.trans havail.symm

/-- A message that does not complete a line. -/
theorem partial_refines (h : Refines s log) (hok : Ok s (.addToSyslog m cal))
    (hend : m.text.getLast? ≠ some (ch '\n')) :
    ∃ s', step s (.addToSyslog m cal) = some s' ∧
      Refines s' (log.step (.addToSyslog m cal)) := by
  obtain ⟨entry, hentry, hlen, heq⟩ := addToSyslog_eq h hok
  have hstep : log.step (.addToSyslog m cal) = { log with part := log.part ++ m.text } :=
    if_neg hend
  rw [step, heq]
  dsimp only
  rw [if_neg hend, hstep]
  refine ⟨_, rfl, ?_⟩
  constructor
  · exact hlen
  · exact (List.prefix_append _ _).trans hentry
  · dsimp only
    rw [h.idx, List.length_append]
  · exact hok.2
  · rw [List.mem_append, not_or]
    exact ⟨h.noZero, m.noZero⟩
  · exact h.waits.congr rfl rfl
  · exact h.handed
  · exact h.syslogd

/-- **Calls.** A call stays inside the buffers, and does to the state what it is to do to the
log. -/
theorem step_refines (h : Refines s log) {c : Call} (hok : Ok s c) :
    ∃ s', step s c = some s' ∧ Refines s' (log.step c) := by
  cases c with
  | addToSyslog m cal =>
    by_cases hend : m.text.getLast? = some (ch '\n')
    · exact complete_refines h hok hend
    · exact partial_refines h hok hend
  | openSyslogd found =>
    exact ⟨{ s with syslogd := found }, rfl, h.length, h.part, h.idx, h.idx_lt, h.noZero,
      h.waits.congr rfl rfl, h.handed, rfl⟩

/-- An empty message, or one that is too long for its line. -/
theorem step_outside (h : Refines s log) {c : Call} (hok : ¬Ok s c) : step s c = none := by
  cases c with
  | addToSyslog m cal =>
    rw [step, addToSyslog]
    by_cases hfit : s.idx + m.text.length + 1 ≤ s.logEntry.length
    · have hempty : m.text.length = 0 := by
        by_contra hne
        have hlen := h.length
        exact hok ⟨by omega, by omega⟩
      rw [strcpy, if_pos hfit, Option.bind_some]
      dsimp only
      rw [if_pos hempty]
    · rw [strcpy, if_neg hfit]
      rfl
  | openSyslogd found => exact absurd trivial hok

end

/-! ## Runs -/

/-- What `syslogd` has been given are the lines that have been handed over, and what waits in
`kern_msgs` are the other ones that have been accepted. -/
structure Delivers (s : State) (log : Log) : Prop where
  handed : s.handed.flatten = log.handed.flatten
  waiting : s.kernMsgs.take s.kernMsgsIdx = log.waiting.flatten

theorem Refines.delivers {s : State} {log : Log} (h : Refines s log) : Delivers s log where
  handed := h.handed
  waiting := by
    rw [h.waits.idx]
    exact (List.prefix_iff_eq_take.mp h.waits.text).symm

theorem run_delivers_iff (calls : List Call) :
    ∀ {s : State} {log : Log}, Refines s log →
      ((∃ s', run step s calls = some s' ∧ Delivers s' (calls.foldl Log.step log)) ↔
        Along step Ok s calls) := by
  induction calls with
  | nil =>
    intro s log h
    exact iff_of_true ⟨s, rfl, h.delivers⟩ trivial
  | cons c calls ih =>
    intro s log h
    rw [run, Along]
    by_cases hok : Ok s c
    · obtain ⟨s', hstep, href⟩ := step_refines h hok
      rw [hstep, Option.bind_some, List.foldl_cons, and_iff_right hok, ih href]
      constructor
      · intro hrest s₁ heq
        cases heq
        exact hrest
      · intro hrest
        exact hrest s' rfl
    · rw [step_outside h hok]
      constructor
      · intro hrun
        obtain ⟨s', hnone, -⟩ := hrun
        exact absurd hnone.symm (Option.some_ne_none s')
      · intro hrest
        exact absurd hrest.1 hok

/-- **The kernel's log.** A sequence of calls stays inside the buffers, and hands every complete
line that is accepted to `syslogd` once and in order, exactly if no message is empty and none
makes its line too long. -/
theorem kmsg_iff (calls : List Call) :
    (∃ s, run step {} calls = some s ∧ Delivers s (Log.after calls)) ↔
      Along step Ok {} calls :=
  run_delivers_iff calls refines_empty

/-- Lines do not wait once a line has been completed while `syslogd` is available. -/
theorem waiting_eq_nil {log : Log} {m : Message} {cal : ULong} (h : log.available)
    (hend : m.text.getLast? = some (ch '\n')) :
    (log.step (.addToSyslog m cal)).waiting = [] := by
  have hstep : log.step (.addToSyslog m cal) =
      { (log.accept (stamp cal ++ (log.part ++ m.text))).handOver with part := [] } :=
    if_pos hend
  rw [hstep, Log.handOver, if_pos ((log.accept_handed _).2.trans h)]

/-- The empty message. -/
def emptyMessage : Message := ⟨[], List.not_mem_nil, by decide⟩

/-- The empty message has no last byte. -/
theorem kmsg_emptyMessage :
    ¬∃ s, run step {} [.addToSyslog emptyMessage 0] = some s ∧
      Delivers s (Log.after [.addToSyslog emptyMessage 0]) := by
  have hnone : run step {} [.addToSyslog emptyMessage 0] = none := by decide +kernel
  rw [hnone]
  intro h
  obtain ⟨s, hs, -⟩ := h
  exact absurd hs.symm (Option.some_ne_none s)

end Vmm386.Misc.Kmsg
