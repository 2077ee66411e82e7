import Vmm386.Syslogd.Syslog

/-!
# The log is complete

What each step does to the bytes on their way to the log file, and to the signals that wake
`syslogd`.
-/

namespace Vmm386.Syslogd

open Tasks Runs

/-! ## Bytes in the buffer -/

/-- The bytes from the offset `i` to the offset `j`. -/
def bytes (buf : ℕ → UChar) (i j : ℕ) : List UChar := (List.range' i (j - i)).map buf

theorem bytes_self (buf : ℕ → UChar) (i : ℕ) : bytes buf i i = [] := by
  rw [bytes, Nat.sub_self]
  rfl

theorem bytes_cons {buf : ℕ → UChar} {i j : ℕ} (h : i < j) :
    bytes buf i j = buf i :: bytes buf (i + 1) j := by
  have hlen : j - i = (j - (i + 1)) + 1 := by omega
  rw [bytes, bytes, hlen, List.range'_succ]
  rfl

theorem bytes_append {buf : ℕ → UChar} {i j k : ℕ} (hij : i ≤ j) (hjk : j ≤ k) :
    bytes buf i k = bytes buf i j ++ bytes buf j k := by
  have hstart : j = i + 1 * (j - i) := by omega
  have hlen : k - i = (j - i) + (k - j) := by omega
  rw [bytes, bytes, bytes, ← List.map_append, hlen, ← List.range'_append, ← hstart]

theorem bytes_congr {buf buf' : ℕ → UChar} {i j : ℕ} (h : ∀ k, k < j → buf' k = buf k) :
    bytes buf' i j = bytes buf i j := by
  apply List.map_congr_left
  intro k hk
  rw [List.mem_range'_1] at hk
  exact h k (by omega)

theorem toNat_add_one {dst : ULong} {n : ℕ} (h : dst.toNat + (n + 1) < 2 ^ 32) :
    (dst + 1).toNat = dst.toNat + 1 := by
  rw [BitVec.toNat_add]
  have hone : (1 : ULong).toNat = 1 := rfl
  rw [hone]
  exact Nat.mod_eq_of_lt (by omega)

/-- What comes before the copy stays, and the copy is the string. -/
theorem strcpy_spec (entry : Entry) {f : ℕ → UChar} {d : ULong}
    (h : d.toNat + entry.length < 2 ^ 32) :
    (∀ k, k < d.toNat → strcpy f d entry k = f k) ∧
      bytes (strcpy f d entry) d.toNat (d.toNat + entry.length) = entry := by
  induction entry generalizing f d with
  | nil =>
    rw [strcpy]
    refine ⟨fun k hk => Function.update_of_ne (Nat.ne_of_lt hk) .., ?_⟩
    exact bytes_self ..
  | cons c entry ih =>
    rw [List.length_cons] at h
    have hsucc := toNat_add_one h
    have hlen : d.toNat + (c :: entry).length = (d + 1).toNat + entry.length := by
      rw [hsucc, List.length_cons]
      omega
    obtain ⟨hbefore, hcopy⟩ := ih (f := Function.update f d.toNat c) (d := d + 1)
      (by rw [hsucc]; omega)
    rw [strcpy, hlen]
    constructor
    · intro k hk
      rw [hbefore k (by omega), Function.update_of_ne (Nat.ne_of_lt hk)]
    · rw [bytes_cons (by omega), ← hsucc, hcopy, hbefore _ (by omega), Function.update_self]

theorem overruns_eq_false (entry : Entry) {dst : ULong} (h : dst.toNat + entry.length < 8192) :
    overruns dst entry = false := by
  induction entry generalizing dst with
  | nil =>
    rw [overruns, decide_eq_false_iff_not]
    show ¬8192 ≤ dst.toNat
    rw [List.length_nil] at h
    omega
  | cons c entry ih =>
    rw [List.length_cons] at h
    rw [overruns, Bool.or_eq_false_iff, decide_eq_false_iff_not]
    constructor
    · show ¬8192 ≤ dst.toNat
      omega
    · apply ih
      rw [toNat_add_one (n := entry.length) (by omega)]
      omega

/-! ## Entries and their way to the log file -/

/-- `syslogd` has started to write the bytes of the buffer, and has not reset it yet. -/
def SyslogPc.draining : SyslogPc → Bool
  | .write _ _ | .close | .total | .count _ | .reset => true
  | _ => false

namespace Syslog

variable {P : Type*} {s s' : Syslog P} {p q : P} {entry : Entry}

/-- The bytes of the buffer that are still to be written. -/
def unwritten (s : Syslog P) : List UChar :=
  match s.pc with
  | .write n k => bytes s.mesgBuf k n
  | .close | .total | .count _ | .reset => []
  | _ => bytes s.mesgBuf 0 s.bufIdx.toNat

theorem unwritten_eq (h : s.pc.draining = false) :
    s.unwritten = bytes s.mesgBuf 0 s.bufIdx.toNat := by
  rw [unwritten]
  split
  all_goals first | rfl | (rename_i hpc; rw [hpc] at h; cases h)

/-- The buffer holds what has been accepted and not been written. -/
structure Data (s : Syslog P) : Prop where
  idx : s.pc ≠ .reset → s.bufIdx.toNat < 8192
  write : ∀ n k, s.pc = .write n k → n = s.bufIdx.toNat ∧ k ≤ n
  complete : s.accepted = s.written ++ s.unwritten
  inBounds : s.overrun = false
  holder : ∀ p entry, s.holder = some (p, entry) → s.pc.draining = false ∧
    s.bufIdx.toNat + entry.length + 1 < 8192 ∧
    bytes s.mesgBuf s.bufIdx.toNat (s.bufIdx.toNat + entry.length) = entry

theorem HasRoom.lt (hidx : s.bufIdx.toNat < 8192) (hlen : entry.length < 2 ^ 31)
    (h : s.HasRoom entry) : s.bufIdx.toNat + entry.length + 1 < 8192 := by
  have hnat : (s.bufIdx + BitVec.ofNat 32 entry.length + 1).toNat =
      s.bufIdx.toNat + entry.length + 1 := by
    rw [BitVec.toNat_add, BitVec.toNat_add, BitVec.toNat_ofNat]
    have hone : (1 : ULong).toNat = 1 := rfl
    rw [hone]
    omega
  change (s.bufIdx + BitVec.ofNat 32 entry.length + 1).toNat < 8192 at h
  omega

theorem toNat_bufIdx_add (h : s.bufIdx.toNat + entry.length + 1 < 8192) :
    (s.bufIdx + BitVec.ofNat 32 entry.length).toNat = s.bufIdx.toNat + entry.length := by
  rw [BitVec.toNat_add, BitVec.toNat_ofNat]
  omega

theorem ne_reset (h : s.pc.draining = false) : s.pc ≠ .reset := by
  intro hpc
  rw [hpc] at h
  cases h

theorem ne_write {n k : ℕ} (h : s.pc.draining = false) : s.pc ≠ .write n k := by
  intro hpc
  rw [hpc] at h
  cases h

/-- An entry is copied behind the bytes that are there. -/
theorem Data.copyEntry (h : s.Data) (hholder : s.holder = none) (hpc : s.pc.draining = false)
    (hlen : entry.length < 2 ^ 31) (hroom : s.HasRoom entry) :
    (s.copyEntry entry).Data ∧ s.bufIdx.toNat + entry.length + 1 < 8192 ∧
      bytes (s.copyEntry entry).mesgBuf s.bufIdx.toNat (s.bufIdx.toNat + entry.length) =
        entry := by
  have hlt := hroom.lt (h.idx (ne_reset hpc)) hlen
  obtain ⟨hbefore, hcopy⟩ := strcpy_spec entry (f := s.mesgBuf) (d := s.bufIdx) (by omega)
  refine ⟨⟨h.idx, h.write, ?_, ?_, ?_⟩, hlt, hcopy⟩
  · show s.accepted = s.written ++ _
    rw [h.complete, unwritten_eq hpc, unwritten_eq (s := s.copyEntry entry) hpc]
    exact congrArg (s.written ++ ·) (bytes_congr hbefore).symm
  · show (s.overrun || overruns s.bufIdx entry) = false
    rw [h.inBounds, overruns_eq_false entry (by omega)]
    rfl
  · intro p entry' heq
    change s.holder = _ at heq
    rw [hholder] at heq
    cases heq

/-- The copy is taken into account. -/
theorem Data.advance (h : s.Data) (hpc : s.pc.draining = false)
    (hlt : s.bufIdx.toNat + entry.length + 1 < 8192)
    (hcopy : bytes s.mesgBuf s.bufIdx.toNat (s.bufIdx.toNat + entry.length) = entry) :
    Data { s.advance entry with holder := none } := by
  have hidx := toNat_bufIdx_add hlt
  refine ⟨fun _ => ?_, fun n k hw => absurd hw (ne_write hpc), ?_, h.inBounds, nofun⟩
  · show (s.bufIdx + BitVec.ofNat 32 entry.length).toNat < 8192
    omega
  · show s.accepted ++ entry = s.written ++ _
    rw [h.complete, unwritten_eq hpc, List.append_assoc,
      unwritten_eq (s := { s.advance entry with holder := none }) hpc]
    apply congrArg (s.written ++ ·)
    show _ = bytes s.mesgBuf 0 (s.bufIdx + BitVec.ofNat 32 entry.length).toNat
    rw [hidx, bytes_append (Nat.zero_le _) (Nat.le_add_right _ entry.length), hcopy]

/-- What signals and flags are is of no matter. -/
theorem Data.congr (h : s.Data) (hbuf : s'.mesgBuf = s.mesgBuf) (hidx : s'.bufIdx = s.bufIdx)
    (hpc : s'.pc = s.pc) (hholder : s'.holder = s.holder) (hacc : s'.accepted = s.accepted)
    (hwritten : s'.written = s.written) (hover : s'.overrun = s.overrun) : s'.Data := by
  have hun : s'.unwritten = s.unwritten := by rw [unwritten, unwritten, hpc, hbuf, hidx]
  refine ⟨?_, ?_, ?_, ?_, ?_⟩
  · rw [hpc, hidx]
    exact h.idx
  · rw [hpc, hidx]
    exact h.write
  · rw [hacc, hwritten, hun]
    exact h.complete
  · rw [hover]
    exact h.inBounds
  · rw [hholder, hpc, hidx, hbuf]
    exact h.holder

/-- `syslogd` goes on, outside of the part that writes. -/
theorem Data.setPc (h : s.Data) {q : SyslogPc} (hpc : s.pc.draining = false)
    (hpc' : q.draining = false) : Data { s with pc := q } := by
  refine ⟨fun _ => h.idx (ne_reset hpc), fun n k hw => absurd hw (ne_write hpc'), ?_, h.inBounds,
    fun p entry hh => ⟨hpc', (h.holder p entry hh).2⟩⟩
  rw [unwritten_eq (s := { s with pc := q }) hpc']
  exact unwritten_eq hpc ▸ h.complete

/-- `syslogd` goes on inside the part that writes, where no entry is being made. -/
theorem Data.drain (hidx : s'.pc ≠ .reset → s'.bufIdx.toNat < 8192)
    (hwrite : ∀ n k, s'.pc = .write n k → n = s'.bufIdx.toNat ∧ k ≤ n)
    (hcomplete : s'.accepted = s'.written ++ s'.unwritten) (hover : s'.overrun = false)
    (hholder : s'.holder = none) : s'.Data := by
  refine ⟨hidx, hwrite, hcomplete, hover, ?_⟩
  intro p entry hh
  rw [hholder] at hh
  cases hh

theorem syslogTask_data (h : s.Data) (hholder : s.holder = none)
    (hstep : s.syslogTask = some s') : s'.Data := by
  have hcomplete := h.complete
  rw [unwritten] at hcomplete
  obtain ⟨-, hstep⟩ := Option.ite_none_right_eq_some.mp hstep
  split at hstep
  · rename_i hpc
    cases hstep
    exact h.setPc (by rw [hpc]; rfl) rfl
  · rename_i hpc
    split at hstep
    · cases hstep
      exact h.setPc (by rw [hpc]; rfl) rfl
    · cases hstep
      exact (h.setPc (q := .test) (by rw [hpc]; rfl) rfl).congr rfl rfl rfl rfl rfl rfl rfl
  · rename_i hpc
    cases hstep
    exact (h.setPc (q := .suspendTask) (by rw [hpc]; rfl) rfl).congr rfl rfl rfl rfl rfl rfl rfl
  · rename_i hpc
    cases hstep
    exact h.setPc (by rw [hpc]; rfl) rfl
  · rename_i hpc
    cases hstep
    exact (h.setPc (q := .schedule) (by rw [hpc]; rfl) rfl).congr rfl rfl rfl rfl rfl rfl rfl
  · rename_i hpc
    cases hstep
    exact h.setPc (by rw [hpc]; rfl) rfl
  · rename_i hpc
    split at hstep
    · cases hstep
      exact h.setPc (by rw [hpc]; rfl) rfl
    · cases hstep
      exact h.setPc (by rw [hpc]; rfl) rfl
  · rename_i hpc
    cases hstep
    exact h.setPc (by rw [hpc]; rfl) rfl
  · rename_i hpc
    cases hstep
    rw [hpc] at hcomplete
    refine .drain (fun _ => h.idx (by rw [hpc]; exact nofun)) ?_ hcomplete h.inBounds hholder
    intro n k heq
    cases heq
    exact ⟨rfl, Nat.zero_le _⟩
  · rename_i n k hpc
    obtain ⟨hn, hk⟩ := h.write n k hpc
    have hidx := h.idx (by rw [hpc]; exact nofun)
    rw [hpc] at hcomplete
    split at hstep
    · rename_i hlt
      cases hstep
      refine .drain (fun _ => hidx) ?_ ?_ h.inBounds hholder
      · intro n' k' heq
        cases heq
        exact ⟨hn, hlt⟩
      · show s.accepted = (s.written ++ [s.mesgBuf k]) ++ bytes s.mesgBuf (k + 1) n
        rw [hcomplete, List.append_assoc]
        exact congrArg (s.written ++ ·) (bytes_cons hlt)
    · rename_i hge
      cases hstep
      have hkn : k = n := Nat.le_antisymm hk (Nat.not_lt.mp hge)
      subst hkn
      refine .drain (fun _ => hidx) nofun ?_ h.inBounds hholder
      exact hcomplete.trans (congrArg (s.written ++ ·) (bytes_self ..))
  · rename_i hpc
    cases hstep
    rw [hpc] at hcomplete
    exact .drain (fun _ => h.idx (by rw [hpc]; exact nofun)) nofun hcomplete h.inBounds hholder
  · rename_i hpc
    cases hstep
    rw [hpc] at hcomplete
    exact .drain (fun _ => h.idx (by rw [hpc]; exact nofun)) nofun hcomplete h.inBounds hholder
  · rename_i p hpc
    have hidx := h.idx (by rw [hpc]; exact nofun)
    rw [hpc] at hcomplete
    split at hstep
    · rename_i hne
      cases hstep
      refine .drain (fun _ => ?_) nofun hcomplete h.inBounds hholder
      have hpos : (1 : ULong) ≤ s.bufIdx := by
        show 1 ≤ s.bufIdx.toNat
        have hne' : s.bufIdx.toNat ≠ 0 := fun heq => hne (BitVec.eq_of_toNat_eq heq)
        omega
      show (s.bufIdx - 1).toNat < 8192
      rw [BitVec.toNat_sub_of_le hpos]
      omega
    · cases hstep
      exact .drain (fun hr => absurd rfl hr) nofun hcomplete h.inBounds hholder
  · rename_i hpc
    cases hstep
    rw [hpc] at hcomplete
    exact .drain (fun _ => by show 0 < 8192; omega) nofun hcomplete h.inBounds hholder
  · rename_i hpc
    cases hstep
    exact (h.setPc (q := .setWaiting) (by rw [hpc]; rfl) rfl).congr rfl rfl rfl rfl rfl rfl rfl
  · rename_i hpc
    cases hstep
    exact (h.setPc (q := .xchg) (by rw [hpc]; rfl) rfl).congr rfl rfl rfl rfl rfl rfl rfl

theorem Data.clear (h : s.Data) : s.clear.Data := h.congr rfl rfl rfl rfl rfl rfl rfl

theorem Data.wakeUpFirstTask (h : s.Data) : s.wakeUpFirstTask.Data := by
  rw [Syslog.wakeUpFirstTask]
  split
  · exact h
  · exact h.congr rfl rfl rfl rfl rfl rfl rfl

theorem Data.signal (h : s.Data) : s.signal.Data := by
  rw [Syslog.signal]
  split
  · exact h.clear
  · exact h.wakeUpFirstTask

theorem irqLog_data (h : s.Data) (hlen : entry.length < 2 ^ 31)
    (hcalm : s.HasRoom entry → s.holder = none ∧ s.pc.draining = false) :
    (s.irqLog entry).Data := by
  rw [irqLog]
  split
  · rename_i hroom
    obtain ⟨hholder, hpc⟩ := hcalm hroom
    obtain ⟨hcopied, hlt, hcopy⟩ := h.copyEntry hholder hpc hlen hroom
    have hadvanced : ((s.copyEntry entry).advance entry).Data :=
      (hcopied.advance hpc hlt hcopy).congr rfl rfl rfl hholder rfl rfl rfl
    exact hadvanced.signal
  · exact h.signal

section Producer

variable [DecidableEq P]

theorem cookedEntry_data {handle : ℤ} (h : s.Data) (hholder : s.holder = none)
    (hlen : entry.length < 2 ^ 31)
    (hcalm : s.config.Logs handle → s.HasRoom entry → s.pc.draining = false) :
    (s.cookedEntry p handle entry).Data := by
  rw [cookedEntry]
  split
  · rename_i hlogs
    split
    · rename_i hroom
      have hpc := hcalm hlogs hroom
      obtain ⟨hcopied, hlt, hcopy⟩ := h.copyEntry hholder hpc hlen hroom
      refine ⟨hcopied.idx, hcopied.write, hcopied.complete, hcopied.inBounds, ?_⟩
      intro q entry' heq
      cases heq
      exact ⟨hpc, hlt, hcopy⟩
    · exact h.congr rfl rfl rfl rfl rfl rfl rfl
  · exact h

theorem goOn_data (h : s.Data) (hstep : s.goOn p = some s') : s'.Data := by
  rw [goOn] at hstep
  split at hstep
  · rename_i q entry hholder
    obtain ⟨-, heq⟩ := Option.ite_none_right_eq_some.mp hstep
    cases heq
    obtain ⟨hpc, hlt, hcopy⟩ := h.holder q entry hholder
    exact (h.advance hpc hlt hcopy).congr rfl rfl rfl rfl rfl rfl rfl
  · split at hstep
    · cases hstep
    · split at hstep
      · cases hstep
        exact h.congr rfl rfl rfl rfl rfl rfl rfl
      · cases hstep
        exact h.congr rfl rfl rfl rfl rfl rfl rfl
    · cases hstep
      exact h.clear.congr rfl rfl rfl rfl rfl rfl rfl
    · cases hstep
      exact h.wakeUpFirstTask.congr rfl rfl rfl rfl rfl rfl rfl

end Producer

end Syslog

end Vmm386.Syslogd
