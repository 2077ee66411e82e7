import Vmm386.Kbd.Cooked

/-!
# Reading from the cooked keyboard

The characters arrive once each and in order. The reader sleeps only while there are none, if
no key comes between its test and its suspension.
-/

namespace Vmm386.Kbd

open Tasks Runs

namespace CookedKbd

variable {ck ck' : CookedKbd} {keymap : Keymap} {shiftState : ULong} {keyCode upCode : UChar}

/-! ## The buffer -/

/-- What holds of the buffer whatever happens. -/
structure Inv (ck : CookedKbd) : Prop where
  inLt : ck.bufIn < COOKED_BUFSIZ
  outLt : ck.bufOut < COOKED_BUFSIZ
  fifo : ck.accepted = ck.returned ++ ck.contents
  fetch : ck.pc = .fetch → ck.contents ≠ []
  advance : ∀ c, ck.pc = .advance c → ∃ rest, ck.contents = c :: rest

theorem contents_eq_nil (h : ck.Inv) : ck.contents = [] ↔ ck.bufIn = ck.bufOut :=
  Ring.contents_eq_nil h.inLt h.outLt

/-- What `putString` changes. -/
structure Put (ck ck' : CookedKbd) (d : List UChar) : Prop where
  inv : ck'.Inv
  contents : ck'.contents = ck.contents ++ d
  flags : ck'.flags = ck.flags
  pc : ck'.pc = ck.pc
  registered : ck'.registered = ck.registered
  forbidCount : ck'.forbidCount = ck.forbidCount

theorem Inv.put_one {c : UChar} (h : ck.Inv)
    (hroom : (ck.bufIn + 1) % COOKED_BUFSIZ ≠ ck.bufOut) :
    Put ck { ck with
      buf := Function.update ck.buf ck.bufIn c
      bufIn := (ck.bufIn + 1) % COOKED_BUFSIZ
      accepted := ck.accepted ++ [c] } [c] := by
  have hpush := Ring.contents_push (f := ck.buf) (a := c) h.inLt h.outLt hroom
  refine ⟨⟨Nat.mod_lt _ (by decide), h.outLt, ?_, ?_, ?_⟩, hpush, rfl, rfl, rfl, rfl⟩
  · rw [CookedKbd.contents, hpush, h.fifo]
    exact List.append_assoc ..
  · intro _
    rw [CookedKbd.contents, hpush]
    exact List.append_ne_nil_of_right_ne_nil _ (List.cons_ne_nil _ _)
  · -- the character that is being read stays the first one
    intro c' hpc
    obtain ⟨rest, hrest⟩ := h.advance c' hpc
    rw [CookedKbd.contents, hpush]
    exact ⟨rest ++ [c], congrArg (· ++ [c]) hrest⟩

theorem putString_spec (str : Str) (h : ck.Inv) : ∃ d, Put ck (putString str ck) d := by
  induction str generalizing ck with
  | nil => exact ⟨[], h, (List.append_nil _).symm, rfl, rfl, rfl, rfl⟩
  | cons c str ih =>
    rw [putString]
    split
    · exact ⟨[], h, (List.append_nil _).symm, rfl, rfl, rfl, rfl⟩
    · rename_i hroom
      have hone := h.put_one (c := c) hroom
      obtain ⟨d, hput⟩ := ih hone.inv
      refine ⟨[c] ++ d, hput.inv, ?_, hput.flags, hput.pc, hput.registered, hput.forbidCount⟩
      rw [hput.contents, hone.contents, List.append_assoc]

theorem wakeReader_inv (h : ck.Inv) : ck.wakeReader.Inv := by
  rw [wakeReader]
  split
  · exact ⟨h.inLt, h.outLt, h.fifo, h.fetch, h.advance⟩
  · exact h

/-- What a key does: nothing to the reader and the buffer, or it puts characters into the
buffer and wakes the reader. -/
theorem useKey_cases (keymap : Keymap) (shiftState : ULong) (keyCode upCode : UChar)
    (ck : CookedKbd) :
    (∃ lockState fed, ck.useKey keymap shiftState keyCode upCode = { ck with lockState, fed }) ∨
    ∃ str lockState, ck.keyString keymap shiftState keyCode upCode = some str ∧
      ck.type = .task ∧ ck.useKey keymap shiftState keyCode upCode =
        (putString str { ck with lockState }).wakeReader := by
  rw [useKey]
  split
  · simp only
    split
    · exact .inl ⟨_, _, rfl⟩
    · rename_i str hstr
      split
      · exact .inl ⟨_, _, rfl⟩
      · rename_i htype
        exact .inr ⟨str, _, hstr, htype, rfl⟩
      · exact .inl ⟨_, _, rfl⟩
  · exact .inl ⟨_, _, rfl⟩

theorem Inv.setLockState (h : ck.Inv) (lockState : ULong) (fed : List UChar) :
    Inv { ck with lockState, fed } :=
  ⟨h.inLt, h.outLt, h.fifo, h.fetch, h.advance⟩

theorem useKey_inv (h : ck.Inv) : (ck.useKey keymap shiftState keyCode upCode).Inv := by
  rcases useKey_cases keymap shiftState keyCode upCode ck with ⟨lockState, fed, heq⟩ | ⟨str, lockState, -, -, heq⟩
  · rw [heq]
    exact h.setLockState lockState fed
  · rw [heq]
    obtain ⟨d, hput⟩ := putString_spec str (h.setLockState lockState ck.fed)
    exact wakeReader_inv hput.inv

theorem readChar_inv (h : ck.Inv) (hstep : ck.readChar = some ck') : ck'.Inv := by
  obtain ⟨-, hstep⟩ := Option.ite_none_right_eq_some.mp hstep
  split at hstep
  · split at hstep
    · cases hstep
      exact h
    · cases hstep
      exact ⟨h.inLt, h.outLt, h.fifo, nofun, nofun⟩
  · split at hstep
    · cases hstep
      exact ⟨h.inLt, h.outLt, h.fifo, nofun, nofun⟩
    · rename_i hne
      cases hstep
      exact ⟨h.inLt, h.outLt, h.fifo, fun _ hnil => hne ((contents_eq_nil h).mp hnil), nofun⟩
  · cases hstep
    exact ⟨h.inLt, h.outLt, h.fifo, nofun, nofun⟩
  · cases hstep
    exact ⟨h.inLt, h.outLt, h.fifo, nofun, nofun⟩
  · cases hstep
    exact ⟨h.inLt, h.outLt, h.fifo, nofun, nofun⟩
  · cases hstep
    exact ⟨h.inLt, h.outLt, h.fifo, nofun, nofun⟩
  · cases hstep
    exact ⟨h.inLt, h.outLt, h.fifo, nofun, nofun⟩
  · rename_i hpc
    cases hstep
    refine ⟨h.inLt, h.outLt, h.fifo, nofun, ?_⟩
    intro c hc
    cases hc
    have hne : ck.bufIn ≠ ck.bufOut := fun heq => h.fetch hpc ((contents_eq_nil h).mpr heq)
    exact ⟨_, Ring.contents_pop h.inLt h.outLt hne⟩
  · rename_i c hpc
    cases hstep
    obtain ⟨rest, hrest⟩ := h.advance c hpc
    have hne : ck.bufIn ≠ ck.bufOut := by
      intro heq
      rw [(contents_eq_nil h).mpr heq] at hrest
      cases hrest
    have hpop := Ring.contents_pop (f := ck.buf) h.inLt h.outLt hne
    refine ⟨h.inLt, Nat.mod_lt _ (by decide), ?_, nofun, nofun⟩
    -- the character that has been fetched is the one that leaves the buffer
    have hc : ck.buf ck.bufOut = c := by
      rw [CookedKbd.contents, hpop] at hrest
      exact (List.cons_eq_cons.mp hrest).1
    show ck.accepted = (ck.returned ++ [c]) ++ _
    rw [h.fifo, CookedKbd.contents, hpop, hc, List.append_assoc]
    rfl

theorem init_inv (type : CookedType) : (init type).Inv where
  inLt := by
    show 0 < 16
    decide
  outLt := by
    show 0 < 16
    decide
  fifo := by
    show [] = [] ++ Ring.contents 16 (fun _ => (0 : UChar)) 0 0
    rfl
  fetch := nofun
  advance := nofun

theorem kbdStep_inv {op : KbdOp} (h : ck.Inv) (hstep : kbdStep keymap ck op = some ck') :
    ck'.Inv := by
  cases op with
  | key shiftState keyCode upCode =>
    obtain ⟨-, heq⟩ := Option.ite_none_right_eq_some.mp hstep
    cases heq
    exact useKey_inv h
  | reader => exact readChar_inv h hstep

/-! ## The reader -/

/-- No key with a character comes between the reader's test and its registration, and none that
stands for a string, be it empty, before the reader has forbidden preemption. -/
def InTime (keymap : Keymap) (ck : CookedKbd) : KbdOp → Prop
  | .key shiftState keyCode upCode =>
    (ck.pc = .register →
      ∀ c str, ck.keyString keymap shiftState keyCode upCode ≠ some (c :: str)) ∧
    (ck.pc = .forbid → ck.keyString keymap shiftState keyCode upCode = none)
  | .reader => True

/-- The reader has found the buffer empty, and goes to sleep. -/
def Empties (ck : CookedKbd) : Prop :=
  ck.pc = .register ∨ ck.pc = .forbid ∨ ck.pc = .suspendTask ∨ ck.flags.running = false

/-- The reader only sleeps while the buffer is empty, and can be woken. -/
structure Attended (ck : CookedKbd) : Prop where
  frozen : ck.flags.frozen = false
  zombie : ck.flags.zombie = false
  empty : ck.Empties → ck.contents = []
  registered : ck.pc = .forbid ∨ ck.pc = .suspendTask ∨ ck.flags.running = false →
    ck.registered = true
  forbid : ck.pc = .suspendTask → 0 < ck.forbidCount
  asleep : ck.flags.running = false → ck.pc = .schedule

theorem wakeReader_attended {d : List UChar} {ck₀ : CookedKbd} (h : ck₀.Attended)
    (hput : Put ck₀ ck d) (hin : ck₀.pc = .register → d = []) (hreg : ck₀.pc ≠ .forbid)
    (hforbid : ¬ck₀.Forbidden) : ck.wakeReader.Attended := by
  have hsusp : ck₀.pc ≠ .suspendTask := by
    intro hpc
    refine hforbid ⟨h.forbid hpc, ?_⟩
    by_contra hrun
    have hsched := h.asleep (Bool.eq_false_iff.mpr hrun)
    rw [hpc] at hsched
    cases hsched
  -- if the reader sleeps it is registered
  have hflags : ck.wakeReader.flags.running = true ∧ ck.wakeReader.flags.frozen = false ∧
      ck.wakeReader.flags.zombie = false := by
    rw [wakeReader]
    split
    · refine ⟨Flags.wake_running ?_ ?_, ?_, ?_⟩
      · rw [hput.flags, h.frozen]
      · rw [hput.flags, h.zombie]
      · rw [Flags.wake_frozen, hput.flags, h.frozen]
      · rw [Flags.wake_zombie, hput.flags, h.zombie]
    · rename_i hno
      rw [hput.flags]
      refine ⟨?_, h.frozen, h.zombie⟩
      by_contra hrun
      rw [hput.registered] at hno
      exact hno (h.registered (.inr (.inr (Bool.eq_false_iff.mpr hrun))))
  have hsame : ck.wakeReader.pc = ck₀.pc ∧ ck.wakeReader.contents = ck.contents := by
    rw [wakeReader]
    split
    · exact ⟨hput.pc, rfl⟩
    · exact ⟨hput.pc, rfl⟩
  have hnot : ck.wakeReader.flags.running ≠ false := by
    rw [hflags.1]
    exact nofun
  refine ⟨hflags.2.1, hflags.2.2, ?_, ?_, ?_, fun hrun => absurd hrun hnot⟩
  · rintro (hpc | hpc | hpc | hrun)
    · rw [hsame.1] at hpc
      rw [hsame.2, hput.contents, hin hpc, h.empty (.inl hpc)]
      rfl
    · exact absurd (hsame.1 ▸ hpc) hreg
    · exact absurd (hsame.1 ▸ hpc) hsusp
    · exact absurd hrun hnot
  · rintro (hpc | hpc | hrun)
    · exact absurd (hsame.1 ▸ hpc) hreg
    · exact absurd (hsame.1 ▸ hpc) hsusp
    · exact absurd hrun hnot
  · intro hpc
    exact absurd (hsame.1 ▸ hpc) hsusp

theorem useKey_attended (hinv : ck.Inv) (h : ck.Attended) (hforbid : ¬ck.Forbidden)
    (hin : InTime keymap ck (.key shiftState keyCode upCode)) :
    (ck.useKey keymap shiftState keyCode upCode).Attended := by
  rcases useKey_cases keymap shiftState keyCode upCode ck with ⟨lockState, fed, heq⟩ | ⟨str, lockState, hstr, -, heq⟩
  · rw [heq]
    exact ⟨h.frozen, h.zombie, h.empty, h.registered, h.forbid, h.asleep⟩
  · rw [heq]
    have h' : Attended { ck with lockState } :=
      ⟨h.frozen, h.zombie, h.empty, h.registered, h.forbid, h.asleep⟩
    obtain ⟨d, hput⟩ := putString_spec str (hinv.setLockState lockState ck.fed)
    refine wakeReader_attended h' hput ?_ ?_ hforbid
    · intro hpc
      have hnil : str = [] := by
        cases str with
        | nil => rfl
        | cons c str => exact absurd hstr (hin.1 hpc c str)
      have hcontents := hput.contents
      rw [hnil] at hcontents
      exact (List.append_right_eq_self.mp hcontents.symm)
    · intro hpc
      rw [hin.2 hpc] at hstr
      cases hstr

theorem readChar_attended (hinv : ck.Inv) (h : ck.Attended) (hstep : ck.readChar = some ck') :
    ck'.Attended := by
  obtain ⟨hrun, hstep⟩ := Option.ite_none_right_eq_some.mp hstep
  have hnot : ck.flags.running ≠ false := by
    rw [hrun]
    exact nofun
  -- nothing is to be shown unless the step leads towards the suspension
  have hgo : ∀ {ck' : CookedKbd}, ck'.flags = ck.flags → ck'.pc ≠ .register →
      ck'.pc ≠ .forbid → ck'.pc ≠ .suspendTask → ck'.Attended := by
    intro ck' hflags hreg hforbid hsusp
    refine ⟨hflags ▸ h.frozen, hflags ▸ h.zombie, ?_, ?_, fun hpc => absurd hpc hsusp,
      fun hr => absurd (hflags ▸ hr) hnot⟩
    · rintro (hpc | hpc | hpc | hr)
      · exact absurd hpc hreg
      · exact absurd hpc hforbid
      · exact absurd hpc hsusp
      · exact absurd (hflags ▸ hr) hnot
    · rintro (hpc | hpc | hr)
      · exact absurd hpc hforbid
      · exact absurd hpc hsusp
      · exact absurd (hflags ▸ hr) hnot
  split at hstep
  · split at hstep
    · cases hstep
      exact h
    · cases hstep
      exact hgo rfl nofun nofun nofun
  · split at hstep
    · rename_i heq
      cases hstep
      refine ⟨h.frozen, h.zombie, fun _ => (contents_eq_nil hinv).mpr heq, ?_, nofun,
        fun hr => absurd hr hnot⟩
      rintro (hpc | hpc | hr)
      · cases hpc
      · cases hpc
      · exact absurd hr hnot
    · cases hstep
      exact hgo rfl nofun nofun nofun
  · rename_i hpc
    cases hstep
    exact ⟨h.frozen, h.zombie, fun _ => h.empty (.inl hpc), fun _ => rfl, nofun,
      fun hr => absurd hr hnot⟩
  · rename_i hpc
    cases hstep
    exact ⟨h.frozen, h.zombie, fun _ => h.empty (.inr (.inl hpc)),
      fun _ => h.registered (.inl hpc), fun _ => Nat.succ_pos _, fun hr => absurd hr hnot⟩
  · rename_i hpc
    cases hstep
    exact ⟨h.frozen, h.zombie, fun _ => h.empty (.inr (.inr (.inl hpc))),
      fun _ => h.registered (.inr (.inl hpc)), nofun, fun _ => rfl⟩
  · cases hstep
    exact hgo rfl nofun nofun nofun
  · cases hstep
    exact hgo rfl nofun nofun nofun
  · cases hstep
    exact hgo rfl nofun nofun nofun
  · cases hstep
    exact hgo rfl nofun nofun nofun

theorem init_attended (type : CookedType) : (init type).Attended where
  frozen := rfl
  zombie := rfl
  empty := by
    rintro (h | h | h | h) <;> cases h
  registered := by
    rintro (h | h | h) <;> cases h
  forbid := nofun
  asleep := nofun

end CookedKbd

/-- A keyboard with one key. -/
def oneKey : Keymap := fun _ => some fun keyCode => if keyCode = 30 then some [97] else none

/-- A key, and the reader, which reads its character and then sleeps. -/
def readOps : List KbdOp := .key 0 30 0 :: List.replicate 9 .reader

theorem along_reader (keymap : Keymap) (ck : CookedKbd) (k : ℕ) :
    Along (kbdStep keymap) (CookedKbd.InTime keymap) ck (List.replicate k .reader) := by
  induction k generalizing ck with
  | zero => trivial
  | succ k ih => exact ⟨trivial, fun ck' _ => ih ck'⟩

/-- A key comes when the reader has left its address but can still be preempted: the reader
sleeps though there is a character, and no later key wakes it. -/
def lostOps : List KbdOp :=
  [.reader, .reader, .reader, .key 0 30 0, .reader, .reader, .key 0 30 0]

end Vmm386.Kbd
