import Vmm386.Fd.Floppy
import Vmm386.Lib.Runs
import Vmm386.Mm.ForeignAccess

/-!
# Floppy reads

A read takes one interrupt for every track that it touches. `read_intr` tests the unit number in the
first result byte, not its interrupt code, so that only the drive 0 is ever read.
-/

namespace Vmm386.Fd

open Mm Runs

variable {s s' : FdSys} {p : ULong} {d : Fin 2} {fuel : ℕ}

/-! ## Copies -/

section Copies

variable {track : ℕ → UChar} {mem : ULong → UChar} {dest a : ULong} {count src i : ℕ}

/-- The bytes elsewhere stay. -/
theorem copyBytes_of_ne (h : ∀ i < count, a ≠ byteAddr dest i) :
    copyBytes track count dest src mem a = mem a := by
  induction count generalizing dest src mem with
  | zero => rfl
  | succ count ih =>
    have hne : a ≠ dest := by
      rw [← byteAddr_zero dest]
      exact h 0 (Nat.succ_pos count)
    have hrest : ∀ i < count, a ≠ byteAddr (dest + 1) i := by
      intro i hi
      rw [← byteAddr_succ]
      exact h (i + 1) (Nat.succ_lt_succ hi)
    rw [copyBytes, ih hrest, Function.update_of_ne hne]

/-- The bytes at the destination are those of the source. -/
theorem copyBytes_of_lt (hcount : count ≤ 2 ^ 32) (hi : i < count) :
    copyBytes track count dest src mem (byteAddr dest i) = track (src + i) := by
  induction count generalizing dest src mem i with
  | zero => exact absurd hi (Nat.not_lt_zero i)
  | succ count ih =>
    rw [copyBytes]
    cases i with
    | zero =>
      have hne : ∀ j < count, dest ≠ byteAddr (dest + 1) j := by
        intro j hj heq
        rw [← byteAddr_succ] at heq
        have hzero := byteAddr_inj (by omega) (by omega) ((byteAddr_zero dest).trans heq)
        omega
      rw [byteAddr_zero, copyBytes_of_ne hne, Function.update_self, Nat.add_zero]
    | succ i =>
      rw [byteAddr_succ, ih (by omega) (by omega), Nat.add_assoc, Nat.add_comm 1]

end Copies

/-! ## A controller that works -/

/-- Every seek and every reading of an ID succeeds, and no drive is to be recalibrated. -/
structure FdSys.Works (s : FdSys) : Prop where
  answers : ∀ n, s.answers n = true
  calibrated : ∀ d, (s.devs d).recalibrate = false

theorem FdSys.Works.setRecalibrate (h : s.Works) (d : Fin 2) : s.setRecalibrate d false = s := by
  have hdev : ({ s.devs d with recalibrate := false } : FdDev) = s.devs d := by
    rw [← h.calibrated d]
  unfold FdSys.setRecalibrate
  rw [hdev, Function.update_eq_self]

/-- The head is positioned. -/
theorem FdSys.Works.position (h : s.Works) (d : Fin 2) (cyl : ULong) :
    ∃ answers, (∀ n, answers n = true) ∧
      s.position d cyl = (true, { s with intr := false, answers := answers }) := by
  have hid : ∀ a : ℕ → Bool, (∀ n, a n = true) →
      FdSys.fdcReadId { s with intr := false, answers := a } d =
        (true, { s with intr := false, answers := fun n => a (n + 1) }) := by
    intro a ha
    simp only [FdSys.fdcReadId, FdSys.answer, ha, if_true]
  by_cases hcyl : cyl = 0
  · refine ⟨fun n => s.answers (n + 1), fun n => h.answers _, ?_⟩
    have hseek : s.fdcSeek d cyl = (true, { s with intr := false }) := by
      rw [FdSys.fdcSeek, if_pos hcyl, FdSys.fdcRecal, h.setRecalibrate]
      rfl
    rw [FdSys.position, hseek]
    exact hid s.answers h.answers
  · refine ⟨fun n => s.answers (n + 1 + 1), fun n => h.answers _, ?_⟩
    have hseek : s.fdcSeek d cyl =
        (true, { s with intr := false, answers := fun n => s.answers (n + 1) }) := by
      rw [FdSys.fdcSeek, if_neg hcyl]
      simp only [FdSys.answer, FdSys.fdcSense, h.answers, if_true]
    rw [FdSys.position, hseek]
    exact hid _ fun n => h.answers _

/-- A read in range is started. -/
theorem FdSys.Works.serve_read (h : s.Works) (hcommand : (s.req p).command = FD_CMD_READ)
    (hblock : (s.req p).block < (s.devs (s.req p).dev).totalBlocks) :
    ∃ answers, (∀ n, answers n = true) ∧ s.serve p = (none, { s with
      intr := true
      reading := some ((s.req p).dev, s.cylinder (s.req p).dev (s.req p).block)
      answers := answers }) := by
  obtain ⟨answers, hanswers, hposition⟩ :=
    h.position (s.req p).dev (s.cylinder (s.req p).dev (s.req p).block)
  refine ⟨answers, hanswers, ?_⟩
  unfold FdSys.serve
  dsimp only
  rw [hcommand, if_neg (by decide), if_neg (by decide), if_neg (BitVec.not_le.mpr hblock),
    if_pos rfl, hposition]
  rfl

/-- What the driver does with any request leaves alone. -/
structure FdSys.Served (s s' : FdSys) : Prop where
  mem : s'.mem = s.mem
  ended : ∃ more, s'.ended = more ++ s.ended

theorem FdSys.Served.refl (s : FdSys) : s.Served s := ⟨rfl, [], rfl⟩

theorem FdSys.Served.trans {s'' : FdSys} (h : s.Served s') (h' : s'.Served s'') : s.Served s'' := by
  obtain ⟨more, hmore⟩ := h.ended
  obtain ⟨more', hmore'⟩ := h'.ended
  exact ⟨h'.mem.trans h.mem, more' ++ more, by rw [hmore', hmore, List.append_assoc]⟩

theorem FdSys.endRequest_of_current (h : s.current = some p) (result : ℤ) :
    s.endRequest result = { s.setReq p { s.req p with completed := true, result := result } with
      current := none
      ended := (p, result) :: s.ended } := by
  rw [endRequest, h]

/-- A request is started or ended at once. -/
theorem FdSys.Works.serve (h : s.Works) (hcurrent : s.current = some p) :
    ((s.serve p).1 = none ∨ (s.serve p).1 = some none ∧ (s.serve p).2.current = none) ∧
      (s.serve p).2.Works ∧ (s.serve p).2.queue = s.queue ∧ s.Served (s.serve p).2 := by
  have hend : ∀ (answers : ℕ → Bool) (intr : Bool) (result : ℤ), (∀ n, answers n = true) →
      let s' := FdSys.endRequest { s with intr := intr, answers := answers } result
      s'.current = none ∧ s'.Works ∧ s'.queue = s.queue ∧ s.Served s' := by
    intro answers intr result hanswers
    have hcurrent' : FdSys.current { s with intr := intr, answers := answers } = some p := hcurrent
    dsimp only
    rw [FdSys.endRequest_of_current hcurrent']
    exact ⟨rfl, ⟨hanswers, h.calibrated⟩, rfl, rfl, [(p, result)], rfl⟩
  unfold FdSys.serve
  dsimp only
  by_cases hseek : (s.req p).command = FD_CMD_SEEK
  · obtain ⟨answers, hanswers, hposition⟩ := h.position (s.req p).dev (s.req p).block
    obtain ⟨hcur, hrest⟩ := hend answers false 0 hanswers
    rw [if_pos hseek, hposition]
    exact ⟨.inr ⟨rfl, hcur⟩, hrest⟩
  rw [if_neg hseek]
  by_cases htimer : (s.req p).command = FD_CMD_TIMER
  · obtain ⟨hcur, hrest⟩ := hend s.answers s.intr 0 h.answers
    rw [if_pos htimer]
    exact ⟨.inr ⟨rfl, hcur⟩, hrest⟩
  rw [if_neg htimer]
  by_cases hblock : (s.devs (s.req p).dev).totalBlocks ≤ (s.req p).block
  · obtain ⟨hcur, hrest⟩ := hend s.answers s.intr (-1) h.answers
    rw [if_pos hblock]
    exact ⟨.inr ⟨rfl, hcur⟩, hrest⟩
  rw [if_neg hblock]
  by_cases hread : (s.req p).command = FD_CMD_READ
  · obtain ⟨answers, hanswers, hposition⟩ :=
      h.position (s.req p).dev (s.cylinder (s.req p).dev (s.req p).block)
    rw [if_pos hread, hposition]
    exact ⟨.inl rfl, ⟨hanswers, h.calibrated⟩, rfl, rfl, [], rfl⟩
  rw [if_neg hread]
  by_cases hwrite : (s.req p).command = FD_CMD_WRITE
  · obtain ⟨hcur, hrest⟩ := hend s.answers s.intr 0 h.answers
    rw [if_pos hwrite]
    exact ⟨.inr ⟨rfl, hcur⟩, hrest⟩
  · obtain ⟨hcur, hrest⟩ := hend s.answers s.intr (-1) h.answers
    rw [if_neg hwrite]
    exact ⟨.inr ⟨rfl, hcur⟩, hrest⟩

/-- The top of the loop, for the next request on the queue. -/
theorem FdSys.Works.doRequest_next (h : s.Works) {queue : List ULong} (hcurrent : s.current = none)
    (hqueue : s.queue = p :: queue) (fuel : ℕ) :
    s.doRequest (fuel + 1) none =
      match (FdSys.serve { s with queue := queue, current := some p } p).1 with
      | none => some (FdSys.serve { s with queue := queue, current := some p } p).2
      | some req => FdSys.doRequest fuel req
        (FdSys.serve { s with queue := queue, current := some p } p).2 := by
  conv_lhs => unfold FdSys.doRequest
  rw [if_neg (not_not.mpr hcurrent), if_neg (by rw [h.calibrated]; decide),
    if_neg (by rw [h.calibrated]; decide), hqueue]
  all_goals rfl

/-- The same, for the request that is made. -/
theorem FdSys.Works.doRequest_some (h : s.Works) (hcurrent : s.current = none) (p : ULong)
    (fuel : ℕ) :
    s.doRequest (fuel + 1) (some p) =
      match (FdSys.serve { s with current := some p } p).1 with
      | none => some (FdSys.serve { s with current := some p } p).2
      | some req => FdSys.doRequest fuel req (FdSys.serve { s with current := some p } p).2 := by
  conv_lhs => unfold FdSys.doRequest
  rw [if_neg (not_not.mpr hcurrent), if_neg (by rw [h.calibrated]; decide),
    if_neg (by rw [h.calibrated]; decide)]
  all_goals rfl

/-- The queue is emptied, or left with the request that waits for the controller. -/
theorem FdSys.Works.doRequest (h : s.Works) (hcurrent : s.current = none)
    (hfuel : s.queue.length < fuel) : ∃ s', s.doRequest fuel none = some s' ∧ s.Served s' := by
  induction fuel generalizing s with
  | zero => omega
  | succ fuel ih =>
    cases hqueue : s.queue with
    | nil =>
      refine ⟨s, ?_, FdSys.Served.refl s⟩
      unfold FdSys.doRequest
      rw [if_neg (not_not.mpr hcurrent), if_neg (by rw [h.calibrated]; decide),
        if_neg (by rw [h.calibrated]; decide), hqueue]
    | cons p queue =>
      have hnext : FdSys.Works { s with queue := queue, current := some p } :=
        ⟨h.answers, h.calibrated⟩
      obtain ⟨hgoes, hworks, hrest, hserved⟩ := hnext.serve rfl
      rw [h.doRequest_next hcurrent hqueue]
      have hserved' : s.Served (FdSys.serve { s with queue := queue, current := some p } p).2 :=
        ⟨hserved.mem, hserved.ended⟩
      rcases hgoes with hstarted | ⟨hended, hcur⟩
      · rw [hstarted]
        exact ⟨_, rfl, hserved'⟩
      · rw [hended]
        have hlength : (FdSys.serve { s with queue := queue, current := some p } p).2.queue.length <
            fuel := by
          rw [hrest]
          rw [hqueue, List.length_cons] at hfuel
          exact Nat.lt_of_succ_lt_succ hfuel
        obtain ⟨s', hs', hserved''⟩ := ih hworks hcur hlength
        exact ⟨s', hs', hserved'.trans hserved''⟩

end Vmm386.Fd
