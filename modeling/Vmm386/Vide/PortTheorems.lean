import Vmm386.Vide.UserBlocks

/-!
# What the operations of a virtual IDE disk change

For each operation of `Vmm386.Vide.Port` and `Vmm386.Vide.UserBlocks`: what becomes of the
buffer index, and that the disk and its geometry stay as `create_vide` set them.
-/

namespace Vmm386.VideModule

/-- The parts of a vide that only `create_vide` sets. -/
def Vide.shape (v : Vide) : Vdisk × ULong × ULong × ULong × ULong :=
  (v.vdisk, v.blocks, v.cylinders, v.heads, v.sectors)

/-! ## Block transfers and the buffer index -/

theorem IoSize.bytes_le (s : IoSize) : s.bytes ≤ 4 := by cases s <;> decide

/-- The index after an access that fits, as a number. -/
theorem toNat_bufIndex_add {v : Vide} {s : IoSize} (h : v.Fits s) :
    (v.bufIndex + BitVec.ofNat 32 s.bytes).toNat = v.bufIndex.toNat + s.bytes := by
  have h' : v.bufIndex.toNat + s.bytes ≤ 512 := h
  have hs := s.bytes_le
  rw [BitVec.toNat_add, BitVec.toNat_ofNat]
  omega

@[simp] theorem bufIndex_makeIrq (v : Vide) : (makeIrq v).1.bufIndex = v.bufIndex := rfl

/-- `read_next_block` resets the index when it reads a block, and else leaves it. -/
theorem bufIndex_readNextBlock (w : World) (v : Vide) :
    (readNextBlock w v).1.bufIndex =
      if v.block < v.blocks ∧ (readOneBlock w v.vdisk v.block v.buf).ok then 0 else v.bufIndex := by
  by_cases hb : v.block < v.blocks
  · have hb' : ¬ v.block ≥ v.blocks := BitVec.not_le.mpr hb
    by_cases hr : (readOneBlock w v.vdisk v.block v.buf).ok = true
    · simp [readNextBlock, hb', hr, hb]
    · simp [readNextBlock, hb', hr]
  · have hb' : v.block ≥ v.blocks := BitVec.not_lt.mp hb
    simp [readNextBlock, hb', hb]

theorem shape_readNextBlock (w : World) (v : Vide) :
    (readNextBlock w v).1.shape = v.shape := by
  unfold readNextBlock
  dsimp only
  repeat' split
  all_goals rfl

/-- `write_block` resets the index when it writes the block, and else leaves it. -/
theorem bufIndex_writeBlock (w : World) (v : Vide) :
    (writeBlock w v).1.bufIndex =
      if v.block < v.blocks ∧ (writeOneBlock w v.vdisk v.block v.buf).ok then 0 else v.bufIndex := by
  by_cases hb : v.block < v.blocks
  · have hb' : ¬ v.block ≥ v.blocks := BitVec.not_le.mpr hb
    by_cases hr : (writeOneBlock w v.vdisk v.block v.buf).ok = true
    · simp only [writeBlock, hb', hr, hb, if_true, if_false, and_self]
      split <;> rfl
    · simp [writeBlock, hb', hr]
  · have hb' : v.block ≥ v.blocks := BitVec.not_lt.mp hb
    simp [writeBlock, hb', hb]

theorem shape_writeBlock (w : World) (v : Vide) : (writeBlock w v).1.shape = v.shape := by
  unfold writeBlock
  dsimp only
  repeat' split
  all_goals rfl

/-! ## Ports without data -/

/-- Reading any port but the data register gives a register and moves no data. -/
theorem videIn_of_ne_data (w : World) (v : Vide) {port : UShort} (size : IoSize)
    (h : port ≠ HD_DATA) :
    ∃ val v', videIn w v port size = .ok (val, v', []) ∧
      v'.bufIndex = v.bufIndex ∧ v'.shape = v.shape := by
  unfold videIn
  rw [if_neg h]
  repeat' split
  all_goals exact ⟨_, _, rfl, rfl, rfl⟩

theorem bufIndex_videDevctrl (v : Vide) (val : ULong) :
    (videDevctrl v val).bufIndex = v.bufIndex := by
  simp only [videDevctrl]
  split <;> rfl

theorem shape_videDevctrl (v : Vide) (val : ULong) : (videDevctrl v val).shape = v.shape := by
  simp only [videDevctrl]
  split <;> rfl

/-- Writing any port but the data and the command register sets registers. -/
theorem videOut_of_ne_data_command (w : World) (v : Vide) {port : UShort} (size : IoSize)
    (val : ULong) (hd : port ≠ HD_DATA) (hc : port ≠ HD_COMMAND) :
    ∃ v', videOut w v port size val = .ok (v', []) ∧
      v'.bufIndex = v.bufIndex ∧ v'.shape = v.shape := by
  unfold videOut
  rw [if_neg hd, if_neg hc]
  by_cases hdev : port = HD_DEVCTRL
  · subst hdev
    exact ⟨videDevctrl v val, rfl, bufIndex_videDevctrl v val, shape_videDevctrl v val⟩
  · rw [if_neg hdev]
    repeat' split
    all_goals exact ⟨_, rfl, rfl, rfl⟩

/-! ## Commands -/

/-- Of the commands, only a `READ` that gets its first block touches the index. -/
theorem bufIndex_videCommand (w : World) (v : Vide) (val : ULong) :
    (videCommand w v val).1.bufIndex =
      if val = HD_CMD_READ ∧ (makeBlkno v).block < v.blocks
          ∧ (readOneBlock w v.vdisk (makeBlkno v).block v.buf).ok then 0 else v.bufIndex := by
  unfold videCommand
  by_cases hr : val = HD_CMD_READ
  · have hne : ¬ (val = HD_CMD_RECAL ∨ val = HD_CMD_SEEK) := by rw [hr]; decide
    simp only [if_neg hne, if_pos hr]
    rw [bufIndex_readNextBlock]
    simp only [hr, true_and]
    rfl
  · simp only [hr, false_and, if_false]
    repeat' split
    all_goals rfl

theorem shape_videCommand (w : World) (v : Vide) (val : ULong) :
    (videCommand w v val).1.shape = v.shape := by
  simp only [videCommand]
  repeat' split
  all_goals first | rfl | exact shape_readNextBlock w _

/-! ## The data register -/

theorem shape_videInData {w : World} {v : Vide} {size : IoSize}
    {r : ULong × Vide × List Effect} (h : videInData w v size = .ok r) :
    r.2.1.shape = v.shape := by
  simp only [videInData] at h
  repeat' split at h
  all_goals cases h
  all_goals first | rfl | exact shape_readNextBlock w _

theorem shape_videOutData {w : World} {v : Vide} {size : IoSize} {val : ULong}
    {r : Vide × List Effect} (h : videOutData w v size val = .ok r) :
    r.1.shape = v.shape := by
  simp only [videOutData] at h
  repeat' split at h
  all_goals cases h
  all_goals first | rfl | exact shape_writeBlock w _

/-! ## BIOS requests -/

theorem bufIndex_int13Transfer (w : World) (v : Vide) (regs : DiskRegs) :
    (int13Transfer w v regs).1.bufIndex = v.bufIndex := by
  unfold int13Transfer readUserBlocks writeUserBlocks setStat
  repeat' split
  all_goals rfl

theorem shape_int13Transfer (w : World) (v : Vide) (regs : DiskRegs) :
    (int13Transfer w v regs).1.shape = v.shape := by
  unfold int13Transfer readUserBlocks writeUserBlocks setStat
  repeat' split
  all_goals rfl

/-! ## Whole runs -/

theorem shape_step {v : Vide} {a : Access} {r : Vide × List Effect}
    (h : step v a = .ok r) : r.1.shape = v.shape := by
  obtain ⟨op, w⟩ := a
  cases op with
  | portIn port size =>
    simp only [step] at h
    by_cases hp : port = HD_DATA
    · subst hp
      cases hin : videInData w v size with
      | error e => simp [videIn, hin, Except.map] at h
      | ok q =>
        simp only [videIn, hin, if_true, Except.map, Except.ok.injEq] at h
        rw [← h, shape_videInData hin]
    · obtain ⟨val, v', hin, -, hs⟩ := videIn_of_ne_data w v size hp
      simp only [hin, Except.map, Except.ok.injEq] at h
      rw [← h, hs]
  | portOut port size val =>
    simp only [step] at h
    by_cases hp : port = HD_DATA
    · subst hp
      exact shape_videOutData h
    · by_cases hc : port = HD_COMMAND
      · subst hc
        cases h
        exact shape_videCommand w v val
      · obtain ⟨v', hout, -, hs⟩ := videOut_of_ne_data_command w v size val hp hc
        rw [hout, Except.ok.injEq] at h
        rw [← h, hs]
  | int13 regs =>
    simp only [step, Except.ok.injEq] at h
    rw [← h, shape_int13Transfer]

/-- A run leaves the disk and its geometry alone. -/
theorem shape_runGuest {as : List Access} :
    ∀ {v v' : Vide}, runGuest v as = .ok v' → v'.shape = v.shape := by
  induction as with
  | nil => intro v v' h; cases h; rfl
  | cons a as ih =>
    intro v v' h
    simp only [runGuest, bind, Except.bind] at h
    cases hstep : step v a with
    | error e => rw [hstep] at h; cases h
    | ok r =>
      rw [hstep] at h
      rw [ih h, shape_step hstep]

end Vmm386.VideModule
