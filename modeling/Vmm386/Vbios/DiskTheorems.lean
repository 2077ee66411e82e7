import Vmm386.Vbios.Disk
import Vmm386.Vide.Confinement

/-!
# What `INT 13h` tells its caller

`set_stat` writes `RDY_STAT | ok ? 0 : …`, which is always 0, and the status register of a
floppy drive is never written: so the handler finds no error after any request that reached a
drive. It tells the truth if and only if the request did not fail there
(`vbiosDiskHandler_honest_iff`).
-/

namespace Vmm386.Vbios

open VideModule

/-! ## The registers of a status -/

theorem ah_merge (eax ah : ULong) :
    get8H ((eax &&& 0xffff00ff) ||| ((ah &&& 0xff) <<< 8)) = ah &&& 0xff := by
  unfold get8H
  apply BitVec.eq_of_getLsbD_eq
  intro i hi
  interval_cases i <;> simp

theorem ah_statusOf (regs : DiskRegs) (eflags ah : ULong) :
    (statusOf regs eflags ah).ah = ah &&& 0xff :=
  ah_merge regs.eax ah

theorem carry_statusOf (regs : DiskRegs) (eflags ah : ULong) :
    (statusOf regs eflags ah).carry ↔ ah ≠ 0 := by
  unfold Status.carry statusOf
  by_cases h : ah = 0
  · have hclear : eflags &&& ~~~FLAGS_CF &&& FLAGS_CF = 0 := by
      apply BitVec.eq_of_getLsbD_eq
      intro i hi
      interval_cases i <;> simp
    simp only [h, if_true, hclear, ne_eq, not_true]
  · have hset : (eflags ||| FLAGS_CF) &&& FLAGS_CF = FLAGS_CF := by
      apply BitVec.eq_of_getLsbD_eq
      intro i hi
      interval_cases i <;> simp
    have hone : FLAGS_CF ≠ 0 := by decide
    simp only [h, if_false, hset, hone, ne_eq, not_false_iff]

/-- A status other than zero is an error, whatever was transferred. -/
theorem Outcome.honest_of_error {o : Outcome} {regs : DiskRegs} {eflags ah : ULong}
    (h : o.status = statusOf regs eflags ah) (hah : ah &&& 0xff ≠ 0) (count : ℕ) :
    o.Honest count := by
  right
  rw [h, carry_statusOf, ah_statusOf]
  refine ⟨?_, hah⟩
  intro h0
  apply hah
  rw [h0]
  rfl

/-- The status zero is honest when all was transferred. -/
theorem Outcome.honest_iff_of_success {o : Outcome} {regs : DiskRegs} {eflags : ULong}
    (h : o.status = statusOf regs eflags 0) (count : ℕ) :
    o.Honest count ↔ count ≤ o.transferred := by
  have hcarry : ¬o.status.carry := by
    rw [h, carry_statusOf]
    exact fun hne => hne rfl
  have hah : o.status.ah = 0 := by
    rw [h, ah_statusOf]
    rfl
  unfold Outcome.Honest
  constructor
  · intro ho
    rcases ho with ⟨-, -, hle⟩ | ⟨hc, -⟩
    · exact hle
    · exact absurd hc hcarry
  · intro hle
    exact Or.inl ⟨hcarry, hah, hle⟩

/-! ## The hard disk -/

/-- `set_stat` clears the status, whether the transfer was good or not. -/
theorem setStat_status (v : Vide) (ok write : Bool) (err : UChar) :
    (setStat v ok write err).status = 0 := by
  have hset : RDY_STAT ||| (if ok then 1 else 0) ≠ 0 := by
    cases ok <;> decide
  exact if_pos hset

theorem status_readUserBlocks (w : World) (v : Vide) (r : BlockRequest) :
    (readUserBlocks w v r).1.status = 0 := by
  unfold readUserBlocks
  split <;> exact setStat_status _ _ _ _

theorem status_writeUserBlocks (w : World) (v : Vide) (r : BlockRequest) :
    (writeUserBlocks w v r).1.status = 0 := by
  unfold writeUserBlocks
  split <;> exact setStat_status _ _ _ _

/-- No error in the status register: the BIOS status is zero. -/
theorem biosStatus_of_status_zero (err : UChar) : biosStatus (some (0, err)) = 0 := by
  unfold biosStatus
  exact if_neg (by decide)

/-- The loop of `read_user_blocks` moves all `n` blocks if and only if all can be read. -/
theorem le_readLoop_iff (w : World) (v : Vide) (n : ℕ) :
    ∀ (blkno : ULong) (tmp : Sector) (addr : ULong),
      n ≤ (readLoop w v n blkno tmp addr).actual ↔ ReadsOk w v.vdisk n blkno tmp := by
  induction n with
  | zero =>
    intro blkno tmp addr
    simp [ReadsOk]
  | succ n ih =>
    intro blkno tmp addr
    unfold readLoop ReadsOk
    by_cases hok : (readOneBlock w v.vdisk blkno tmp).ok = true
    · simp only [hok, if_true, true_and, Nat.add_le_add_iff_right]
      exact ih _ _ _
    · simp [hok]

/-- The loop of `write_user_blocks` writes one block and `n` more if and only if all can be
written. -/
theorem lt_writeLoop_iff (w : World) (v : Vide) (n : ℕ) :
    ∀ blkno addr : ULong,
      n < (writeLoop w v n blkno addr).actual ↔ WritesOk w v.vdisk (n + 1) blkno addr := by
  induction n with
  | zero =>
    intro blkno addr
    unfold writeLoop WritesOk WritesOk
    by_cases hok : (writeOneBlock w v.vdisk blkno (w.user addr)).ok = true
    · simp [hok]
    · simp [hok]
  | succ n ih =>
    intro blkno addr
    unfold writeLoop WritesOk
    by_cases hok : (writeOneBlock w v.vdisk blkno (w.user addr)).ok = true
    · simp only [hok, if_true, true_and, Nat.add_lt_add_iff_right]
      exact ih _ _
    · simp [hok]

/-- A request for blocks of a hard disk moves all of them if and only if it can be met. -/
theorem le_transferred_hardDisk_iff (w : World) (d : Drives) {v : Vide} (regs : DiskRegs)
    (eflags : ULong) (hv : d.vide = some v) :
    regs.request.count ≤ (hardDisk w d regs eflags).transferred ↔
      regs.request.count = 0 ∨ DiskOk w v regs := by
  by_cases hzero : regs.request.count = 0
  · simp [hzero]
  unfold hardDisk DiskOk
  simp only [hv, hzero, false_or]
  by_cases hbad : regs.request.badArg v = true
  · have hle : ¬regs.request.count ≤ 0 := by omega
    by_cases hf : get8H regs.eax = 2
    · simp [hf, readUserBlocks, hbad, hle]
    · simp only [hf, if_false, writeUserBlocks, hbad, if_true, Option.getD_none, hle,
        Bool.true_eq_false, false_and]
  · rw [Bool.not_eq_true] at hbad
    by_cases hf : get8H regs.eax = 2
    · simp only [hf, if_true, readUserBlocks, hbad, Bool.false_eq_true, if_false, true_and,
        Option.getD_some]
      exact le_readLoop_iff w v _ _ _ _
    · simp only [hf, if_false, writeUserBlocks, hbad, Bool.false_eq_true, true_and,
        Option.getD_some]
      have hloop := lt_writeLoop_iff w v (regs.request.count - 1) (regs.request.blkno v)
        regs.request.buf
      have hsucc : regs.request.count - 1 + 1 = regs.request.count := by omega
      rw [hsucc] at hloop
      rw [← hloop]
      omega

theorem status_hardDisk (w : World) (d : Drives) {v : Vide} (regs : DiskRegs) (eflags : ULong)
    (hv : d.vide = some v) : (hardDisk w d regs eflags).status = statusOf regs eflags 0 := by
  unfold hardDisk getHdStat
  simp only [hv, Option.map_some]
  by_cases hf : get8H regs.eax = 2
  · simp only [hf, if_true, status_readUserBlocks, biosStatus_of_status_zero]
  · simp only [hf, if_false, status_writeUserBlocks, biosStatus_of_status_zero]

/-- The request of a hard disk is answered honestly unless it fails in the drive. -/
theorem hardDisk_honest_iff (w : World) (d : Drives) (regs : DiskRegs) (eflags : ULong) :
    (hardDisk w d regs eflags).Honest regs.request.count ↔
      ¬(regs.request.count ≠ 0 ∧ ∃ v, d.vide = some v ∧ ¬DiskOk w v regs) := by
  cases hv : d.vide with
  | none =>
    have hstatus : (hardDisk w d regs eflags).status = statusOf regs eflags 0xbb := by
      unfold hardDisk getHdStat
      simp only [hv, Option.map_none]
      rfl
    simp only [reduceCtorEq, false_and, exists_false, and_false, not_false_iff, iff_true]
    exact Outcome.honest_of_error hstatus (by decide) _
  | some v =>
    rw [Outcome.honest_iff_of_success (status_hardDisk w d regs eflags hv),
      le_transferred_hardDisk_iff w d regs eflags hv]
    simp only [Option.some.injEq, exists_eq_left']
    tauto

/-! ## The floppy drive -/

/-- No operation writes the status register of a floppy drive. -/
theorem status_floppyStep (f : Vfloppy) (op : FloppyOp) :
    (floppyStep f op).status = f.status := by
  cases op with
  | change size => cases size <;> rfl
  | kill => rfl
  | read fw r =>
    unfold floppyStep vfloppyReadSectors
    dsimp only
    split_ifs <;> rfl

/-- A floppy drive that operations of any kind have led to. -/
def Vfloppy.Reachable (f : Vfloppy) : Prop :=
  ∃ ops : List FloppyOp, ops.foldl floppyStep createVfloppy = f

theorem status_foldl_floppyStep (ops : List FloppyOp) :
    ∀ f : Vfloppy, (ops.foldl floppyStep f).status = f.status := by
  induction ops with
  | nil => exact fun _ => rfl
  | cons op ops ih =>
    intro f
    rw [List.foldl_cons, ih, status_floppyStep]

theorem Vfloppy.Reachable.status {f : Vfloppy} (h : f.Reachable) : f.status = 0 := by
  obtain ⟨ops, rfl⟩ := h
  exact status_foldl_floppyStep ops createVfloppy

/-- The loop of `vfloppy_read_sectors` moves all `n` blocks if and only if all can be read. -/
theorem le_readFile_iff (fw : FloppyWorld) (blkno : ULong) (n : ℕ) :
    ∀ (i : ℕ) (addr : ULong),
      n ≤ (readFile fw blkno n i addr).actual ↔ ∀ j < n, (fw.read blkno (i + j)).isSome := by
  induction n with
  | zero =>
    intro i addr
    simp
  | succ n ih =>
    intro i addr
    unfold readFile
    cases hread : fw.read blkno i with
    | none =>
      simp only [Nat.le_zero, Nat.add_eq_zero_iff, one_ne_zero, and_false, false_iff, not_forall]
      exact ⟨0, Nat.succ_pos n, by simp [hread]⟩
    | some data =>
      simp only [Nat.add_le_add_iff_right, ih]
      constructor
      · intro h j hj
        cases j with
        | zero => simp [hread]
        | succ j =>
          have hnext := h j (by omega)
          rwa [Nat.add_assoc, Nat.add_comm 1] at hnext
      · intro h j hj
        have hnext := h (j + 1) (by omega)
        rwa [Nat.add_comm j, ← Nat.add_assoc] at hnext

/-- A request for blocks of a floppy disk moves all of them if and only if it can be met. -/
theorem le_actual_vfloppyReadSectors_iff (fw : FloppyWorld) (f : Vfloppy) (r : BlockRequest) :
    r.count ≤ (vfloppyReadSectors fw f r).2.actual ↔ r.count = 0 ∨ FloppyOk fw f r := by
  by_cases hzero : r.count = 0
  · simp [hzero]
  unfold vfloppyReadSectors FloppyOk
  by_cases hdisk : f.gotDisk = false
  · simp [hdisk, hzero]
  by_cases hargs : r.head ≥ 2 ∨ r.cyl ≥ 80 ∨ r.sector - 1 ≥ f.sectorsPerTrack
  · have hbad : ¬(r.head < 2 ∧ r.cyl < 80 ∧ r.sector - 1 < f.sectorsPerTrack) := by
      simp only [ge_iff_le, BitVec.le_def, BitVec.lt_def] at hargs ⊢
      omega
    simp only [hdisk, hargs, if_true, hzero, false_or]
    constructor
    · intro hle
      exact absurd (Nat.le_zero.mp hle) hzero
    · intro hok
      exact absurd ⟨hok.2.1, hok.2.2.1, hok.2.2.2.1⟩ hbad
  by_cases hseek : fw.seek (floppyBlkno f r) = false
  · simp [hdisk, hseek, hzero]
  · have hgood : r.head < 2 ∧ r.cyl < 80 ∧ r.sector - 1 < f.sectorsPerTrack := by
      simp only [ge_iff_le, BitVec.le_def, BitVec.lt_def] at hargs ⊢
      omega
    rw [Bool.not_eq_false] at hdisk hseek
    simp only [hdisk, hargs, hseek, hzero, hgood, if_false, Bool.true_eq_false, false_or,
      true_and, le_readFile_iff, Nat.zero_add]

/-- A read of a floppy drive is answered honestly unless it fails in the drive. -/
theorem floppyRead_honest_iff (fw : FloppyWorld) (d : Drives) (regs : DiskRegs) (eflags : ULong)
    (hf : ∀ f ∈ d.floppy, f.Reachable) :
    (floppyRead fw d regs eflags).Honest regs.request.count ↔
      ¬(regs.request.count ≠ 0 ∧ ∃ f, d.floppy = some f ∧ ¬FloppyOk fw f regs.request) := by
  unfold floppyRead getFdStat
  cases hd : d.floppy with
  | none =>
    simp only [reduceCtorEq, false_and, exists_false, and_false, not_false_iff, iff_true]
    exact Outcome.honest_of_error rfl (by decide) _
  | some f =>
    have hstatus : (vfloppyReadSectors fw f regs.request).1.status = 0 := by
      have hread := status_floppyStep f (.read fw regs.request)
      exact hread.trans (hf f hd).status
    have hzero : biosStatus (some ((vfloppyReadSectors fw f regs.request).1.status.truncate 8,
        (vfloppyReadSectors fw f regs.request).1.error.truncate 8)) = 0 := by
      rw [hstatus]
      exact biosStatus_of_status_zero _
    simp only [Option.map_some, hzero]
    rw [Outcome.honest_iff_of_success rfl, le_actual_vfloppyReadSectors_iff]
    simp only [Option.some.injEq, exists_eq_left']
    tauto

/-- The answer to a write of a floppy disk is an error. -/
theorem floppyWrite_honest (d : Drives) (regs : DiskRegs) (eflags : ULong) :
    Outcome.Honest ⟨{ statusOf regs eflags 3 with
      eax := (regs.eax &&& 0xffff0000) ||| 0x0300 }, 0, d, []⟩ regs.request.count := by
  right
  constructor
  · exact (carry_statusOf regs eflags 3).mpr (by decide)
  · have hah : get8H ((regs.eax &&& 0xffff0000) ||| 0x0300) = 3 := by
      unfold get8H
      apply BitVec.eq_of_getLsbD_eq
      intro i hi
      interval_cases i <;> simp
    intro h
    exact absurd (hah.symm.trans h) (by decide)

/-! ## The handler -/

theorem diskRequest_honest_iff (w : World) (fw : FloppyWorld) (d : Drives) (regs : DiskRegs)
    (eflags : ULong) (hf : ∀ f ∈ d.floppy, f.Reachable) :
    (diskRequest w fw d regs eflags).Honest regs.request.count ↔ ¬FailsSilently w fw d regs := by
  unfold diskRequest FailsSilently
  by_cases hdrive : regs.edx &&& 0x7f = 0
  · by_cases hfloppy : regs.edx &&& 0x80 = 0
    · by_cases hread : get8H regs.eax = 2
      · simp only [hfloppy, hdrive, hread, if_true, ne_eq, not_true, if_false, true_and]
        exact floppyRead_honest_iff fw d regs eflags hf
      · simp only [hfloppy, hdrive, hread, if_true, ne_eq, not_true, if_false, false_and,
          and_false, not_false_iff, iff_true]
        exact floppyWrite_honest d regs eflags
    · simp only [hfloppy, hdrive, ne_eq, not_true, if_false, true_and]
      exact hardDisk_honest_iff w d regs eflags
  · simp only [hdrive, ne_eq, not_false_iff, if_true, false_and, iff_true, ite_self]
    exact Outcome.honest_of_error rfl (by decide) _

/-- **BIOS disk status.** For every read or write request, from every state of the drives: the
handler reports success after all sectors were transferred or reports an error, if and only if
the request does not fail in a drive. -/
theorem vbiosDiskHandler_honest_iff (w : World) (fw : FloppyWorld) (d : Drives) (regs : DiskRegs)
    (eflags : ULong) (hf : ∀ f ∈ d.floppy, f.Reachable) {o : Outcome}
    (h : vbiosDiskHandler w fw d regs eflags = some o) :
    o.Honest regs.request.count ↔ ¬FailsSilently w fw d regs := by
  unfold vbiosDiskHandler at h
  split at h
  · rw [Option.some.injEq] at h
    rw [← h]
    exact diskRequest_honest_iff w fw d regs eflags hf
  · cases h

/-- A file system in which nothing can be read. -/
def deadFloppy : FloppyWorld := ⟨fun _ => false, fun _ _ => none⟩

/-- A virtual machine with `smallWindow` as its hard disk and an empty floppy drive. -/
def oneDisk : Drives := ⟨some (createVide (.disk smallWindow)), some createVfloppy⟩

/-- `AH=2`, one block from head 0, cylinder 1023, sector 1 of the first hard disk. -/
def readBehindDisk : DiskRegs := ⟨0x0201, 0, 0xffc1, 0x80, 0⟩

/-- `AH=2`, one block from head 0, cylinder 0, sector 1 of the first hard disk. -/
def readFirstBlock : DiskRegs := ⟨0x0201, 0, 1, 0x80, 0⟩

/-- The first block is read, and the handler says so. -/
theorem readFirstBlock_honest :
    (diskRequest goodWorld deadFloppy oneDisk readFirstBlock 0).Honest 1 ↔
      ¬FailsSilently goodWorld deadFloppy oneDisk readFirstBlock :=
  vbiosDiskHandler_honest_iff goodWorld deadFloppy oneDisk readFirstBlock 0
    (fun f hf => ⟨[], by simpa [oneDisk] using hf⟩)
    (if_pos (Or.inl (by decide)))

/-- Nothing is read from cylinder 1023, which the disk does not have, and the handler reports
success. -/
theorem readBehindDisk_reported_good :
    ∃ o, vbiosDiskHandler goodWorld deadFloppy oneDisk readBehindDisk 0 = some o ∧
      o.transferred = 0 ∧ ¬o.Honest readBehindDisk.request.count := by
  refine ⟨diskRequest goodWorld deadFloppy oneDisk readBehindDisk 0, ?_, ?_, ?_⟩
  · exact if_pos (Or.inl (by decide))
  · decide +kernel
  · unfold Outcome.Honest Status.carry
    decide +kernel

end Vmm386.Vbios
