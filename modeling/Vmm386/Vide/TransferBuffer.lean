import Vmm386.Vide.PortTheorems

/-!
# When the guest stays in the transfer buffer

`vide_in` and `vide_out` advance `buf_index` on every data-register access and only a
completed block transfer takes it back to zero; nothing stops a guest that goes on after
the last block of a command, after an error or without any command. So the accesses stay
in `buf` exactly as long as the guest moves at most 512 bytes between two completed
transfers (`WithinBlock`, `runGuest_ok_iff`).
-/

namespace Vmm386.VideModule

/-! ## The condition on a run -/

/-- The bytes an access moves through the data register. -/
def Access.dataBytes (a : Access) : ℕ :=
  match a.op with
  | .portIn port size => if port = HD_DATA then size.bytes else 0
  | .portOut port size _ => if port = HD_DATA then size.bytes else 0
  | .int13 _ => 0

/-- The access completes a block transfer, when `n` bytes went through the data register
since the last one: a read refills `buf` for a command that still has blocks, a write
stores `buf`, a `READ` command fills `buf` for the first time. -/
def Access.completes (a : Access) (v : Vide) (n : ℕ) : Bool :=
  match a.op with
  | .portIn port size =>
    port = HD_DATA && 256 ≤ n + size.bytes && v.blocksLeft > 0 && v.block < v.blocks
      && (readOneBlock a.world v.vdisk v.block v.buf).ok
  | .portOut port size val =>
    if port = HD_DATA then
      256 ≤ n + size.bytes && v.block < v.blocks
        && (writeOneBlock a.world v.vdisk v.block (storeBuf v.buf n size val)).ok
    else
      port = HD_COMMAND && val = HD_CMD_READ && (makeBlkno v).block < v.blocks
        && (readOneBlock a.world v.vdisk (makeBlkno v).block v.buf).ok
  | .int13 _ => false

/-- The bytes moved through the data register since the last completed transfer, after one
more access. -/
def Access.moved (a : Access) (v : Vide) (n : ℕ) : ℕ :=
  if a.completes v n then 0 else n + a.dataBytes

/-- From the state `v`, with `n` bytes moved since the last completed transfer, the guest
never moves more than one block of 512 bytes between two completed transfers. -/
def WithinBlock (v : Vide) (n : ℕ) : List Access → Prop
  | [] => True
  | a :: as =>
    n + a.dataBytes ≤ 512 ∧
      ∀ v' es, step v a = .ok (v', es) → WithinBlock v' (a.moved v n) as

/-! ## One access -/

/-- A read of the data register that fits moves `size` bytes, and refills the buffer when
it passes the middle of a block while the command has blocks left. -/
theorem videInData_of_fits (w : World) {v : Vide} {size : IoSize} (h : v.Fits size) :
    ∃ r : ULong × Vide × List Effect, videInData w v size = .ok r ∧
      r.2.1.bufIndex.toNat =
        if 256 ≤ v.bufIndex.toNat + size.bytes ∧ v.blocksLeft > 0 ∧ v.block < v.blocks
            ∧ (readOneBlock w v.vdisk v.block v.buf).ok
        then 0 else v.bufIndex.toNat + size.bytes := by
  have hadd := toNat_bufIndex_add h
  have hge : v.bufIndex + BitVec.ofNat 32 size.bytes ≥ 256 ↔
      256 ≤ v.bufIndex.toNat + size.bytes := by
    rw [ge_iff_le, BitVec.le_def, hadd]
    rfl
  unfold videInData
  by_cases hmid : 256 ≤ v.bufIndex.toNat + size.bytes
  · by_cases hleft : v.blocksLeft > 0
    · refine ⟨_, by simp only [if_pos h, hge, hmid, if_true, hleft]; rfl, ?_⟩
      rw [bufIndex_readNextBlock]
      by_cases hr : v.block < v.blocks ∧ (readOneBlock w v.vdisk v.block v.buf).ok
      · exact (congrArg BitVec.toNat (if_pos hr)).trans (if_pos ⟨hmid, hleft, hr⟩).symm
      · exact (congrArg BitVec.toNat (if_neg hr)).trans
          (hadd.trans (if_neg fun hc => hr hc.2.2).symm)
    · refine ⟨_, by simp only [if_pos h, hge, hmid, if_true, hleft, if_false]; rfl, ?_⟩
      simp only [hmid, hleft, false_and, and_false, if_false]
      exact hadd
  · refine ⟨_, by simp only [if_pos h, hge, hmid, if_false]; rfl, ?_⟩
    simp only [hmid, false_and, if_false]
    exact hadd

/-- A write of the data register that fits moves `size` bytes, and stores the buffer when
it passes the middle of a block. -/
theorem videOutData_of_fits (w : World) {v : Vide} {size : IoSize} (val : ULong)
    (h : v.Fits size) :
    ∃ r : Vide × List Effect, videOutData w v size val = .ok r ∧
      r.1.bufIndex.toNat =
        if 256 ≤ v.bufIndex.toNat + size.bytes ∧ v.block < v.blocks
            ∧ (writeOneBlock w v.vdisk v.block (storeBuf v.buf v.bufIndex.toNat size val)).ok
        then 0 else v.bufIndex.toNat + size.bytes := by
  have hadd := toNat_bufIndex_add h
  have hge : v.bufIndex + BitVec.ofNat 32 size.bytes ≥ 256 ↔
      256 ≤ v.bufIndex.toNat + size.bytes := by
    rw [ge_iff_le, BitVec.le_def, hadd]
    rfl
  unfold videOutData
  by_cases hmid : 256 ≤ v.bufIndex.toNat + size.bytes
  · refine ⟨_, by simp only [if_pos h, hge, hmid, if_true]; rfl, ?_⟩
    rw [bufIndex_writeBlock]
    by_cases hr : v.block < v.blocks
        ∧ (writeOneBlock w v.vdisk v.block (storeBuf v.buf v.bufIndex.toNat size val)).ok
    · exact (congrArg BitVec.toNat (if_pos hr)).trans (if_pos ⟨hmid, hr⟩).symm
    · exact (congrArg BitVec.toNat (if_neg hr)).trans
        (hadd.trans (if_neg fun hc => hr hc.2).symm)
  · refine ⟨_, by simp only [if_pos h, hge, hmid, if_false]; rfl, ?_⟩
    rw [if_neg fun hc => hmid hc.1]
    exact hadd

/-- An access whose bytes fit in the buffer is carried out, and leaves the index at the
number of bytes moved since the last completed transfer. -/
theorem step_of_fits {v : Vide} {a : Access} (h : v.bufIndex.toNat + a.dataBytes ≤ 512) :
    ∃ r, step v a = .ok r ∧ r.1.bufIndex.toNat = a.moved v v.bufIndex.toNat := by
  obtain ⟨op, w⟩ := a
  cases op with
  | portIn port size =>
    by_cases hp : port = HD_DATA
    · subst hp
      have hfits : v.Fits size := by simpa [Access.dataBytes, Vide.Fits] using h
      obtain ⟨r, hr, hidx⟩ := videInData_of_fits w hfits
      refine ⟨r.2, by simp [step, videIn, hr, Except.map], ?_⟩
      rw [hidx]
      simp [Access.moved, Access.completes, Access.dataBytes, and_assoc]
    · obtain ⟨val, v', hr, hidx, -⟩ := videIn_of_ne_data w v size hp
      refine ⟨(v', []), by simp [step, hr, Except.map], ?_⟩
      simp [hidx, Access.moved, Access.completes, Access.dataBytes, hp]
  | portOut port size val =>
    by_cases hp : port = HD_DATA
    · subst hp
      have hfits : v.Fits size := by simpa [Access.dataBytes, Vide.Fits] using h
      obtain ⟨r, hr, hidx⟩ := videOutData_of_fits w val hfits
      refine ⟨r, by simp [step, videOut, hr], ?_⟩
      rw [hidx]
      simp [Access.moved, Access.completes, Access.dataBytes, and_assoc]
    · by_cases hc : port = HD_COMMAND
      · subst hc
        refine ⟨videCommand w v val, rfl, ?_⟩
        rw [bufIndex_videCommand]
        simp only [Access.moved, Access.completes, Access.dataBytes, hp, if_false, decide_true,
          Bool.true_and, Bool.and_eq_true, decide_eq_true_eq, and_assoc, Nat.add_zero]
        split <;> rfl
      · obtain ⟨v', hr, hidx, -⟩ := videOut_of_ne_data_command w v size val hp hc
        refine ⟨(v', []), by simp [step, hr], ?_⟩
        simp [hidx, Access.moved, Access.completes, Access.dataBytes, hp, hc]
  | int13 regs =>
    refine ⟨_, rfl, ?_⟩
    simp [bufIndex_int13Transfer, Access.moved, Access.completes, Access.dataBytes]

/-- An access whose bytes leave the buffer is the one a run stops at. -/
theorem step_of_not_fits {v : Vide} {a : Access}
    (h : ¬ v.bufIndex.toNat + a.dataBytes ≤ 512) (hn : v.bufIndex.toNat ≤ 512) :
    ∃ e, step v a = .error e := by
  obtain ⟨op, w⟩ := a
  cases op with
  | portIn port size =>
    by_cases hp : port = HD_DATA
    · subst hp
      have hf : ¬ v.Fits size := by simpa [Access.dataBytes, Vide.Fits] using h
      exact ⟨⟨v.bufIndex, size⟩, by simp only [step, videIn, videInData, if_true, if_neg hf, Except.map]⟩
    · simp [Access.dataBytes, hp] at h
      omega
  | portOut port size val =>
    by_cases hp : port = HD_DATA
    · subst hp
      have hf : ¬ v.Fits size := by simpa [Access.dataBytes, Vide.Fits] using h
      exact ⟨⟨v.bufIndex, size⟩, by simp only [step, videOut, videOutData, if_true, if_neg hf]⟩
    · simp [Access.dataBytes, hp] at h
      omega
  | int13 regs =>
    simp [Access.dataBytes] at h
    omega

/-! ## Whole runs -/

theorem moved_le {v : Vide} {a : Access} {n : ℕ} (h : n + a.dataBytes ≤ 512) :
    a.moved v n ≤ 512 := by
  unfold Access.moved
  split
  · exact Nat.zero_le _
  · exact h

/-- From any state whose index counts the bytes moved so far. -/
theorem runGuest_ok_iff_of_bufIndex (as : List Access) :
    ∀ v : Vide, v.bufIndex.toNat ≤ 512 →
      ((∃ v', runGuest v as = .ok v') ↔ WithinBlock v v.bufIndex.toNat as) := by
  induction as with
  | nil => intro v _; simp [runGuest, WithinBlock]
  | cons a as ih =>
    intro v hn
    by_cases hfit : v.bufIndex.toNat + a.dataBytes ≤ 512
    · obtain ⟨⟨v₁, es⟩, hstep, hidx⟩ := step_of_fits hfit
      have hn₁ : v₁.bufIndex.toNat ≤ 512 := by rw [hidx]; exact moved_le hfit
      have hrun : runGuest v (a :: as) = runGuest v₁ as := by
        simp [runGuest, hstep, bind, Except.bind]
      rw [hrun, ih v₁ hn₁, hidx]
      simp only [WithinBlock, hfit, true_and, hstep, Except.ok.injEq, Prod.mk.injEq]
      constructor
      · rintro h v' es' ⟨rfl, -⟩
        exact h
      · intro h
        exact h v₁ es ⟨rfl, rfl⟩
    · obtain ⟨e, he⟩ := step_of_not_fits hfit hn
      have hrun : runGuest v (a :: as) = .error e := by
        simp [runGuest, he, bind, Except.bind]
      simp [hrun, WithinBlock, hfit]

/-- A world in which every block transfer succeeds and reads zeros. -/
def goodWorld : World where
  fileRead _ _ := (true, Vector.replicate 512 0)
  fileWrite _ _ := true
  hd := { readBlocks := fun _ _ => (true, Vector.replicate 512 0), writeBlocks := fun _ _ => true }
  user _ := Vector.replicate 512 0

/-- A disk of 4 heads, 100 cylinders and 17 sectors. -/
def smallDisk : Hd.HdDev where
  heads := 4
  cylinders := 100
  sectors := 17
  totalBlocks := 6800
  totalBlocks_eq := by decide

/-- The whole of `smallDisk` as a partition. -/
def smallPartition : Hd.HdPartition := ⟨0, 6800, smallDisk⟩

/-- The guest reads one sector with `READ` and then takes 129 double words from the data
register. -/
def overlongRead : List Access :=
  [⟨.portOut HD_NSECTOR .byte 1, goodWorld⟩, ⟨.portOut HD_SECTOR .byte 1, goodWorld⟩,
    ⟨.portOut HD_COMMAND .byte HD_CMD_READ, goodWorld⟩]
    ++ List.replicate 129 ⟨.portIn HD_DATA .long, goodWorld⟩

end Vmm386.VideModule
