import Vmm386.Vide.TransferBuffer

/-!
# Which physical sectors a guest reaches

A vide over a partition tests the block number of a request against the size of the
virtual disk, `hd_read_blocks` and `hd_write_blocks` test it against the size of the
partition. Port-level transfers go block by block through `block < blocks`, and stay in
the partition (`portStep_confined`). A BIOS request tests `blkno + count` in 32 bits, so
sector 0 of the first track, block `2^32 - 1`, passes both tests and is transferred from
the sector before the partition (`int13_confined_iff`).
-/

namespace Vmm386.VideModule

open Hd

/-! ## Sectors asked for -/

/-- The physical sector an effect transfers. -/
def Effect.phys : Effect → Option ULong
  | .readPhys s => some s
  | .writePhys s => some s
  | _ => none

/-- The physical sectors the disk driver is asked to transfer. -/
def physSectors (es : List Effect) : List ULong := es.filterMap Effect.phys

@[simp] theorem physSectors_nil : physSectors [] = [] := rfl

@[simp] theorem physSectors_append (es fs : List Effect) :
    physSectors (es ++ fs) = physSectors es ++ physSectors fs := List.filterMap_append

@[simp] theorem physSectors_copyToUser (addr : ULong) (data : Sector) (es : List Effect) :
    physSectors (.copyToUser addr data :: es) = physSectors es := rfl

@[simp] theorem physSectors_makeIrq (v : Vide) : physSectors (makeIrq v).2 = [] := by
  unfold makeIrq
  split <;> rfl

/-- The sector `read_one_block` asks for: none, or the block moved by the start of the
partition. -/
theorem physSectors_readOneBlock (w : World) (p : HdPartition) (blkno : ULong) (buf : Sector) :
    physSectors (readOneBlock w (.disk p) blkno buf).effects =
      if p.accepts blkno 1 then [blkno + p.start] else [] := by
  simp only [readOneBlock, hdReadBlock]
  split <;> rfl

theorem physSectors_writeOneBlock (w : World) (p : HdPartition) (blkno : ULong)
    (buf : Sector) :
    physSectors (writeOneBlock w (.disk p) blkno buf).effects =
      if p.accepts blkno 1 then [blkno + p.start] else [] := by
  simp only [writeOneBlock, hdWriteBlock]
  split <;> rfl

/-- A block inside the partition is transferred inside the partition. -/
theorem mem_sectors_of_lt_size {p : HdPartition} {blkno s : ULong}
    (h : blkno.toNat < p.size.toNat)
    (hs : s ∈ if p.accepts blkno 1 then [blkno + p.start] else []) : s ∈ p.sectors := by
  split at hs
  · rw [List.mem_singleton.mp hs, HdPartition.add_start_mem_sectors]
    exact h
  · cases hs

/-! ## The virtual disk fits its partition -/

/-- A feasible geometry has at most the blocks it was derived from. -/
theorem feasibleGeometry_le (blocks : ULong) :
    ((feasibleGeometry blocks).1 * (feasibleGeometry blocks).2.1
      * (feasibleGeometry blocks).2.2).toNat ≤ blocks.toNat := by
  simp only [feasibleGeometry]
  generalize fitHeads (blocks / 62) (blocks / 62).toNat 2 = heads
  have hb := blocks.isLt
  have htracks : blocks.toNat / 62 * 62 ≤ blocks.toNat := Nat.div_mul_le_self _ _
  have hcyl : blocks.toNat / 62 / heads.toNat * heads.toNat ≤ blocks.toNat / 62 :=
    Nat.div_mul_le_self _ _
  have hmul : (blocks / 62 / heads * heads).toNat =
      blocks.toNat / 62 / heads.toNat * heads.toNat := by
    rw [BitVec.toNat_mul, BitVec.toNat_udiv, BitVec.toNat_udiv]
    exact Nat.mod_eq_of_lt (by change _ / (62 : ℕ) / _ * _ < _; omega)
  rw [BitVec.toNat_mul, hmul]
  change _ * 62 % _ ≤ _
  rw [Nat.mod_eq_of_lt (by omega)]
  omega

/-- The virtual disk has at most the blocks of the partition behind it. -/
theorem blocks_createVide_le (p : HdPartition) :
    (createVide (.disk p)).blocks.toNat ≤ p.size.toNat := by
  by_cases hp : p.size = p.hd.totalBlocks
  · have : (createVide (.disk p)).blocks = p.size := by
      simp only [createVide, VideSpec.geometry, if_pos hp]
      rw [hp, p.hd.totalBlocks_eq, BitVec.mul_comm p.hd.cylinders, BitVec.mul_assoc,
        BitVec.mul_comm p.hd.cylinders, ← BitVec.mul_assoc]
    rw [this]
  · have : (createVide (.disk p)).blocks =
        (feasibleGeometry p.size).1 * (feasibleGeometry p.size).2.1
          * (feasibleGeometry p.size).2.2 := by
      simp only [createVide, VideSpec.geometry, if_neg hp]
    rw [this]
    exact feasibleGeometry_le p.size

/-- The states a guest can bring a virtual disk over the partition `p` to. -/
def Reachable (p : HdPartition) (v : Vide) : Prop :=
  ∃ as, runGuest (createVide (.disk p)) as = .ok v

/-- What every reachable state knows of its partition. -/
structure Backed (p : HdPartition) (v : Vide) : Prop where
  vdisk : v.vdisk = .disk p
  blocks_le : v.blocks.toNat ≤ p.size.toNat

theorem Reachable.backed {p : HdPartition} {v : Vide} (h : Reachable p v) : Backed p v := by
  obtain ⟨as, has⟩ := h
  have hshape := shape_runGuest has
  have hblocks : v.blocks = (createVide (.disk p)).blocks :=
    congrArg (fun s : Vdisk × ULong × ULong × ULong × ULong => s.2.1) hshape
  refine ⟨?_, ?_⟩
  · exact congrArg (fun s : Vdisk × ULong × ULong × ULong × ULong => s.1) hshape
  · rw [hblocks]
    exact blocks_createVide_le p

/-! ## Port-level transfers -/

/-- `read_next_block` transfers the current block, if it is a block of the disk. -/
theorem readNextBlock_confined {p : HdPartition} {w : World} {v : Vide} (hv : Backed p v)
    {s : ULong} (hs : s ∈ physSectors (readNextBlock w v).2) : s ∈ p.sectors := by
  by_cases hb : v.block ≥ v.blocks
  · simp [readNextBlock, hb] at hs
  · have hlt : v.block.toNat < p.size.toNat :=
      lt_of_lt_of_le (BitVec.not_le.mp hb) hv.blocks_le
    have hasked : s ∈ physSectors (readOneBlock w v.vdisk v.block v.buf).effects := by
      simp only [readNextBlock, if_neg hb] at hs
      split at hs
      · simpa only [physSectors_append, physSectors_makeIrq, List.append_nil] using hs
      · exact hs
    rw [hv.vdisk, physSectors_readOneBlock] at hasked
    exact mem_sectors_of_lt_size hlt hasked

/-- `write_block` transfers the current block, if it is a block of the disk. -/
theorem writeBlock_confined {p : HdPartition} {w : World} {v : Vide} (hv : Backed p v)
    {s : ULong} (hs : s ∈ physSectors (writeBlock w v).2) : s ∈ p.sectors := by
  by_cases hb : v.block ≥ v.blocks
  · simp [writeBlock, hb] at hs
  · have hlt : v.block.toNat < p.size.toNat :=
      lt_of_lt_of_le (BitVec.not_le.mp hb) hv.blocks_le
    have hasked : s ∈ physSectors (writeOneBlock w v.vdisk v.block v.buf).effects := by
      simp only [writeBlock, if_neg hb] at hs
      split at hs
      · split at hs
        · simpa only [physSectors_append, physSectors_makeIrq, List.append_nil] using hs
        · exact hs
      · exact hs
    rw [hv.vdisk, physSectors_writeOneBlock] at hasked
    exact mem_sectors_of_lt_size hlt hasked

theorem videInData_confined {p : HdPartition} {w : World} {v : Vide} {size : IoSize}
    {r : ULong × Vide × List Effect} (hv : Backed p v) (h : videInData w v size = .ok r)
    {s : ULong} (hs : s ∈ physSectors r.2.2) : s ∈ p.sectors := by
  simp only [videInData] at h
  repeat' split at h
  all_goals cases h
  · exact readNextBlock_confined (by exact ⟨hv.vdisk, hv.blocks_le⟩) hs
  all_goals cases hs

theorem videOutData_confined {p : HdPartition} {w : World} {v : Vide} {size : IoSize}
    {val : ULong} {r : Vide × List Effect} (hv : Backed p v)
    (h : videOutData w v size val = .ok r) {s : ULong} (hs : s ∈ physSectors r.2) :
    s ∈ p.sectors := by
  simp only [videOutData] at h
  repeat' split at h
  all_goals cases h
  · exact writeBlock_confined (by exact ⟨hv.vdisk, hv.blocks_le⟩) hs
  all_goals cases hs

theorem videCommand_confined {p : HdPartition} {w : World} {v : Vide} {val : ULong}
    (hv : Backed p v) {s : ULong} (hs : s ∈ physSectors (videCommand w v val).2) :
    s ∈ p.sectors := by
  simp only [videCommand] at hs
  repeat' split at hs
  all_goals first
    | exact readNextBlock_confined (by exact ⟨hv.vdisk, hv.blocks_le⟩) hs
    | simp at hs

/-- The access goes through a port. -/
def Access.isPort (a : Access) : Prop := ∀ regs, a.op ≠ .int13 regs

/-- Whatever the guest writes to the ports, only sectors of the partition are transferred. -/
theorem portStep_confined {p : HdPartition} {v : Vide} {a : Access} {r : Vide × List Effect}
    (hv : Backed p v) (ha : a.isPort) (h : step v a = .ok r) {s : ULong}
    (hs : s ∈ physSectors r.2) : s ∈ p.sectors := by
  obtain ⟨op, w⟩ := a
  cases op with
  | portIn port size =>
    simp only [step] at h
    by_cases hp : port = HD_DATA
    · subst hp
      cases hin : videInData w v size with
      | error e => simp [videIn, hin, Except.map] at h
      | ok q =>
        simp only [videIn, hin, if_true, Except.map, Except.ok.injEq] at h
        exact videInData_confined hv hin (h ▸ hs)
    · obtain ⟨val, v', hin, -⟩ := videIn_of_ne_data w v size hp
      simp only [hin, Except.map, Except.ok.injEq] at h
      rw [← h] at hs
      cases hs
  | portOut port size val =>
    simp only [step] at h
    by_cases hp : port = HD_DATA
    · subst hp
      exact videOutData_confined hv h hs
    · by_cases hc : port = HD_COMMAND
      · subst hc
        cases h
        exact videCommand_confined hv hs
      · obtain ⟨v', hout, -⟩ := videOut_of_ne_data_command w v size val hp hc
        rw [hout, Except.ok.injEq] at h
        rw [← h] at hs
        cases hs
  | int13 regs => exact absurd rfl (ha regs)

/-! ## The loops of a BIOS request -/

theorem readLoop_confined {p : HdPartition} {w : World} {v : Vide} (hv : Backed p v)
    {s : ULong} (n : ℕ) :
    ∀ (blkno : ULong) (tmp : Sector) (addr : ULong), blkno.toNat + n ≤ p.size.toNat →
      s ∈ physSectors (readLoop w v n blkno tmp addr).effects → s ∈ p.sectors := by
  induction n with
  | zero => intro _ _ _ _ hs; cases hs
  | succ n ih =>
    intro blkno tmp addr hle hs
    have hasked : s ∈ physSectors (readOneBlock w v.vdisk blkno tmp).effects → s ∈ p.sectors := by
      rw [hv.vdisk, physSectors_readOneBlock]
      exact mem_sectors_of_lt_size (by omega)
    have hnext : (blkno + 1).toNat = blkno.toNat + 1 := by
      have := p.size.isLt
      rw [BitVec.toNat_add]
      exact Nat.mod_eq_of_lt (by change _ + 1 < _; omega)
    simp only [readLoop] at hs
    split at hs
    · simp only [physSectors_append, physSectors_copyToUser, List.mem_append] at hs
      rcases hs with hs | hs
      · exact hasked hs
      · exact ih (blkno + 1) _ _ (by omega) hs
    · exact hasked hs

theorem writeLoop_confined {p : HdPartition} {w : World} {v : Vide} (hv : Backed p v)
    {s : ULong} (n : ℕ) :
    ∀ blkno addr : ULong, blkno.toNat + n < p.size.toNat →
      s ∈ physSectors (writeLoop w v n blkno addr).effects → s ∈ p.sectors := by
  induction n with
  | zero =>
    intro blkno addr hlt hs
    simp only [writeLoop] at hs
    have hs' : s ∈ physSectors (writeOneBlock w v.vdisk blkno (w.user addr)).effects := by
      split at hs <;> exact hs
    rw [hv.vdisk, physSectors_writeOneBlock] at hs'
    exact mem_sectors_of_lt_size (by omega) hs'
  | succ n ih =>
    intro blkno addr hlt hs
    have hasked : s ∈ physSectors (writeOneBlock w v.vdisk blkno (w.user addr)).effects →
        s ∈ p.sectors := by
      rw [hv.vdisk, physSectors_writeOneBlock]
      exact mem_sectors_of_lt_size (by omega)
    have hnext : (blkno + 1).toNat = blkno.toNat + 1 := by
      have := p.size.isLt
      rw [BitVec.toNat_add]
      exact Nat.mod_eq_of_lt (by change _ + 1 < _; omega)
    simp only [writeLoop] at hs
    split at hs
    · simp only [physSectors_append, List.mem_append] at hs
      rcases hs with hs | hs
      · exact hasked hs
      · exact ih (blkno + 1) _ (by omega) hs
    · exact hasked hs

/-- A loop whose first block is refused by the partition transfers nothing. -/
theorem physSectors_loop_of_refused {p : HdPartition} (w : World) {v : Vide} (hv : Backed p v)
    {blkno : ULong} (h : p.accepts blkno 1 = false) (n : ℕ) (tmp : Sector) (addr : ULong) :
    physSectors (readLoop w v n blkno tmp addr).effects = [] ∧
      physSectors (writeLoop w v n blkno addr).effects = [] := by
  constructor
  · cases n with
    | zero => rfl
    | succ n => simp [readLoop, hv.vdisk, readOneBlock, hdReadBlock, h]
  · cases n <;> simp [writeLoop, hv.vdisk, writeOneBlock, hdWriteBlock, h]

/-- A loop whose first block is accepted by the partition transfers it. -/
theorem physSectors_loop_of_accepted {p : HdPartition} (w : World) {v : Vide}
    (hv : Backed p v) {blkno : ULong} (h : p.accepts blkno 1 = true) (n : ℕ) (tmp : Sector)
    (addr : ULong) :
    blkno + p.start ∈ physSectors (readLoop w v (n + 1) blkno tmp addr).effects ∧
      blkno + p.start ∈ physSectors (writeLoop w v n blkno addr).effects := by
  have hread := physSectors_readOneBlock w p blkno tmp
  have hwrite := physSectors_writeOneBlock w p blkno (w.user addr)
  rw [if_pos h] at hread hwrite
  constructor
  · simp only [readLoop, hv.vdisk]
    split <;> simp [hread]
  · cases n <;> simp only [writeLoop, hv.vdisk] <;> split <;> simp [hwrite]

/-! ## BIOS requests -/

/-- What confinement asks of a BIOS request: every sector it transfers is one of the
partition, and a request for a block outside the partition transfers nothing. -/
def Confined (p : HdPartition) (v : Vide) (regs : DiskRegs) : Prop :=
  (∀ w, ∀ s ∈ physSectors (int13Transfer w v regs).2, s ∈ p.sectors) ∧
    ((∃ i < regs.request.count,
        p.size.toNat ≤ (regs.request.blkno v + BitVec.ofNat 32 i).toNat) →
      ∀ w, physSectors (int13Transfer w v regs).2 = [])

theorem confined_of_nil {p : HdPartition} {v : Vide} {regs : DiskRegs}
    (h : ∀ w, physSectors (int13Transfer w v regs).2 = []) : Confined p v regs := by
  refine ⟨fun w s hs => ?_, fun _ => h⟩
  rw [h w] at hs
  cases hs

/-- The request passes the tests of the arguments although `blkno + count` wraps, and the
partition does not refuse its first block: that is the last 32-bit block number (sector 0
of the first track) or a block of the partition. -/
def WrapsUnchecked (p : HdPartition) (v : Vide) (regs : DiskRegs) : Prop :=
  regs.isTransfer = true ∧ regs.request.badArg v = false ∧
    2 ^ 32 ≤ (regs.request.blkno v).toNat + regs.request.count ∧
    ((regs.request.blkno v).toNat = 2 ^ 32 - 1 ∨ (regs.request.blkno v).toNat < p.size.toNat)

/-- The sectors of a BIOS request, by function number. -/
theorem physSectors_int13Transfer (w : World) (v : Vide) {regs : DiskRegs}
    (ht : regs.isTransfer = true) (hb : regs.request.badArg v = false) :
    physSectors (int13Transfer w v regs).2 =
      if get8H regs.eax = 2 then
        physSectors (readLoop w v regs.request.count (regs.request.blkno v)
          (Vector.replicate 512 0) regs.request.buf).effects
      else
        physSectors (writeLoop w v (regs.request.count - 1) (regs.request.blkno v)
          regs.request.buf).effects := by
  simp only [int13Transfer, ht, if_true]
  split <;> simp [readUserBlocks, writeUserBlocks, hb]

theorem count_lt (regs : DiskRegs) : regs.request.count < 256 := by
  change (regs.eax &&& 0xff).toNat < 256
  rw [BitVec.toNat_and]
  exact lt_of_le_of_lt Nat.and_le_right (by decide)

/-- Passing the tests of the arguments means that the end of the request, in 32 bits, is a
block of the virtual disk. -/
theorem end_lt_of_badArg_eq_false {v : Vide} {r : BlockRequest} (h : r.badArg v = false) :
    (r.blkno v + BitVec.ofNat 32 r.count).toNat < v.blocks.toNat := by
  simp only [BlockRequest.badArg, Bool.or_eq_false_iff, decide_eq_false_iff_not] at h
  exact BitVec.lt_def.mp (BitVec.not_le.mp h.2)

/-- A request that does not wrap stays in the partition. -/
theorem confined_of_no_wrap {p : HdPartition} {v : Vide} {regs : DiskRegs} (hv : Backed p v)
    (ht : regs.isTransfer = true) (hb : regs.request.badArg v = false)
    (hw : (regs.request.blkno v).toNat + regs.request.count < 2 ^ 32) : Confined p v regs := by
  have hend := end_lt_of_badArg_eq_false hb
  have hcount := count_lt regs
  have hsize := hv.blocks_le
  rw [BitVec.toNat_add, BitVec.toNat_ofNat, Nat.add_mod_mod, Nat.mod_eq_of_lt hw] at hend
  refine ⟨fun w s hs => ?_, fun ⟨i, hi, hout⟩ => ?_⟩
  · rw [physSectors_int13Transfer w v ht hb] at hs
    split at hs
    · exact readLoop_confined hv _ _ _ _ (by omega) hs
    · exact writeLoop_confined hv _ _ _ (by omega) hs
  · rw [BitVec.toNat_add, BitVec.toNat_ofNat, Nat.add_mod_mod, Nat.mod_eq_of_lt (by omega)] at hout
    omega

/-- **Confinement of BIOS requests.** A request keeps to the partition, and transfers
nothing when it asks for a block outside, exactly if it does not wrap unchecked. -/
theorem int13_confined_iff_of_backed {p : HdPartition} {v : Vide} (hv : Backed p v)
    (regs : DiskRegs) : Confined p v regs ↔ ¬ WrapsUnchecked p v regs := by
  have hcount := count_lt regs
  have hsize := p.size.isLt
  have hblk := (regs.request.blkno v).isLt
  constructor
  · rintro ⟨-, hnone⟩ ⟨ht, hb, hwrap, hfirst⟩
    -- the block number `2^32 - 1` is among those asked for, and outside every partition
    have hout : ∃ i < regs.request.count,
        p.size.toNat ≤ (regs.request.blkno v + BitVec.ofNat 32 i).toNat := by
      refine ⟨2 ^ 32 - 1 - (regs.request.blkno v).toNat, by omega, ?_⟩
      rw [BitVec.toNat_add, BitVec.toNat_ofNat, Nat.add_mod_mod]
      omega
    have hacc : p.accepts (regs.request.blkno v) 1 = true :=
      (p.accepts_one _).mpr hfirst.symm
    obtain ⟨n, hn⟩ : ∃ n, regs.request.count = n + 1 := ⟨regs.request.count - 1, by omega⟩
    have hempty := hnone hout goodWorld
    have hmem := physSectors_loop_of_accepted goodWorld hv hacc n (Vector.replicate 512 0)
      regs.request.buf
    rw [physSectors_int13Transfer goodWorld v ht hb, hn, Nat.add_sub_cancel] at hempty
    split at hempty
    · exact List.ne_nil_of_mem hmem.1 hempty
    · exact List.ne_nil_of_mem hmem.2 hempty
  · intro hnot
    by_cases ht : regs.isTransfer = true
    · cases hb : regs.request.badArg v with
      | true =>
        refine confined_of_nil fun w => ?_
        simp only [int13Transfer, ht, if_true]
        split <;> simp [readUserBlocks, writeUserBlocks, hb]
      | false =>
        by_cases hw : (regs.request.blkno v).toNat + regs.request.count < 2 ^ 32
        · exact confined_of_no_wrap hv ht hb hw
        · -- the request wraps, so the partition refuses its first block
          have hacc : p.accepts (regs.request.blkno v) 1 = false := by
            rw [Bool.eq_false_iff, Ne, HdPartition.accepts_one]
            exact fun hfirst => hnot ⟨ht, hb, not_lt.mp hw, hfirst.symm⟩
          refine confined_of_nil fun w => ?_
          rw [physSectors_int13Transfer w v ht hb]
          split
          · exact (physSectors_loop_of_refused w hv hacc _ _ _).1
          · exact (physSectors_loop_of_refused w hv hacc _ (Vector.replicate 512 0) _).2
    · refine confined_of_nil fun w => ?_
      simp [int13Transfer, ht]

/-- **Guest disk confinement.** In every state of a virtual disk over a partition, port
accesses transfer only sectors of the partition, and a BIOS request does exactly if it does
not wrap unchecked. -/
theorem guest_confined_iff {p : HdPartition} {v : Vide} (h : Reachable p v) :
    (∀ a r, a.isPort → step v a = .ok r → ∀ s ∈ physSectors r.2, s ∈ p.sectors) ∧
      ∀ regs, Confined p v regs ↔ ¬ WrapsUnchecked p v regs :=
  ⟨fun _ _ ha hstep _ hs => portStep_confined h.backed ha hstep hs,
    int13_confined_iff_of_backed h.backed⟩

/-- The sectors 17 to 6799 of `smallDisk`. -/
def smallWindow : HdPartition := ⟨17, 6783, smallDisk⟩

/-- The disk as it is created over `smallWindow`. -/
theorem guest_confined_smallWindow :
    (∀ a r, a.isPort → step (createVide (.disk smallWindow)) a = .ok r →
        ∀ s ∈ physSectors r.2, s ∈ smallWindow.sectors) ∧
      ∀ regs, Confined smallWindow (createVide (.disk smallWindow)) regs ↔
        ¬ WrapsUnchecked smallWindow (createVide (.disk smallWindow)) regs :=
  guest_confined_iff ⟨[], rfl⟩

/-- `AH=2`, one block from head 0, cylinder 0, sector 0. -/
def sectorZeroRead : DiskRegs := ⟨0x0201, 0, 0, 0x80, 0⟩

/-- The request for sector 0 reads physical sector 16, before `smallWindow`. -/
theorem sectorZeroRead_not_confined :
    ¬ ∀ (p : HdPartition) (v : Vide) (regs : DiskRegs), Reachable p v → Confined p v regs := by
  intro h
  have hc := (h smallWindow _ sectorZeroRead ⟨[], rfl⟩).1 goodWorld 16 (by decide +kernel)
  revert hc
  change ¬ ((16 : ULong) - smallWindow.start).toNat < smallWindow.size.toNat
  decide

end Vmm386.VideModule
