import Vmm386.Vbios.Geometry

/-!
# Which blocks of a virtual disk the guest reaches

The argument test of `INT 13h` is `blkno + count >= blocks`, so it refuses every access that
ends with the last block: the reported geometry is usable only on a disk without blocks
(`usable_iff`). On a disk whose geometry fits the fields of both interfaces, all blocks but the
last are served, each at one address (`serves_of_fits`).
-/

namespace Vmm386.Vbios

open VideModule

/-! ## The reported geometry -/

theorem request_getParameters_cyl (v : Vide) (regs : DiskRegs) :
    (getParameters (some v) regs).request.cyl = (v.cylinders - 1) &&& 0x3ff := by
  unfold getParameters DiskRegs.request get8H get8 set16
  dsimp only
  generalize v.cylinders - 1 = cyls
  apply BitVec.eq_of_getLsbD_eq
  intro i hi
  interval_cases i <;> simp

theorem request_getParameters_head (v : Vide) (regs : DiskRegs) :
    (getParameters (some v) regs).request.head = (v.heads - 1) &&& 0xff := by
  unfold getParameters DiskRegs.request get8H set16
  dsimp only
  generalize v.heads - 1 = heads
  apply BitVec.eq_of_getLsbD_eq
  intro i hi
  interval_cases i <;> simp

theorem request_getParameters_sector (v : Vide) (regs : DiskRegs) :
    (getParameters (some v) regs).request.sector = v.sectors &&& 0x3f := by
  unfold getParameters DiskRegs.request get8 set16
  dsimp only
  apply BitVec.eq_of_getLsbD_eq
  intro i hi
  interval_cases i <;> simp

theorem toNat_sub_one {x : ULong} (h : 1 ≤ x.toNat) : (x - 1).toNat = x.toNat - 1 :=
  BitVec.toNat_sub_of_le (BitVec.le_def.mpr h)

/-- A geometry that fits the fields of function 8 and of the command registers. -/
structure Fits (v : Vide) : Prop where
  cylinders_pos : 1 ≤ v.cylinders.toNat
  cylinders : v.cylinders.toNat ≤ 1024
  heads_pos : 1 ≤ v.heads.toNat
  heads : v.heads.toNat ≤ 16
  sectors : v.sectors.toNat ≤ 63

/-- A geometry that fits is reported as it is. -/
theorem Fits.reportedGeometry_eq {v : Vide} (h : Fits v) (regs : DiskRegs) :
    reportedGeometry v regs = ⟨v.cylinders.toNat, v.heads.toNat, v.sectors.toNat⟩ := by
  have hcyls : ((v.cylinders - 1) &&& 0x3ff).toNat = v.cylinders.toNat - 1 := by
    rw [BitVec.toNat_and, toNat_sub_one h.cylinders_pos]
    exact (Nat.and_two_pow_sub_one_eq_mod _ 10).trans
      (Nat.mod_eq_of_lt (by have := h.cylinders; omega))
  have hheads : ((v.heads - 1) &&& 0xff).toNat = v.heads.toNat - 1 := by
    rw [BitVec.toNat_and, toNat_sub_one h.heads_pos]
    exact (Nat.and_two_pow_sub_one_eq_mod _ 8).trans
      (Nat.mod_eq_of_lt (by have := h.heads; omega))
  have hsectors : (v.sectors &&& 0x3f).toNat = v.sectors.toNat := by
    rw [BitVec.toNat_and]
    exact (Nat.and_two_pow_sub_one_eq_mod _ 6).trans
      (Nat.mod_eq_of_lt (by have := h.sectors; omega))
  unfold reportedGeometry
  rw [request_getParameters_cyl, request_getParameters_head, request_getParameters_sector,
    hcyls, hheads, hsectors, Nat.sub_add_cancel h.cylinders_pos, Nat.sub_add_cancel h.heads_pos]

/-! ## Triples and blocks -/

/-- The block of a triple. -/
def Geometry.blockOf (g : Geometry) (t : Chs) : ℕ :=
  (t.sector - 1) + t.head * g.sectors + t.cyl * g.heads * g.sectors

/-- The triple of a block. -/
def Geometry.chsOf (g : Geometry) (b : ℕ) : Chs where
  cyl := b / g.sectors / g.heads
  head := b / g.sectors % g.heads
  sector := b % g.sectors + 1

theorem Geometry.has_chsOf {g : Geometry} {b : ℕ} (hb : b < g.cylinders * g.heads * g.sectors) :
    g.Has (g.chsOf b) where
  cyl := by
    unfold chsOf
    rw [Nat.div_div_eq_div_mul]
    apply Nat.div_lt_of_lt_mul
    calc b < g.cylinders * g.heads * g.sectors := hb
      _ = g.sectors * g.heads * g.cylinders := by ring
  head := by
    apply Nat.mod_lt
    apply Nat.pos_of_ne_zero
    rintro h0
    simp [h0] at hb
  sector_pos := Nat.le_add_left 1 _
  sector := by
    apply Nat.mod_lt
    apply Nat.pos_of_ne_zero
    rintro h0
    simp [h0] at hb

theorem Geometry.blockOf_chsOf (g : Geometry) (b : ℕ) : g.blockOf (g.chsOf b) = b := by
  unfold blockOf chsOf
  rw [Nat.add_sub_cancel]
  calc b % g.sectors + b / g.sectors % g.heads * g.sectors +
        b / g.sectors / g.heads * g.heads * g.sectors
      = b % g.sectors + (b / g.sectors % g.heads + g.heads * (b / g.sectors / g.heads)) *
        g.sectors := by ring
    _ = b % g.sectors + b / g.sectors * g.sectors := by rw [Nat.mod_add_div]
    _ = b := by rw [Nat.mul_comm]; exact Nat.mod_add_div b g.sectors

/-- The triples of a geometry are told apart by their blocks. -/
theorem Geometry.chsOf_blockOf {g : Geometry} {t : Chs} (h : g.Has t) :
    g.chsOf (g.blockOf t) = t := by
  have hS : 0 < g.sectors := lt_of_lt_of_le h.sector_pos h.sector
  have hlow : t.sector - 1 < g.sectors := by
    have := h.sector_pos
    have := h.sector
    omega
  have hblock : g.blockOf t = (t.sector - 1) + g.sectors * (t.head + g.heads * t.cyl) := by
    unfold blockOf
    ring
  have hdiv : g.blockOf t / g.sectors = t.head + g.heads * t.cyl := by
    rw [hblock, Nat.add_mul_div_left _ _ hS, Nat.div_eq_of_lt hlow, Nat.zero_add]
  have hmod : g.blockOf t % g.sectors = t.sector - 1 := by
    rw [hblock, Nat.add_mul_mod_self_left, Nat.mod_eq_of_lt hlow]
  have hH : 0 < g.heads := lt_of_le_of_lt (Nat.zero_le _) h.head
  unfold chsOf
  rw [hdiv, hmod, Nat.add_mul_div_left _ _ hH, Nat.div_eq_of_lt h.head, Nat.zero_add,
    Nat.add_mul_mod_self_left, Nat.mod_eq_of_lt h.head, Nat.sub_add_cancel h.sector_pos]

theorem Geometry.blockOf_lt {g : Geometry} {t : Chs} (h : g.Has t) :
    g.blockOf t < g.cylinders * g.heads * g.sectors := by
  have hsector : t.sector - 1 < g.sectors := by
    have := h.sector_pos
    have := h.sector
    omega
  have htrack : t.head + t.cyl * g.heads + 1 ≤ g.cylinders * g.heads := by
    calc t.head + t.cyl * g.heads + 1 ≤ g.heads + t.cyl * g.heads := by
          have := h.head
          omega
      _ = (t.cyl + 1) * g.heads := by ring
      _ ≤ g.cylinders * g.heads := Nat.mul_le_mul_right _ h.cyl
  calc g.blockOf t = (t.sector - 1) + (t.head + t.cyl * g.heads) * g.sectors := by
        unfold blockOf
        ring
    _ < g.sectors + (t.head + t.cyl * g.heads) * g.sectors := Nat.add_lt_add_right hsector _
    _ = (t.head + t.cyl * g.heads + 1) * g.sectors := by ring
    _ ≤ g.cylinders * g.heads * g.sectors := Nat.mul_le_mul_right _ htrack

/-! ## The two interfaces -/

/-- The block number that `vide.c` computes, when it is in the disk. -/
theorem toNat_blkno {c h s H S : ULong} (hs : 1 ≤ s.toNat)
    (hlt : (s.toNat - 1) + h.toNat * S.toNat + c.toNat * H.toNat * S.toNat < 2 ^ 32) :
    ((s - 1) + h * S + c * H * S).toNat =
      (s.toNat - 1) + h.toNat * S.toNat + c.toNat * H.toNat * S.toNat := by
  simp only [BitVec.toNat_add, BitVec.toNat_mul, toNat_sub_one hs, Nat.mod_mul_mod,
    Nat.add_mod_mod, Nat.mod_add_mod]
  exact Nat.mod_eq_of_lt hlt

/-- The geometry of a vide, as numbers. -/
def geometryOf (v : Vide) : Geometry := ⟨v.cylinders.toNat, v.heads.toNat, v.sectors.toNat⟩

theorem blkno_of_at {v : Vide} {r : BlockRequest} {t : Chs} (h : RequestAt r t)
    (ht : (geometryOf v).Has t) (hv : capacity v < 2 ^ 32) :
    (r.blkno v).toNat = (geometryOf v).blockOf t := by
  have hlt := Geometry.blockOf_lt ht
  unfold Geometry.blockOf geometryOf at *
  rw [← h.cyl, ← h.head, ← h.sector] at *
  exact toNat_blkno (h.sector ▸ ht.sector_pos) (hlt.trans hv)

theorem block_of_at {v v' : Vide} {t : Chs} (hshape : v'.shape = v.shape) (h : CommandAt v' t)
    (ht : (geometryOf v).Has t) (hv : capacity v < 2 ^ 32) :
    (makeBlkno v').block.toNat = (geometryOf v).blockOf t := by
  have hlt : (geometryOf v).blockOf t < 2 ^ 32 := (Geometry.blockOf_lt ht).trans hv
  have hgeom : geometryOf v = geometryOf v' := by
    simp only [Vide.shape, Prod.mk.injEq] at hshape
    obtain ⟨-, -, hc, hh, hs⟩ := hshape
    simp only [geometryOf, hc, hh, hs]
  rw [hgeom] at hlt ht ⊢
  have hcyl : (v'.highCyl.setWidth 32 <<< 8 + v'.lowCyl.setWidth 32 : ULong).toNat = t.cyl := by
    have hhigh := v'.highCyl.isLt
    have hlow := v'.lowCyl.isLt
    rw [← h.cyl, BitVec.toNat_add, BitVec.toNat_shiftLeft, BitVec.toNat_setWidth,
      BitVec.toNat_setWidth, Nat.shiftLeft_eq]
    omega
  have hhead : ((v'.select &&& 0x0f).setWidth 32 : ULong).toNat = t.head := by
    rw [← h.head]
    exact BitVec.toNat_setWidth_of_le (by decide)
  have hsector : (v'.sector.setWidth 32 : ULong).toNat = t.sector := by
    rw [← h.sector]
    exact BitVec.toNat_setWidth_of_le (by decide)
  have hpos : 1 ≤ (v'.sector.setWidth 32 : ULong).toNat := by
    rw [hsector]
    exact ht.sector_pos
  unfold Geometry.blockOf geometryOf at hlt ⊢
  rw [← hcyl, ← hhead, ← hsector] at hlt ⊢
  exact toNat_blkno hpos hlt

/-- Registers for a call of function 2 for one sector. -/
def oneSectorRegs (t : Chs) : DiskRegs where
  eax := 0x0201
  ebx := 0
  ecx := ((BitVec.ofNat 32 t.cyl &&& 0xff) <<< 8) ||| ((BitVec.ofNat 32 t.cyl &&& 0x300) >>> 2)
    ||| (BitVec.ofNat 32 t.sector &&& 0x3f)
  edx := ((BitVec.ofNat 32 t.head &&& 0xff) <<< 8) ||| 0x80
  es := 0

theorem oneSector_regs {t : Chs} (hcyl : t.cyl < 1024) (hhead : t.head < 256)
    (hsector : t.sector < 64) : OneSector (oneSectorRegs t) t where
  isTransfer := by
    have hdl : (((BitVec.ofNat 32 t.head &&& 0xff) <<< 8) ||| 0x80 : ULong) &&& 0xff = 0x80 := by
      apply BitVec.eq_of_getLsbD_eq
      intro i hi
      interval_cases i <;> simp
    have hah : get8H (0x0201 : ULong) = 2 := by decide
    simp only [DiskRegs.isTransfer, oneSectorRegs, hdl, hah, decide_true, Bool.true_or,
      Bool.and_self]
  request := by
    constructor
    · have h : (oneSectorRegs t).request.cyl = BitVec.ofNat 32 t.cyl &&& 0x3ff := by
        unfold oneSectorRegs DiskRegs.request get8H get8
        dsimp only
        generalize BitVec.ofNat 32 t.cyl = c
        generalize BitVec.ofNat 32 t.sector = s
        apply BitVec.eq_of_getLsbD_eq
        intro i hi
        interval_cases i <;> simp
      rw [h, BitVec.toNat_and, BitVec.toNat_ofNat, Nat.mod_eq_of_lt (by omega)]
      exact (Nat.and_two_pow_sub_one_eq_mod _ 10).trans (Nat.mod_eq_of_lt hcyl)
    · have h : (oneSectorRegs t).request.head = BitVec.ofNat 32 t.head &&& 0xff := by
        unfold oneSectorRegs DiskRegs.request get8H
        dsimp only
        generalize BitVec.ofNat 32 t.head = d
        apply BitVec.eq_of_getLsbD_eq
        intro i hi
        interval_cases i <;> simp
      rw [h, BitVec.toNat_and, BitVec.toNat_ofNat, Nat.mod_eq_of_lt (by omega)]
      exact (Nat.and_two_pow_sub_one_eq_mod _ 8).trans (Nat.mod_eq_of_lt hhead)
    · have h : (oneSectorRegs t).request.sector = BitVec.ofNat 32 t.sector &&& 0x3f := by
        unfold oneSectorRegs DiskRegs.request get8
        dsimp only
        generalize BitVec.ofNat 32 t.cyl = c
        generalize BitVec.ofNat 32 t.sector = s
        apply BitVec.eq_of_getLsbD_eq
        intro i hi
        interval_cases i <;> simp
      rw [h, BitVec.toNat_and, BitVec.toNat_ofNat, Nat.mod_eq_of_lt (by omega)]
      exact (Nat.and_two_pow_sub_one_eq_mod _ 6).trans (Nat.mod_eq_of_lt hsector)
  count := by
    change (get8 (0x0201 : ULong)).toNat = 1
    decide

/-- The command registers, programmed for one sector. -/
def programmed (v : Vide) (t : Chs) : Vide :=
  { v with
    highCyl := BitVec.ofNat 8 (t.cyl / 256), lowCyl := BitVec.ofNat 8 t.cyl
    select := BitVec.ofNat 8 t.head, sector := BitVec.ofNat 8 t.sector, numSectors := 1 }

theorem commandAt_programmed (v : Vide) {t : Chs} (hcyl : t.cyl < 65536) (hhead : t.head < 16)
    (hsector : t.sector < 256) : CommandAt (programmed v t) t where
  cyl := by
    unfold programmed
    rw [BitVec.toNat_ofNat, BitVec.toNat_ofNat]
    omega
  head := by
    have hmod : t.head % 2 ^ 8 = t.head := Nat.mod_eq_of_lt (by omega)
    unfold programmed
    rw [BitVec.toNat_and, BitVec.toNat_ofNat, hmod]
    exact (Nat.and_two_pow_sub_one_eq_mod _ 4).trans (Nat.mod_eq_of_lt hhead)
  sector := by
    unfold programmed
    rw [BitVec.toNat_ofNat]
    exact Nat.mod_eq_of_lt hsector

/-- On a disk whose geometry fits, a triple of the geometry is the address of its block. -/
theorem Fits.addresses {v : Vide} (h : Fits v) (hcap : capacity v < 2 ^ 32) {t : Chs}
    (ht : (geometryOf v).Has t) : Addresses v t ((geometryOf v).blockOf t) where
  encodes := by
    have hcyl : t.cyl < 1024 := lt_of_lt_of_le ht.cyl h.cylinders
    have hhead : t.head < 256 := by
      have := lt_of_lt_of_le ht.head h.heads
      omega
    have hsector : t.sector < 64 := Nat.lt_succ_of_le (le_trans ht.sector h.sectors)
    exact ⟨oneSectorRegs t, oneSector_regs hcyl hhead hsector⟩
  blkno := fun _ hat => blkno_of_at hat ht hcap
  programs := by
    have hcyl : t.cyl < 65536 := lt_of_lt_of_le ht.cyl (h.cylinders.trans (by decide))
    have hhead : t.head < 16 := lt_of_lt_of_le ht.head h.heads
    have hsector : t.sector < 256 := lt_of_le_of_lt ht.sector (lt_of_le_of_lt h.sectors (by decide))
    exact ⟨programmed v t, rfl, commandAt_programmed v hcyl hhead hsector⟩
  block := fun _ hshape hat => block_of_at hshape hat ht hcap

/-! ## Access to one sector -/

/-- One sector that passes the test of the arguments and is not the last block. -/
theorem badArg_eq_false {v : Vide} {r : BlockRequest} (hdrv : r.drvno = 0)
    (hhead : r.head < v.heads) (hcyl : r.cyl < v.cylinders) (hsector : r.sector ≤ v.sectors)
    (hend : r.blkno v + BitVec.ofNat 32 r.count < v.blocks) : r.badArg v = false := by
  unfold BlockRequest.badArg
  simp only [hdrv, ne_eq, not_true, decide_false, Bool.false_or, Bool.or_eq_false_iff,
    decide_eq_false_iff_not, ge_iff_le, gt_iff_lt, BitVec.not_le, BitVec.not_lt]
  exact ⟨⟨⟨hhead, hcyl⟩, hsector⟩, hend⟩

/-- A disk of `create_vide` has as many blocks as its geometry, in 32 bits. -/
structure Sized (v : Vide) : Prop where
  blocks : v.blocks = v.cylinders * v.heads * v.sectors

theorem sized_createVide (spec : VideSpec) : Sized (createVide spec) := ⟨rfl⟩

theorem Sized.toNat_blocks {v : Vide} (h : Sized v) : v.blocks.toNat = capacity v % 2 ^ 32 := by
  rw [h.blocks, BitVec.toNat_mul, BitVec.toNat_mul, Nat.mod_mul_mod]
  rfl

theorem biosTransfers_of_lt {v : Vide} (hv : Sized v) (hcap : capacity v < 2 ^ 32) {t : Chs}
    (ht : (geometryOf v).Has t) {b : ULong} (hb : b.toNat = (geometryOf v).blockOf t)
    (hlast : b.toNat + 1 < capacity v) (w : World) {regs : DiskRegs} (hregs : OneSector regs t) :
    BiosTransfers w v regs b := by
  have hblkno : regs.request.blkno v = b := by
    apply BitVec.eq_of_toNat_eq
    rw [blkno_of_at hregs.request ht hcap, hb]
  have haccepted : regs.request.badArg v = false := by
    apply badArg_eq_false rfl
    · rw [BitVec.lt_def, hregs.request.head]
      exact ht.head
    · rw [BitVec.lt_def, hregs.request.cyl]
      exact ht.cyl
    · rw [BitVec.le_def, hregs.request.sector]
      exact ht.sector
    · rw [hblkno, hregs.count, BitVec.lt_def, BitVec.toNat_add, hv.toNat_blocks]
      rw [BitVec.toNat_ofNat]
      omega
  refine ⟨haccepted, ?_, ?_⟩
  · intro _ r hok
    have hok' : (readOneBlock w v.vdisk b (Vector.replicate 512 0)).ok = true := hok
    simp only [readUserBlocks, haccepted, hregs.count, hblkno, readLoop, hok', if_true,
      Bool.false_eq_true, if_false]
    rfl
  · intro _ r hok
    have hok' : (writeOneBlock w v.vdisk b (w.user regs.request.buf)).ok = true := hok
    simp only [writeUserBlocks, haccepted, hregs.count, hblkno, Nat.sub_self, Bool.false_eq_true,
      if_false]
    unfold writeLoop
    simp only [hok', if_true]
    rfl

/-- `read_next_block` on a block of the disk that can be read. -/
theorem readNextBlock_of_ok (w : World) {v : Vide} (hb : v.block < v.blocks)
    (hok : (readOneBlock w v.vdisk v.block v.buf).ok = true) :
    (readNextBlock w v).1.buf = (readOneBlock w v.vdisk v.block v.buf).buf ∧
      (readNextBlock w v).1.status = DATA_RDY_STAT := by
  have hnot : ¬v.block ≥ v.blocks := BitVec.not_le.mpr hb
  simp only [readNextBlock, hnot, if_false, hok, if_true]
  exact ⟨rfl, rfl⟩

theorem portTransfers_of_lt (w : World) {v : Vide} {b : ULong}
    (hblock : (makeBlkno v).block = b) (hb : b < v.blocks) : PortTransfers w v b where
  exists_block := hb
  reads := by
    intro r hok
    subst hblock
    exact readNextBlock_of_ok w (v := { makeBlkno { v with command := HD_CMD_READ.setWidth 8 } with
      blocksLeft := v.numSectors.setWidth 32 }) hb hok
  writes := by
    subst hblock
    exact ⟨rfl, rfl⟩

/-- All blocks but the last are served. -/
theorem serves_of_lt {v : Vide} (hv : Sized v) (hcap : capacity v < 2 ^ 32) {t : Chs}
    (ht : (geometryOf v).Has t) {b : ULong} (hb : b.toNat = (geometryOf v).blockOf t)
    (hlast : b.toNat + 1 < capacity v) : Serves v t b where
  bios := fun w _ hregs => biosTransfers_of_lt hv hcap ht hb hlast w hregs
  ports := by
    intro w v' hshape _ hat
    have hblock : (makeBlkno v').block = b := by
      apply BitVec.eq_of_toNat_eq
      rw [block_of_at hshape hat ht hcap, hb]
    have hblocks : v'.blocks = v.blocks :=
      congrArg (fun s : Vdisk × ULong × ULong × ULong × ULong => s.2.1) hshape
    apply portTransfers_of_lt w hblock
    rw [hblocks, BitVec.lt_def, hv.toNat_blocks]
    omega

/-- On a disk whose geometry fits, each block has exactly one address in the reported geometry,
and it is served there unless it is the last one. -/
theorem serves_of_fits {v : Vide} (hv : Sized v) (h : Fits v) (regs : DiskRegs) {b : ULong}
    (hb : b.toNat < capacity v) :
    (∃! t, (reportedGeometry v regs).Has t ∧ Addresses v t b.toNat) ∧
      (b.toNat + 1 < capacity v →
        ∀ t, (reportedGeometry v regs).Has t → Addresses v t b.toNat → Serves v t b) := by
  have hcap : capacity v < 2 ^ 32 := by
    calc capacity v ≤ 1024 * 16 * 63 :=
          Nat.mul_le_mul (Nat.mul_le_mul h.cylinders h.heads) h.sectors
      _ < 2 ^ 32 := by decide
  have hreported : reportedGeometry v regs = geometryOf v := h.reportedGeometry_eq regs
  rw [hreported]
  -- an address of the block is the triple of the block
  have hunique : ∀ t, (geometryOf v).Has t → Addresses v t b.toNat →
      b.toNat = (geometryOf v).blockOf t := by
    intro t ht haddr
    obtain ⟨regs', hregs'⟩ := haddr.encodes
    rw [← haddr.blkno regs' hregs'.request]
    exact blkno_of_at hregs'.request ht hcap
  constructor
  · refine ⟨(geometryOf v).chsOf b.toNat, ⟨Geometry.has_chsOf hb, ?_⟩, ?_⟩
    · have haddr := h.addresses hcap (Geometry.has_chsOf hb)
      rwa [Geometry.blockOf_chsOf] at haddr
    · rintro t ⟨ht, haddr⟩
      rw [hunique t ht haddr]
      exact (Geometry.chsOf_blockOf ht).symm
  · intro hlast t ht haddr
    exact serves_of_lt hv hcap ht (hunique t ht haddr) hlast

/-! ## Derived geometries -/

/-- The loop of `create_vide` ends with a number of heads at which all cylinders have a number
that fits, when 16 heads are enough. -/
theorem fitHeads_spec {tracks : ULong} (ht : tracks.toNat < 16384) (fuel : ℕ) :
    ∀ heads : ULong, 2 ≤ heads.toNat → heads.toNat ≤ 16 → heads.toNat % 2 = 0 →
      tracks.toNat < 1024 * (heads.toNat + 2 * fuel) →
        2 ≤ (fitHeads tracks fuel heads).toNat ∧ (fitHeads tracks fuel heads).toNat ≤ 16 ∧
          tracks.toNat / (fitHeads tracks fuel heads).toNat < 1024 := by
  induction fuel with
  | zero =>
    intro heads hlow hhigh _ hfuel
    refine ⟨hlow, hhigh, ?_⟩
    apply Nat.div_lt_of_lt_mul
    change tracks.toNat < heads.toNat * 1024
    omega
  | succ fuel ih =>
    intro heads hlow hhigh heven hfuel
    have hdiv : (tracks / heads).toNat = tracks.toNat / heads.toNat := BitVec.toNat_udiv
    unfold fitHeads
    by_cases hmore : tracks / heads ≥ 1024
    · rw [if_pos hmore]
      have hge : 1024 ≤ tracks.toNat / heads.toNat := by
        rw [← hdiv]
        exact BitVec.le_def.mp hmore
      have hmul : 1024 * heads.toNat ≤ tracks.toNat :=
        (Nat.le_div_iff_mul_le (by omega)).mp hge
      have hnext : (heads + 2).toNat = heads.toNat + 2 := by
        rw [BitVec.toNat_add]
        change (heads.toNat + 2) % _ = _
        omega
      exact ih (heads + 2) (by omega) (by omega) (by omega) (by omega)
    · rw [if_neg hmore]
      refine ⟨hlow, hhigh, ?_⟩
      rw [← hdiv]
      exact BitVec.lt_def.mp (BitVec.not_le.mp hmore)

/-- A geometry derived from 124 blocks or more, and less than 16384 tracks, fits. -/
theorem fits_of_feasible {v : Vide} {blocks : ULong}
    (hv : (v.cylinders, v.heads, v.sectors) = feasibleGeometry blocks)
    (hlow : 124 ≤ blocks.toNat) (hhigh : blocks.toNat < 62 * 16384) : Fits v := by
  simp only [feasibleGeometry, Prod.mk.injEq] at hv
  obtain ⟨hcyls, hheads, hsectors⟩ := hv
  have htracks : (blocks / 62).toNat = blocks.toNat / 62 := BitVec.toNat_udiv
  have hsmall : (blocks / 62).toNat < 16384 := by omega
  obtain ⟨htwo, hsixteen, hlt⟩ := fitHeads_spec hsmall (blocks / 62).toNat 2 (by decide)
    (by decide) (by decide) (by change _ < 1024 * (2 + _); omega)
  have hcylinders : v.cylinders.toNat = (blocks / 62).toNat / v.heads.toNat := by
    rw [hcyls, hheads, BitVec.toNat_udiv]
  rw [← hheads] at htwo hsixteen hlt
  refine ⟨?_, ?_, by omega, hsixteen, ?_⟩
  · rw [hcylinders]
    apply (Nat.one_le_div_iff (by omega)).mpr
    -- few tracks have two heads
    by_cases hfew : (blocks / 62).toNat < 2048
    · have hstop : v.heads = 2 := by
        rw [hheads]
        have hnot : ¬blocks / 62 / 2 ≥ 1024 := by
          rw [ge_iff_le, BitVec.le_def, BitVec.toNat_udiv]
          change ¬1024 ≤ _ / 2
          omega
        generalize (blocks / 62).toNat = fuel
        cases fuel with
        | zero => rfl
        | succ fuel =>
          unfold fitHeads
          rw [if_neg hnot]
      rw [hstop]
      change 2 ≤ _
      omega
    · omega
  · rw [hcylinders]
    omega
  · rw [hsectors]
    decide

/-! ## The last block -/

/-- No call that ends with the last block is accepted. -/
theorem badArg_of_last {v : Vide} (hv : Sized v) {r : BlockRequest}
    (hend : (r.blkno v).toNat + r.count = capacity v) : r.badArg v = true := by
  rw [← Bool.not_eq_false]
  intro hgood
  have hlt := end_lt_of_badArg_eq_false hgood
  rw [hv.toNat_blocks, BitVec.toNat_add, BitVec.toNat_ofNat, Nat.add_mod_mod, hend] at hlt
  exact lt_irrefl _ hlt

/-- A disk with blocks has a last one, and the call for it is refused. -/
theorem not_usable_of_capacity {v : Vide} (hv : Sized v) (hne : capacity v ≠ 0) : ¬Usable v := by
  intro h
  have regs := oneSectorRegs ⟨0, 0, 1⟩
  obtain ⟨t, ⟨ht, haddr⟩, -⟩ := h.addresses regs (capacity v - 1) (by omega)
  obtain ⟨call, hcall⟩ := haddr.encodes
  have hend : (call.request.blkno v).toNat + call.request.count = capacity v := by
    rw [haddr.blkno call hcall.request, hcall.count]
    omega
  have hpos : 0 < call.request.count := by
    rw [hcall.count]
    exact Nat.one_pos
  have hgood := h.reaches_end regs call t ht hcall.isTransfer hcall.request hpos hend
  rw [badArg_of_last hv hend] at hgood
  cases hgood

/-- **Disk geometry.** The reported geometry is good for every access if and only if there is no
block to access. -/
theorem usable_iff (spec : VideSpec) :
    Usable (createVide spec) ↔ capacity (createVide spec) = 0 := by
  constructor
  · intro h
    by_contra hne
    exact not_usable_of_capacity (sized_createVide spec) hne h
  · intro hzero
    refine ⟨?_, ?_, ?_⟩
    · intro _ b hb
      omega
    · intro _ b _ hb
      omega
    · intro _ _ _ _ _ _ hpos hend
      omega

/-- A file of 20 MiB gives 330 cylinders of 2 heads and 62 sectors. Cylinder 329, head 1, sector
62 is refused. -/
theorem smallDisk_not_usable :
    (oneSectorRegs ⟨329, 1, 62⟩).request.badArg (createVide (.file 0x1400000 none)) = true ∧
      ¬Usable (createVide (.file 0x1400000 none)) := by
  refine ⟨by decide, ?_⟩
  exact not_usable_of_capacity (sized_createVide _) (by decide)

end Vmm386.Vbios
