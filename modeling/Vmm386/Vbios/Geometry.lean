import Vmm386.Vide.Confinement

/-!
# The geometry of a virtual disk, as the guest sees it

Function 8 of `INT 13h` (`drivers/virtual/vbios/disk.c`) reports the geometry of the disk in
the fields of `ecx` and `edx` that functions 2 and 3 take a cylinder, a head and a sector from.
The command registers of the controller take the same triple.
-/

namespace Vmm386.Vbios

open VideModule

/-! ## Function 8 -/

/-- `SET16`. -/
def set16 (x v : ULong) : ULong := (x &&& 0xffff0000) ||| (v &&& 0xffff)

/-- `get_geom`, and function 8 of `vbios_disk_handler` for the hard disk: the largest cylinder
and head, and the number of sectors. -/
def getParameters (vide : Option Vide) (regs : DiskRegs) : DiskRegs :=
  match vide with
  | some v =>
    let heads := v.heads - 1
    let cyls := v.cylinders - 1
    { regs with
      edx := set16 regs.edx (1 ||| (heads <<< 8))
      ecx := set16 regs.ecx
        (((cyls &&& 0xff) <<< 8) ||| (v.sectors &&& 0x3f) ||| ((cyls &&& 0x0300) >>> 2)) }
  | none => { regs with edx := set16 regs.edx 0 }

/-- Numbers of cylinders, heads and sectors. -/
structure Geometry where
  cylinders : ℕ
  heads : ℕ
  sectors : ℕ

/-- What the guest reads in the registers that function 8 returns. They hold the last triple of
the disk, in the fields of a request. -/
def reportedGeometry (v : Vide) (regs : DiskRegs) : Geometry where
  cylinders := (getParameters (some v) regs).request.cyl.toNat + 1
  heads := (getParameters (some v) regs).request.head.toNat + 1
  sectors := (getParameters (some v) regs).request.sector.toNat

/-! ## Triples -/

/-- A cylinder, a head and a sector, which is counted from 1. -/
structure Chs where
  cyl : ℕ
  head : ℕ
  sector : ℕ
deriving DecidableEq, Repr

/-- The triple is one of the geometry. -/
structure Geometry.Has (g : Geometry) (t : Chs) : Prop where
  cyl : t.cyl < g.cylinders
  head : t.head < g.heads
  sector_pos : 1 ≤ t.sector
  sector : t.sector ≤ g.sectors

/-- The request of a call is for the triple. -/
structure RequestAt (r : BlockRequest) (t : Chs) : Prop where
  cyl : r.cyl.toNat = t.cyl
  head : r.head.toNat = t.head
  sector : r.sector.toNat = t.sector

/-- The command registers hold the triple. -/
structure CommandAt (v : Vide) (t : Chs) : Prop where
  cyl : v.highCyl.toNat * 256 + v.lowCyl.toNat = t.cyl
  head : (v.select &&& 0x0f).toNat = t.head
  sector : v.sector.toNat = t.sector

/-- A call of function 2 or 3 for one sector. -/
structure OneSector (regs : DiskRegs) (t : Chs) : Prop where
  isTransfer : regs.isTransfer = true
  request : RequestAt regs.request t
  count : regs.request.count = 1

/-- The triple is the address of block `b`: it fits in the fields of both interfaces, and each
of them makes `b` of it. The registers of the controller are those of any later state. -/
structure Addresses (v : Vide) (t : Chs) (b : ℕ) : Prop where
  encodes : ∃ regs, OneSector regs t
  blkno : ∀ regs : DiskRegs, RequestAt regs.request t → (regs.request.blkno v).toNat = b
  programs : ∃ v', v'.shape = v.shape ∧ CommandAt v' t
  block : ∀ v', v'.shape = v.shape → CommandAt v' t → (makeBlkno v').block.toNat = b

/-! ## Access to one sector -/

/-- A call for the sector is accepted, and it transfers block `b` when the backing of the disk
can. -/
structure BiosTransfers (w : World) (v : Vide) (regs : DiskRegs) (b : ULong) : Prop where
  accepted : regs.request.badArg v = false
  reads : get8H regs.eax = 2 →
    let r := readOneBlock w v.vdisk b (Vector.replicate 512 0)
    r.ok = true →
      (readUserBlocks w v regs.request).2 =
        (some 1, r.effects ++ [.copyToUser regs.request.buf r.buf])
  writes : get8H regs.eax = 3 →
    let r := writeOneBlock w v.vdisk b (w.user regs.request.buf)
    r.ok = true → (writeUserBlocks w v regs.request).2 = (some 1, r.effects)

/-- A READ command for one sector fills the buffer with block `b` when the backing can, and a
WRITE command leaves the controller at block `b`. -/
structure PortTransfers (w : World) (v : Vide) (b : ULong) : Prop where
  exists_block : b < v.blocks
  reads :
    let r := readOneBlock w v.vdisk b v.buf
    r.ok = true →
      (videCommand w v HD_CMD_READ).1.buf = r.buf ∧
        (videCommand w v HD_CMD_READ).1.status = DATA_RDY_STAT
  writes : (videCommand w v HD_CMD_WRITE).1.block = b ∧
    (videCommand w v HD_CMD_WRITE).1.status = DATA_RDY_STAT

/-- One-sector accesses to the triple are accepted and transfer block `b`, in every world. -/
structure Serves (v : Vide) (t : Chs) (b : ULong) : Prop where
  bios : ∀ w regs, OneSector regs t → BiosTransfers w v regs b
  ports : ∀ w v', v'.shape = v.shape → v'.numSectors = 1 → CommandAt v' t → PortTransfers w v' b

/-! ## What a guest relies on -/

/-- The number of blocks of the geometry. -/
def capacity (v : Vide) : ℕ := v.cylinders.toNat * v.heads.toNat * v.sectors.toNat

/-- The reported geometry is good for every access to the disk. -/
structure Usable (v : Vide) : Prop where
  addresses : ∀ regs, ∀ b < capacity v, ∃! t, (reportedGeometry v regs).Has t ∧ Addresses v t b
  serves : ∀ regs (b : ULong) t, b.toNat < capacity v → (reportedGeometry v regs).Has t →
    Addresses v t b.toNat → Serves v t b
  reaches_end : ∀ regs (call : DiskRegs) t, (reportedGeometry v regs).Has t →
    call.isTransfer = true → RequestAt call.request t → 0 < call.request.count →
      (call.request.blkno v).toNat + call.request.count = capacity v →
        call.request.badArg v = false

end Vmm386.Vbios
