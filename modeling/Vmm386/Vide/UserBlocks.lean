import Vmm386.Vide.Port

/-!
# Disk BIOS access to the virtual IDE disk

`read_user_blocks` and `write_user_blocks` (`vide.c`) move whole blocks between the disk
and the guest's memory, for the hard-disk functions 2 and 3 of `INT 13h`
(`drivers/virtual/vbios/disk.c`). The guest picks every argument.
-/

namespace Vmm386.VideModule

/-- `set_stat`. In the source `RDY_STAT | ok` is the condition of `? :`, so the status is
cleared whatever happened. -/
def setStat (v : Vide) (ok write : Bool) (err : UChar) : Vide :=
  { v with
    status := if RDY_STAT ||| (if ok then 1 else 0) ≠ 0 then 0
      else if write then WERR_STAT else ERR_STAT
    error := if ok then 0 else err }

/-- The arguments of `read_user_blocks` and `write_user_blocks`. -/
structure BlockRequest where
  drvno : ULong
  head : ULong
  cyl : ULong
  sector : ULong
  count : ℕ
  buf : ULong
deriving DecidableEq, Repr

/-- `blkno`, in 32-bit arithmetic. -/
def BlockRequest.blkno (r : BlockRequest) (v : Vide) : ULong :=
  (r.sector - 1) + r.head * v.sectors + r.cyl * v.heads * v.sectors

/-- The test of the arguments that both functions make. -/
def BlockRequest.badArg (r : BlockRequest) (v : Vide) : Bool :=
  r.drvno ≠ 0 || r.head ≥ v.heads || r.cyl ≥ v.cylinders || r.sector > v.sectors
    || r.blkno v + BitVec.ofNat 32 r.count ≥ v.blocks

/-- A loop over blocks: how many were moved, and what the loop did outside the controller. -/
structure Transfer where
  actual : ℕ
  effects : List Effect

/-- The loop of `read_user_blocks`: `n` blocks are still wanted from `blkno` on, for the
guest address `addr`. -/
def readLoop (w : World) (v : Vide) : ℕ → ULong → Sector → ULong → Transfer
  | 0, _, _, _ => ⟨0, []⟩
  | n + 1, blkno, tmp, addr =>
    let r := readOneBlock w v.vdisk blkno tmp
    if r.ok then
      let t := readLoop w v n (blkno + 1) r.buf (addr + 512)
      ⟨t.actual + 1, r.effects ++ .copyToUser addr r.buf :: t.effects⟩
    else ⟨0, r.effects⟩

/-- The loop of `write_user_blocks`, which tests its count at the end: one block, then at
most `n` more. `addr` is the guest address the block is copied from. -/
def writeLoop (w : World) (v : Vide) : ℕ → ULong → ULong → Transfer
  | n, blkno, addr =>
    let r := writeOneBlock w v.vdisk blkno (w.user addr)
    if r.ok then
      match n with
      | 0 => ⟨1, r.effects⟩
      | n + 1 =>
        let t := writeLoop w v n (blkno + 1) (addr + 512)
        ⟨t.actual + 1, r.effects ++ t.effects⟩
    else ⟨0, r.effects⟩

/-- `read_user_blocks`. -/
def readUserBlocks (w : World) (v : Vide) (r : BlockRequest) : Vide × Option ℕ × List Effect :=
  if r.badArg v then (setStat v false false HD_ERR_IDNF, none, [])
  else
    let t := readLoop w v r.count (r.blkno v) (Vector.replicate 512 0) r.buf
    (setStat v (t.actual = r.count) false HD_ERR_UNK, some t.actual, t.effects)

/-- `write_user_blocks`. -/
def writeUserBlocks (w : World) (v : Vide) (r : BlockRequest) : Vide × Option ℕ × List Effect :=
  if r.badArg v then (setStat v false false HD_ERR_IDNF, none, [])
  else
    let t := writeLoop w v (r.count - 1) (r.blkno v) r.buf
    (setStat v (t.actual = r.count) true HD_ERR_UNK, some t.actual, t.effects)

/-! ## The `INT 13h` interface -/

/-- The registers the hard-disk functions 2 and 3 read. -/
structure DiskRegs where
  eax : ULong
  ebx : ULong
  ecx : ULong
  edx : ULong
  es : UShort

def get8 (x : ULong) : ULong := x &&& 0xff

def get8H (x : ULong) : ULong := (x &&& 0xff00) >>> 8

def get16 (x : ULong) : ULong := x &&& 0xffff

/-- The request `vbios_disk_handler` makes of vide for function 2 or 3. -/
def DiskRegs.request (regs : DiskRegs) : BlockRequest where
  drvno := 0
  head := get8H regs.edx
  cyl := get8H regs.ecx ||| ((get8 regs.ecx &&& 0xc0) <<< 2)
  sector := get8 regs.ecx &&& 0x3f
  count := (get8 regs.eax).toNat
  buf := (regs.es.setWidth 32 <<< 4) + get16 regs.ebx

/-- `vbios_disk_handler` selects the first hard disk (`dl = 80h`) and function 2 or 3. -/
def DiskRegs.isTransfer (regs : DiskRegs) : Bool :=
  regs.edx &&& 0xff = 0x80 && (get8H regs.eax = 2 || get8H regs.eax = 3)

/-- What functions 2 and 3 of `vbios_disk_handler` do to the controller and to the disk. -/
def int13Transfer (w : World) (v : Vide) (regs : DiskRegs) : Vide × List Effect :=
  if regs.isTransfer then
    if get8H regs.eax = 2 then
      let r := readUserBlocks w v regs.request
      (r.1, r.2.2)
    else
      let r := writeUserBlocks w v regs.request
      (r.1, r.2.2)
  else (v, [])

/-! ## Guest accesses -/

/-- One access of the guest to its virtual disk. -/
inductive GuestOp where
  | portIn (port : UShort) (size : IoSize)
  | portOut (port : UShort) (size : IoSize) (val : ULong)
  | int13 (regs : DiskRegs)

/-- An access together with the answers the world gives during it. -/
structure Access where
  op : GuestOp
  world : World

/-- One guest access. -/
def step (v : Vide) (a : Access) : Except BufOverrun (Vide × List Effect) :=
  match a.op with
  | .portIn port size => (videIn a.world v port size).map (·.2)
  | .portOut port size val => videOut a.world v port size val
  | .int13 regs => .ok (int13Transfer a.world v regs)

/-- A sequence of guest accesses, up to the first one that leaves `buf`. -/
def runGuest (v : Vide) : List Access → Except BufOverrun Vide
  | [] => .ok v
  | a :: as => do
    let (v, _) ← step v a
    runGuest v as

end Vmm386.VideModule
