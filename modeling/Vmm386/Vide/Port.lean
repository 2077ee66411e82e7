import Vmm386.Hd.Generic

/-!
# The virtual IDE controller (`drivers/virtual/vide/vide.c`): creation and port I/O

The guest sees one disk behind the ports `0x1f0`-`0x1f7` and `0x3f6`. A disk is backed by
a file or by a partition; each guest access may call the backing, whose answers come from
a `World` that is chosen afresh for every access.

A data-register access that leaves the 512 bytes of `buf` has no meaning in the model: it
ends the run with a `BufOverrun`.
-/

namespace Vmm386.VideModule

open Hd

/-! ## Hardware values (`vmm/hdreg.h`) -/

def HD_DATA : UShort := 0x1f0
def HD_ERROR : UShort := 0x1f1
def HD_FEATURE : UShort := HD_ERROR
def HD_NSECTOR : UShort := 0x1f2
def HD_SECTOR : UShort := 0x1f3
def HD_LCYL : UShort := 0x1f4
def HD_HCYL : UShort := 0x1f5
def HD_CURRENT : UShort := 0x1f6
def HD_STATUS : UShort := 0x1f7
def HD_COMMAND : UShort := HD_STATUS
def HD_DEVCTRL : UShort := 0x3f6
def HD_ALTSTATUS : UShort := HD_DEVCTRL

def HD_ERR_ABRT : UChar := 0x04
def HD_ERR_IDNF : UChar := 0x10
def HD_ERR_UNK : UChar := 0x40
def HD_ERR_BBK : UChar := 0x80

def HD_STAT_ERR : UChar := 0x01
def HD_STAT_DSC : UChar := 0x10
def HD_STAT_DWF : UChar := 0x20
def HD_STAT_DRDY : UChar := 0x40
def HD_STAT_BSY : UChar := 0x80

def HD_nIEN : UChar := 0x02
def HD_SRST : UChar := 0x04

def HD_CMD_RECAL : ULong := 0x10
def HD_CMD_READ : ULong := 0x20
def HD_CMD_WRITE : ULong := 0x30
def HD_CMD_SEEK : ULong := 0x70

def RDY_STAT : UChar := HD_STAT_DRDY ||| HD_STAT_DSC

/-- The source builds this from `HD_STAT_DRDY`, not from the data-request bit, so it is
`RDY_STAT` again. -/
def DATA_RDY_STAT : UChar := RDY_STAT ||| HD_STAT_DRDY

def ERR_STAT : UChar := HD_STAT_ERR
def WERR_STAT : UChar := HD_STAT_ERR ||| HD_STAT_DWF
def BUSY_STAT : UChar := HD_STAT_BSY

/-! ## The controller -/

/-- What stands behind a virtual disk. -/
inductive Vdisk where
  | file
  | disk (p : HdPartition)

/-- `struct vide`, without the links to its virtual machine. -/
structure Vide where
  vdisk : Vdisk
  blocks : ULong
  cylinders : ULong
  heads : ULong
  sectors : ULong
  irq : UChar
  error : UChar
  features : UChar
  numSectors : UChar
  sector : UChar
  lowCyl : UChar
  highCyl : UChar
  select : UChar
  status : UChar
  command : UChar
  devctrl : UChar
  intrq : Bool
  bufIndex : ULong
  block : ULong
  blocksLeft : ULong
  buf : Sector

/-- The answers of the file system and of the disk driver during one guest access. The
seek and the read (or write) of a block of the backing file count as one call. -/
structure World where
  fileRead : ULong → Sector → Bool × Sector
  fileWrite : ULong → Sector → Bool
  hd : HdDriver
  user : ULong → Sector

/-- What a guest access does outside the controller: the interrupt it raises, the physical
sectors it asks the disk driver to transfer, and the data it copies to guest memory. -/
inductive Effect where
  | simulateIrq (irq : UChar)
  | readPhys (sector : ULong)
  | writePhys (sector : ULong)
  | copyToUser (addr : ULong) (data : Sector)
deriving DecidableEq

/-- The disk image a vide is created over: a file of `size` bytes with the optional
`TOTAL-BLOCKS` argument, or a partition. -/
inductive VideSpec where
  | file (size : ULong) (totalBlocks : Option ULong)
  | disk (p : HdPartition)

/-- The loop of `create_vide` that adds heads until the BIOS can address all cylinders. The
fuel is the number of tracks, more than the loop ever needs. -/
def fitHeads (tracks : ULong) : ℕ → ULong → ULong
  | 0, heads => heads
  | fuel + 1, heads => if tracks / heads ≥ 1024 then fitHeads tracks fuel (heads + 2) else heads

/-- Cylinders, heads and sectors derived from a number of blocks. -/
def feasibleGeometry (blocks : ULong) : ULong × ULong × ULong :=
  let tracks := blocks / 62
  let heads := fitHeads tracks tracks.toNat 2
  (tracks / heads, heads, 62)

/-- The geometry `create_vide` gives a virtual disk: that of the physical disk when the
partition spans it, else a feasible one. -/
def VideSpec.geometry : VideSpec → ULong × ULong × ULong
  | .file size none => feasibleGeometry (size / 512)
  | .file _ (some blocks) => feasibleGeometry blocks
  | .disk p =>
    if p.size = p.hd.totalBlocks then (p.hd.cylinders, p.hd.heads, p.hd.sectors)
    else feasibleGeometry p.size

def VideSpec.vdisk : VideSpec → Vdisk
  | .file _ _ => .file
  | .disk p => .disk p

/-- `create_vide`, once the image is open and the structure allocated (zero filled). -/
def createVide (spec : VideSpec) : Vide :=
  let (cylinders, heads, sectors) := spec.geometry
  { vdisk := spec.vdisk
    blocks := cylinders * heads * sectors
    cylinders, heads, sectors
    irq := 14
    error := 0, features := 0, numSectors := 0, sector := 0, lowCyl := 0, highCyl := 0
    select := 0xA0
    status := RDY_STAT
    command := 0, devctrl := 0
    intrq := false
    bufIndex := 0, block := 0, blocksLeft := 0
    buf := Vector.replicate 512 0 }

/-! ## Block transfers -/

/-- The outcome of `read_one_block` or `write_one_block`. -/
structure IoResult where
  ok : Bool
  buf : Sector
  effects : List Effect

/-- `read_one_block`, which reads only the `vdisk` of its vide. -/
def readOneBlock (w : World) (vdisk : Vdisk) (blkno : ULong) (buf : Sector) : IoResult :=
  match vdisk with
  | .file =>
    let r := w.fileRead blkno buf
    { ok := r.1, buf := r.2, effects := [] }
  | .disk p =>
    let r := hdReadBlock w.hd p blkno buf
    { ok := r.ok, buf := r.buf, effects := r.asked.map .readPhys }

/-- `write_one_block`. -/
def writeOneBlock (w : World) (vdisk : Vdisk) (blkno : ULong) (buf : Sector) : IoResult :=
  match vdisk with
  | .file => { ok := w.fileWrite blkno buf, buf := buf, effects := [] }
  | .disk p =>
    let r := hdWriteBlock w.hd p blkno buf
    { ok := r.ok, buf := r.buf, effects := r.asked.map .writePhys }

/-- `make_irq`. -/
def makeIrq (v : Vide) : Vide × List Effect :=
  ({ v with intrq := true }, if v.devctrl &&& HD_nIEN = 0 then [.simulateIrq v.irq] else [])

/-- `read_next_block`. -/
def readNextBlock (w : World) (v : Vide) : Vide × List Effect :=
  if v.block ≥ v.blocks then
    ({ v with error := HD_ERR_UNK, status := ERR_STAT }, [])
  else
    let r := readOneBlock w v.vdisk v.block v.buf
    if r.ok then
      let m := makeIrq { v with
        buf := r.buf, status := DATA_RDY_STAT, block := v.block + 1
        blocksLeft := v.blocksLeft - 1, bufIndex := 0 }
      (m.1, r.effects ++ m.2)
    else
      ({ v with buf := r.buf, error := HD_ERR_UNK, status := ERR_STAT }, r.effects)

/-- `write_block`. -/
def writeBlock (w : World) (v : Vide) : Vide × List Effect :=
  if v.block ≥ v.blocks then
    ({ v with error := HD_ERR_UNK, status := WERR_STAT }, [])
  else
    let r := writeOneBlock w v.vdisk v.block v.buf
    if r.ok then
      let v := { v with block := v.block + 1, blocksLeft := v.blocksLeft - 1 }
      if v.blocksLeft > 0 then
        let m := makeIrq { v with status := DATA_RDY_STAT }
        ({ m.1 with bufIndex := 0 }, r.effects ++ m.2)
      else
        ({ v with bufIndex := 0 }, r.effects)
    else
      ({ v with error := HD_ERR_BBK, status := WERR_STAT }, r.effects)

/-! ## Port I/O -/

/-- The width of a port access: the `size` argument 1, 2 or 4. -/
inductive IoSize where
  | byte
  | word
  | long
deriving DecidableEq, Repr

def IoSize.bytes : IoSize → ℕ
  | .byte => 1
  | .word => 2
  | .long => 4

/-- A data-register access outside `buf`. -/
structure BufOverrun where
  index : ULong
  size : IoSize
deriving DecidableEq, Repr

/-- The access of `size` bytes at `buf_index` stays in `buf`. -/
def Vide.Fits (v : Vide) (size : IoSize) : Prop := v.bufIndex.toNat + size.bytes ≤ 512

instance (v : Vide) (size : IoSize) : Decidable (v.Fits size) :=
  inferInstanceAs (Decidable (_ ≤ _))

/-- The little-endian value of the `size` bytes of `buf` at `i`. -/
def loadBuf (buf : Sector) (i : ℕ) (size : IoSize) : ULong :=
  (List.range size.bytes).foldr (fun k acc => acc <<< 8 ||| (buf[i + k]?.getD 0).setWidth 32) 0

/-- Store the low `size` bytes of `val` in `buf` at `i`. -/
def storeBuf (buf : Sector) (i : ℕ) (size : IoSize) (val : ULong) : Sector :=
  (List.range size.bytes).foldl
    (fun b k => b.setIfInBounds (i + k) ((val >>> (8 * k)).setWidth 8)) buf

/-- The data register of `vide_in`. -/
def videInData (w : World) (v : Vide) (size : IoSize) :
    Except BufOverrun (ULong × Vide × List Effect) :=
  if v.Fits size then
    let val := loadBuf v.buf v.bufIndex.toNat size
    let v := { v with bufIndex := v.bufIndex + BitVec.ofNat 32 size.bytes }
    if v.bufIndex ≥ 256 then
      let v := { v with status := RDY_STAT }
      if v.blocksLeft > 0 then .ok (val, readNextBlock w v) else .ok (val, v, [])
    else .ok (val, v, [])
  else .error ⟨v.bufIndex, size⟩

/-- `vide_in`. -/
def videIn (w : World) (v : Vide) (port : UShort) (size : IoSize) :
    Except BufOverrun (ULong × Vide × List Effect) :=
  if port = HD_DATA then videInData w v size
  else if port = HD_ERROR then .ok (v.error.setWidth 32, v, [])
  else if port = HD_NSECTOR then .ok (v.numSectors.setWidth 32, v, [])
  else if port = HD_SECTOR then .ok (v.sector.setWidth 32, v, [])
  else if port = HD_LCYL then .ok (v.lowCyl.setWidth 32, v, [])
  else if port = HD_HCYL then .ok (v.highCyl.setWidth 32, v, [])
  else if port = HD_CURRENT then .ok (v.select.setWidth 32, v, [])
  else if port = HD_STATUS then .ok (v.status.setWidth 32, { v with intrq := false }, [])
  else if port = HD_ALTSTATUS then .ok (v.status.setWidth 32, v, [])
  else .ok (-1, v, [])

/-- `make_blkno`. -/
def makeBlkno (v : Vide) : Vide :=
  { v with block :=
      (v.sector.setWidth 32 - 1)
        + (v.select &&& 0x0f).setWidth 32 * v.sectors
        + (v.highCyl.setWidth 32 <<< 8 + v.lowCyl.setWidth 32) * v.heads * v.sectors }

/-- The data register of `vide_out`. -/
def videOutData (w : World) (v : Vide) (size : IoSize) (val : ULong) :
    Except BufOverrun (Vide × List Effect) :=
  if v.Fits size then
    let v := { v with
      buf := storeBuf v.buf v.bufIndex.toNat size val
      bufIndex := v.bufIndex + BitVec.ofNat 32 size.bytes }
    if v.bufIndex ≥ 256 then .ok (writeBlock w { v with status := RDY_STAT }) else .ok (v, [])
  else .error ⟨v.bufIndex, size⟩

/-- The command register of `vide_out`. -/
def videCommand (w : World) (v : Vide) (val : ULong) : Vide × List Effect :=
  let v := { v with command := val.setWidth 8 }
  if val = HD_CMD_RECAL ∨ val = HD_CMD_SEEK then makeIrq v
  else if val = HD_CMD_READ then
    let v := makeBlkno v
    readNextBlock w { v with blocksLeft := v.numSectors.setWidth 32 }
  else if val = HD_CMD_WRITE then
    let v := makeBlkno v
    makeIrq { v with blocksLeft := v.numSectors.setWidth 32, status := DATA_RDY_STAT }
  else ({ v with status := ERR_STAT, error := HD_ERR_ABRT }, [])

/-- The device-control register of `vide_out`. A reset leaves the transfer in progress
(`buf_index`, `block`, `blocks_left`) as it is. -/
def videDevctrl (v : Vide) (val : ULong) : Vide :=
  let v := { v with devctrl := val.setWidth 8 }
  if v.devctrl &&& HD_SRST ≠ 0 then
    { v with
      error := 0x01, numSectors := 0x01, sector := 0x01
      lowCyl := 0, highCyl := 0, select := 0
      status := RDY_STAT
      devctrl := v.devctrl &&& ~~~HD_SRST }
  else v

/-- `vide_out`. -/
def videOut (w : World) (v : Vide) (port : UShort) (size : IoSize) (val : ULong) :
    Except BufOverrun (Vide × List Effect) :=
  if port = HD_DATA then videOutData w v size val
  else if port = HD_FEATURE then .ok ({ v with features := val.setWidth 8 }, [])
  else if port = HD_NSECTOR then .ok ({ v with numSectors := val.setWidth 8 }, [])
  else if port = HD_SECTOR then .ok ({ v with sector := val.setWidth 8 }, [])
  else if port = HD_LCYL then .ok ({ v with lowCyl := val.setWidth 8 }, [])
  else if port = HD_HCYL then .ok ({ v with highCyl := val.setWidth 8 }, [])
  else if port = HD_CURRENT then
    -- selecting drive 1, which does not exist, leaves the controller busy
    .ok ({ v with
      select := val.setWidth 8
      status := if val &&& 0x10 ≠ 0 then BUSY_STAT else RDY_STAT }, [])
  else if port = HD_COMMAND then .ok (videCommand w v val)
  else if port = HD_DEVCTRL then .ok (videDevctrl v val, [])
  else .ok (v, [])

end Vmm386.VideModule
