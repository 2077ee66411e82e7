import Vmm386.Vide.TransferBuffer

/-!
# `INT 13h` reads and writes

Functions 2 and 3 of `vbios_disk_handler` (`drivers/virtual/vbios/disk.c`), with the virtual
floppy drive (`drivers/virtual/vfloppy/vfloppy.c`) that they read.
-/

namespace Vmm386.Vbios

open VideModule

abbrev FLAGS_CF : ULong := 1

abbrev HD_ERR_AMNF : UChar := 0x01

/-! ## The floppy drive -/

/-- `struct vfloppy`. The file is left to the world; `file` tells whether there is one. -/
structure Vfloppy where
  gotDisk : Bool
  isFile : Bool
  file : Bool
  sectorsPerTrack : ULong
  lastStat : UShort
  status : UShort
  error : UShort

/-- The answers of the file system for the image file: whether it can seek to a block, and the
blocks it reads from there on, each time 512 bytes or less. -/
structure FloppyWorld where
  seek : ULong → Bool
  read : ULong → ℕ → Option Sector

/-- `create_vfloppy`, without an image. -/
def createVfloppy : Vfloppy where
  gotDisk := false
  isFile := false
  file := false
  sectorsPerTrack := 0
  lastStat := 0
  status := 0
  error := 0

/-- `change_vfloppy`: the size of the new file, if it can be opened. -/
def changeVfloppy (f : Vfloppy) : Option ULong → Vfloppy
  | some size => { f with
      gotDisk := true, isFile := true, file := true
      sectorsPerTrack := size / (512 * 160), lastStat := 0 }
  | none => { f with gotDisk := false }

/-- `kill_vfloppy`. -/
def killVfloppy (f : Vfloppy) : Vfloppy := { f with file := false }

/-- The loop of `vfloppy_read_sectors`: `n` blocks are still to be read, `i` were. -/
def readFile (fw : FloppyWorld) (blkno : ULong) : ℕ → ℕ → ULong → Transfer
  | 0, _, _ => ⟨0, []⟩
  | n + 1, i, addr =>
    match fw.read blkno i with
    | some data =>
      let t := readFile fw blkno n (i + 1) (addr + 512)
      ⟨t.actual + 1, .copyToUser addr data :: t.effects⟩
    | none => ⟨0, []⟩

/-- `blkno` of `vfloppy_read_sectors`. -/
def floppyBlkno (f : Vfloppy) (r : BlockRequest) : ULong :=
  (r.sector - 1) + r.head * f.sectorsPerTrack + r.cyl * 2 * f.sectorsPerTrack

/-- `vfloppy_read_sectors`. -/
def vfloppyReadSectors (fw : FloppyWorld) (f : Vfloppy) (r : BlockRequest) : Vfloppy × Transfer :=
  if f.gotDisk = false then ({ f with lastStat := 0x80 }, ⟨0, []⟩)
  else if r.head ≥ 2 ∨ r.cyl ≥ 80 ∨ r.sector - 1 ≥ f.sectorsPerTrack then
    ({ f with lastStat := 0x04 }, ⟨0, []⟩)
  else if fw.seek (floppyBlkno f r) = false then ({ f with lastStat := 0x04 }, ⟨0, []⟩)
  else
    let t := readFile fw (floppyBlkno f r) r.count 0 r.buf
    ({ f with lastStat := if t.actual = r.count then 0 else 0x0c }, t)

/-- What happens to a floppy drive. -/
inductive FloppyOp where
  | change (size : Option ULong)
  | kill
  | read (fw : FloppyWorld) (r : BlockRequest)

def floppyStep (f : Vfloppy) : FloppyOp → Vfloppy
  | .change size => changeVfloppy f size
  | .kill => killVfloppy f
  | .read fw r => (vfloppyReadSectors fw f r).1

/-! ## The handler -/

/-- The drives of a virtual machine, if it has them. -/
structure Drives where
  vide : Option Vide
  floppy : Option Vfloppy

/-- The registers that a call returns its status in. -/
structure Status where
  eax : ULong
  eflags : ULong

/-- The register AH. -/
def Status.ah (s : Status) : ULong := get8H s.eax

/-- The carry flag. -/
def Status.carry (s : Status) : Prop := s.eflags &&& FLAGS_CF ≠ 0

/-- `SET8H` of `eax`, and `CLC` or `STC`. -/
def statusOf (regs : DiskRegs) (eflags ah : ULong) : Status where
  eax := (regs.eax &&& 0xffff00ff) ||| ((ah &&& 0xff) <<< 8)
  eflags := if ah = 0 then eflags &&& ~~~FLAGS_CF else eflags ||| FLAGS_CF

/-- The BIOS status for `get_status` of a device. -/
def biosStatus : Option (UChar × UChar) → ULong
  | some (stat, err) =>
    if stat &&& HD_STAT_ERR ≠ 0 then
      if err &&& HD_ERR_AMNF ≠ 0 then 0x02
      else if err &&& HD_ERR_IDNF ≠ 0 then 0x04
      else if err &&& HD_ERR_UNK ≠ 0 then 0x11
      else 0x20
    else 0
  | none => 0xbb

/-- `get_status` of vide, and `get_hd_stat`. -/
def getHdStat (d : Drives) (regs : DiskRegs) (eflags : ULong) : Status :=
  statusOf regs eflags (biosStatus (d.vide.map fun v => (v.status, v.error)))

/-- `vfloppy_get_status`, and `get_fd_stat`. -/
def getFdStat (d : Drives) (regs : DiskRegs) (eflags : ULong) : Status :=
  statusOf regs eflags
    (biosStatus (d.floppy.map fun f => (f.status.truncate 8, f.error.truncate 8)))

/-- The end of a call: its status, the number of sectors that were transferred, and the
drives. -/
structure Outcome where
  status : Status
  transferred : ℕ
  drives : Drives
  effects : List Effect

/-- Function 2 for the floppy drive. -/
def floppyRead (fw : FloppyWorld) (d : Drives) (regs : DiskRegs) (eflags : ULong) : Outcome :=
  match d.floppy with
  | none => ⟨getFdStat d regs eflags, 0, d, []⟩
  | some f =>
    let r := vfloppyReadSectors fw f regs.request
    let d := { d with floppy := some r.1 }
    ⟨getFdStat d regs eflags, r.2.actual, d, r.2.effects⟩

/-- Functions 2 and 3 for the hard disk. -/
def hardDisk (w : World) (d : Drives) (regs : DiskRegs) (eflags : ULong) : Outcome :=
  match d.vide with
  | none => ⟨getHdStat d regs eflags, 0, d, []⟩
  | some v =>
    let r := if get8H regs.eax = 2 then readUserBlocks w v regs.request
      else writeUserBlocks w v regs.request
    let d := { d with vide := some r.1 }
    ⟨getHdStat d regs eflags, r.2.1.getD 0, d, r.2.2⟩

/-- The two branches of `vbios_disk_handler`, for function 2 or 3. -/
def diskRequest (w : World) (fw : FloppyWorld) (d : Drives) (regs : DiskRegs)
    (eflags : ULong) : Outcome :=
  if regs.edx &&& 0x80 = 0 then
    if regs.edx &&& 0x7f ≠ 0 then ⟨statusOf regs eflags 0xff, 0, d, []⟩
    else if get8H regs.eax = 2 then floppyRead fw d regs eflags
    else
      -- there is no write for the floppy drive; AL becomes zero too
      ⟨{ statusOf regs eflags 3 with eax := (regs.eax &&& 0xffff0000) ||| 0x0300 }, 0, d, []⟩
  else if regs.edx &&& 0x7f ≠ 0 then ⟨statusOf regs eflags 0xff, 0, d, []⟩
  else hardDisk w d regs eflags

/-- `vbios_disk_handler`. The functions other than 2 and 3 transfer no sectors and are left
out. -/
def vbiosDiskHandler (w : World) (fw : FloppyWorld) (d : Drives) (regs : DiskRegs)
    (eflags : ULong) : Option Outcome :=
  if get8H regs.eax = 2 ∨ get8H regs.eax = 3 then some (diskRequest w fw d regs eflags)
  else none

/-! ## What a caller is told -/

/-- The call tells the truth: it reports success and all sectors were transferred, or it
reports an error. -/
def Outcome.Honest (o : Outcome) (count : ℕ) : Prop :=
  (¬o.status.carry ∧ o.status.ah = 0 ∧ count ≤ o.transferred) ∨
    (o.status.carry ∧ o.status.ah ≠ 0)

/-- Each of `n` blocks from `blkno` on can be read, in this order. -/
def ReadsOk (w : World) (vdisk : Vdisk) : ℕ → ULong → Sector → Prop
  | 0, _, _ => True
  | n + 1, blkno, tmp =>
    (readOneBlock w vdisk blkno tmp).ok = true ∧
      ReadsOk w vdisk n (blkno + 1) (readOneBlock w vdisk blkno tmp).buf

/-- Each of `n` blocks from `blkno` on can be written, in this order. -/
def WritesOk (w : World) (vdisk : Vdisk) : ℕ → ULong → ULong → Prop
  | 0, _, _ => True
  | n + 1, blkno, addr =>
    (writeOneBlock w vdisk blkno (w.user addr)).ok = true ∧
      WritesOk w vdisk n (blkno + 1) (addr + 512)

/-- The request is for blocks of the virtual disk, and each of them can be transferred. -/
def DiskOk (w : World) (v : Vide) (regs : DiskRegs) : Prop :=
  regs.request.badArg v = false ∧
    if get8H regs.eax = 2 then
      ReadsOk w v.vdisk regs.request.count (regs.request.blkno v) (Vector.replicate 512 0)
    else WritesOk w v.vdisk regs.request.count (regs.request.blkno v) regs.request.buf

/-- There is a disk in the floppy drive, the request is for blocks of it, and each of them can
be read. -/
def FloppyOk (fw : FloppyWorld) (f : Vfloppy) (r : BlockRequest) : Prop :=
  f.gotDisk = true ∧ r.head < 2 ∧ r.cyl < 80 ∧ r.sector - 1 < f.sectorsPerTrack ∧
    fw.seek (floppyBlkno f r) = true ∧ ∀ i < r.count, (fw.read (floppyBlkno f r) i).isSome

/-- The call fails, and nothing in the drives' status registers tells so. -/
def FailsSilently (w : World) (fw : FloppyWorld) (d : Drives) (regs : DiskRegs) : Prop :=
  regs.edx &&& 0x7f = 0 ∧ regs.request.count ≠ 0 ∧
    if regs.edx &&& 0x80 = 0 then
      get8H regs.eax = 2 ∧ ∃ f, d.floppy = some f ∧ ¬FloppyOk fw f regs.request
    else ∃ v, d.vide = some v ∧ ¬DiskOk w v regs

end Vmm386.Vbios
