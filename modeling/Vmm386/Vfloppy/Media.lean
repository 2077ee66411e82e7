import Vmm386.Types

/-!
# The virtual floppy drive and its image files (`drivers/virtual/vfloppy/vfloppy.c`)

The drive of one virtual machine. Any task may create it, change its image, or take it away;
only the virtual machine reads from it. A step goes from one call of the file system to the
next, in which the task may sleep. `fs->close` frees its handle at its end.

Neither a handle nor a `struct vfloppy` is used again after it has been freed.
-/

namespace Vmm386.VfloppyModule

variable {I T : Type*}

/-- An open file: the image it is of, its position, and how often it has been closed. -/
structure Handle (I : Type*) where
  image : I
  pos : ULong
  closes : ℕ

/-- `struct vfloppy`. -/
structure Vfloppy where
  gotDisk : Bool
  isFile : Bool
  file : Option ℕ
  sectorsPerTrack : ULong
  lastStat : UShort

/-- `calloc`. -/
def Vfloppy.zero : Vfloppy := ⟨false, false, none, 0, 0⟩

/-- Where a task is, in a call of the file system. -/
inductive MediaPc where
  | idle
  /-- `change_vfloppy`, in `fs->open`. -/
  | opening (flop : Option ℕ)
  /-- `change_vfloppy` with the new handle `f`, in `fs->close` of the old one. -/
  | swapping (flop f : ℕ) (size : ULong) (old : ℕ)
  /-- `kill_vfloppy`, in `fs->close`. -/
  | killing (flop old : ℕ)
  /-- `delete_vfloppy`, in `fs->close`. -/
  | deleting (flop old : ℕ)

/-- The arguments of `vfloppy_read_sectors` that it uses. -/
structure ReadRequest where
  head : ULong
  track : ULong
  sector : ULong
  count : ℕ

/-- Where the virtual machine is in `vfloppy_read_sectors`. `start` is the position of its
first sector, `got` what it has read, the position of each block with its image. -/
inductive ReadPc (I : Type*) where
  | idle
  | seeking (flop : ℕ) (h : Option ℕ) (count : ℕ) (start : ULong)
  | reading (flop : ℕ) (h : Option ℕ) (count : ℕ) (start : ULong) (got : List (I × ULong))

/-- A call of `vfloppy_read_sectors` that has returned. -/
structure ReadReturn (I : Type*) where
  count : ℕ
  start : ULong
  actual : ℕ
  got : List (I × ULong)

/-- The file handles, the drives by their addresses, `vm->slots[vm_slot]`, and the tasks. -/
structure MediaSys (I T : Type*) where
  handles : ℕ → Option (Handle I)
  nextHandle : ℕ
  drives : ℕ → Vfloppy
  nextDrive : ℕ
  slot : Option ℕ
  task : T → MediaPc
  reader : ReadPc I
  returned : List (ReadReturn I)

namespace MediaSys

def init (I T : Type*) : MediaSys I T where
  handles _ := none
  nextHandle := 0
  drives _ := Vfloppy.zero
  nextDrive := 0
  slot := none
  task _ := .idle
  reader := .idle
  returned := []

variable [DecidableEq T] (s : MediaSys I T) (t : T)

def setPc (pc : MediaPc) : MediaSys I T := { s with task := Function.update s.task t pc }

def setDrive (d : ℕ) (v : Vfloppy) : MediaSys I T :=
  { s with drives := Function.update s.drives d v }

def setHandle (h : ℕ) (x : Option (Handle I)) : MediaSys I T :=
  { s with handles := Function.update s.handles h x }

/-- The end of `fs->close`. -/
def closeHandle (h : ℕ) : MediaSys I T :=
  s.setHandle h ((s.handles h).map fun x => { x with closes := x.closes + 1 })

/-! ## Creating, changing and deleting -/

/-- `create_vfloppy`, with or without an image. -/
def createVfloppy (arg : Bool) : MediaSys I T :=
  let d := s.nextDrive
  let s := { s with nextDrive := d + 1, slot := some d }.setDrive d .zero
  if arg then s.setPc t (.opening (some d)) else s

/-- The end of `change_vfloppy`, with a new image. -/
def insertFile (flop f : ℕ) (size : ULong) : MediaSys I T :=
  (s.setDrive flop { s.drives flop with
    file := some f, sectorsPerTrack := size / (512 * 160), lastStat := 0
    gotDisk := true, isFile := true }).setPc t .idle

/-- `change_vfloppy` after `fs->open`, with the image and its size if it could be opened. -/
def fileOpened (flop : Option ℕ) : Option (I × ULong) → MediaSys I T
  | none =>
    match flop with
    | none => s.setPc t .idle
    | some d => (s.setDrive d { s.drives d with gotDisk := false }).setPc t .idle
  | some (image, size) =>
    let f := s.nextHandle
    let s := { s with nextHandle := f + 1 }.setHandle f (some ⟨image, 0, 0⟩)
    match flop with
    | none => s.setPc t .idle
    | some d =>
      match (s.drives d).file with
      | some old => s.setPc t (.swapping d f size old)
      | none => s.insertFile t d f size

/-- `kill_vfloppy`. -/
def killVfloppy : MediaSys I T :=
  match s.slot with
  | none => s
  | some d =>
    match (s.drives d).file with
    | none => s
    | some old => s.setPc t (.killing d old)

/-- `delete_vfloppy`. There is nothing to do for `fs->close(NULL)`. -/
def deleteVfloppy : MediaSys I T :=
  match s.slot with
  | none => s
  | some d =>
    let s := { s with slot := none }
    match (s.drives d).isFile, (s.drives d).file with
    | true, some old => s.setPc t (.deleting d old)
    | _, _ => s

/-- `fs->close` returns. -/
def fileClosed : MediaPc → MediaSys I T
  | .swapping flop f size old => (s.closeHandle old).insertFile t flop f size
  | .killing flop old =>
    ((s.closeHandle old).setDrive flop { s.drives flop with file := none }).setPc t .idle
  | .deleting _ old => (s.closeHandle old).setPc t .idle
  | _ => s

/-! ## Reading -/

def setLastStat (flop : ℕ) (stat : UShort) : MediaSys I T :=
  s.setDrive flop { s.drives flop with lastStat := stat }

/-- `vfloppy_read_sectors` returns. -/
def readReturns (r : ReadReturn I) : MediaSys I T :=
  { s with reader := .idle, returned := r :: s.returned }

/-- `blkno * 512`. -/
def startOf (v : Vfloppy) (r : ReadRequest) : ULong :=
  ((r.sector - 1) + r.head * v.sectorsPerTrack + r.track * 2 * v.sectorsPerTrack) * 512

/-- `vfloppy_read_sectors`, up to `fs->seek`. -/
def readSectors (r : ReadRequest) : MediaSys I T :=
  match s.slot with
  | none => s
  | some d =>
    if (s.drives d).gotDisk = false then s.setLastStat d 0x80
    else if r.head ≥ 2 ∨ r.track ≥ 80 ∨ r.sector - 1 ≥ (s.drives d).sectorsPerTrack then
      s.setLastStat d 0x04
    else { s with reader := .seeking d (s.drives d).file r.count (startOf (s.drives d) r) }

/-- The head of the loop of `vfloppy_read_sectors`: the next `fs->read`, or the end. -/
def readNext (flop count : ℕ) (start : ULong) (got : List (I × ULong)) : MediaSys I T :=
  if got.length < count then
    { s with reader := .reading flop (s.drives flop).file count start got }
  else (s.setLastStat flop 0).readReturns ⟨count, start, got.length, got⟩

/-- `fs->seek` returns. -/
def sought (flop : ℕ) (h : Option ℕ) (count : ℕ) (start : ULong) (ok : Bool) : MediaSys I T :=
  if ok then
    match h with
    | some h =>
      (s.setHandle h ((s.handles h).map fun x => { x with pos := start })).readNext flop count
        start []
    | none => s.readNext flop count start []
  else (s.setLastStat flop 0x04).readReturns ⟨count, start, 0, []⟩

/-- `fs->read` returns 512, or something else, and leaves the handle somewhere. -/
def blockRead (flop : ℕ) (h : Option ℕ) (count : ℕ) (start : ULong) (got : List (I × ULong))
    (ok : Bool) (pos : ULong) : MediaSys I T :=
  match h.bind s.handles, h with
  | some x, some h =>
    if ok then
      (s.setHandle h (some { x with pos := x.pos + 512 })).readNext flop count start
        (got ++ [(x.image, x.pos)])
    else ((s.setHandle h (some { x with pos })).setLastStat flop 0x0c).readReturns
      ⟨count, start, got.length, got⟩
  | _, _ => (s.setLastStat flop 0x0c).readReturns ⟨count, start, got.length, got⟩

end MediaSys

/-- What happens next, with the answers of the file system. -/
inductive MediaOp (I T : Type*) where
  | createVfloppy (t : T) (arg : Bool)
  | changeVfloppy (t : T)
  | fileOpened (t : T) (r : Option (I × ULong))
  | killVfloppy (t : T)
  | deleteVfloppy (t : T)
  | fileClosed (t : T)
  | readSectors (r : ReadRequest)
  | sought (ok : Bool)
  | blockRead (ok : Bool) (pos : ULong)

section Step

variable [DecidableEq T]

def mediaStep (s : MediaSys I T) : MediaOp I T → Option (MediaSys I T)
  | .createVfloppy t arg =>
    match s.task t with
    | .idle => some (s.createVfloppy t arg)
    | _ => none
  | .changeVfloppy t =>
    match s.task t with
    | .idle => some (s.setPc t (.opening s.slot))
    | _ => none
  | .fileOpened t r =>
    match s.task t with
    | .opening flop => some (s.fileOpened t flop r)
    | _ => none
  | .killVfloppy t =>
    match s.task t with
    | .idle => some (s.killVfloppy t)
    | _ => none
  | .deleteVfloppy t =>
    match s.task t with
    | .idle => some (s.deleteVfloppy t)
    | _ => none
  | .fileClosed t =>
    match s.task t with
    | .idle => none
    | .opening _ => none
    | pc => some (s.fileClosed t pc)
  | .readSectors r =>
    match s.reader with
    | .idle => some (s.readSectors r)
    | _ => none
  | .sought ok =>
    match s.reader with
    | .seeking flop h count start => some (s.sought flop h count start ok)
    | _ => none
  | .blockRead ok pos =>
    match s.reader with
    | .reading flop h count start got => some (s.blockRead flop h count start got ok pos)
    | _ => none

end Step

end Vmm386.VfloppyModule
