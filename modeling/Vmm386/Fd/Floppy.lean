import Vmm386.Types

/-!
# The floppy driver

The requests of `drivers/physical/fd/floppy.c` with the parts of `drivers/physical/fd/fdc.c` that
they use. The controller's answers to a seek and to the command that reads an ID are a stream in
the state, the results of a read come with its interrupt. What is printed is left out, and so are
the motor and the set-up of the DMA.
-/

namespace Vmm386.Fd

abbrev FD_SECTSIZ : ULong := 512

abbrev FD_CMD_TIMER : ULong := 1

abbrev FD_CMD_READ : ULong := 2

abbrev FD_CMD_WRITE : ULong := 3

abbrev FD_CMD_SEEK : ULong := 4

abbrev MAX_RETRIES : UChar := 1

abbrev RECAL_FREQ : UChar := 16

/-- Bytes of the track buffer: 10 pages. -/
abbrev TRACKBUF_SIZE : ℕ := 40960

abbrev ST0_DS : UChar := 0x03

abbrev ST0_INTR : UChar := 0xc0

/-- `fd_dev_t` with the `struct disk_params` that is used; its index in `fd_devs` is `drvno`. -/
structure FdDev where
  sectors : ULong
  heads : ULong
  totalBlocks : ULong
  recalibrate : Bool

/-- `blkreq_t`. -/
structure BlkReq where
  dev : Fin 2
  buf : ULong
  block : ULong
  nblocks : ULong
  command : ULong
  result : ℤ
  retries : UChar
  completed : Bool

/-- The driver. `intr` says that `fd_intr` is `read_intr`, `reading` is what the last `fdc_read` has
asked for, and `ended` has the requests whose tasks were signalled, the last first. -/
structure FdSys where
  devs : Fin 2 → FdDev
  req : ULong → BlkReq
  queue : List ULong
  current : Option ULong
  intr : Bool
  reading : Option (Fin 2 × ULong)
  trackBuf : ℕ → UChar
  mem : ULong → UChar
  answers : ℕ → Bool
  ended : List (ULong × ℤ)

/-- The loop of `read_intr` that copies `count` bytes. -/
def copyBytes (trackBuf : ℕ → UChar) : ℕ → ULong → ℕ → (ULong → UChar) → ULong → UChar
  | 0, _, _, mem => mem
  | count + 1, d, src, mem =>
    copyBytes trackBuf count (d + 1) (src + 1) (Function.update mem d (trackBuf src))

namespace FdSys

variable (s : FdSys)

def setReq (p : ULong) (r : BlkReq) : FdSys := { s with req := Function.update s.req p r }

def setRecalibrate (d : Fin 2) (recalibrate : Bool) : FdSys :=
  { s with devs := Function.update s.devs d { s.devs d with recalibrate := recalibrate } }

/-- `append_node`, unless the request is `NULL`. -/
def append (req : Option ULong) : FdSys := { s with queue := s.queue ++ req.toList }

/-- `end_request`. -/
def endRequest (result : ℤ) : FdSys :=
  match s.current with
  | none => s
  | some p =>
    { s.setReq p { s.req p with completed := true, result := result } with
      current := none
      ended := (p, result) :: s.ended }

/-- What the controller answers to a command. -/
def answer : Bool × FdSys := (s.answers 0, { s with answers := fun n => s.answers (n + 1) })

/-- `fdc_sense`: it returns `TRUE`. -/
def fdcSense : FdSys := { s with intr := false }

/-- `fdc_recal`: what it returns is what `fdc_sense` does. -/
def fdcRecal (d : Fin 2) : FdSys := (s.setRecalibrate d false).fdcSense

/-- `fdc_seek`. -/
def fdcSeek (d : Fin 2) (cyl : ULong) : Bool × FdSys :=
  if cyl = 0 then (true, s.fdcRecal d)
  else
    let r := s.answer
    let s := r.2.fdcSense
    (r.1, if r.1 then s else s.setRecalibrate d true)

/-- `fdc_read_id`. -/
def fdcReadId (d : Fin 2) : Bool × FdSys :=
  let r := s.answer
  let s : FdSys := { r.2 with intr := false }
  (r.1, if r.1 then s else s.setRecalibrate d true)

/-- `fdc_read`: it returns `TRUE`. -/
def fdcRead (d : Fin 2) (cyl : ULong) : FdSys := { s with intr := true, reading := some (d, cyl) }

/-- `handle_error`. -/
def handleError : FdSys :=
  match s.current with
  | none => s
  | some p =>
    let r := s.req p
    let s : FdSys := { s.setReq p { r with retries := r.retries + 1 } with intr := false }
    if r.retries.slt MAX_RETRIES then
      let s := if (r.retries + 1).srem RECAL_FREQ = 0 then s.setRecalibrate r.dev true else s
      { s with queue := p :: s.queue, current := none }
    else (s.setRecalibrate r.dev true).endRequest (-1)

/-- The seek, the sense and the reading of an ID that `do_request` begins with. -/
def position (d : Fin 2) (cyl : ULong) : Bool × FdSys :=
  let r := s.fdcSeek d cyl
  if r.1 then r.2.fdcSense.fdcReadId d else r

/-- The cylinder of a block. -/
def cylinder (d : Fin 2) (block : ULong) : ULong :=
  block / (s.devs d).sectors / (s.devs d).heads

/-- `do_request` from `top` on, with the request `p` as the current one: whether it goes to `top`
again, and with which request. -/
def serve (p : ULong) : Option (Option ULong) × FdSys :=
  let r := s.req p
  if r.command = FD_CMD_SEEK then
    let a := s.position r.dev r.block
    if a.1 then (some none, a.2.endRequest 0) else (some (some p), a.2.handleError)
  else if r.command = FD_CMD_TIMER then (some none, s.endRequest 0)
  else if (s.devs r.dev).totalBlocks ≤ r.block then (some none, s.endRequest (-1))
  else if r.command = FD_CMD_READ then
    let cyl := s.cylinder r.dev r.block
    let a := s.position r.dev cyl
    if a.1 then (none, a.2.fdcRead r.dev cyl) else (some (some p), a.2.handleError)
  else if r.command = FD_CMD_WRITE then (some none, s.endRequest 0)
  else (some none, s.endRequest (-1))

/-- `do_request`, with `fuel` rounds at most. -/
def doRequest : ℕ → Option ULong → FdSys → Option FdSys
  | 0, _, _ => none
  | fuel + 1, req, s =>
    if s.current ≠ none then some (s.append req)
    else if (s.devs 0).recalibrate then some ((s.fdcRecal 0).append req)
    else if (s.devs 1).recalibrate then some ((s.fdcRecal 1).append req)
    else
      match req, s.queue with
      | none, [] => some s
      | none, p :: queue =>
        let r := serve { s with queue := queue, current := some p } p
        match r.1 with
        | none => some r.2
        | some req => doRequest fuel req r.2
      | some p, _ =>
        let r := serve { s with current := some p } p
        match r.1 with
        | none => some r.2
        | some req => doRequest fuel req r.2

/-- `read_intr`, for the first of the result bytes. -/
def readIntr (fuel : ℕ) (st0 : UChar) : Option FdSys :=
  match s.current with
  | none => some s
  | some p =>
    -- `from_fdc[0] & ST0_INTR != 0`
    if st0 &&& (if ST0_INTR ≠ 0 then 1 else 0) ≠ 0 then s.handleError.doRequest fuel none
    else
      let r := s.req p
      let dev := s.devs r.dev
      let track := r.block / dev.sectors
      let sect := r.block % dev.sectors
      let head := track % dev.heads
      let start := sect + head * dev.sectors
      let count := if r.nblocks > dev.sectors - sect then dev.sectors - sect else r.nblocks
      let mem := copyBytes s.trackBuf (count * FD_SECTSIZ).toNat r.buf (start * FD_SECTSIZ).toNat
        s.mem
      let r := { r with
        buf := r.buf + count * FD_SECTSIZ
        block := r.block + count
        nblocks := r.nblocks - count }
      let s : FdSys := { s.setReq p r with mem := mem }
      if r.nblocks = 0 then (s.endRequest 0).doRequest fuel none
      else { s with queue := p :: s.queue, current := none }.doRequest fuel none

end FdSys

/-- What happens to the driver. -/
inductive FdOp where
  /-- A task makes a request. -/
  | request (p : ULong) (r : BlkReq)
  /-- The controller has read a cylinder into the track buffer. -/
  | interrupt (st0 : UChar) (track : ℕ → UChar)

/-- A step. -/
def fdStep (fuel : ℕ) (s : FdSys) : FdOp → Option FdSys
  | .request p r => (s.setReq p { r with retries := 0, completed := false }).doRequest fuel (some p)
  | .interrupt st0 track =>
    -- `fd_int_handler`
    if s.intr then { s with intr := false, trackBuf := track }.readIntr fuel st0
    else some { s with trackBuf := track }

end Vmm386.Fd
