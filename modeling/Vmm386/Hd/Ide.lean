import Vmm386.Vide.Port

/-!
# The IDE driver

The requests of `drivers/physical/hd/ide.c`. What the drive shows in its status register is a
stream in the state, from which every `GET_STAT` takes one value. What is printed is left out,
and so are the two delays of a reset.

The functions call each other: `do_request` takes the number of calls of itself that may be
nested, and has no result when they do not suffice.
-/

namespace Vmm386.Ide

open Hd VideModule

abbrev MAX_RETRIES : UChar := 16

abbrev RESET_FREQ : UChar := 8

abbrev RECAL_FREQ : UChar := 4

abbrev HD_STAT_DRQ : UChar := 0x08

abbrev BAD_RW_STAT : UChar := HD_STAT_BSY ||| HD_STAT_ERR ||| HD_STAT_DWF

abbrev DRV_RDY_STAT : UChar := HD_STAT_DRDY ||| HD_STAT_DSC

abbrev DATA_RDY_STAT : UChar := DRV_RDY_STAT ||| HD_STAT_DRQ

/-- The pointer that stands in `current_req` while there is something to do for no request. -/
abbrev FAKE_REQ : ULong := 0x1DE01DE0

/-- `ide_dev_t`; its index in `ide_devs` is `drvno`. -/
structure IdeDev where
  hd : HdDev
  ctl : UChar
  select : UChar
  recalibrate : Bool

/-- `blkreq_t`, without its semaphore. -/
structure BlkReq where
  dev : Fin 2
  buf : ULong
  block : ULong
  nblocks : ULong
  command : ULong
  result : ℤ
  retries : UChar
  completed : Bool

/-- What both interrupt handlers do to a request when one of its sectors is done and there are
more. -/
def BlkReq.nextSector (r : BlkReq) : BlkReq :=
  { r with block := r.block + 1, nblocks := r.nblocks - 1, buf := r.buf + 512, retries := 0 }

/-- The functions that `ide_intr` points to. -/
inductive IntrFun where
  | readIntr
  | writeIntr
  | recalIntr
deriving DecidableEq

/-- What the driver does to the drives and to the tasks that wait for it. -/
inductive IdeEvent where
  | command (current nsector sector lcyl hcyl : UChar) (command : ULong)
  | recal (current : UChar)
  | reset
  | inSect (buf : ULong)
  | outSect (buf : ULong)
  | ended (p : ULong) (result : ℤ)
deriving DecidableEq

/-- The driver. `status` is what the drive will show in its status register, and `events` has
what was done, the last first. -/
structure IdeSys where
  devs : Fin 2 → IdeDev
  req : ULong → BlkReq
  ideReqs : List ULong
  current : Option ULong
  ideIntr : Option IntrFun
  resetPending : Bool
  status : ℕ → UChar
  events : List IdeEvent

/-! ## The status register -/

/-- `test_stat`. -/
def testStat (stat good bad : UChar) : Bool := stat &&& (good ||| bad) = good

/-- The values that follow the first `n`. -/
def later (n : ℕ) (status : ℕ → UChar) : ℕ → UChar := fun i => status (n + i)

/-- The loop of `wait_stat`: whether the drive was not busy within `retries` values, and the
values that follow. -/
def busyWait : ℕ → (ℕ → UChar) → Bool × (ℕ → UChar)
  | 0, status => (false, status)
  | retries + 1, status =>
    if status 0 &&& HD_STAT_BSY = 0 then (true, later 1 status)
    else busyWait retries (later 1 status)

/-- `wait_stat` up to its label `error`, and all of it when `from` is `NULL`. -/
def pollStat (good bad : UChar) (retries : ℕ) (status : ℕ → UChar) : Bool × (ℕ → UChar) :=
  let r := busyWait retries status
  if r.1 then (testStat (r.2 0) good bad, later 1 r.2) else r

namespace IdeSys

variable (s : IdeSys)

def setReq (p : ULong) (r : BlkReq) : IdeSys := { s with req := Function.update s.req p r }

def setRecalibrate (d : Fin 2) (recalibrate : Bool) : IdeSys :=
  { s with devs := Function.update s.devs d { s.devs d with recalibrate := recalibrate } }

def log (e : IdeEvent) : IdeSys := { s with events := e :: s.events }

/-- `append_node`, unless the request is `NULL`. -/
def append (req : Option ULong) : IdeSys := { s with ideReqs := s.ideReqs ++ req.toList }

/-- `GET_STAT`, for the state it leaves. The value is `s.status 0`. -/
def getStat : IdeSys := { s with status := later 1 s.status }

/-- `dump_stat`. -/
def dumpStat : IdeSys := s.getStat

/-- `end_request`. -/
def endRequest (result : ℤ) : IdeSys :=
  match s.current with
  | none => s
  | some p =>
    { (s.setReq p { s.req p with completed := true, result := result }).log (.ended p result) with
      current := none }

/-- `handle_error`. -/
def handleError : IdeSys :=
  match s.current with
  | none => s
  | some p =>
    let r := s.req p
    let s : IdeSys :=
      { s.dumpStat.setReq p { r with retries := r.retries + 1 } with ideIntr := none }
    if r.retries.slt MAX_RETRIES then
      let s := if (r.retries + 1).srem RESET_FREQ = 0 then { s with resetPending := true } else s
      let s := if (r.retries + 1).srem RECAL_FREQ = 0 then s.setRecalibrate r.dev true else s
      { s with ideReqs := p :: s.ideReqs, current := none }
    else ({ s with resetPending := true }.setRecalibrate r.dev true).endRequest (-1)

/-- `wait_stat` when `from` is not `NULL`, with the function that calls `do_request (NULL)`. -/
def waitStat (doReq : IdeSys → Option IdeSys) (good bad : UChar) (retries : ℕ) :
    Option (Bool × IdeSys) :=
  let r := pollStat good bad retries s.status
  let s := { s with status := r.2 }
  if r.1 then some (true, s) else (doReq s.handleError).map fun s => (false, s)

/-- `recalibrate_drive`. -/
def recalibrateDrive (doReq : IdeSys → Option IdeSys) (d : Fin 2) : Option IdeSys :=
  (s.waitStat doReq HD_STAT_DRDY (HD_STAT_BSY ||| HD_STAT_DRQ) 100000).map fun r =>
    if r.1 then
      { (r.2.setRecalibrate d false).log (.recal (s.devs d).select) with
        ideIntr := some .recalIntr, current := some FAKE_REQ }
    else r.2

/-- `reset_controller`. The error register is only printed. -/
def resetController : IdeSys :=
  let r := pollStat DRV_RDY_STAT HD_STAT_BSY 500000 s.status
  let s := { s with status := r.2, resetPending := false }.log .reset
  let s := if r.1 then s else s.dumpStat
  { s with current := none }

/-- The registers that `do_request` writes for a request, with its command. -/
def taskFile (r : BlkReq) : IdeEvent :=
  let dev := s.devs r.dev
  let track := r.block / dev.hd.sectors
  let sect := r.block % dev.hd.sectors + 1
  let head := track % dev.hd.heads
  let cyl := track / dev.hd.heads
  .command (dev.select ||| head.setWidth 8) (r.nblocks.setWidth 8) (sect.setWidth 8)
    (cyl.setWidth 8) ((cyl >>> 8).setWidth 8) r.command

/-- `do_request` once `current_req` is the request `p`. Where the source has `goto top`, the
function is called again. -/
def serve (doReq : IdeSys → Option IdeSys) (p : ULong) : Option IdeSys :=
  let r := s.req p
  if r.block ≥ (s.devs r.dev).hd.totalBlocks then doReq (s.endRequest (-1))
  else
    (s.waitStat doReq HD_STAT_DRDY (HD_STAT_BSY ||| HD_STAT_DRQ) 100000).bind fun a =>
      if a.1 then
        if r.command = HD_CMD_READ then
          some { a.2.log (s.taskFile r) with ideIntr := some .readIntr }
        else if r.command = HD_CMD_WRITE then
          let s' := { a.2.log (s.taskFile r) with ideIntr := some .writeIntr }
          (s'.waitStat doReq HD_STAT_DRQ BAD_RW_STAT 100000).map fun b =>
            if b.1 then b.2.log (.outSect r.buf) else b.2
        else doReq (a.2.endRequest (-1))
      else some a.2

/-- `do_request`, with less than `depth` calls of it under this one. The calls that stand for
`goto top` are counted too. -/
def doRequest : ℕ → Option ULong → IdeSys → Option IdeSys
  | 0, _, _ => none
  | depth + 1, req, s =>
    if s.current ≠ none then some (s.append req)
    else
      let s := if s.resetPending then s.resetController else s
      if (s.devs 0).recalibrate then
        (s.recalibrateDrive (doRequest depth none) 0).map (append · req)
      else if (s.devs 1).recalibrate then
        (s.recalibrateDrive (doRequest depth none) 1).map (append · req)
      else
        match req, s.ideReqs with
        | none, [] => some s
        | none, p :: reqs =>
          serve { s with ideReqs := reqs, current := some p } (doRequest depth none) p
        | some p, _ => serve { s with current := some p } (doRequest depth none) p

/-! ## Interrupts -/

/-- `read_intr`. -/
def readIntr (depth : ℕ) : Option IdeSys :=
  match s.current with
  | none => some s
  | some p =>
    if testStat (s.status 0) DATA_RDY_STAT BAD_RW_STAT = false then
      doRequest depth none s.getStat.handleError
    else
      let s := s.getStat.log (.inSect (s.req p).buf)
      if (1 : ULong).slt (s.req p).nblocks then
        some { s.setReq p (s.req p).nextSector with ideIntr := some .readIntr }
      else doRequest depth none (s.endRequest 0)

/-- `write_intr`. -/
def writeIntr (depth : ℕ) : Option IdeSys :=
  match s.current with
  | none => some s
  | some p =>
    if testStat (s.status 0) DRV_RDY_STAT BAD_RW_STAT = false then
      doRequest depth none s.getStat.handleError
    else
      let s := s.getStat
      if (1 : ULong).slt (s.req p).nblocks then
        let r := (s.req p).nextSector
        ((s.setReq p r).waitStat (doRequest depth none) HD_STAT_DRQ BAD_RW_STAT 100000).map
          fun a => if a.1 then { a.2.log (.outSect r.buf) with ideIntr := some .writeIntr } else a.2
      else doRequest depth none (s.endRequest 0)

/-- `recal_intr`. Its test of the status is only printed. -/
def recalIntr (depth : ℕ) : Option IdeSys :=
  doRequest depth none { s.getStat with current := none }.dumpStat

/-- `ide_int_handler`. -/
def ideIntHandler (depth : ℕ) : Option IdeSys :=
  match s.ideIntr with
  | none => some s
  | some .readIntr => readIntr { s with ideIntr := none } depth
  | some .writeIntr => writeIntr { s with ideIntr := none } depth
  | some .recalIntr => recalIntr { s with ideIntr := none } depth

end IdeSys

/-! ## Calls of the driver -/

/-- A call of `do_request`, or of the interrupt handler. -/
inductive IdeCall where
  | request (req : Option ULong)
  | interrupt

/-- The request that a call is made with. -/
def IdeCall.req : IdeCall → Option ULong
  | .request req => req
  | .interrupt => none

/-- A call, with the number of calls of `do_request` that may be nested. -/
def IdeSys.call (s : IdeSys) (depth : ℕ) : IdeCall → Option IdeSys
  | .request req => s.doRequest depth req
  | .interrupt => s.ideIntHandler depth

/-- The first part of `sync_request`: the request is made. -/
def IdeSys.syncRequest (s : IdeSys) (depth : ℕ) (p : ULong) (r : BlkReq) : Option IdeSys :=
  (s.setReq p { r with completed := false, retries := 0 }).doRequest depth (some p)

end Vmm386.Ide
