import Vmm386.Lib.Runs
import Vmm386.Types

/-!
# The ramdisk

`do_request` of `drivers/physical/ramdisk/ramdisk.c`, with the functions of `vmm/blkdev.h` that it
uses and the entry points for tasks and for the file system. A request is served by a `memcpy`
between a buffer and the memory of the disk.
-/

namespace Vmm386.Ramdisk

open Runs

abbrev RD_CMD_READ : ULong := 1
abbrev RD_CMD_WRITE : ULong := 2

/-- `FS_BLKSIZ`. -/
abbrev FS_BLKSIZ : ULong := 1024

/-- `rd_dev_t`. -/
structure RdDev where
  drvno : ℕ
  totalBlocks : ULong
deriving DecidableEq

/-- `blkreq_t`. `nblocks` and `command` are signed in the source. -/
structure BlkReq where
  dev : RdDev
  buf : ULong
  block : ULong
  nblocks : ULong
  command : ULong
deriving DecidableEq

/-- A `memcpy` of `n` bytes between `buf` and `dev->ram + offset`. -/
structure Memcpy where
  toRam : Bool
  buf : ULong
  offset : ULong
  n : ULong
deriving DecidableEq

namespace BlkReq

variable (req : BlkReq)

/-- `req->block * FS_BLKSIZ/2`: an unsigned product and quotient. -/
def ramOffset : ULong := req.block * FS_BLKSIZ / 2

/-- `req->nblocks * FS_BLKSIZ/2`: the same in signed integers. -/
def copyLength : ULong := (req.nblocks * FS_BLKSIZ).sdiv 2

/-- What `do_request` does with the request it has taken: the argument of `end_request`, and the
copy before it. -/
def serve : ULong × Option Memcpy :=
  if req.dev.totalBlocks ≤ req.block then (-1, none)
  else if req.command = RD_CMD_READ then
    (0, some ⟨false, req.buf, req.ramOffset, req.copyLength⟩)
  else if req.command = RD_CMD_WRITE then
    (0, some ⟨true, req.buf, req.ramOffset, req.copyLength⟩)
  else (-1, none)

end BlkReq

/-! ## The requests of the driver -/

/-- A completed request. -/
structure Served where
  req : BlkReq
  result : ULong
  copy : Option Memcpy
deriving DecidableEq

/-- `current_req` and `rd_reqs`, the requests that were completed, and how many tasks are about to
go to `top` again. -/
structure RdSys where
  currentReq : Option BlkReq
  rdReqs : List BlkReq
  served : List Served
  atTop : ℕ

namespace RdSys

/-- After `ramdisk_init`. -/
def init : RdSys := ⟨none, [], [], 0⟩

variable (s : RdSys)

/-- `do_request` with a request, from `top` to the assignment of `current_req`. -/
def call (req : BlkReq) : RdSys :=
  if s.currentReq.isSome then { s with rdReqs := s.rdReqs ++ [req] }
  else { s with currentReq := some req }

/-- From there to the end of `end_request`. -/
def finish : Option RdSys :=
  s.currentReq.map fun req =>
    { s with
      currentReq := none
      served := s.served ++ [⟨req, req.serve.1, req.serve.2⟩]
      atTop := s.atTop + 1 }

/-- At `top` with no request: the task takes one from the queue, or it returns. -/
def again : Option RdSys :=
  match s.atTop with
  | 0 => none
  | n + 1 =>
    some <|
      if s.currentReq.isSome then { s with atTop := n }
      else
        match s.rdReqs with
        | [] => { s with atTop := n }
        | req :: rdReqs => { s with currentReq := some req, rdReqs := rdReqs, atTop := n }

end RdSys

/-- The sections of `do_request` that nothing interrupts, in the order in which the tasks get to
them. -/
inductive RdStep where
  | call (req : BlkReq)
  | finish
  | again
deriving DecidableEq

/-- One section of `do_request`. -/
def rdStep (s : RdSys) : RdStep → Option RdSys
  | .call req => some (s.call req)
  | .finish => s.finish
  | .again => s.again

/-! ## Entry points -/

/-- `ramdisk_read_blocks` and `ramdisk_write_blocks`, up to `sync_request`. -/
def blocksReq (rd : RdDev) (command buf block count : ULong) : BlkReq :=
  { dev := rd, buf := buf, block := block, nblocks := count, command := command }

/-- `ramdisk_fs_read_blocks` and `ramdisk_fs_write_blocks`: the same in blocks of the file
system. -/
def fsBlocksReq (rd : RdDev) (command block buf count : ULong) : BlkReq :=
  blocksReq rd command buf (block * (FS_BLKSIZ / 512)) (count * (FS_BLKSIZ / 512))

end Vmm386.Ramdisk
