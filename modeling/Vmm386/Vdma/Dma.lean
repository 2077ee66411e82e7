import Vmm386.Types

/-!
# The virtual DMA controllers

`vdma_in` and `vdma_out` of `drivers/virtual/vdma/vdma.c`. An address and a count have sixteen
bits and a port of eight: a toggle of each tells which half of it is next.
-/

namespace Vmm386.VdmaModule

@[match_pattern] abbrev CHAN0_ADDR : ℕ := 0
@[match_pattern] abbrev CHAN0_COUNT : ℕ := 1
@[match_pattern] abbrev CHAN1_ADDR : ℕ := 2
@[match_pattern] abbrev CHAN1_COUNT : ℕ := 3
@[match_pattern] abbrev CHAN2_ADDR : ℕ := 4
@[match_pattern] abbrev CHAN2_COUNT : ℕ := 5
@[match_pattern] abbrev CHAN3_ADDR : ℕ := 6
@[match_pattern] abbrev CHAN3_COUNT : ℕ := 7
@[match_pattern] abbrev STSCMD : ℕ := 8
@[match_pattern] abbrev REQUEST : ℕ := 9
@[match_pattern] abbrev CHANMASK : ℕ := 10
@[match_pattern] abbrev DMAMODE : ℕ := 11
@[match_pattern] abbrev CLEAR_FLIPFLOP : ℕ := 12
@[match_pattern] abbrev MASTER_TEMP : ℕ := 13
@[match_pattern] abbrev CLEAR_MASK : ℕ := 14
@[match_pattern] abbrev MULTIMASK : ℕ := 15

abbrev DMA0_HI : UShort := 0x0f
abbrev DMA1_LOW : UShort := 0xc0

/-- `struct dma_chan`. -/
@[ext] structure DmaChan where
  page : UChar
  address : UShort
  len : UShort
  addrL : Bool
  lenL : Bool
deriving DecidableEq

/-- `struct dma_ctrl`. -/
structure DmaCtrl where
  chan : Fin 4 → DmaChan
  stscmd : UChar
  req : UChar
  mask : UChar
  mode : UChar
  clrFf : UChar
  temp : UChar
  clrMask : UChar
  multiReg : UChar

/-- `struct vdma`. -/
structure Vdma where
  dmac : Fin 2 → DmaCtrl

/-- What a read of a register with the toggle `low` returns. -/
def byteOf (low : Bool) (reg : UShort) : ULong :=
  if low then (reg &&& 0xff).setWidth 32 else ((reg >>> 8) &&& 0xff).setWidth 32

/-- What a register with the toggle `low` holds after a write. -/
def setByte (low : Bool) (reg : UShort) (val : ULong) : UShort :=
  if low then (reg &&& 0xff00) ||| (val &&& 0xff).setWidth 16
  else (reg &&& 0x00ff) ||| ((val <<< 8) &&& 0xff00).setWidth 16

namespace DmaChan

variable (c : DmaChan)

/-- `case CHANn_ADDR` of `vdma_in`. -/
def inAddr : ULong × DmaChan := (byteOf c.addrL c.address, { c with addrL := !c.addrL })

/-- `case CHANn_COUNT` of `vdma_in`. -/
def inCount : ULong × DmaChan := (byteOf c.lenL c.len, { c with lenL := !c.lenL })

/-- `case CHANn_ADDR` of `vdma_out`. -/
def outAddr (val : ULong) : DmaChan :=
  { c with addrL := !c.addrL, address := setByte c.addrL c.address val }

/-- `case CHANn_COUNT` of `vdma_out`. -/
def outCount (val : ULong) : DmaChan :=
  { c with lenL := !c.lenL, len := setByte c.lenL c.len val }

end DmaChan

namespace DmaCtrl

variable (dma : DmaCtrl)

/-- A read that one channel answers. -/
def inChan (n : Fin 4) (read : DmaChan → ULong × DmaChan) : ULong × DmaCtrl :=
  ((read (dma.chan n)).1, { dma with chan := Function.update dma.chan n (read (dma.chan n)).2 })

/-- A write to one channel. -/
def outChan (n : Fin 4) (write : DmaChan → DmaChan) : DmaCtrl :=
  { dma with chan := Function.update dma.chan n (write (dma.chan n)) }

/-- The second `switch` of `vdma_in`. -/
def inReg (port : ℕ) : ULong × DmaCtrl :=
  match port with
  | CHAN0_ADDR => dma.inChan 0 DmaChan.inAddr
  | CHAN0_COUNT => dma.inChan 0 DmaChan.inCount
  | CHAN1_ADDR => dma.inChan 1 DmaChan.inAddr
  | CHAN1_COUNT => dma.inChan 1 DmaChan.inCount
  | CHAN2_ADDR => dma.inChan 2 DmaChan.inAddr
  | CHAN2_COUNT => dma.inChan 2 DmaChan.inCount
  | CHAN3_ADDR => dma.inChan 3 DmaChan.inAddr
  | CHAN3_COUNT => dma.inChan 3 DmaChan.inCount
  | STSCMD => (dma.stscmd.setWidth 32, dma)
  | REQUEST => (dma.req.setWidth 32, dma)
  | CHANMASK => (dma.mask.setWidth 32, dma)
  | DMAMODE => (dma.mode.setWidth 32, dma)
  | CLEAR_FLIPFLOP => (dma.clrFf.setWidth 32, dma)
  | MASTER_TEMP => (dma.temp.setWidth 32, dma)
  | CLEAR_MASK => (dma.clrMask.setWidth 32, dma)
  | MULTIMASK => (dma.multiReg.setWidth 32, dma)
  | _ => (-1, dma)

/-- The second `switch` of `vdma_out`. -/
def outReg (port : ℕ) (val : ULong) : DmaCtrl :=
  match port with
  | CHAN0_ADDR => dma.outChan 0 (·.outAddr val)
  | CHAN0_COUNT => dma.outChan 0 (·.outCount val)
  | CHAN1_ADDR => dma.outChan 1 (·.outAddr val)
  | CHAN1_COUNT => dma.outChan 1 (·.outCount val)
  | CHAN2_ADDR => dma.outChan 2 (·.outAddr val)
  | CHAN2_COUNT => dma.outChan 2 (·.outCount val)
  | CHAN3_ADDR => dma.outChan 3 (·.outAddr val)
  | CHAN3_COUNT => dma.outChan 3 (·.outCount val)
  | STSCMD => { dma with stscmd := val.setWidth 8 }
  | REQUEST => { dma with req := val.setWidth 8 }
  | CHANMASK => { dma with mask := val.setWidth 8 }
  | DMAMODE => { dma with mode := val.setWidth 8 }
  | CLEAR_FLIPFLOP => { dma with clrFf := val.setWidth 8 }
  | MASTER_TEMP => { dma with temp := val.setWidth 8 }
  | CLEAR_MASK => { dma with clrMask := val.setWidth 8 }
  | MULTIMASK => { dma with multiReg := val.setWidth 8 }
  | _ => dma

/-- A page register is written. -/
def setPage (n : Fin 4) (val : ULong) : DmaCtrl :=
  dma.outChan n fun c => { c with page := val.setWidth 8 }

end DmaCtrl

/-- The controller and the channel of a page port. -/
def pagePort (port : ℕ) : Option (Fin 2 × Fin 4) :=
  match port with
  | 0x81 => some (0, 0)
  | 0x82 => some (0, 1)
  | 0x83 => some (0, 2)
  | 0x87 => some (0, 3)
  | 0x89 => some (1, 0)
  | 0x8a => some (1, 1)
  | 0x8b => some (1, 2)
  | 0x8f => some (1, 3)
  | _ => none

namespace Vdma

variable (v : Vdma)

/-- `kernel->calloc`, as `create_vdma` leaves it. -/
def created : Vdma where
  dmac _ :=
    { chan := fun _ => ⟨0, 0, 0, false, false⟩
      stscmd := 0, req := 0, mask := 0, mode := 0, clrFf := 0, temp := 0, clrMask := 0
      multiReg := 0 }

/-- One controller answers a read. -/
def inCtrl (c : Fin 2) (port : ℕ) : ULong × Vdma :=
  (((v.dmac c).inReg port).1, ⟨Function.update v.dmac c ((v.dmac c).inReg port).2⟩)

/-- One controller is changed. -/
def outCtrl (c : Fin 2) (write : DmaCtrl → DmaCtrl) : Vdma :=
  ⟨Function.update v.dmac c (write (v.dmac c))⟩

/-- `vdma_in`. The `size` of an access is not looked at. -/
def vdmaIn (port : UShort) : ULong × Vdma :=
  if port ≤ DMA0_HI then v.inCtrl 0 port.toNat
  else if DMA1_LOW ≤ port then v.inCtrl 1 ((port - 0xc0) >>> 1).toNat
  else
    match pagePort port.toNat with
    | some (c, n) => (((v.dmac c).chan n).page.setWidth 32, v)
    | none => (-1, v)

/-- `vdma_out`. -/
def vdmaOut (port : UShort) (val : ULong) : Vdma :=
  if port ≤ DMA0_HI then v.outCtrl 0 (·.outReg port.toNat val)
  else if DMA1_LOW ≤ port then v.outCtrl 1 (·.outReg ((port - 0xc0) >>> 1).toNat val)
  else
    match pagePort port.toNat with
    | some (c, n) => v.outCtrl c (·.setPage n val)
    | none => v

end Vdma

/-- An instruction of the guest that accesses a port. -/
inductive PortAccess where
  | read (port : UShort)
  | write (port : UShort) (val : ULong)
deriving DecidableEq

namespace PortAccess

/-- The port of an access. -/
def port : PortAccess → UShort
  | read p => p
  | write p _ => p

/-- What an access leaves of the controllers. -/
def apply (v : Vdma) : PortAccess → Vdma
  | read p => (v.vdmaIn p).2
  | write p val => v.vdmaOut p val

end PortAccess

/-- The controllers after some accesses. -/
def Vdma.after (accesses : List PortAccess) : Vdma := accesses.foldl PortAccess.apply .created

end Vmm386.VdmaModule
