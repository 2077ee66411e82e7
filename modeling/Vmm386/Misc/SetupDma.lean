import Vmm386.Lib.Dma8237
import Vmm386.Types

/-!
# DMA programming

`setup_dma` of `kernel/misc/dma.c`, as the list of its `outb`s, on a pair of 8237 controllers. On
a word channel the offset is shifted within sixteen bits: bit 0 of the page is lost.
-/

namespace Vmm386.SetupDma

open Dma8237

abbrev DMA_READ : UChar := 0x48

abbrev DMA_WRITE : UChar := 0x44

/-- `struct DmaBuf`, without the address that is only printed. -/
structure DmaBuf where
  page : UChar
  offset : UShort
  len : UShort
  chan : UChar

/-- `struct dma_addr`. -/
structure DmaAddr where
  page : UShort
  address : UShort
  len : UShort

/-- `DmaPorts`. -/
def dmaPorts : List DmaAddr :=
  [
    ⟨0x87, 0x0, 0x1⟩,
    ⟨0x83, 0x2, 0x3⟩,
    ⟨0x81, 0x4, 0x5⟩,
    ⟨0x82, 0x6, 0x7⟩,
    ⟨0x8f, 0xc0, 0xc2⟩,
    ⟨0x8b, 0xc4, 0xc6⟩,
    ⟨0x89, 0xc8, 0xca⟩,
    ⟨0x8a, 0xcc, 0xce⟩
  ]

/-- `DmaPorts[Chan]`. -/
def dmaPort (chan : UChar) : DmaAddr := dmaPorts.getD chan.toNat ⟨0, 0, 0⟩

/-- `setup_dma`: the values and ports of the `outb`s. -/
def setupDma (dmaInfo : DmaBuf) (mode : UChar) : List (UChar × UShort) :=
  let chan := dmaInfo.chan
  let port := dmaPort chan
  -- a word transfer is shifted
  let offset := if chan < 4 then dmaInfo.offset else dmaInfo.offset >>> 1
  let len := if chan < 4 then dmaInfo.len else dmaInfo.len >>> 1
  let start : List (UChar × UShort) :=
    if chan < 4 then [(chan ||| 4, 0xa), (0, 0xc), (chan ||| mode, 0xb)]
    else [(chan, 0xd4), (0, 0xd8), ((chan &&& 3) ||| mode, 0xd6)]
  start ++ [
    (offset.truncate 8, port.address),
    ((offset >>> 8).truncate 8, port.address),
    (len.truncate 8, port.len),
    ((len >>> 8).truncate 8, port.len),
    (dmaInfo.page, port.page),
    if chan < 4 then (chan, 0xa) else (chan &&& 3, 0xd4)
  ]

/-- What a driver asks for: a buffer below 16M that stays in its window. -/
structure Request where
  chan : UChar
  mode : UChar
  addr : ℕ
  bytes : ℕ
  hchan : chan < 8 ∧ chan ≠ 4
  hmode : mode = DMA_READ ∨ mode = DMA_WRITE
  haddr : addr < 0x1000000
  hbytes : 0 < bytes
  hwindow :
    if chan < 4 then addr % 0x10000 + bytes ≤ 0x10000
    else addr % 0x20000 + bytes ≤ 0x20000 ∧ addr % 2 = 0 ∧ bytes % 2 = 0

namespace Request

/-- The arguments as the floppy driver computes them. -/
def dmaBuf (r : Request) : DmaBuf where
  page := BitVec.ofNat 8 (r.addr / 0x10000)
  offset := BitVec.ofNat 16 r.addr
  len := BitVec.ofNat 16 r.bytes - 1
  chan := r.chan

/-- Whatever the registers held, the channel transfers the buffer, in the given mode, and it is
masked from the first write to the last one. -/
def Programmed (r : Request) : Prop :=
  ∀ p : Pair,
    (p.outs (setupDma r.dmaBuf r.mode)).transfer r.chan.toNat = List.range' r.addr r.bytes ∧
    ((p.outs (setupDma r.dmaBuf r.mode)).chan r.chan.toNat).mode = r.mode ∧
    ((p.outs (setupDma r.dmaBuf r.mode)).chan r.chan.toNat).masked = false ∧
    ∀ k, 0 < k → k < (setupDma r.dmaBuf r.mode).length →
      ((p.outs ((setupDma r.dmaBuf r.mode).take k)).chan r.chan.toNat).masked = true

end Request

end Vmm386.SetupDma
